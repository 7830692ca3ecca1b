import AbiBindings.Text.Basic
import AbiBindings.Text.Printable

/-!
Quoted literals, as generated sources and messages show a text. A literal stands between two equal
quote marks on one line, and every code point that is not printable is written as an escape, so
the literal ends where it should whatever the text holds.
-/

namespace AbiBindings.Text

def singleQuote : CodePoint := ⟨39, by decide⟩

def doubleQuote : CodePoint := ⟨34, by decide⟩

def backslash : CodePoint := ⟨92, by decide⟩

def quoteMark (t : Text) : CodePoint :=
  if t.contains singleQuote && !t.contains doubleQuote then doubleQuote else singleQuote

/-- One code point inside a literal with the given mark: the mark and the backslash after a
backslash, three controls by letter, other unprintable code points by number in two, four or eight
hexadecimal digits. -/
def escapeIn (mark c : CodePoint) : Text :=
  if c = backslash ∨ c = mark then [backslash, c]
  else if c = '\t' then "\\t"
  else if c = '\n' then "\\n"
  else if c = '\r' then "\\r"
  else if c.isPrintable then [c]
  else if c.val ≤ 0xFF then "\\x" ++ ofHex 2 c.val
  else if c.val ≤ 0xFFFF then "\\u" ++ ofHex 4 c.val
  else "\\U" ++ ofHex 8 c.val

/-- What stands between the marks of a literal. -/
def quotedBody (t : Text) : Text := t.flatMap (escapeIn (quoteMark t))

def quoted (t : Text) : Text := quoteMark t :: quotedBody t ++ [quoteMark t]

end AbiBindings.Text
