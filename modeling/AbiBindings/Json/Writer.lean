import AbiBindings.Decimal.Shortest
import AbiBindings.Json.Basic

/-!
Writing a JSON value as text. Keys are sorted by code point, so one value has one text in each
style; only the quote, the backslash and the control characters below `U+0020` are escaped, and
every other code point stands as it is.
-/

namespace AbiBindings.Json

def escapeOne (c : CodePoint) : Text :=
  if c = '"' then "\\\""
  else if c = '\\' then "\\\\"
  else if c = '\n' then "\\n"
  else if c = '\r' then "\\r"
  else if c = '\t' then "\\t"
  else if c.val = 8 then "\\b"
  else if c.val = 12 then "\\f"
  else if c.val < 0x20 then "\\u" ++ Text.ofHex 4 c.val
  else [c]

def writeText (t : Text) : Text := "\"" ++ t.flatMap escapeOne ++ "\""

/-- Where line breaks go: nowhere, or before every item, with a number of spaces for each level
(a number below one counts as none). -/
inductive Style where
  | compact
  | indented (width : Int)
deriving DecidableEq, Repr

namespace Style

/-- What stands before an item at a level of nesting. -/
def lineBreak (style : Style) (level : Nat) : Text :=
  match style with
  | compact => []
  | indented width => '\n' :: Text.spaces (width * level).toNat

/-- What stands between a key and its value. -/
def colon : Style → Text
  | compact => ":"
  | indented _ => ": "

end Style

/-- Written parts between two brackets, each on its own line in an indented style; an empty list
stays on one line. -/
def enclose (style : Style) (level : Nat) (opening closing : Text) (parts : List Text) : Text :=
  if parts.isEmpty then opening ++ closing
  else
    opening ++ style.lineBreak (level + 1) ++
      Text.join ("," ++ style.lineBreak (level + 1)) parts ++ style.lineBreak level ++ closing

mutual

def writeAt (style : Style) (level : Nat) : Json → Text
  | null => "null"
  | bool value => if value then "true" else "false"
  | int value => Text.ofInt value
  | float .nan => "NaN"
  | float (.infinite negative) => if negative then "-Infinity" else "Infinity"
  | float value => value.toText
  | str value => writeText value
  | arr items => enclose style level "[" "]" (writeItems style (level + 1) items)
  | obj fields =>
    enclose style level "\x7b" "\x7d"
      ((Text.sortByKey Prod.fst (writeFields style (level + 1) fields)).map fun part =>
        writeText part.1 ++ style.colon ++ part.2)

def writeItems (style : Style) (level : Nat) : List Json → List Text
  | [] => []
  | item :: rest => writeAt style level item :: writeItems style level rest

def writeFields (style : Style) (level : Nat) : List (Text × Json) → List (Text × Text)
  | [] => []
  | (key, value) :: rest => (key, writeAt style level value) :: writeFields style level rest

end

def write (style : Style) (json : Json) : Text := writeAt style 0 json

end AbiBindings.Json
