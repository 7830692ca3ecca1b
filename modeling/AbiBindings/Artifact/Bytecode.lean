import AbiBindings.Fault

/-!
Creation bytecode: hexadecimal digits in which the addresses of libraries may still be open. An
open address is a placeholder of forty characters that starts and ends with two underscores and
takes the place of twenty bytes. The placeholders are collected with the byte offsets where the
address must go, and stay in the text.
-/

namespace AbiBindings

/-- A library whose address is open, and the byte offsets where it belongs. -/
structure LinkRef where
  placeholder : Text
  offsets : List Nat
deriving DecidableEq, Repr

namespace LinkRef

/-- The name of the library, or the hash that stands for it: the placeholder without the
underscores around it. -/
def library (ref : LinkRef) : Text := Text.trimUnderscores ref.placeholder

end LinkRef

/-- Creation bytecode: the digits after `0x`, placeholders in place, and the open libraries in the
order in which they first occur. -/
structure Bytecode where
  hex : Text
  linkRefs : List LinkRef
deriving DecidableEq, Repr

namespace Bytecode

def isLinked (code : Bytecode) : Bool := code.linkRefs.isEmpty

def placeholderLength : Nat := 40

/-- What stands before and at the end of every placeholder. -/
def marker : Text := "__"

def addSite (placeholder : Text) (offset : Nat) : List LinkRef → List LinkRef
  | [] => [⟨placeholder, [offset]⟩]
  | ref :: rest =>
    if ref.placeholder = placeholder then { ref with offsets := ref.offsets ++ [offset] } :: rest
    else ref :: addSite placeholder offset rest

def breakAtMarker : Text → Text × Option Text
  | [] => ([], none)
  | c :: rest =>
    if Text.startsWith (c :: rest) marker then ([], some (c :: rest))
    else
      let (before, found) := breakAtMarker rest
      (c :: before, found)

/-- Whether a stretch between placeholders is hexadecimal digits, but for one line end that may
follow them. -/
def isHexStretch (t : Text) : Bool :=
  (Text.dropLineEnd t).all CodePoint.isHexDigit

/-- Collects the placeholders of the digits from `position` on. Every placeholder takes forty
characters, so the length of the text bounds their number. -/
def collectSites : (count : Nat) → (position : Nat) → Text → List LinkRef →
    Except BytecodeFault (List LinkRef)
  | 0, _, t, refs => if isHexStretch t then .ok refs else .error .notHex
  | count + 1, position, t, refs =>
    let (stretch, found) := breakAtMarker t
    if !isHexStretch stretch then .error .notHex
    else
      match found with
      | none => .ok refs
      | some site =>
        let start := position + stretch.length
        let placeholder := site.take placeholderLength
        if placeholder.length ≠ placeholderLength ∨ ¬ marker.isSuffixOf placeholder then
          .error (.malformedPlaceholder start)
        else if start % 2 ≠ 0 then .error (.misalignedPlaceholder start)
        else
          collectSites count (start + placeholderLength) (site.drop placeholderLength)
            (addSite placeholder (start / 2) refs)

/-- The digits of a text without the blanks around it and without `0x` in front. -/
def digitsOf (raw : Text) : Text :=
  let trimmed := Text.trim raw
  if Text.startsWith trimmed "0x" || Text.startsWith trimmed "0X" then trimmed.drop 2 else trimmed

/-- Reads creation bytecode; a text without digits stands for none. -/
def ofText? (raw : Text) : Except BytecodeFault (Option Bytecode) :=
  let digits := digitsOf raw
  if digits.isEmpty then .ok none
  else do
    let refs ← collectSites digits.length 0 digits []
    if digits.length % 2 ≠ 0 then .error .oddLength
    else return some ⟨"0x" ++ digits, refs⟩

end Bytecode

end AbiBindings
