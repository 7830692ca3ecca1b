import AbiBindings.Text.CodePoint

/-!
Style sequences of terminals. A message that goes to a place that is no terminal is written without
them: each starts with an escape character and a bracket, goes on with digits, semicolons and
question marks, and ends with a letter. Anything else stays.
-/

namespace AbiBindings.CommandLine

/-- What may stand between the beginning of a style sequence and its letter. -/
def isStyleParameter (c : CodePoint) : Bool :=
  c.isDigit || c == (';' : CodePoint) || c == ('?' : CodePoint)

/-- The number of code points of the style sequence at the start of a text, if one is there. -/
def styleLength? (t : Text) : Option Nat :=
  match t with
  | escape :: bracket :: rest =>
    let parameters := rest.takeWhile isStyleParameter
    let ended := (rest.drop parameters.length).head?.any fun c => c.isUpper || c.isLower
    if escape.val == 0x1B && bracket == ('[' : CodePoint) && ended then
      some (parameters.length + 3)
    else none
  | _ => none

/-- The text without its style sequences, the first `skipped` code points being left out. -/
def dropStylesAfter : (skipped : Nat) → Text → Text
  | _, [] => []
  | skipped + 1, _ :: rest => dropStylesAfter skipped rest
  | 0, c :: rest =>
    match styleLength? (c :: rest) with
    | none => c :: dropStylesAfter 0 rest
    | some length => dropStylesAfter (length - 1) rest

def dropStyles (t : Text) : Text := dropStylesAfter 0 t

end AbiBindings.CommandLine
