import AbiBindings.Text.Basic

/-!
Places inside a JSON document: the keys and indices that lead from the document to a value. The
written form puts indices in brackets and keys after dots, as in `abi[3].inputs[0].type`; the
document itself is `$`.
-/

namespace AbiBindings

inductive Step where
  | key (name : Text)
  | index (position : Nat)
deriving DecidableEq, Repr

/-- The steps from a document to a value in it, outermost first. -/
abbrev Location := List Step

namespace Step

/-- The order of steps: indices by number, keys by code point, indices before keys. -/
def order : Step → Step → Ordering
  | index i, index j => compare i j
  | index _, key _ => .lt
  | key _, index _ => .gt
  | key s, key t => if s = t then .eq else if Text.le s t then .lt else .gt

def writeAfter (before : Text) : Step → Text
  | index position => before ++ "[" ++ Text.ofNat position ++ "]"
  | key name => if before.isEmpty then name else before ++ "." ++ name

end Step

namespace Location

/-- The order of locations, step by step, a proper beginning before the longer one. -/
def order : Location → Location → Ordering
  | [], [] => .eq
  | [], _ :: _ => .lt
  | _ :: _, [] => .gt
  | s :: rest, t :: rest' => (s.order t).then (order rest rest')

def write (location : Location) : Text :=
  let written := location.foldl Step.writeAfter []
  if written.isEmpty then "$" else written

end Location

end AbiBindings
