import AbiBindings.Schema.Basic

/-!
Which of several violations is reported. Near the document wins over deep inside it, and among
equally near ones a later place over an earlier one; a refusal of all alternatives gives way to
a plain breach, and a breach where the kind of value fits to one where it does not. A refusal of
all alternatives is then replaced by what is wrong with one of them, if one stands out: there the
deepest breach counts, as the alternative that came closest.
-/

namespace AbiBindings.Violation

def isRefusalOfAll (v : Violation) : Bool :=
  match v.breach with
  | .noAlternative _ => true
  | _ => false

/-- The order of relevance near the document, the more relevant one being greater. -/
def order (v w : Violation) : Ordering :=
  (compare w.location.length v.location.length).then <|
    (v.location.order w.location).then <|
      (compare (!v.isRefusalOfAll) (!w.isRefusalOfAll)).then <|
        compare (!v.kindFits) (!w.kindFits)

def greatest? : List Violation → Option Violation
  | [] => none
  | v :: rest =>
    match greatest? rest with
    | none => some v
    | some w => if v.order w = .lt then some w else some v

/-- The first of the least violations, each paired with what it stands for, provided that no other
one is as small. -/
def soleLeast? (entries : List (Violation × Violation)) : Option (Violation × Violation) :=
  entries.find? fun entry =>
    (entries.filter fun other => other.1.order entry.1 != .gt).length == 1

mutual

/-- The violation that stands for a given one: itself, or what is wrong with the alternative that
stands out. -/
def refined : Violation → Violation
  | ⟨location, breach, kindFits, alternatives⟩ =>
    match soleLeast? (refinedEach alternatives) with
    | some (_, chosen) => { chosen with location := location ++ chosen.location }
    | none => ⟨location, breach, kindFits, alternatives⟩

def refinedEach : List Violation → List (Violation × Violation)
  | [] => []
  | v :: rest => (v, refined v) :: refinedEach rest

end

def mostRelevant? (violations : List Violation) : Option Violation :=
  (greatest? violations).map refined

end AbiBindings.Violation
