import AbiBindings.Decimal.Binary64
import AbiBindings.Text.Basic

/-!
JSON values. Integers are unbounded and apart from floating-point numbers, text may hold lone
surrogates, and the fields of an object keep the order in which their keys first occurred.
`Json.put` is how objects grow: a repeated key keeps its place and takes the last value, so an
object built by it never has a key twice.
-/

namespace AbiBindings

inductive Json where
  | null
  | bool (value : Bool)
  | int (value : Int)
  | float (value : Binary64)
  | str (value : Text)
  | arr (items : List Json)
  | obj (fields : List (Text × Json))

namespace Json

instance : Inhabited Json := ⟨null⟩

/-- The greatest number of digits of an integer that is read or shown in decimal. -/
def digitLimit : Nat := 4300

def lookup {α : Type} (fields : List (Text × α)) (key : Text) : Option α :=
  match fields with
  | [] => none
  | (k, value) :: rest => if k = key then some value else lookup rest key

/-- Sets a key: in place if it occurs, and otherwise at the end. -/
def put {α : Type} (fields : List (Text × α)) (key : Text) (value : α) : List (Text × α) :=
  match fields with
  | [] => [(key, value)]
  | (k, old) :: rest => if k = key then (k, value) :: rest else (k, old) :: put rest key value

/-- The fields that a list of keys and values sets, one after the other. -/
def putAll {α : Type} (fields : List (Text × α)) (new : List (Text × α)) : List (Text × α) :=
  new.foldl (fun all field => put all field.1 field.2) fields

/-- The field of an object, if the value is an object that has it. -/
def field? (json : Json) (key : Text) : Option Json :=
  match json with
  | obj fields => lookup fields key
  | _ => none

def text? : Json → Option Text
  | str value => some value
  | _ => none

def items? : Json → Option (List Json)
  | arr items => some items
  | _ => none

def fields? : Json → Option (List (Text × Json))
  | obj fields => some fields
  | _ => none

def isSet : Json → Bool
  | null => false
  | bool value => value
  | int value => value != 0
  | float value => !value.isZero
  | str value => !value.isEmpty
  | arr items => !items.isEmpty
  | obj fields => !fields.isEmpty

theorem lookup_nil {α : Type} (key : Text) : lookup ([] : List (Text × α)) key = none := rfl

theorem lookup_cons_self {α : Type} (key : Text) (value : α) (rest : List (Text × α)) :
    lookup ((key, value) :: rest) key = some value := by simp [lookup]

/-- After a key is set, looking it up gives the value set. -/
theorem lookup_put_self {α : Type} (fields : List (Text × α)) (key : Text) (value : α) :
    lookup (put fields key value) key = some value := by
  induction fields with
  | nil => simp [put, lookup]
  | cons field rest ih =>
    obtain ⟨k, old⟩ := field
    by_cases h : k = key <;> simp [put, lookup, h, ih]

end Json

end AbiBindings
