import AbiBindings.Proofs.Json.Reading

/-!
Keys of objects that were read. A key that comes again replaces the value it had, so no object in a
value that was read has a key twice.
-/

namespace AbiBindings.Json

/-- No object has a key twice. -/
inductive Distinct : Json → Prop where
  | null : Distinct .null
  | bool (value : Bool) : Distinct (.bool value)
  | int (value : Int) : Distinct (.int value)
  | float (value : Binary64) : Distinct (.float value)
  | str (value : Text) : Distinct (.str value)
  | arr {items : List Json} : (∀ item ∈ items, Distinct item) → Distinct (.arr items)
  | obj {fields : List (Text × Json)} : (fields.map Prod.fst).Nodup →
      (∀ field ∈ fields, Distinct field.2) → Distinct (.obj fields)

@[simp] theorem distinct_null : null.Distinct := .null

@[simp] theorem distinct_str (value : Text) : (str value).Distinct := .str value

@[simp] theorem distinct_arr {items : List Json} :
    (arr items).Distinct ↔ ∀ item ∈ items, item.Distinct := by
  constructor
  · intro h
    cases h with
    | arr hitems => exact hitems
  · exact .arr

@[simp] theorem distinct_obj {fields : List (Text × Json)} :
    (obj fields).Distinct ↔
      (fields.map Prod.fst).Nodup ∧ ∀ field ∈ fields, field.2.Distinct := by
  constructor
  · intro h
    cases h with
    | obj hkeys hfields => exact ⟨hkeys, hfields⟩
  · exact fun h => .obj h.1 h.2

/-- What stands under a key has no key twice either. -/
theorem Distinct.field {json value : Json} (h : json.Distinct) {key : Text}
    (hvalue : json.field? key = some value) : value.Distinct := by
  cases json with
  | obj fields => exact (distinct_obj.mp h).2 _ (mem_of_lookup hvalue)
  | _ => cases hvalue

theorem Distinct.fieldOrNull {json : Json} (h : json.Distinct) (key : Text) :
    ((json.field? key).getD .null).Distinct := by
  cases hfound : json.field? key with
  | none => exact .null
  | some value => exact h.field hfound

/-- No object in a value that was read has a key twice. -/
theorem distinct_of_read {t : Text} {json : Json} (h : read t = .ok json) : json.Distinct :=
  Hereditary.of_read
    { null := .null
      bool := .bool
      int := fun value _ => .int value
      float := .float
      str := .str
      arr := fun _ => .arr
      obj := fun _ => .obj } h

end AbiBindings.Json
