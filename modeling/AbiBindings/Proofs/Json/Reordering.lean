import AbiBindings.Proofs.Json.Distinct

/-!
Values whose objects have their fields in another order. As long as no key comes twice, the value
under a key is the same again but for the order of fields in it, and so are the items of an array,
which keep their places.
-/

namespace AbiBindings.Json

/-- The second value is the first with the fields of objects in some order, at any depth. -/
inductive Reordered : Json → Json → Prop
  | null : Reordered null null
  | bool (value : Bool) : Reordered (bool value) (bool value)
  | int (value : Int) : Reordered (int value) (int value)
  | float (value : Binary64) : Reordered (float value) (float value)
  | str (value : Text) : Reordered (str value) (str value)
  | arr {items items' : List Json} : List.Forall₂ Reordered items items' →
      Reordered (arr items) (arr items')
  | obj {fields kept fields' : List (Text × Json)} : kept.map Prod.fst = fields.map Prod.fst →
      List.Forall₂ (fun field field' => Reordered field.2 field'.2) fields kept →
      kept.Perm fields' → Reordered (obj fields) (obj fields')

/-- Two fields have one key, and the value of the second is that of the first, reordered. -/
def FieldReordered (field field' : Text × Json) : Prop :=
  field'.1 = field.1 ∧ Reordered field.2 field'.2

section

variable {fields kept fields' : List (Text × Json)}

theorem forall₂_fieldReordered (hkeys : kept.map Prod.fst = fields.map Prod.fst)
    (h : List.Forall₂ (fun field field' => Reordered field.2 field'.2) fields kept) :
    List.Forall₂ FieldReordered fields kept := by
  induction h with
  | nil => exact .nil
  | cons hvalue _ ih =>
    obtain ⟨hkey, hrest⟩ := List.cons.inj hkeys
    exact .cons ⟨hkey, hvalue⟩ (ih hrest)

theorem lookup_of_forall₂ (h : List.Forall₂ FieldReordered fields kept) (key : Text) :
    Option.Rel Reordered (lookup fields key) (lookup kept key) := by
  induction h with
  | nil => exact .none
  | @cons field field' _ _ hfield _ ih =>
    obtain ⟨k, v⟩ := field
    obtain ⟨k', v'⟩ := field'
    obtain ⟨rfl, hvalue⟩ := hfield
    rw [lookup, lookup]
    split
    · exact .some hvalue
    · exact ih

/-- Fields that have their keys in one order, each once, are the same if they are the same up to
order. -/
theorem eq_of_perm_of_keys (hperm : kept.Perm fields')
    (hkeys : kept.map Prod.fst = fields'.map Prod.fst) (h : (kept.map Prod.fst).Nodup) :
    kept = fields' := by
  have hread (all : List (Text × Json)) (hall : (all.map Prod.fst).Nodup) :
      all.map (fun field => (field.1, some field.2)) =
        (all.map Prod.fst).map fun key => (key, lookup all key) := by
    rw [List.map_map]
    refine List.map_congr_left fun field hfield => ?_
    rw [Function.comp_apply, (lookup_eq_some hall).mpr hfield]
  have hsame : kept.map (fun field => (field.1, some field.2)) =
      fields'.map fun field => (field.1, some field.2) := by
    rw [hread kept h, hread fields' (hkeys ▸ h), hkeys]
    exact List.map_congr_left fun key _ => by rw [lookup_perm hperm h]
  apply List.map_injective_iff.mpr _ hsame
  rintro ⟨k, v⟩ ⟨k', v'⟩ heq
  simpa using heq

end

namespace Reordered

variable {value value' : Json} {fields fields' : List (Text × Json)}

theorem refl (value : Json) : Reordered value value := by
  induction value using Json.induct with
  | null => exact .null
  | bool value => exact .bool value
  | int value => exact .int value
  | float value => exact .float value
  | str value => exact .str value
  | arr items ih => exact .arr (List.forall₂_same.mpr ih)
  | obj fields ih => exact .obj rfl (List.forall₂_same.mpr ih) (.refl fields)

theorem of_perm (h : fields.Perm fields') : Reordered (.obj fields) (.obj fields') :=
  .obj rfl (List.forall₂_same.mpr fun field _ => refl field.2) h

/-- Reordered objects have the same keys, and each value is reordered. -/
theorem exists_kept (h : Reordered (.obj fields) (.obj fields')) :
    ∃ kept, List.Forall₂ FieldReordered fields kept ∧ kept.map Prod.fst = fields.map Prod.fst ∧
      kept.Perm fields' := by
  cases h with
  | obj hkeys hkept hperm => exact ⟨_, forall₂_fieldReordered hkeys hkept, hkeys, hperm⟩

/-- Every field of the second object is one of the first, with the value reordered. -/
theorem exists_field (h : Reordered (.obj fields) (.obj fields')) {field' : Text × Json}
    (hmem : field' ∈ fields') : ∃ field ∈ fields, FieldReordered field field' := by
  obtain ⟨kept, hkept, -, hperm⟩ := h.exists_kept
  exact Outcome.exists_of_forall₂ hkept (hperm.mem_iff.mpr hmem)

/-- What stands under a key is the same but for the order of fields. -/
theorem field (h : Reordered value value') (hdistinct : value.Distinct) (key : Text) :
    Option.Rel Reordered (value.field? key) (value'.field? key) := by
  cases h with
  | obj hkeys hkept hperm =>
    have hnodup := hkeys ▸ (distinct_obj.mp hdistinct).1
    have hlookup := lookup_of_forall₂ (forall₂_fieldReordered hkeys hkept) key
    rw [lookup_perm hperm hnodup] at hlookup
    exact hlookup
  | _ => exact .none

/-- Under a key there is nothing in either value, or there are two that are reordered. -/
@[elab_as_elim] theorem field_cases (h : Reordered value value') (hdistinct : value.Distinct)
    (key : Text) {motive : Option Json → Option Json → Prop} (none : motive none none)
    (some : ∀ {found found' : Json}, found.Distinct → Reordered found found' →
      motive (some found) (some found')) : motive (value.field? key) (value'.field? key) := by
  have hfield := h.field hdistinct key
  cases hfound : value.field? key with
  | none =>
    rw [hfound] at hfield
    generalize value'.field? key = found' at hfield ⊢
    cases hfield
    exact none
  | some found =>
    have hinner := hdistinct.field hfound
    rw [hfound] at hfield
    generalize value'.field? key = found' at hfield ⊢
    cases hfield with
    | some hreordered => exact some hinner hreordered

theorem fieldOrNull (h : Reordered value value') (hdistinct : value.Distinct) (key : Text) :
    Reordered ((value.field? key).getD .null) ((value'.field? key).getD .null) :=
  h.field_cases hdistinct key .null fun _ hreordered => hreordered

/-- Where the keys of an object keep their order, its values are reordered in their places. -/
theorem forall₂_of_keys (h : Reordered (.obj fields) (.obj fields'))
    (hdistinct : (fields.map Prod.fst).Nodup)
    (hkeys : fields'.map Prod.fst = fields.map Prod.fst) :
    List.Forall₂ FieldReordered fields fields' := by
  obtain ⟨kept, hkept, hsame, hperm⟩ := h.exists_kept
  rwa [eq_of_perm_of_keys hperm (hsame.trans hkeys.symm) (hsame ▸ hdistinct)] at hkept

theorem isSet_eq (h : Reordered value value') : value'.isSet = value.isSet := by
  cases h with
  | arr hitems => cases hitems <;> rfl
  | obj _ hkept hperm =>
    cases hkept with
    | nil => rw [hperm.nil_eq]
    | cons _ _ =>
      have hne := hperm.symm.length_eq
      rw [List.length_cons] at hne
      rw [isSet, isSet, List.isEmpty_eq_false_iff.mpr (List.length_pos_iff.mp (by omega))]
      rfl
  | _ => rfl

end Reordered

end AbiBindings.Json
