import AbiBindings.Json.Display
import AbiBindings.Proofs.Json.Distinct
import Mathlib.Algebra.Group.Int.Defs

/-!
Which values can be shown in a message: exactly those without an integer of too many digits, at any
depth. A value that was read is one of them.
-/

namespace AbiBindings.Json

inductive HasInteger (n : Int) : Json → Prop
  | int : HasInteger n (.int n)
  | item {items : List Json} {item : Json} : item ∈ items → HasInteger n item →
      HasInteger n (.arr items)
  | field {fields : List (Text × Json)} {field : Text × Json} : field ∈ fields →
      HasInteger n field.2 → HasInteger n (.obj fields)

/-- Somewhere in the value stands an integer with more digits than can be shown. -/
def HasLongInteger (value : Json) : Prop :=
  ∃ n, value.HasInteger n ∧ digitLimit < (Text.ofNat n.natAbs).length

theorem hasLongInteger_int {n : Int} :
    (int n).HasLongInteger ↔ digitLimit < (Text.ofNat n.natAbs).length := by
  constructor
  · rintro ⟨_, ⟨⟩, hlong⟩
    exact hlong
  · exact fun hlong => ⟨n, .int, hlong⟩

theorem hasLongInteger_pow {k : Nat} (h : digitLimit ≤ k) : (int (10 ^ k)).HasLongInteger := by
  have habs : ((10 : Int) ^ k).natAbs = 10 ^ k := Int.natAbs_pow 10 k
  rw [hasLongInteger_int, habs, Text.length_ofNat_pow]
  exact Nat.lt_succ_of_le h

theorem not_hasLongInteger_str (text : Text) : ¬ (str text).HasLongInteger := by
  rintro ⟨_, ⟨⟩, _⟩

theorem hasLongInteger_arr {items : List Json} :
    (arr items).HasLongInteger ↔ ∃ item ∈ items, item.HasLongInteger := by
  constructor
  · rintro ⟨n, hn, hlong⟩
    cases hn with
    | item hitem hn => exact ⟨_, hitem, n, hn, hlong⟩
  · rintro ⟨item, hitem, n, hn, hlong⟩
    exact ⟨n, .item hitem hn, hlong⟩

theorem hasLongInteger_obj {fields : List (Text × Json)} :
    (obj fields).HasLongInteger ↔ ∃ field ∈ fields, field.2.HasLongInteger := by
  constructor
  · rintro ⟨n, hn, hlong⟩
    cases hn with
    | field hfield hn => exact ⟨_, hfield, n, hn, hlong⟩
  · rintro ⟨field, hfield, n, hn, hlong⟩
    exact ⟨n, .field hfield hn, hlong⟩

theorem HasLongInteger.field {json value : Json} {key : Text}
    (hvalue : json.field? key = some value) (h : value.HasLongInteger) : json.HasLongInteger := by
  cases json with
  | obj fields => exact hasLongInteger_obj.mpr ⟨_, mem_of_lookup hvalue, h⟩
  | _ => cases hvalue

theorem displayItems?_eq_none {items : List Json} :
    displayItems? items = none ↔ ∃ item ∈ items, item.display? = none := by
  induction items with
  | nil => simp [displayItems?]
  | cons item rest ih =>
    rw [displayItems?, List.exists_mem_cons_iff, ← ih]
    cases item.display? with
    | none => simp
    | some shown => cases displayItems? rest <;> simp

theorem displayFields?_eq_none {fields : List (Text × Json)} :
    displayFields? fields = none ↔ ∃ field ∈ fields, field.2.display? = none := by
  induction fields with
  | nil => simp [displayFields?]
  | cons field rest ih =>
    obtain ⟨key, value⟩ := field
    rw [displayFields?, List.exists_mem_cons_iff, ← ih]
    cases value.display? with
    | none => simp
    | some shown => cases displayFields? rest <;> simp

theorem display?_eq_none {value : Json} : value.display? = none ↔ value.HasLongInteger := by
  induction value using induct with
  | int n =>
    rw [display?, hasLongInteger_int]
    split <;> simp_all
  | arr items ih =>
    rw [display?, Option.map_eq_none_iff, displayItems?_eq_none, hasLongInteger_arr]
    exact exists_congr fun item => and_congr_right fun hitem => ih item hitem
  | obj fields ih =>
    rw [display?, Option.map_eq_none_iff, displayFields?_eq_none, hasLongInteger_obj]
    exact exists_congr fun field => and_congr_right fun hfield => ih field hfield
  | _ =>
    refine iff_of_false (by simp [display?]) ?_
    rintro ⟨_, ⟨⟩, _⟩

/-- Reading keeps to the limit. -/
theorem not_hasLongInteger_of_read {t : Text} {value : Json} (h : read t = .ok value) :
    ¬ value.HasLongInteger :=
  Hereditary.of_read (P := fun value => ¬ value.HasLongInteger)
    { null := by rintro ⟨_, ⟨⟩, _⟩
      bool := by rintro _ ⟨_, ⟨⟩, _⟩
      int := fun value hfits => by simpa [hasLongInteger_int] using hfits digitLimit rfl
      float := by rintro _ ⟨_, ⟨⟩, _⟩
      str := by rintro _ ⟨_, ⟨⟩, _⟩
      arr := fun items hitems => by simpa [hasLongInteger_arr] using hitems
      obj := fun fields _ hfields => by simpa [hasLongInteger_obj] using hfields } h

end AbiBindings.Json
