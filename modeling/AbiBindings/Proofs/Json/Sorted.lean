import AbiBindings.Json.Writer
import AbiBindings.Proofs.Text.Order
import Mathlib.Data.List.Forall2
import Mathlib.Data.List.Nodup

/-!
JSON values as maps. Two values are alike if they differ only in the order in which fields stand.
Sorting the fields of every object keeps a value alike, as long as no object has a key twice.
-/

namespace AbiBindings

namespace Json

section

variable {α β : Type}

/-- If no key comes twice, looking a key up finds exactly the fields there are. -/
theorem lookup_eq_some {fields : List (Text × α)} (h : (fields.map Prod.fst).Nodup) {key : Text}
    {value : α} : lookup fields key = some value ↔ (key, value) ∈ fields := by
  induction fields with
  | nil => simp [lookup]
  | cons field rest ih =>
    obtain ⟨k, v⟩ := field
    rw [List.map_cons, List.nodup_cons] at h
    rw [lookup, List.mem_cons, Prod.mk.injEq]
    by_cases hk : k = key
    · subst hk
      have habsent : (k, value) ∉ rest := fun hmem =>
        h.1 (List.mem_map.mpr ⟨_, hmem, rfl⟩)
      simp [habsent, eq_comm]
    · rw [if_neg hk, ih h.2]
      simp [Ne.symm hk]

/-- Whatever is found under a key is a field. -/
theorem mem_of_lookup {fields : List (Text × α)} {key : Text} {value : α}
    (h : lookup fields key = some value) : (key, value) ∈ fields := by
  induction fields with
  | nil => cases h
  | cons field rest ih =>
    obtain ⟨k, v⟩ := field
    rw [lookup] at h
    split at h
    · next hkey =>
      cases h
      rw [hkey]
      exact List.mem_cons_self
    · exact List.mem_cons_of_mem _ (ih h)

theorem lookup_eq_none {fields : List (Text × α)} {key : Text} :
    lookup fields key = none ↔ key ∉ fields.map Prod.fst := by
  induction fields with
  | nil => simp [lookup]
  | cons field rest ih =>
    obtain ⟨k, v⟩ := field
    rw [lookup, List.map_cons, List.mem_cons, not_or, ← ih]
    split
    · next hkey => simp [hkey]
    · next hkey => simp [Ne.symm hkey]

theorem lookup_perm {fields fields' : List (Text × α)} (hperm : fields.Perm fields')
    (h : (fields.map Prod.fst).Nodup) (key : Text) : lookup fields key = lookup fields' key := by
  have h' : (fields'.map Prod.fst).Nodup := (hperm.map Prod.fst).nodup_iff.mp h
  apply Option.ext
  intro value
  rw [lookup_eq_some h, lookup_eq_some h', hperm.mem_iff]

theorem lookup_append (fields more : List (Text × α)) (key : Text) :
    lookup (fields ++ more) key = (lookup fields key).or (lookup more key) := by
  induction fields with
  | nil => rfl
  | cons field rest ih =>
    obtain ⟨k, v⟩ := field
    rw [List.cons_append, lookup, lookup, ih]
    split <;> rfl

theorem lookup_map (f : α → β) (fields : List (Text × α)) (key : Text) :
    lookup (fields.map fun field => (field.1, f field.2)) key = (lookup fields key).map f := by
  induction fields with
  | nil => rfl
  | cons field rest ih =>
    rw [List.map_cons, lookup, lookup, ih]
    split <;> rfl

theorem put_of_not_mem {fields : List (Text × α)} {key : Text} (h : key ∉ fields.map Prod.fst)
    (value : α) : put fields key value = fields ++ [(key, value)] := by
  induction fields with
  | nil => rfl
  | cons field rest ih =>
    rw [List.map_cons, List.mem_cons, not_or] at h
    rw [put, if_neg (Ne.symm h.1), ih h.2, List.cons_append]

/-- Distinct keys that are set one after the other stand in this order. -/
theorem putAll_of_nodup {fields new : List (Text × α)}
    (h : ((fields ++ new).map Prod.fst).Nodup) : putAll fields new = fields ++ new := by
  induction new generalizing fields with
  | nil => rw [List.append_nil]; rfl
  | cons field rest ih =>
    have hmap : (fields ++ field :: rest).map Prod.fst =
        fields.map Prod.fst ++ field.1 :: rest.map Prod.fst := by
      rw [List.map_append, List.map_cons]
    have habsent : field.1 ∉ fields.map Prod.fst := by
      rw [hmap, List.nodup_append] at h
      exact fun hmem => h.2.2 _ hmem _ List.mem_cons_self rfl
    have hput : put fields field.1 field.2 = fields ++ [field] := put_of_not_mem habsent field.2
    have happend : fields ++ [field] ++ rest = fields ++ field :: rest := by simp
    rw [putAll, List.foldl_cons, ← putAll, hput, ih (by rwa [happend]), happend]

end

mutual

/-- Induction on values: a list or an object has a property if everything in it has it. -/
@[elab_as_elim] theorem induct {motive : Json → Prop} (null : motive .null)
    (bool : ∀ value, motive (.bool value)) (int : ∀ value, motive (.int value))
    (float : ∀ value, motive (.float value)) (str : ∀ value, motive (.str value))
    (arr : ∀ items, (∀ item ∈ items, motive item) → motive (.arr items))
    (obj : ∀ fields : List (Text × Json), (∀ field ∈ fields, motive field.2) →
      motive (.obj fields)) : ∀ json, motive json
  | .null => null
  | .bool value => bool value
  | .int value => int value
  | .float value => float value
  | .str value => str value
  | .arr items => arr items (inductItems null bool int float str arr obj items)
  | .obj fields => obj fields (inductFields null bool int float str arr obj fields)

theorem inductItems {motive : Json → Prop} (null : motive .null)
    (bool : ∀ value, motive (.bool value)) (int : ∀ value, motive (.int value))
    (float : ∀ value, motive (.float value)) (str : ∀ value, motive (.str value))
    (arr : ∀ items, (∀ item ∈ items, motive item) → motive (.arr items))
    (obj : ∀ fields : List (Text × Json), (∀ field ∈ fields, motive field.2) →
      motive (.obj fields)) : ∀ items : List Json, ∀ item ∈ items, motive item
  | [], _, hmem => absurd hmem List.not_mem_nil
  | first :: rest, item, hmem => by
    rcases List.mem_cons.mp hmem with heq | hrest
    · rw [heq]
      exact induct null bool int float str arr obj first
    · exact inductItems null bool int float str arr obj rest item hrest

theorem inductFields {motive : Json → Prop} (null : motive .null)
    (bool : ∀ value, motive (.bool value)) (int : ∀ value, motive (.int value))
    (float : ∀ value, motive (.float value)) (str : ∀ value, motive (.str value))
    (arr : ∀ items, (∀ item ∈ items, motive item) → motive (.arr items))
    (obj : ∀ fields : List (Text × Json), (∀ field ∈ fields, motive field.2) →
      motive (.obj fields)) : ∀ fields : List (Text × Json), ∀ field ∈ fields, motive field.2
  | [], _, hmem => absurd hmem List.not_mem_nil
  | (key, value) :: rest, field, hmem => by
    rcases List.mem_cons.mp hmem with heq | hrest
    · rw [heq]
      exact induct null bool int float str arr obj value
    · exact inductFields null bool int float str arr obj rest field hrest

end

mutual

/-- The value with the fields of every object in the order of their keys. -/
def sorted : Json → Json
  | arr items => arr (sortedItems items)
  | obj fields => obj (Text.sortByKey Prod.fst (sortedFields fields))
  | null => null
  | bool value => bool value
  | int value => int value
  | float value => float value
  | str value => str value

def sortedItems : List Json → List Json
  | [] => []
  | item :: rest => item.sorted :: sortedItems rest

def sortedFields : List (Text × Json) → List (Text × Json)
  | [] => []
  | (key, value) :: rest => (key, value.sorted) :: sortedFields rest

end

@[simp] theorem sorted_arr (items : List Json) : (arr items).sorted = arr (items.map sorted) := by
  rw [sorted]
  congr 1
  induction items with
  | nil => rfl
  | cons item rest ih => rw [sortedItems, ih, List.map_cons]

theorem sorted_obj (fields : List (Text × Json)) :
    (obj fields).sorted = obj ((Text.sortByKey Prod.fst fields).map fun field =>
      (field.1, field.2.sorted)) := by
  have hfields : sortedFields fields = fields.map fun field => (field.1, field.2.sorted) := by
    induction fields with
    | nil => rfl
    | cons field rest ih =>
      obtain ⟨key, value⟩ := field
      rw [sortedFields, ih, List.map_cons]
  rw [sorted, hfields]
  exact congrArg obj (Text.sortByKey_map (fun _ => rfl) fields)

mutual

/-- There is no floating-point number, and no object has a key twice; an integer has no more
digits than a limit allows. -/
def Plain (limit : Option Nat) : Json → Prop
  | int value => ∀ bound, limit = some bound → (Text.ofNat value.natAbs).length ≤ bound
  | float _ => False
  | arr items => PlainItems limit items
  | obj fields => (fields.map Prod.fst).Nodup ∧ PlainFields limit fields
  | null | bool _ | str _ => True

def PlainItems (limit : Option Nat) : List Json → Prop
  | [] => True
  | item :: rest => item.Plain limit ∧ PlainItems limit rest

def PlainFields (limit : Option Nat) : List (Text × Json) → Prop
  | [] => True
  | (_, value) :: rest => value.Plain limit ∧ PlainFields limit rest

end

section

variable {limit : Option Nat}

@[simp] theorem plain_null : null.Plain limit := trivial

@[simp] theorem plain_bool (value : Bool) : (bool value).Plain limit := trivial

@[simp] theorem plain_str (value : Text) : (str value).Plain limit := trivial

theorem plain_int {value : Int} : (int value).Plain limit ↔
    ∀ bound, limit = some bound → (Text.ofNat value.natAbs).length ≤ bound := Iff.rfl

@[simp] theorem plain_arr {items : List Json} :
    (arr items).Plain limit ↔ ∀ item ∈ items, item.Plain limit := by
  rw [Plain]
  induction items with
  | nil => simp [PlainItems]
  | cons item rest ih => rw [PlainItems, ih, List.forall_mem_cons]

@[simp] theorem plain_obj {fields : List (Text × Json)} :
    (obj fields).Plain limit ↔
      (fields.map Prod.fst).Nodup ∧ ∀ field ∈ fields, field.2.Plain limit := by
  have hfields : PlainFields limit fields ↔ ∀ field ∈ fields, field.2.Plain limit := by
    induction fields with
    | nil => simp [PlainFields]
    | cons field rest ih => rw [PlainFields, ih, List.forall_mem_cons]
  rw [Plain, hfields]

end

section

variable {limit : Option Nat} {json json' value value' : Json}

theorem field?_sorted (h : json.Plain limit) (key : Text) :
    json.sorted.field? key = (json.field? key).map sorted := by
  cases json with
  | obj fields =>
    rw [sorted_obj, field?, field?, lookup_map, ← lookup_perm
      (Text.perm_sortByKey Prod.fst fields).symm (plain_obj.mp h).1]
  | arr items =>
    rw [sorted_arr]
    rfl
  | _ => rfl

structure Matches (json json' : Json) : Prop where
  left : json.Plain none
  right : json'.Plain none
  sorted_eq : json.sorted = json'.sorted

/-- What stands under a key is the same once it is sorted, or is missing in both. -/
theorem Matches.field? (h : Matches json json') (key : Text) :
    (json.field? key).map sorted = (json'.field? key).map sorted := by
  rw [← field?_sorted h.left, ← field?_sorted h.right, h.sorted_eq]

theorem Matches.field (h : Matches json json') (key : Text) (hvalue : json.field? key = some value)
    (hvalue' : json'.field? key = some value') : value.sorted = value'.sorted := by
  have hfield := h.field? key
  rw [hvalue, hvalue'] at hfield
  exact Option.some.inj hfield

theorem Matches.text (h : Matches json json') (key : Text) {text text' : Text}
    (htext : json.field? key = some (.str text)) (htext' : json'.field? key = some (.str text')) :
    text = text' :=
  str.inj (h.field key htext htext')

/-- What can be read off each item of two lists that are sorted alike is the same in both. -/
theorem map_eq_of_sorted_map {α β : Type} {f : α → Json} {g : α → β} {xs ys : List α}
    (hread : ∀ x ∈ xs, ∀ y ∈ ys, (f x).sorted = (f y).sorted → g x = g y)
    (hsorted : (arr (xs.map f)).sorted = (arr (ys.map f)).sorted) : xs.map g = ys.map g := by
  rw [sorted_arr, sorted_arr, arr.injEq, List.map_map, List.map_map] at hsorted
  induction xs generalizing ys with
  | nil =>
    rw [List.map_eq_nil_iff.mp hsorted.symm]
  | cons x xs ih =>
    cases ys with
    | nil => cases hsorted
    | cons y ys =>
      rw [List.map_cons, List.map_cons, List.cons.injEq] at hsorted
      rw [List.map_cons, List.map_cons, hread x List.mem_cons_self y List.mem_cons_self hsorted.1,
        ih (fun x hx y hy => hread x (List.mem_cons_of_mem _ hx) y
          (List.mem_cons_of_mem _ hy)) hsorted.2]

/-- Lists that are sorted alike are the same if their items can be told apart. -/
theorem eq_of_sorted_map {α : Type} {f : α → Json} {xs ys : List α}
    (hinjective : ∀ x ∈ xs, ∀ y ∈ ys, (f x).sorted = (f y).sorted → x = y)
    (hsorted : (arr (xs.map f)).sorted = (arr (ys.map f)).sorted) : xs = ys := by
  simpa using map_eq_of_sorted_map (g := id) hinjective hsorted

end

/-- Two values are the same but for the order of fields. -/
inductive Alike : Json → Json → Prop
  | null : Alike null null
  | bool (value : Bool) : Alike (bool value) (bool value)
  | int (value : Int) : Alike (int value) (int value)
  | float (value : Binary64) : Alike (float value) (float value)
  | str (value : Text) : Alike (str value) (str value)
  | arr {items items' : List Json} : List.Forall₂ Alike items items' →
      Alike (arr items) (arr items')
  | obj {fields fields' : List (Text × Json)} :
      (∀ key, Option.Rel Alike (lookup fields key) (lookup fields' key)) →
      Alike (obj fields) (obj fields')

/-- The value with its fields sorted is the same as a map. -/
theorem alike_sorted {limit : Option Nat} {json : Json} (h : json.Plain limit) :
    json.Alike json.sorted := by
  induction json using Json.induct with
  | null => exact .null
  | bool value => exact .bool value
  | int value => exact .int value
  | float value => exact h.elim
  | str value => exact .str value
  | arr items ih =>
    rw [plain_arr] at h
    rw [sorted_arr]
    apply Alike.arr
    rw [List.forall₂_map_right_iff, List.forall₂_same]
    exact fun item hitem => ih item hitem (h item hitem)
  | obj fields ih =>
    obtain ⟨hdistinct, hfields⟩ := plain_obj.mp h
    rw [sorted_obj]
    apply Alike.obj
    intro key
    rw [lookup_map, ← lookup_perm (Text.perm_sortByKey Prod.fst fields).symm hdistinct]
    cases hvalue : lookup fields key with
    | none => exact .none
    | some value =>
      have hmem := (lookup_eq_some hdistinct).mp hvalue
      exact .some (ih _ hmem (hfields _ hmem))

end Json

end AbiBindings
