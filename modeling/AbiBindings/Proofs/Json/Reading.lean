import AbiBindings.Json.Reader
import AbiBindings.Proofs.Json.Sorted
import AbiBindings.Proofs.Outcome
import AbiBindings.Proofs.Text.Decimal
import AbiBindings.Proofs.Text.Run

/-!
What holds of every value that was read. The keys of its objects are distinct, since a key that
comes again replaces the value it had, and its integers have no more digits than the limit; so a
property that all such values get from their parts holds of whatever is read.
-/

namespace AbiBindings.Json

open Outcome

section

variable {α : Type} {fields : List (Text × α)} {key : Text} {value : α}

theorem keys_put (fields : List (Text × α)) (key : Text) (value : α) :
    (put fields key value).map Prod.fst =
      if key ∈ fields.map Prod.fst then fields.map Prod.fst
      else fields.map Prod.fst ++ [key] := by
  induction fields with
  | nil => rfl
  | cons field rest ih =>
    obtain ⟨k, old⟩ := field
    rw [put]
    by_cases hk : k = key
    · simp [hk]
    · rw [if_neg hk, List.map_cons, ih]
      simp only [List.map_cons, List.mem_cons, Ne.symm hk, false_or]
      split <;> rfl

theorem nodup_put (h : (fields.map Prod.fst).Nodup) (key : Text) (value : α) :
    ((put fields key value).map Prod.fst).Nodup := by
  rw [keys_put]
  split
  · exact h
  · next habsent =>
    rw [← List.concat_eq_append]
    exact h.concat habsent

theorem mem_put {field : Text × α} (h : field ∈ put fields key value) :
    field ∈ fields ∨ field = (key, value) := by
  induction fields with
  | nil => exact .inr (List.mem_singleton.mp h)
  | cons first rest ih =>
    obtain ⟨k, old⟩ := first
    rw [put] at h
    split at h
    · next hk =>
      rw [hk] at h
      rcases List.mem_cons.mp h with heq | hrest
      · exact .inr heq
      · exact .inl (List.mem_cons_of_mem _ hrest)
    · rcases List.mem_cons.mp h with heq | hrest
      · exact .inl (heq ▸ List.mem_cons_self)
      · exact (ih hrest).imp_left (List.mem_cons_of_mem _)

/-- However often a key is set, it comes once. -/
theorem nodup_putAll {new : List (Text × α)} (h : (fields.map Prod.fst).Nodup) :
    ((putAll fields new).map Prod.fst).Nodup := by
  induction new generalizing fields with
  | nil => exact h
  | cons field rest ih => exact ih (nodup_put h field.1 field.2)

/-- The keys after some are set are those that were there and those that were set. -/
theorem mem_keys_putAll {new : List (Text × α)} :
    key ∈ (putAll fields new).map Prod.fst ↔
      key ∈ fields.map Prod.fst ∨ key ∈ new.map Prod.fst := by
  induction new generalizing fields with
  | nil => simp [putAll]
  | cons field rest ih =>
    have hput : key ∈ (put fields field.1 field.2).map Prod.fst ↔
        key ∈ fields.map Prod.fst ∨ key = field.1 := by
      rw [keys_put]
      split
      · next hold => exact ⟨.inl, fun h => h.elim id fun heq => heq ▸ hold⟩
      · rw [List.mem_append, List.mem_singleton]
    rw [List.map_cons, List.mem_cons, ← or_assoc, ← hput]
    exact ih

theorem mem_putAll {new : List (Text × α)} {field : Text × α} (h : field ∈ putAll fields new) :
    field ∈ fields ∨ field ∈ new := by
  induction new generalizing fields with
  | nil => exact .inl h
  | cons first rest ih =>
    rcases ih h with hput | hrest
    · rcases mem_put hput with hold | heq
      · exact .inl hold
      · exact .inr (heq ▸ List.mem_cons_self)
    · exact .inr (List.mem_cons_of_mem _ hrest)

end

section

variable {limit : Option Nat}

theorem wholeDigits_spelling {t : Text} (hne : wholeDigits t ≠ []) :
    Text.ofNat (Text.decimalValue (wholeDigits t)) = wholeDigits t := by
  cases t with
  | nil => exact absurd rfl hne
  | cons c rest =>
    by_cases hzero : c = '0'
    · rw [wholeDigits, if_pos hzero, hzero]
      rfl
    · rw [wholeDigits, if_neg hzero] at hne ⊢
      refine Text.ofNat_decimalValue hne (fun c => Text.of_mem_takeWhile) fun hhead => ?_
      rw [List.takeWhile_cons] at hhead
      split at hhead
      · exact absurd (Option.some.inj hhead) hzero
      · cases hhead

/-- What a number is: one with a point or an exponent, or an integer within the limit. -/
theorem readNumber_cases {t left : Text} {json : Json}
    (h : readNumber limit t = .ok (json, left)) :
    (∃ value, json = .float value) ∨ ∃ value : Int, json = .int value ∧
      ∀ bound, limit = some bound → (Text.ofNat value.natAbs).length ≤ bound := by
  unfold readNumber at h
  extract_lets negative body whole afterWhole fraction afterFraction at h
  have hspelled := wholeDigits_spelling (t := body)
  change whole ≠ [] → Text.ofNat (Text.decimalValue whole) = whole at hspelled
  -- only the spelling of the whole digits matters from here on, not how they were found
  clear_value negative body whole afterWhole fraction afterFraction
  split at h
  · cases h
  next hsome =>
  split at h
  · cases h
    exact .inl ⟨_, rfl⟩
  split at h
  · split at h
    · cases h
    next hfits =>
    obtain ⟨rfl, -⟩ := Prod.mk.inj (Except.ok.inj h)
    refine .inr ⟨_, rfl, fun bound hbound => ?_⟩
    have hdigits := hspelled (by simpa using hsome)
    have habs : (if negative then -(Text.decimalValue whole : Int)
        else Text.decimalValue whole).natAbs = Text.decimalValue whole := by split <;> omega
    rw [habs, hdigits]
    simpa [hbound] using hfits
  · cases h
    exact .inl ⟨_, rfl⟩

/-- A property that values have if their parts do, integers within a limit and the keys of objects
distinct. -/
structure Hereditary (limit : Option Nat) (P : Json → Prop) : Prop where
  null : P .null
  bool : ∀ value, P (.bool value)
  int : ∀ value : Int, (∀ bound, limit = some bound → (Text.ofNat value.natAbs).length ≤ bound) →
    P (.int value)
  float : ∀ value, P (.float value)
  str : ∀ value, P (.str value)
  arr : ∀ items, (∀ item ∈ items, P item) → P (.arr items)
  obj : ∀ fields : List (Text × Json), (fields.map Prod.fst).Nodup →
    (∀ field ∈ fields, P field.2) → P (.obj fields)

variable {P : Json → Prop}

theorem Hereditary.scalar (h : Hereditary limit P) {t left : Text} {json : Json}
    (hread : readScalar limit t = .ok (json, left)) : P json := by
  have hwords : ∀ word ∈ words, P word.2 := by
    simp only [words, List.forall_mem_cons]
    exact ⟨h.null, h.bool _, h.bool _, h.float _, h.float _, h.float _, by simp⟩
  rw [readScalar] at hread
  split at hread
  · next word value hfind =>
    cases hread
    exact hwords _ (List.mem_of_find?_eq_some hfind)
  · rcases readNumber_cases hread with ⟨value, rfl⟩ | ⟨value, rfl, hfits⟩
    · exact h.float value
    · exact h.int value hfits

structure ReadsOnly (limit : Option Nat) (P : Json → Prop) (depth : Nat) : Prop where
  value : ∀ {t json left}, readValue limit depth t = .ok (json, left) → P json
  items : ∀ {t items left}, readItems limit depth t = .ok (items, left) → ∀ item ∈ items, P item
  fields : ∀ {t fields left}, readFields limit depth t = .ok (fields, left) →
    ∀ field ∈ fields, P field.2

section

variable {depth : Nat} (h : ReadsOnly limit P depth)
include h

theorem ReadsOnly.value_succ (hP : Hereditary limit P) {t left : Text} {json : Json}
    (hread : readValue limit (depth + 1) t = .ok (json, left)) : P json := by
  cases t with
  | nil => cases hread
  | cons c rest =>
    rw [readValue] at hread
    split at hread
    · obtain ⟨found, -, hdone⟩ := bind_eq_ok.mp hread
      cases hdone
      exact hP.str _
    · split at hread
      · split at hread
        · split at hread
          · cases hread
            exact hP.arr _ (by simp)
          · obtain ⟨⟨items, others⟩, hitems, hdone⟩ := bind_eq_ok.mp hread
            cases hdone
            exact hP.arr _ (h.items hitems)
        · cases hread
      · split at hread
        · split at hread
          · split at hread
            · cases hread
              exact hP.obj _ List.nodup_nil (by simp)
            · obtain ⟨⟨fields, others⟩, hfields, hdone⟩ := bind_eq_ok.mp hread
              cases hdone
              refine hP.obj _ (nodup_putAll List.nodup_nil) ?_
              intro field hfield
              rcases mem_putAll hfield with hnone | hmem
              · exact absurd hnone List.not_mem_nil
              · exact h.fields hfields field hmem
          · cases hread
        · exact hP.scalar hread

theorem ReadsOnly.items_succ {t left : Text} {items : List Json}
    (hread : readItems limit (depth + 1) t = .ok (items, left)) :
    ∀ item ∈ items, P item := by
  rw [readItems] at hread
  obtain ⟨⟨item, others⟩, hitem, hread⟩ := bind_eq_ok.mp hread
  have hfirst := h.value hitem
  simp only at hread
  split at hread
  · split at hread
    · cases hread
      simpa using hfirst
    · split at hread
      · obtain ⟨⟨rest, others⟩, hrest, hdone⟩ := bind_eq_ok.mp hread
        cases hdone
        exact List.forall_mem_cons.mpr ⟨hfirst, h.items hrest⟩
      · cases hread
  · cases hread

theorem ReadsOnly.fields_succ {t left : Text} {fields : List (Text × Json)}
    (hread : readFields limit (depth + 1) t = .ok (fields, left)) :
    ∀ field ∈ fields, P field.2 := by
  cases t with
  | nil => cases hread
  | cons c rest =>
    rw [readFields] at hread
    split at hread
    · cases hread
    obtain ⟨⟨key, others⟩, -, hread⟩ := bind_eq_ok.mp hread
    simp only at hread
    split at hread
    · split at hread
      · cases hread
      obtain ⟨⟨value, others⟩, hvalue, hread⟩ := bind_eq_ok.mp hread
      have hfirst := h.value hvalue
      simp only at hread
      split at hread
      · split at hread
        · cases hread
          simpa using hfirst
        · split at hread
          · obtain ⟨⟨rest, others⟩, hrest, hdone⟩ := bind_eq_ok.mp hread
            cases hdone
            exact List.forall_mem_cons.mpr ⟨hfirst, h.fields hrest⟩
          · cases hread
      · cases hread
    · cases hread

end

theorem Hereditary.readsOnly (hP : Hereditary limit P) (depth : Nat) : ReadsOnly limit P depth := by
  induction depth with
  | zero =>
    constructor
    all_goals
      intro t result left h
      cases h
  | succ depth ih => exact ⟨ih.value_succ hP, ih.items_succ, ih.fields_succ⟩

theorem Hereditary.of_readAll (hP : Hereditary limit P) {t : Text} {json : Json}
    (h : readAll limit t = .ok json) : P json := by
  rw [readAll] at h
  split at h
  · cases h
  · obtain ⟨⟨value, left⟩, hread, h⟩ := bind_eq_ok.mp h
    simp only at h
    split at h
    · cases h
      exact (hP.readsOnly _).value hread
    · cases h

end

/-- Whatever is read has the property. -/
theorem Hereditary.of_read {P : Json → Prop} (hP : Hereditary (some digitLimit) P) {t : Text}
    {json : Json} (h : read t = .ok json) : P json := by
  rw [read] at h
  split at h
  · next hall =>
    cases h
    exact hP.of_readAll hall
  · cases h
  · cases h

end AbiBindings.Json
