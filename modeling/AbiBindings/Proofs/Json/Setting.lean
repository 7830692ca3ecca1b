import AbiBindings.Proofs.Json.Sorted

/-!
Fields of which one is set. The place of a key means nothing, so a key that was absent may come in
anywhere; one that was there keeps its place. Either way it holds the new value from then on, and
every other key holds what it held.
-/

namespace AbiBindings.Json

variable {α : Type} {key : Text} {value : α} {fields fields' : List (Text × α)}

inductive Sets (key : Text) (value : α) : List (Text × α) → List (Text × α) → Prop
  | replaced {before after : List (Text × α)} (old : α) : key ∉ before.map Prod.fst →
      Sets key value (before ++ (key, old) :: after) (before ++ (key, value) :: after)
  | added {before after : List (Text × α)} : key ∉ (before ++ after).map Prod.fst →
      Sets key value (before ++ after) (before ++ (key, value) :: after)

/-- `put` is one way to set a key. -/
theorem sets_put (fields : List (Text × α)) (key : Text) (value : α) :
    Sets key value fields (put fields key value) := by
  cases hold : lookup fields key with
  | none =>
    have habsent := lookup_eq_none.mp hold
    rw [put_of_not_mem habsent]
    have hset : Sets key value (fields ++ []) (fields ++ [(key, value)]) :=
      .added (by rwa [List.append_nil])
    rwa [List.append_nil] at hset
  | some old =>
    obtain ⟨before, after, rfl, hbefore⟩ : ∃ before after,
        fields = before ++ (key, old) :: after ∧ key ∉ before.map Prod.fst := by
      induction fields with
      | nil => cases hold
      | cons field rest ih =>
        obtain ⟨k, v⟩ := field
        rw [lookup] at hold
        split at hold
        · next hk =>
          obtain rfl := Option.some.inj hold
          exact ⟨[], rest, by rw [hk, List.nil_append], List.not_mem_nil⟩
        · next hk =>
          obtain ⟨before, after, rfl, hbefore⟩ := ih hold
          exact ⟨(k, v) :: before, after, rfl, by simp [Ne.symm hk, hbefore]⟩
    have hput : put (before ++ (key, old) :: after) key value =
        before ++ (key, value) :: after := by
      clear hold
      induction before with
      | nil => simp [put]
      | cons field rest ih =>
        rw [List.map_cons, List.mem_cons, not_or] at hbefore
        rw [List.cons_append, put, if_neg (Ne.symm hbefore.1), ih hbefore.2, List.cons_append]
    rw [hput]
    exact .replaced old hbefore

namespace Sets

theorem lookup_self (h : Sets key value fields fields') : lookup fields' key = some value := by
  cases h with
  | replaced old hbefore =>
    rw [lookup_append, lookup_eq_none.mpr hbefore, Option.none_or, lookup_cons_self]
  | added habsent =>
    rw [List.map_append, List.mem_append, not_or] at habsent
    rw [lookup_append, lookup_eq_none.mpr habsent.1, Option.none_or, lookup_cons_self]

theorem lookup_of_ne (h : Sets key value fields fields') {other : Text} (hne : other ≠ key) :
    lookup fields' other = lookup fields other := by
  have hskip (v : α) (rest : List (Text × α)) :
      lookup ((key, v) :: rest) other = lookup rest other := by
    rw [lookup, if_neg (Ne.symm hne)]
  cases h with
  | replaced old _ => rw [lookup_append, lookup_append, hskip, hskip]
  | added _ => rw [lookup_append, lookup_append, hskip]

/-- What holds of all values keeps holding if it holds of the new one as much as of the old. -/
theorem forall_mem_iff {P : α → Prop} (h : Sets key value fields fields')
    (hvalue : ∀ old, lookup fields key = some old → (P value ↔ P old))
    (hnew : lookup fields key = none → P value) :
    (∀ field ∈ fields', P field.2) ↔ ∀ field ∈ fields, P field.2 := by
  cases h with
  | @replaced before after old hbefore =>
    have hold : lookup (before ++ (key, old) :: after) key = some old := by
      rw [lookup_append, lookup_eq_none.mpr hbefore, Option.none_or, lookup_cons_self]
    simp only [List.forall_mem_append, List.forall_mem_cons, hvalue old hold]
  | added habsent =>
    have hholds := hnew (lookup_eq_none.mpr habsent)
    simp only [List.forall_mem_append, List.forall_mem_cons, hholds, true_and]

end Sets

end AbiBindings.Json
