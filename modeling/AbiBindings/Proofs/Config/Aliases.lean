import AbiBindings.Config
import AbiBindings.Proofs.Json.Sorted
import AbiBindings.Proofs.Signature.Normal

/-!
Aliases as pairs of a signature and a word. Pairs are assigned one after the other, each in place
of the pair that its signature had, and a check of the whole refuses a word that is there twice.
So the signatures stay canonical and distinct, the words stay distinct, and looking a signature up
finds the word that it was assigned last.
-/

namespace AbiBindings.Config

open Outcome

/-- The check lets pairs pass exactly if each has a word that can be an alias, and no word is there
twice, among the pairs or before them. -/
theorem checkAliases_eq_ok {seen pairs : List (Text × Text)} :
    checkAliases seen pairs = .ok () ↔
      (∀ pair ∈ pairs, isAlias pair.2 = true) ∧ (pairs.map Prod.snd).Nodup ∧
        ∀ pair ∈ pairs, Json.lookup seen pair.2 = none := by
  induction pairs generalizing seen with
  | nil => simp [checkAliases]
  | cons pair rest ih =>
    obtain ⟨signature, word⟩ := pair
    have hseen (pair : Text × Text) : Json.lookup (seen ++ [(word, signature)]) pair.2 = none ↔
        Json.lookup seen pair.2 = none ∧ word ≠ pair.2 := by
      rw [Json.lookup_append, Option.or_eq_none_iff, Json.lookup]
      simp [Json.lookup_nil]
    have hfresh : word ∉ rest.map Prod.snd ↔ ∀ pair ∈ rest, word ≠ pair.2 := by
      constructor
      · rintro h pair hpair rfl
        exact h (List.mem_map_of_mem hpair)
      · intro h hmem
        obtain ⟨pair, hpair, heq⟩ := List.mem_map.mp hmem
        exact h pair hpair heq.symm
    rw [checkAliases, List.map_cons, List.nodup_cons, List.forall_mem_cons, List.forall_mem_cons,
      hfresh]
    by_cases halias : isAlias word = true
    · cases hword : Json.lookup seen word with
      | some first => simp [halias]
      | none =>
        simp only [halias, Bool.not_true, Bool.false_eq_true, if_false, ih, hseen, true_and]
        constructor
        · rintro ⟨hwords, hnodup, hothers⟩
          exact ⟨hwords, ⟨fun pair hpair => (hothers pair hpair).2, hnodup⟩,
            fun pair hpair => (hothers pair hpair).1⟩
        · rintro ⟨hwords, ⟨hnew, hnodup⟩, hothers⟩
          exact ⟨hwords, hnodup, fun pair hpair => ⟨hothers pair hpair, hnew pair hpair⟩⟩
    · simp [halias]

structure Acceptable (pairs : List (Text × Text)) : Prop where
  words : ∀ pair ∈ pairs, isAlias pair.2 = true
  distinct : (pairs.map Prod.snd).Nodup

theorem validated_eq_ok {config config' : Config} :
    config.validated = .ok config' ↔
      isPackage config.runtimePackage = true ∧ Acceptable config.methodAliases ∧
        config' = config := by
  have hcheck : checkAliases [] config.methodAliases = .ok () ↔
      Acceptable config.methodAliases := by
    rw [checkAliases_eq_ok]
    exact ⟨fun ⟨hwords, hdistinct, _⟩ => ⟨hwords, hdistinct⟩,
      fun h => ⟨h.words, h.distinct, fun _ _ => rfl⟩⟩
  rw [validated]
  by_cases hpackage : isPackage config.runtimePackage = true
  · simp only [hpackage, Bool.not_true, Bool.false_eq_true, if_false, true_and, ← hcheck]
    constructor
    · intro h
      obtain ⟨⟨⟩, hdone, heq⟩ := bind_eq_ok.mp h
      exact ⟨hdone, (Except.ok.inj heq).symm⟩
    · rintro ⟨hdone, rfl⟩
      rw [hdone]
      rfl
  · simp [hpackage]

theorem eq_of_validated {config config' : Config} (h : config.validated = .ok config') :
    config' = config :=
  (validated_eq_ok.mp h).2.2

theorem nodup_of_validated {config config' : Config} (h : config.validated = .ok config') :
    (config.methodAliases.map Prod.snd).Nodup :=
  (validated_eq_ok.mp h).2.1.distinct

/-- What passed the check passes it again. -/
theorem validated_of_validated {config config' : Config} (h : config.validated = .ok config') :
    config'.validated = .ok config' := by
  obtain rfl := eq_of_validated h
  exact h

/-- The mapping of pairs with distinct signatures is the pairs themselves. -/
theorem aliases_of_nodup {config : Config} (h : (config.methodAliases.map Prod.fst).Nodup) :
    config.aliases = config.methodAliases :=
  Json.putAll_of_nodup h

/-- The alias that a log has last for a signature in canonical form. -/
def latest? (log : List (Text × Text)) (form : Text) : Option Text :=
  (log.reverse.find? fun pair => (Signature.normalize pair.1).toOption = some form).map Prod.snd

theorem latest?_append (log more : List (Text × Text)) (form : Text) :
    latest? (log ++ more) form = (latest? more form).or (latest? log form) := by
  rw [latest?, List.reverse_append, List.find?_append, Option.map_or]
  rfl

theorem latest?_singleton {signature word form : Text}
    (h : Signature.normalize signature = .ok form) (key : Text) :
    latest? [(signature, word)] key = if form = key then some word else none := by
  simp only [latest?, List.reverse_singleton, List.find?_singleton, h, Except.toOption,
    Option.some.injEq]
  split <;> simp_all

/-- A log has nothing for a signature that it does not name. -/
theorem latest?_eq_none {log : List (Text × Text)} {form : Text}
    (h : ∀ pair ∈ log, Signature.normalize pair.1 ≠ .ok form) : latest? log form = none := by
  rw [latest?, Option.map_eq_none_iff, List.find?_eq_none]
  intro pair hpair hsame
  exact h pair (List.mem_reverse.mp hpair) (toOption_eq_some.mp (of_decide_eq_true hsame))

/-- What pairs become when others are assigned, one after the other: each takes the place of the
pair for its signature, and no alias is then there twice. -/
inductive Assigned : (before pairs after : List (Text × Text)) → Prop
  | none {pairs : List (Text × Text)} : Assigned pairs [] pairs
  | more {before after rest : List (Text × Text)} {signature word form : Text} :
      Signature.normalize signature = .ok form →
      ((replaceAlias before form word).map Prod.snd).Nodup →
      Assigned (replaceAlias before form word) rest after →
      Assigned before ((signature, word) :: rest) after

/-- The signatures are canonical and there once, and so are the aliases. -/
structure Settled (pairs : List (Text × Text)) : Prop where
  signatures : (pairs.map Prod.fst).Nodup
  canonical : ∀ pair ∈ pairs, Signature.normalize pair.1 = .ok pair.1
  words : (pairs.map Prod.snd).Nodup

theorem Settled.nil : Settled [] := ⟨List.nodup_nil, by simp, List.nodup_nil⟩

section

variable {before pairs after : List (Text × Text)}

theorem nodup_fst_replaceAlias (h : (before.map Prod.fst).Nodup) (form word : Text) :
    ((replaceAlias before form word).map Prod.fst).Nodup := by
  have hkept : ((before.filter fun pair => pair.1 ≠ form).map Prod.fst).Nodup :=
    h.sublist (List.filter_sublist.map Prod.fst)
  rw [replaceAlias, List.map_append, List.nodup_append]
  refine ⟨hkept, List.nodup_singleton _, ?_⟩
  intro kept hmem last hlast heq
  obtain ⟨pair, hpair, rfl⟩ := List.mem_map.mp hmem
  have hne : pair.1 ≠ form := by simpa using (List.mem_filter.mp hpair).2
  exact hne (heq.trans (List.mem_singleton.mp hlast))

theorem Settled.replaceAlias (h : Settled before) {signature word form : Text}
    (hform : Signature.normalize signature = .ok form)
    (hwords : ((replaceAlias before form word).map Prod.snd).Nodup) :
    Settled (replaceAlias before form word) where
  signatures := nodup_fst_replaceAlias h.signatures form word
  canonical := by
    intro pair hpair
    rcases List.mem_append.mp hpair with hkept | hlast
    · exact h.canonical pair (List.mem_filter.mp hkept).1
    · rw [List.mem_singleton.mp hlast]
      exact Signature.normalize_normalize hform
  words := hwords

theorem Assigned.settled (h : Assigned before pairs after) (hbefore : Settled before) :
    Settled after := by
  induction h with
  | none => exact hbefore
  | more hform hwords _ ih => exact ih (hbefore.replaceAlias hform hwords)

theorem lookup_replaceAlias (pairs : List (Text × Text)) (form word key : Text) :
    Json.lookup (replaceAlias pairs form word) key =
      if form = key then some word else Json.lookup pairs key := by
  rw [replaceAlias]
  induction pairs with
  | nil => rfl
  | cons pair rest ih =>
    obtain ⟨k, v⟩ := pair
    by_cases hk : k = form
    · rw [List.filter_cons_of_neg (by simpa using hk), ih, Json.lookup, hk]
      split <;> rfl
    · rw [List.filter_cons_of_pos (by simpa using hk), List.cons_append, Json.lookup, ih,
        Json.lookup]
      by_cases hkey : k = key
      · rw [if_pos hkey, if_pos hkey, if_neg (by rintro rfl; exact hk hkey)]
      · rw [if_neg hkey, if_neg hkey]

/-- After an assignment the alias of a signature is the one that it was given last, and else the
one that it had. -/
theorem Assigned.lookup (h : Assigned before pairs after) (key : Text) :
    Json.lookup after key = (latest? pairs key).or (Json.lookup before key) := by
  induction h with
  | none => rfl
  | @more before after rest signature word form hform _ _ ih =>
    have hcons : (signature, word) :: rest = [(signature, word)] ++ rest := rfl
    rw [ih, lookup_replaceAlias, hcons, latest?_append, latest?_singleton hform, Option.or_assoc]
    split <;> rfl

theorem Assigned.append {pairs' last : List (Text × Text)} (h : Assigned before pairs after)
    (h' : Assigned after pairs' last) : Assigned before (pairs ++ pairs') last := by
  induction h with
  | none => exact h'
  | more hform hwords _ ih => exact .more hform hwords (ih h')

/-- Whatever assigns one pair at a time assigns the pairs of a list one after the other. -/
theorem assigned_of_foldlM {σ : Type} (pairsOf : σ → List (Text × Text))
    {assign : σ → Text × Text → Except Fault σ}
    (hassign : ∀ {state state' pair}, assign state pair = .ok state' →
      Assigned (pairsOf state) [pair] (pairsOf state'))
    {pairs : List (Text × Text)} {state state' : σ} (h : pairs.foldlM assign state = .ok state') :
    Assigned (pairsOf state) pairs (pairsOf state') := by
  induction pairs generalizing state with
  | nil =>
    cases h
    exact .none
  | cons pair rest ih =>
    rw [List.foldlM_cons] at h
    obtain ⟨first, hfirst, hrest⟩ := bind_eq_ok.mp h
    exact (hassign hfirst).append (ih hrest)

/-- Settled pairs are a log that has for each signature the alias that they have. -/
theorem Settled.latest? (h : Settled pairs) {key word : Text}
    (hlatest : latest? pairs key = some word) : Json.lookup pairs key = some word := by
  obtain ⟨pair, hfind, rfl⟩ := Option.map_eq_some_iff.mp hlatest
  have hmem := List.mem_reverse.mp (List.mem_of_find?_eq_some hfind)
  have hform := List.find?_some hfind
  have hsame := toOption_eq_some.mp (of_decide_eq_true hform)
  rw [h.canonical pair hmem] at hsame
  obtain rfl := Except.ok.inj hsame
  exact (Json.lookup_eq_some h.signatures).mpr hmem

/-- Assigning settled pairs once more changes no alias. -/
theorem Assigned.lookup_again (h : Assigned before before after) (hbefore : Settled before)
    (key : Text) : Json.lookup after key = Json.lookup before key := by
  rw [h.lookup key]
  cases hlatest : Config.latest? before key with
  | none => rfl
  | some word => exact (hbefore.latest? hlatest).symm

end

end AbiBindings.Config
