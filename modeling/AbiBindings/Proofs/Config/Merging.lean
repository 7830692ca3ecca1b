import AbiBindings.Proofs.Config.Acceptance

/-!
Mappings of aliases. The pairs of a mapping are assigned one after the other, and the whole is
checked after each, so a mapping can be refused although the aliases that it leads to can stand
together: on the way there, a pair may not take an alias that the signature of a later pair still
has. Apart from that the order of the pairs makes no difference, neither to whether the mapping is
accepted nor to the aliases that result.
-/

namespace AbiBindings.Config

open Outcome

/-- A mapping names each of its signatures once, in whatever spelling. -/
structure IsMapping (pairs : List (Text × Text)) : Prop where
  canonical : ∀ pair ∈ pairs, ∃ form, Signature.normalize pair.1 = .ok form
  distinct : pairs.Pairwise fun pair other =>
    ∀ form, Signature.normalize pair.1 = .ok form → Signature.normalize other.1 ≠ .ok form

/-- The alias of a signature after those of a mapping have taken the place of what was there. -/
def merged (before pairs : List (Text × Text)) (form : Text) : Option Text :=
  (latest? pairs form).or (Json.lookup before form)

def Apart (aliasOf : Text → Option Text) : Prop :=
  ∀ form other word, aliasOf form = some word → aliasOf other = some word → form = other

structure Compatible (aliasOf : Text → Option Text) : Prop where
  words : ∀ form word, aliasOf form = some word → isAlias word = true
  distinct : Apart aliasOf

/-- No pair takes an alias that the signature of a later one still has. -/
def HandsOver (before order : List (Text × Text)) : Prop :=
  order.Pairwise fun pair later => ∀ form, Signature.normalize later.1 = .ok form →
    Json.lookup before form ≠ some pair.2

section

variable {before pairs rest : List (Text × Text)} {signature word form : Text}

theorem IsMapping.tail (h : IsMapping ((signature, word) :: rest)) : IsMapping rest where
  canonical pair hpair := h.canonical pair (List.mem_cons_of_mem _ hpair)
  distinct := (List.pairwise_cons.mp h.distinct).2

/-- The rest of a mapping does not name the signature of its first pair. -/
theorem IsMapping.not_named (h : IsMapping ((signature, word) :: rest))
    (hform : Signature.normalize signature = .ok form) :
    ∀ pair ∈ rest, Signature.normalize pair.1 ≠ .ok form :=
  fun pair hpair => (List.pairwise_cons.mp h.distinct).1 pair hpair form hform

theorem IsMapping.perm {order : List (Text × Text)} (h : IsMapping pairs)
    (hperm : order.Perm pairs) : IsMapping order where
  canonical pair hpair := h.canonical pair (hperm.mem_iff.mp hpair)
  distinct := by
    refine hperm.symm.pairwise h.distinct ?_
    intro pair other hother form hform hpair
    exact hother form hpair hform

/-- Canonical signatures that are there once make a mapping. -/
theorem Settled.isMapping (h : Settled pairs) : IsMapping pairs where
  canonical pair hpair := ⟨pair.1, h.canonical pair hpair⟩
  distinct := by
    refine (List.pairwise_map.mp h.signatures).imp_of_mem ?_
    intro pair other hpair hother hne form hform hform'
    rw [h.canonical pair hpair] at hform
    rw [h.canonical other hother] at hform'
    exact hne (Except.ok.inj (hform.trans hform'.symm))

/-- Of two pairs in such an order, not each takes the alias that the signature of the other has. -/
theorem HandsOver.no_swap {order : List (Text × Text)} (h : HandsOver before order)
    {pair other : Text × Text} (hpair : pair ∈ order) (hother : other ∈ order) (hne : pair ≠ other)
    {form form' : Text} (hform : Signature.normalize pair.1 = .ok form)
    (hform' : Signature.normalize other.1 = .ok form') :
    Json.lookup before form ≠ some other.2 ∨ Json.lookup before form' ≠ some pair.2 := by
  let Takes (pair other : Text × Text) : Prop :=
    ∃ form, Signature.normalize other.1 = .ok form ∧ Json.lookup before form = some pair.2
  have hone : order.Pairwise fun pair other => ¬ (Takes pair other ∧ Takes other pair) :=
    h.imp fun hfree ⟨⟨form, hform, hheld⟩, _⟩ => hfree form hform hheld
  have hsymm : Std.Symm fun pair other => ¬ (Takes pair other ∧ Takes other pair) :=
    ⟨fun _ _ hnot hswap => hnot hswap.symm⟩
  have hboth := hone.forall hpair hother hne
  by_contra hswap
  rw [not_or, not_not, not_not] at hswap
  exact hboth ⟨⟨form', hform', hswap.2⟩, form, hform, hswap.1⟩

/-- The alias that a mapping gives a signature is that of the pair for it. -/
theorem IsMapping.latest?_eq_some (h : IsMapping pairs) {form word : Text} :
    latest? pairs form = some word ↔
      ∃ pair ∈ pairs, Signature.normalize pair.1 = .ok form ∧ pair.2 = word := by
  induction pairs with
  | nil => simp [latest?]
  | cons pair rest ih =>
    obtain ⟨signature, first⟩ := pair
    obtain ⟨head, hhead⟩ := h.canonical _ List.mem_cons_self
    have hcons : (signature, first) :: rest = [(signature, first)] ++ rest := rfl
    rw [hcons, latest?_append, latest?_singleton hhead]
    by_cases hform : head = form
    · subst hform
      rw [latest?_eq_none (h.not_named hhead), if_pos rfl, Option.none_or, Option.some.injEq]
      constructor
      · rintro rfl
        exact ⟨_, List.mem_cons_self, hhead, rfl⟩
      · rintro ⟨pair, hpair, hnormal, rfl⟩
        rcases List.mem_cons.mp hpair with rfl | hrest
        · rfl
        · exact absurd hnormal (h.not_named hhead pair hrest)
    · rw [if_neg hform, Option.or_none, ih h.tail]
      constructor
      · rintro ⟨pair, hpair, hfound⟩
        exact ⟨pair, List.mem_cons_of_mem _ hpair, hfound⟩
      · rintro ⟨pair, hpair, hnormal, rfl⟩
        rcases List.mem_cons.mp hpair with rfl | hrest
        · rw [hhead] at hnormal
          exact absurd (Except.ok.inj hnormal) hform
        · exact ⟨pair, hrest, hnormal, rfl⟩

/-- The order of a mapping does not matter to what it gives each signature. -/
theorem IsMapping.merged_perm {order : List (Text × Text)} (h : IsMapping pairs)
    (hperm : order.Perm pairs) (before : List (Text × Text)) :
    merged before order = merged before pairs := by
  have hlatest (form : Text) : latest? order form = latest? pairs form := by
    apply Option.ext
    intro word
    rw [(h.perm hperm).latest?_eq_some, h.latest?_eq_some]
    simp only [hperm.mem_iff]
  funext form
  rw [merged, merged, hlatest]

end

section

variable {pairs : List (Text × Text)} (h : (pairs.map Prod.fst).Nodup)
include h

theorem apart_lookup_iff : Apart (Json.lookup pairs) ↔ (pairs.map Prod.snd).Nodup := by
  constructor
  · intro hapart
    refine List.Nodup.map_on ?_ h.of_map
    intro pair hpair other hother heq
    have hfound := (Json.lookup_eq_some h).mpr hpair
    have hfound' := (Json.lookup_eq_some h).mpr hother
    exact Prod.ext (hapart _ _ _ hfound (heq ▸ hfound')) heq
  · intro hnodup form other word hform hother
    have hpair := (Json.lookup_eq_some h).mp hform
    have hpair' := (Json.lookup_eq_some h).mp hother
    exact congrArg Prod.fst (List.inj_on_of_nodup_map hnodup hpair hpair' rfl)

/-- The map of pairs can stand exactly if the pairs can. -/
theorem compatible_lookup_iff : Compatible (Json.lookup pairs) ↔ Acceptable pairs := by
  constructor
  · intro hcompatible
    refine ⟨fun pair hpair => ?_, (apart_lookup_iff h).mp hcompatible.distinct⟩
    exact hcompatible.words _ _ ((Json.lookup_eq_some h).mpr hpair)
  · intro hacceptable
    refine ⟨fun form word hform => ?_, (apart_lookup_iff h).mpr hacceptable.distinct⟩
    exact hacceptable.words _ (Json.mem_of_lookup hform)

end

section

variable {before after pairs rest : List (Text × Text)} {signature word form : Text}

theorem assigned_cons :
    Assigned before ((signature, word) :: rest) after ↔
      ∃ form, Signature.normalize signature = .ok form ∧
        ((replaceAlias before form word).map Prod.snd).Nodup ∧
        Assigned (replaceAlias before form word) rest after := by
  constructor
  · rintro (_ | ⟨hform, hwords, hrest⟩)
    exact ⟨_, hform, hwords, hrest⟩
  · rintro ⟨form, hform, hwords, hrest⟩
    exact .more hform hwords hrest

theorem merged_nil (before : List (Text × Text)) : merged before [] = Json.lookup before := rfl

theorem merged_cons (hform : Signature.normalize signature = .ok form) :
    merged before ((signature, word) :: rest) = merged (replaceAlias before form word) rest := by
  have hcons : (signature, word) :: rest = [(signature, word)] ++ rest := rfl
  funext key
  rw [merged, merged, hcons, latest?_append, latest?_singleton hform, lookup_replaceAlias,
    Option.or_assoc]
  split <;> rfl

/-- A signature that a mapping does not name keeps the alias that it had. -/
theorem merged_of_not_named (h : ∀ pair ∈ pairs, Signature.normalize pair.1 ≠ .ok form) :
    merged before pairs form = Json.lookup before form := by
  rw [merged, latest?_eq_none h, Option.none_or]

/-- Once a pair is assigned, the signatures of the others have the aliases that they had. -/
theorem handsOver_replaceAlias (h : ∀ pair ∈ rest, Signature.normalize pair.1 ≠ .ok form) :
    HandsOver (replaceAlias before form word) rest ↔ HandsOver before rest := by
  refine List.Pairwise.iff_of_mem fun _ hlater => ?_
  refine forall_congr' fun key => imp_congr_right fun hkey => ?_
  rw [lookup_replaceAlias, if_neg]
  rintro rfl
  exact h _ hlater hkey

/-- No alias is twice after an assignment exactly if no other signature had the new one. -/
theorem nodup_snd_replaceAlias (hkeys : (before.map Prod.fst).Nodup)
    (hwords : (before.map Prod.snd).Nodup) (form word : Text) :
    ((replaceAlias before form word).map Prod.snd).Nodup ↔
      ∀ other, Json.lookup before other = some word → form = other := by
  rw [← apart_lookup_iff (nodup_fst_replaceAlias hkeys form word)]
  constructor
  · intro hapart other hother
    by_contra hne
    apply hne
    apply hapart form other word
    · rw [lookup_replaceAlias, if_pos rfl]
    · rw [lookup_replaceAlias, if_neg hne, hother]
  · intro hfree key other shared hkey hother
    rw [lookup_replaceAlias] at hkey hother
    by_cases hk : form = key
    · rw [if_pos hk] at hkey
      obtain rfl := Option.some.inj hkey
      by_cases ho : form = other
      · exact hk.symm.trans ho
      · rw [if_neg ho] at hother
        exact absurd (hfree other hother) ho
    · rw [if_neg hk] at hkey
      by_cases ho : form = other
      · rw [if_pos ho] at hother
        obtain rfl := Option.some.inj hother
        exact absurd (hfree key hkey) hk
      · rw [if_neg ho] at hother
        exact (apart_lookup_iff hkeys).mpr hwords _ _ _ hkey hother

/-- A mapping can be assigned, one pair after the other, exactly if no two signatures then have one
alias and no pair takes an alias that the signature of a later one still has. -/
theorem exists_assigned_iff (h : IsMapping pairs) (hkeys : (before.map Prod.fst).Nodup)
    (hwords : (before.map Prod.snd).Nodup) :
    (∃ after, Assigned before pairs after) ↔
      Apart (merged before pairs) ∧ HandsOver before pairs := by
  induction pairs generalizing before with
  | nil =>
    rw [merged_nil, apart_lookup_iff hkeys]
    exact ⟨fun _ => ⟨hwords, List.Pairwise.nil⟩, fun _ => ⟨before, .none⟩⟩
  | cons pair rest ih =>
    obtain ⟨signature, word⟩ := pair
    obtain ⟨form, hform⟩ := h.canonical _ List.mem_cons_self
    have hothers := h.not_named hform
    have hkeys' := nodup_fst_replaceAlias hkeys form word
    rw [merged_cons hform, HandsOver, List.pairwise_cons]
    constructor
    · rintro ⟨after, hafter⟩
      obtain ⟨form', hform', hwords', hrest⟩ := assigned_cons.mp hafter
      obtain rfl := Except.ok.inj (hform.symm.trans hform')
      obtain ⟨hapart, horder⟩ := (ih h.tail hkeys' hwords').mp ⟨after, hrest⟩
      refine ⟨hapart, ?_, (handsOver_replaceAlias hothers).mp horder⟩
      intro later hlater key hkey hheld
      obtain rfl := (nodup_snd_replaceAlias hkeys hwords form word).mp hwords' key hheld
      exact hothers later hlater hkey
    · rintro ⟨hapart, hfree, horder⟩
      have hwords' := (nodup_snd_replaceAlias hkeys hwords form word).mpr ?_
      · obtain ⟨after, hafter⟩ := (ih h.tail hkeys' hwords').mpr
          ⟨hapart, (handsOver_replaceAlias hothers).mpr horder⟩
        exact ⟨after, assigned_cons.mpr ⟨form, hform, hwords', hafter⟩⟩
      · intro other hheld
        by_contra hne
        -- No later pair is for `other`, so `other` would keep the alias that `form` has now.
        have hkept : ∀ pair ∈ rest, Signature.normalize pair.1 ≠ .ok other :=
          fun pair hpair hnormal => hfree pair hpair other hnormal hheld
        apply hne
        apply hapart form other word
        · rw [merged_of_not_named hothers, lookup_replaceAlias, if_pos rfl]
        · rw [merged_of_not_named hkept, lookup_replaceAlias, if_neg hne, hheld]

end

/-- What a step that assigns a pair does, for states with pairs of which some are good: it assigns
the pair, exactly if the word can be an alias and no alias is twice then. -/
structure AssignsEach {σ : Type} (pairsOf : σ → List (Text × Text)) (Good : σ → Prop)
    (assign : σ → Text × Text → Except Fault σ) : Prop where
  made : ∀ {state state' signature word}, assign state (signature, word) = .ok state' →
    Good state' ∧ isAlias word = true ∧
      Assigned (pairsOf state) [(signature, word)] (pairsOf state')
  makes : ∀ {state signature word form}, Good state → isAlias word = true →
    Signature.normalize signature = .ok form →
    ((replaceAlias (pairsOf state) form word).map Prod.snd).Nodup →
    ∃ state', assign state (signature, word) = .ok state' ∧
      pairsOf state' = replaceAlias (pairsOf state) form word

/-- The pairs of a list are assigned one after the other exactly if their words can be aliases and
no alias is twice after any of them. -/
theorem AssignsEach.exists_foldlM_iff {σ : Type} {pairsOf : σ → List (Text × Text)}
    {Good : σ → Prop} {assign : σ → Text × Text → Except Fault σ}
    (h : AssignsEach pairsOf Good assign) {pairs : List (Text × Text)} {state : σ}
    (hgood : Good state) :
    (∃ state', pairs.foldlM assign state = .ok state') ↔
      (∀ pair ∈ pairs, isAlias pair.2 = true) ∧ ∃ after, Assigned (pairsOf state) pairs after := by
  induction pairs generalizing state with
  | nil => exact ⟨fun _ => ⟨by simp, _, .none⟩, fun _ => ⟨state, rfl⟩⟩
  | cons pair rest ih =>
    obtain ⟨signature, word⟩ := pair
    rw [List.forall_mem_cons]
    constructor
    · rintro ⟨last, hlast⟩
      rw [List.foldlM_cons] at hlast
      obtain ⟨next, hnext, hrest⟩ := bind_eq_ok.mp hlast
      obtain ⟨hgood', hword, hassigned⟩ := h.made hnext
      obtain ⟨hwords, after, hafter⟩ := (ih hgood').mp ⟨last, hrest⟩
      exact ⟨⟨hword, hwords⟩, after, hassigned.append hafter⟩
    · rintro ⟨⟨hword, hwords⟩, after, hafter⟩
      obtain ⟨form, hform, hnodup, hrest⟩ := assigned_cons.mp hafter
      obtain ⟨next, hnext, hpairs⟩ := h.makes hgood hword hform hnodup
      rw [← hpairs] at hrest
      obtain ⟨last, hlast⟩ := (ih (h.made hnext).1).mpr ⟨hwords, after, hrest⟩
      refine ⟨last, ?_⟩
      rw [List.foldlM_cons]
      exact bind_eq_ok.mpr ⟨next, hnext, hlast⟩

theorem assignsEach_config :
    AssignsEach methodAliases (fun config => config.validated = .ok config)
      (fun config pair => config.withAlias pair.1 pair.2) where
  made := by
    intro config config' signature word h
    have hvalidated := validated_of_withAlias h
    obtain ⟨form, hform, hnew⟩ := bind_eq_ok.mp h
    refine ⟨hvalidated, ?_, assigned_withAlias h⟩
    refine (validated_eq_ok.mp hvalidated).2.1.words (form, word) ?_
    rw [eq_of_validated hnew]
    exact List.mem_append_right _ List.mem_cons_self
  makes := by
    intro config signature word form hconfig hword hform hnodup
    obtain ⟨hpackage, hold, -⟩ := validated_eq_ok.mp hconfig
    have hwords : ∀ pair ∈ replaceAlias config.methodAliases form word, isAlias pair.2 = true := by
      intro pair hpair
      rcases List.mem_append.mp hpair with hkept | hnew
      · exact hold.words pair (List.mem_filter.mp hkept).1
      · rw [List.mem_singleton.mp hnew]
        exact hword
    exact ⟨_, bind_eq_ok.mpr ⟨form, hform,
      validated_eq_ok.mpr ⟨hpackage, ⟨hwords, hnodup⟩, rfl⟩⟩, rfl⟩

theorem assignsEach_job :
    AssignsEach (fun job : Job => job.config.methodAliases)
      (fun job => job.config.validated = .ok job.config)
      (fun job pair => job.withAlias pair.1 pair.2) where
  made := by
    intro job job' signature word h
    obtain ⟨config, hconfig, hjob⟩ := bind_eq_ok.mp h
    exact ⟨Job.validated_withAlias h, (assignsEach_config.made hconfig).2.1,
      Job.assigned_withAlias h⟩
  makes := by
    intro job signature word form hjob hword hform hnodup
    obtain ⟨config, hconfig, hpairs⟩ := assignsEach_config.makes hjob hword hform hnodup
    obtain ⟨hpackage, haliases, -⟩ := validated_eq_ok.mp (validated_of_withAlias hconfig)
    have hfiled : validated { config with artifactPath := some job.artifactPath } =
        .ok { config with artifactPath := some job.artifactPath } :=
      validated_eq_ok.mpr ⟨hpackage, haliases, rfl⟩
    refine ⟨⟨job.artifactPath, { config with artifactPath := some job.artifactPath }⟩, ?_, hpairs⟩
    exact bind_eq_ok.mpr ⟨config, hconfig, bind_eq_ok.mpr ⟨_, hfiled, rfl⟩⟩

/-- What comes of assigning the pairs of a mapping in some order to what was there before. -/
structure Merges (before pairs order : List (Text × Text))
    (outcome : Except Fault (List (Text × Text))) : Prop where
  succeeds : (∃ after, outcome = .ok after) ↔
    Compatible (merged before pairs) ∧ HandsOver before order
  result : ∀ after, outcome = .ok after → ∀ form, Json.lookup after form = merged before pairs form

/-- All words of a merged map can be aliases exactly if those of the mapping can. -/
theorem words_merged_iff {before pairs : List (Text × Text)} (h : IsMapping pairs)
    (hbefore : ∀ pair ∈ before, isAlias pair.2 = true) :
    (∀ form word, merged before pairs form = some word → isAlias word = true) ↔
      ∀ pair ∈ pairs, isAlias pair.2 = true := by
  constructor
  · intro hwords pair hpair
    obtain ⟨form, hform⟩ := h.canonical pair hpair
    apply hwords form pair.2
    rw [merged, h.latest?_eq_some.mpr ⟨pair, hpair, hform, rfl⟩, Option.some_or]
  · intro hwords form word hmerged
    rw [merged, Option.or_eq_some_iff] at hmerged
    rcases hmerged with hnew | ⟨-, hold⟩
    · obtain ⟨pair, hpair, -, rfl⟩ := h.latest?_eq_some.mp hnew
      exact hwords pair hpair
    · exact hbefore _ (Json.mem_of_lookup hold)

/-- Whatever assigns one pair at a time merges a mapping, in whatever order its pairs come. -/
theorem AssignsEach.merges_foldlM {σ : Type} {pairsOf : σ → List (Text × Text)} {Good : σ → Prop}
    {assign : σ → Text × Text → Except Fault σ} (h : AssignsEach pairsOf Good assign) {state : σ}
    (hgood : Good state) (hkeys : ((pairsOf state).map Prod.fst).Nodup)
    (hold : Acceptable (pairsOf state)) {pairs order : List (Text × Text)}
    (hpairs : IsMapping pairs) (hperm : order.Perm pairs) :
    Merges (pairsOf state) pairs order ((order.foldlM assign state).map pairsOf) where
  succeeds := by
    have horder := hpairs.perm hperm
    calc (∃ after, (order.foldlM assign state).map pairsOf = .ok after)
        ↔ ∃ state', order.foldlM assign state = .ok state' := by
          constructor
          · rintro ⟨after, hafter⟩
            obtain ⟨state', hrun, -⟩ := map_eq_ok.mp hafter
            exact ⟨state', hrun⟩
          · rintro ⟨state', hrun⟩
            exact ⟨_, map_eq_ok.mpr ⟨state', hrun, rfl⟩⟩
      _ ↔ (∀ pair ∈ order, isAlias pair.2 = true) ∧
            ∃ after, Assigned (pairsOf state) order after := h.exists_foldlM_iff hgood
      _ ↔ (∀ form word, merged (pairsOf state) order form = some word → isAlias word = true) ∧
            Apart (merged (pairsOf state) order) ∧ HandsOver (pairsOf state) order := by
          rw [words_merged_iff horder hold.words, exists_assigned_iff horder hkeys hold.distinct]
      _ ↔ Compatible (merged (pairsOf state) pairs) ∧ HandsOver (pairsOf state) order := by
          rw [hpairs.merged_perm hperm, ← and_assoc]
          exact and_congr_left' ⟨fun ⟨hwords, hapart⟩ => ⟨hwords, hapart⟩,
            fun hcompatible => ⟨hcompatible.words, hcompatible.distinct⟩⟩
  result := by
    intro after hafter form
    obtain ⟨state', hrun, rfl⟩ := map_eq_ok.mp hafter
    have hassigned := assigned_of_foldlM pairsOf (fun hstep => (h.made hstep).2.2) hrun
    rw [hassigned.lookup, ← hpairs.merged_perm hperm, merged]

/-- Overrides with aliases only assign these. -/
theorem withOverrides_aliases {config : Config} (h : config.validated = .ok config)
    (pairs : List (Text × Text)) :
    config.withOverrides { Overrides.none with methodAliases := some pairs } =
      config.withAliases pairs := by
  change (config.validated >>= fun replaced => replaced.withAliases pairs) = _
  rw [h, ok_bind]

/-- On a configuration after any history, or a job for one, a mapping is accepted in some order of
its pairs exactly if the aliases that it leads to can stand together and no pair takes an alias
that the signature of a later pair still has. The aliases are then the old ones with those of the
mapping in their place, the same in every order. -/
theorem Reaches.merges {log : List (Text × Text)} {config : Config} (h : Reaches log config)
    {pairs order : List (Text × Text)} (hpairs : IsMapping pairs) (hperm : order.Perm pairs) :
    Merges config.aliases pairs order
      ((config.withOverrides { Overrides.none with methodAliases := some order }).map aliases) ∧
    ∀ job : Job, job.config = config →
      Merges config.aliases pairs order
        ((job.withAliases order).map fun job => job.config.aliases) := by
  obtain ⟨hsettled, -⟩ := h.settled
  obtain ⟨-, hacceptable, -⟩ := validated_eq_ok.mp h.validated
  rw [aliases_of_nodup hsettled.signatures]
  constructor
  · have hread : (config.withAliases order).map aliases =
        (config.withAliases order).map methodAliases :=
      map_congr fun config' hrun =>
        aliases_of_nodup ((assigned_withAliases hrun).settled hsettled).signatures
    rw [withOverrides_aliases h.validated, hread]
    exact assignsEach_config.merges_foldlM h.validated hsettled.signatures hacceptable hpairs hperm
  · rintro job rfl
    have hread : ((job.withAliases order).map fun job => job.config.aliases) =
        (job.withAliases order).map fun job => job.config.methodAliases :=
      map_congr fun job' hrun =>
        aliases_of_nodup ((Job.assigned_withAliases hrun).settled hsettled).signatures
    rw [hread]
    exact assignsEach_job.merges_foldlM h.validated hsettled.signatures hacceptable hpairs hperm

/-- Two signatures get the aliases `a` and `b`. -/
theorem reaches_two : Reaches [("f()", "a"), ("g()", "b")]
    { standard with methodAliases := [("f()", "a"), ("g()", "b")] } := by
  have hfirst : Change.apply standard (.assign "f()" "a") =
      .ok { standard with methodAliases := [("f()", "a")] } := rfl
  have hsecond : Change.apply { standard with methodAliases := [("f()", "a")] }
      (.assign "g()" "b") =
      .ok { standard with methodAliases := [("f()", "a"), ("g()", "b")] } := rfl
  exact .changed (.changed .standard hfirst) hsecond

/-- The second of two signatures gets another alias, and then the first the one that it had. -/
theorem Reaches.merges_handed_over :
    ∃ config, Reaches [("f()", "a"), ("g()", "b")] config ∧
      (∃ after, (config.withOverrides { Overrides.none with
        methodAliases := some [("g()", "c"), ("f()", "b")] }).map aliases = .ok after ∧
          Json.lookup after "f()" = some "b") ∧
      ∃ after, ((Job.mk "a.json" config).withAliases [("g()", "c"), ("f()", "b")]).map
        (fun job => job.config.aliases) = .ok after ∧ Json.lookup after "f()" = some "b" := by
  have hf : Signature.normalize "f()" = .ok "f()" := rfl
  have hg : Signature.normalize "g()" = .ok "g()" := rfl
  have hsettled : Settled [("g()", "c"), ("f()", "b")] :=
    ⟨by decide, by simp only [List.forall_mem_cons, hf, hg]; simp, by decide⟩
  have hmerged : merged [("f()", "a"), ("g()", "b")] [("g()", "c"), ("f()", "b")] =
      Json.lookup ([("g()", "c"), ("f()", "b")] : List (Text × Text)) := by
    rw [merged_cons hg, merged_cons hf, merged_nil]
    rfl
  have hacceptable : Acceptable [("g()", "c"), ("f()", "b")] := ⟨by decide, by decide⟩
  have hcompatible := (compatible_lookup_iff hsettled.signatures).mpr hacceptable
  have hfree : HandsOver [("f()", "a"), ("g()", "b")] [("g()", "c"), ("f()", "b")] := by
    refine List.pairwise_pair.mpr fun form hform => ?_
    obtain rfl := Except.ok.inj (hf.symm.trans hform)
    decide
  obtain ⟨hconfig, hjob⟩ := reaches_two.merges hsettled.isMapping (List.Perm.refl _)
  obtain ⟨after, hafter⟩ := hconfig.succeeds.mpr ⟨hmerged ▸ hcompatible, hfree⟩
  have hdone := hjob (Job.mk "a.json" _) rfl
  obtain ⟨after', hafter'⟩ := hdone.succeeds.mpr ⟨hmerged ▸ hcompatible, hfree⟩
  refine ⟨_, reaches_two, ⟨after, hafter, ?_⟩, after', hafter', ?_⟩
  · exact (hconfig.result after hafter _).trans (congrFun hmerged _)
  · exact (hdone.result after' hafter' _).trans (congrFun hmerged _)

/-- With the aliases `a` for `f()` and `b` for `g()`, the two signatures cannot swap them, in
whatever order, although the aliases would stand together. -/
theorem exists_swap_refused :
    ∃ log config, Reaches log config ∧ IsMapping [("f()", "b"), ("g()", "a")] ∧
      Compatible (merged config.aliases [("f()", "b"), ("g()", "a")]) ∧
      ∀ order, order.Perm [("f()", "b"), ("g()", "a")] → ¬ ∃ config',
        config.withOverrides { Overrides.none with methodAliases := some order } =
          .ok config' := by
  have hf : Signature.normalize "f()" = .ok "f()" := rfl
  have hg : Signature.normalize "g()" = .ok "g()" := rfl
  have hsettled : Settled [("f()", "b"), ("g()", "a")] :=
    ⟨by decide, by simp only [List.forall_mem_cons, hf, hg]; simp, by decide⟩
  have hmerged : merged [("f()", "a"), ("g()", "b")] [("f()", "b"), ("g()", "a")] =
      Json.lookup ([("f()", "b"), ("g()", "a")] : List (Text × Text)) := by
    rw [merged_cons hf, merged_cons hg, merged_nil]
    rfl
  have hacceptable : Acceptable [("f()", "b"), ("g()", "a")] := ⟨by decide, by decide⟩
  have hcompatible := (compatible_lookup_iff hsettled.signatures).mpr hacceptable
  refine ⟨_, _, reaches_two, hsettled.isMapping, hmerged ▸ hcompatible, ?_⟩
  rintro order hperm ⟨config', hconfig'⟩
  rw [withOverrides_aliases reaches_two.validated] at hconfig'
  obtain ⟨-, hfree⟩ := (exists_assigned_iff (hsettled.isMapping.perm hperm) (by decide)
    (by decide)).mp ⟨_, assigned_withAliases hconfig'⟩
  -- each pair takes the alias of the other one, so whichever comes first comes too early
  have hmem : (("f()", "b") : Text × Text) ∈ order ∧ (("g()", "a") : Text × Text) ∈ order := by
    simp [hperm.mem_iff]
  rcases hfree.no_swap hmem.1 hmem.2 (by decide) hf hg with h | h
  · exact h rfl
  · exact h rfl

end AbiBindings.Config
