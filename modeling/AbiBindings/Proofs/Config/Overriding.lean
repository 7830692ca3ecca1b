import AbiBindings.Proofs.Config.Merging
import AbiBindings.Proofs.Json.Distinct

/-!
What overrides keep. A choice that is made is in the new configuration, and the path, the package
and the name stay as they were where none is made. Aliases that are not overridden are assigned
once more, though, each in place of what its signature has: an alias of a signature that is not
canonical then clashes with itself, and of several aliases of one signature the last stays.
-/

namespace AbiBindings.Config

open Outcome

namespace Choice

def keyword : Choice → Text
  | artifactPath _ => "artifact_path"
  | runtimePackage _ => "runtime_package"
  | contractName _ => "contract_name"
  | methodAliases _ => "method_aliases"
  | foreign keyword => keyword

end Choice

/-- A configuration has what was chosen, and else what another one had. Aliases apart. -/
structure Follows (choices : List Choice) (config config' : Config) : Prop where
  path : ∀ path, .artifactPath (some path) ∈ choices → config'.artifactPath = some path
  path_kept : (∀ path, .artifactPath (some path) ∉ choices) →
    config'.artifactPath = config.artifactPath
  package : ∀ package, .runtimePackage (some package) ∈ choices →
    config'.runtimePackage = package
  package_kept : (∀ package, .runtimePackage (some package) ∉ choices) →
    config'.runtimePackage = config.runtimePackage
  name : ∀ name, .contractName (some name) ∈ choices → config'.contractName = some name
  name_kept : (∀ name, .contractName (some name) ∉ choices) →
    config'.contractName = config.contractName

section

variable (choice : Choice)

theorem path?_eq_some (path : Text) :
    choice.path? = some path ↔ choice = .artifactPath (some path) := by
  cases choice <;> simp [Choice.path?]

theorem package?_eq_some (package : Text) :
    choice.package? = some package ↔ choice = .runtimePackage (some package) := by
  cases choice <;> simp [Choice.package?]

theorem name?_eq_some (name : Text) :
    choice.name? = some name ↔ choice = .contractName (some name) := by
  cases choice <;> simp [Choice.name?]

theorem pairs?_eq_some (pairs : List (Text × Text)) :
    choice.pairs? = some pairs ↔ choice = .methodAliases (some pairs) := by
  cases choice <;> simp [Choice.pairs?]

end

/-- A configuration with the choices of overrides in it, and the aliases that it had. -/
def Overrides.over (overrides : Overrides) (config : Config) : Config where
  artifactPath := overrides.artifactPath <|> config.artifactPath
  runtimePackage := overrides.runtimePackage.getD config.runtimePackage
  contractName := overrides.contractName <|> config.contractName
  methodAliases := config.methodAliases

/-- Of choices with different keywords, two with one keyword are the same. -/
theorem eq_of_keyword {choices : List Choice} (hdistinct : (choices.map Choice.keyword).Nodup)
    {α : Type} {make : α → Choice} (hkeyword : ∀ value other, (make value).keyword =
      (make other).keyword) (value other : α) (hvalue : make value ∈ choices)
    (hother : make other ∈ choices) : make value = make other :=
  List.inj_on_of_nodup_map hdistinct hvalue hother (hkeyword value other)

theorem follows_over {choices : List Choice} (hdistinct : (choices.map Choice.keyword).Nodup)
    (config : Config) (pairs : List (Text × Text)) :
    Follows choices config
      { (Overrides.ofChoices choices).over config with methodAliases := pairs } where
  path path hchosen := by
    have hfound := (findSome?_eq_some_iff_mem path?_eq_some
      (eq_of_keyword hdistinct fun _ _ => rfl)).mpr hchosen
    simp [Overrides.over, Overrides.ofChoices, hfound]
  path_kept hnone := by
    have hunset := findSome?_eq_none_of_forall_not_mem path?_eq_some hnone
    simp [Overrides.over, Overrides.ofChoices, hunset]
  package package hchosen := by
    have hfound := (findSome?_eq_some_iff_mem package?_eq_some
      (eq_of_keyword hdistinct fun _ _ => rfl)).mpr hchosen
    simp [Overrides.over, Overrides.ofChoices, hfound]
  package_kept hnone := by
    have hunset := findSome?_eq_none_of_forall_not_mem package?_eq_some hnone
    simp [Overrides.over, Overrides.ofChoices, hunset]
  name name hchosen := by
    have hfound := (findSome?_eq_some_iff_mem name?_eq_some
      (eq_of_keyword hdistinct fun _ _ => rfl)).mpr hchosen
    simp [Overrides.over, Overrides.ofChoices, hfound]
  name_kept hnone := by
    have hunset := findSome?_eq_none_of_forall_not_mem name?_eq_some hnone
    simp [Overrides.over, Overrides.ofChoices, hunset]

section

variable {before pairs entries after after' : List (Text × Text)}

theorem Assigned.unique (h : Assigned before pairs after) (h' : Assigned before pairs after') :
    after = after' := by
  induction h with
  | none =>
    cases h'
    rfl
  | more hform _ _ ih =>
    obtain ⟨form', hform', -, hrest'⟩ := assigned_cons.mp h'
    obtain rfl := Except.ok.inj (hform.symm.trans hform')
    exact ih hrest'

/-- Pairs for other signatures are still there after an assignment. -/
theorem subset_replaceAlias {key : Text} (hfresh : key ∉ entries.map Prod.fst)
    (hentries : entries ⊆ before) (word : Text) : entries ⊆ replaceAlias before key word := by
  intro entry hentry
  have hne : entry.1 ≠ key := by
    rintro rfl
    exact hfresh (List.mem_map_of_mem hentry)
  exact List.mem_append_left _
    (List.mem_filter.mpr ⟨hentries hentry, by simpa using hne⟩)

/-- A pair that is there can only be assigned again if its signature is canonical: else it stays,
and its alias is there twice. -/
theorem Assigned.canonical (h : Assigned before entries after) (hentries : entries ⊆ before)
    (hkeys : (entries.map Prod.fst).Nodup) :
    ∀ entry ∈ entries, Signature.normalize entry.1 = .ok entry.1 := by
  induction entries generalizing before with
  | nil => simp
  | cons entry rest ih =>
    obtain ⟨key, word⟩ := entry
    obtain ⟨hfresh, hkeys'⟩ := List.nodup_cons.mp hkeys
    obtain ⟨form, hform, hwords, hrest⟩ := assigned_cons.mp h
    have hsame : key = form := by
      by_contra hne
      have hkept : (key, word) ∈ before.filter fun pair => pair.1 ≠ form :=
        List.mem_filter.mpr ⟨hentries List.mem_cons_self, by simpa using hne⟩
      rw [replaceAlias, List.map_append, List.nodup_append] at hwords
      exact hwords.2.2 word (List.mem_map_of_mem hkept) word List.mem_cons_self rfl
    subst hsame
    have hentries' := subset_replaceAlias hfresh (List.cons_subset.mp hentries).2 word
    exact List.forall_mem_cons.mpr ⟨hform, ih hrest hentries' hkeys'⟩

/-- Pairs that are there can be assigned again if their signatures are canonical; they then stand
behind the others. -/
theorem assigned_again (hcanonical : ∀ entry ∈ entries, Signature.normalize entry.1 = .ok entry.1)
    (hentries : entries ⊆ before) (hkeys : (entries.map Prod.fst).Nodup)
    (hwords : (before.map Prod.snd).Nodup) :
    Assigned before entries
      (before.filter (fun pair => pair.1 ∉ entries.map Prod.fst) ++ entries) := by
  induction entries generalizing before with
  | nil =>
    rw [List.append_nil, List.filter_eq_self.mpr (by simp)]
    exact .none
  | cons entry rest ih =>
    obtain ⟨key, word⟩ := entry
    obtain ⟨hfresh, hkeys'⟩ := List.nodup_cons.mp hkeys
    obtain ⟨hform, hcanonical'⟩ := List.forall_mem_cons.mp hcanonical
    have hwords' : ((replaceAlias before key word).map Prod.snd).Nodup := by
      rw [replaceAlias, List.map_append, List.nodup_append]
      refine ⟨hwords.sublist (List.filter_sublist.map Prod.snd), List.nodup_singleton _, ?_⟩
      intro kept hmem last hlast heq
      obtain ⟨pair, hpair, rfl⟩ := List.mem_map.mp hmem
      obtain ⟨hold, hne⟩ := List.mem_filter.mp hpair
      have hsame := List.inj_on_of_nodup_map hwords hold (hentries List.mem_cons_self)
        (heq.trans (List.mem_singleton.mp hlast))
      simp [hsame] at hne
    have hentries' := subset_replaceAlias hfresh (List.cons_subset.mp hentries).2 word
    have hlast : (replaceAlias before key word).filter (fun pair => pair.1 ∉ rest.map Prod.fst) =
        before.filter (fun pair => pair.1 ∉ key :: rest.map Prod.fst) ++ [(key, word)] := by
      rw [replaceAlias, List.filter_append, List.filter_filter,
        List.filter_cons_of_pos (by simpa using hfresh), List.filter_nil]
      simp only [List.mem_cons, not_or, Bool.decide_and, Bool.and_comm]
    have hrest := ih hcanonical' hentries' hkeys' hwords'
    rw [hlast, List.append_assoc] at hrest
    exact assigned_cons.mpr ⟨key, hform, hwords', hrest⟩

/-- The mapping of pairs can be assigned to them exactly if all their signatures are canonical, and
then it is all there is. -/
theorem assigned_mapping_iff (hwords : (pairs.map Prod.snd).Nodup) :
    Assigned pairs (Json.putAll [] pairs) after ↔
      (∀ pair ∈ pairs, Signature.normalize pair.1 = .ok pair.1) ∧
        after = Json.putAll [] pairs := by
  have hthere : Json.putAll [] pairs ⊆ pairs := fun pair hpair =>
    (Json.mem_putAll hpair).resolve_left List.not_mem_nil
  have hkeys : ((Json.putAll [] pairs).map Prod.fst).Nodup := Json.nodup_putAll List.nodup_nil
  have hall : ∀ pair ∈ pairs, pair.1 ∈ (Json.putAll [] pairs).map Prod.fst := fun pair hpair =>
    Json.mem_keys_putAll.mpr (.inr (List.mem_map_of_mem hpair))
  have hnone : pairs.filter (fun pair => pair.1 ∉ (Json.putAll [] pairs).map Prod.fst) = [] := by
    rw [List.filter_eq_nil_iff]
    intro pair hpair
    simpa using hall pair hpair
  have hagain (hcanonical : ∀ pair ∈ pairs, Signature.normalize pair.1 = .ok pair.1) :
      Assigned pairs (Json.putAll [] pairs) (Json.putAll [] pairs) := by
    have hassigned := assigned_again (fun pair hpair => hcanonical pair (hthere hpair)) hthere hkeys
      hwords
    rw [hnone, List.nil_append] at hassigned
    exact hassigned
  constructor
  · intro hassigned
    have hcanonical : ∀ pair ∈ pairs, Signature.normalize pair.1 = .ok pair.1 := by
      intro pair hpair
      obtain ⟨entry, hentry, heq⟩ := List.mem_map.mp (hall pair hpair)
      exact heq ▸ hassigned.canonical hthere hkeys entry hentry
    exact ⟨hcanonical, hassigned.unique (hagain hcanonical)⟩
  · rintro ⟨hcanonical, rfl⟩
    exact hagain hcanonical

end

/-- Aliases change nothing else. -/
theorem withAliases_rest {config config' : Config} {pairs : List (Text × Text)}
    (h : config.withAliases pairs = .ok config') :
    config' = { config with methodAliases := config'.methodAliases } := by
  induction pairs generalizing config with
  | nil =>
    cases h
    rfl
  | cons pair rest ih =>
    rw [withAliases, List.foldlM_cons] at h
    obtain ⟨first, hfirst, hrest⟩ := bind_eq_ok.mp h
    obtain ⟨form, -, hnew⟩ := bind_eq_ok.mp hfirst
    rw [ih hrest, eq_of_validated hnew]

section

variable {config : Config} (hconfig : config.validated = .ok config) {overrides : Overrides}
  (hpackage : ∀ package, overrides.runtimePackage = some package → isPackage package = true)
include hconfig hpackage

/-- With an acceptable package, the other choices are made. -/
theorem validated_over : (overrides.over config).validated = .ok (overrides.over config) := by
  obtain ⟨hold, hacceptable, -⟩ := validated_eq_ok.mp hconfig
  refine validated_eq_ok.mpr ⟨?_, hacceptable, rfl⟩
  rw [Overrides.over]
  cases hchosen : overrides.runtimePackage with
  | none => exact hold
  | some package => exact hpackage package hchosen

/-- Overrides without aliases are accepted exactly if all aliases are for canonical signatures. -/
theorem withOverrides_eq_ok (haliases : overrides.methodAliases = none) {config' : Config} :
    config.withOverrides overrides = .ok config' ↔
      (∀ pair ∈ config.methodAliases, Signature.normalize pair.1 = .ok pair.1) ∧
        config' = { overrides.over config with methodAliases := config.aliases } := by
  have hover := validated_over hconfig hpackage
  obtain ⟨-, hacceptable, -⟩ := validated_eq_ok.mp hconfig
  have hsteps : config.withOverrides overrides =
      (overrides.over config).withAliases config.aliases := by
    change ((overrides.over config).validated >>= fun replaced =>
      replaced.withAliases (overrides.methodAliases.getD config.aliases)) = _
    rw [hover, haliases, ok_bind, Option.getD_none]
  have hassign {after : Config}
      (h : (overrides.over config).withAliases config.aliases = .ok after) :
      Assigned config.methodAliases config.aliases after.methodAliases := by
    have hassigned := assigned_withAliases h
    exact hassigned
  rw [hsteps]
  constructor
  · intro h
    obtain ⟨hcanonical, hafter⟩ := (assigned_mapping_iff hacceptable.distinct).mp (hassign h)
    refine ⟨hcanonical, ?_⟩
    rw [withAliases_rest h, hafter]
    rfl
  · rintro ⟨hcanonical, rfl⟩
    have hassigned := (assigned_mapping_iff hacceptable.distinct).mpr ⟨hcanonical, rfl⟩
    have hwords : ∀ pair ∈ config.aliases, isAlias pair.2 = true := fun pair hpair =>
      hacceptable.words pair ((Json.mem_putAll hpair).resolve_left List.not_mem_nil)
    obtain ⟨after, h⟩ := (assignsEach_config.exists_foldlM_iff hover).mpr ⟨hwords, _, hassigned⟩
    have hafter := (hassign h).unique hassigned
    rw [show (overrides.over config).withAliases config.aliases = .ok after from h,
      withAliases_rest h, hafter]
    rfl

end

/-- Overrides that make no choice of aliases, with an acceptable package if they choose one, are
accepted exactly if all aliases of the configuration are for canonical signatures. The new
configuration has what they choose and keeps the rest; the aliases are those of the mapping, so
they stay as they were exactly if no signature has two. -/
theorem withOverrides_keeps_iff {config : Config} (hconfig : config.validated = .ok config)
    {choices : List Choice} (hdistinct : (choices.map Choice.keyword).Nodup)
    (hpackage : ∀ package, .runtimePackage (some package) ∈ choices → isPackage package = true)
    (haliases : ∀ pairs, .methodAliases (some pairs) ∉ choices) :
    ((∃ config', config.withOverrides (.ofChoices choices) = .ok config') ↔
      ∀ pair ∈ config.methodAliases, Signature.normalize pair.1 = .ok pair.1) ∧
    ∀ config', config.withOverrides (.ofChoices choices) = .ok config' →
      Follows choices config config' ∧ config'.methodAliases = config.aliases ∧
        (config'.methodAliases = config.methodAliases ↔
          (config.methodAliases.map Prod.fst).Nodup) := by
  have hchosen : ∀ package, (Overrides.ofChoices choices).runtimePackage = some package →
      isPackage package = true := by
    intro package hfound
    exact hpackage package ((findSome?_eq_some_iff_mem package?_eq_some
      (eq_of_keyword hdistinct fun _ _ => rfl)).mp hfound)
  have hnone : (Overrides.ofChoices choices).methodAliases = none :=
    findSome?_eq_none_of_forall_not_mem pairs?_eq_some haliases
  simp only [withOverrides_eq_ok hconfig hchosen hnone]
  constructor
  · exact ⟨fun ⟨_, hcanonical, _⟩ => hcanonical, fun hcanonical => ⟨_, hcanonical, rfl⟩⟩
  · rintro config' ⟨-, rfl⟩
    refine ⟨follows_over hdistinct config config.aliases, rfl, ?_, aliases_of_nodup⟩
    intro hsame
    have hkeys : ((Json.putAll [] config.methodAliases).map Prod.fst).Nodup :=
      Json.nodup_putAll List.nodup_nil
    exact hsame ▸ hkeys

/-- With an alias for a canonical signature, another package can be chosen, and the rest stays. -/
theorem withOverrides_keeps_iff_package :
    ∃ config', (Config.mk (some "a.json") "ethcontract" none [("f(uint256)", "g")]).withOverrides
        (.ofChoices [.runtimePackage (some "runtime"), .contractName none, .foreign "legacy"]) =
          .ok config' ∧
      config'.runtimePackage = "runtime" ∧ config'.artifactPath = some "a.json" ∧
      config'.methodAliases = ([("f(uint256)", "g")] : List (Text × Text)) := by
  have hconfig : (Config.mk (some "a.json") "ethcontract" none [("f(uint256)", "g")]).validated =
      .ok ⟨some "a.json", "ethcontract", none, [("f(uint256)", "g")]⟩ := rfl
  have hdistinct : ([.runtimePackage (some "runtime"), .contractName none,
      .foreign "legacy"].map Choice.keyword).Nodup := by decide
  have hpackage (package : Text) (h : .runtimePackage (some package) ∈
      [.runtimePackage (some "runtime"), .contractName none, Choice.foreign "legacy"]) :
      isPackage package = true := by
    obtain rfl : package = "runtime" := by simpa using h
    rfl
  obtain ⟨hdone, hkept⟩ := withOverrides_keeps_iff hconfig hdistinct hpackage (by simp)
  obtain ⟨config', hconfig'⟩ := hdone.mpr (List.forall_mem_singleton.mpr rfl)
  obtain ⟨hfollows, haliases, -⟩ := hkept config' hconfig'
  exact ⟨config', hconfig', hfollows.package _ (by simp), hfollows.path_kept (by simp), haliases⟩

/-- An alias of a signature that is not canonical passes the check of a configuration, and then
clashes with itself under overrides that choose nothing. -/
theorem exists_override_refused :
    (Config.mk none "ethcontract" none [("f(uint)", "g")]).validated =
      .ok ⟨none, "ethcontract", none, [("f(uint)", "g")]⟩ ∧
    (Config.mk none "ethcontract" none [("f(uint)", "g")]).withOverrides (.ofChoices []) =
      .error (.config (.aliasReused "g" "f(uint)" "f(uint256)")) :=
  ⟨rfl, rfl⟩

end AbiBindings.Config
