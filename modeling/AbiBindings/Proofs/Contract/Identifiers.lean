import AbiBindings.Proofs.Contract.Naming
import AbiBindings.Proofs.Identifier.Mangling

/-!
The identifiers of a contract. Whatever text its names and its aliases are, every function, event
and error has one identifier, no two of a kind share one, and each can stand where it is generated.
Two underscores in front, which change what a name in a class body means, come up only where two
entries of a kind show nothing but underscores.
-/

namespace AbiBindings.Contract

open Identifier

/-- Entries that have one identifier each: all different, and all usable. -/
structure IsNamespace {ε : Type} (reserved : List Text) (entries : List ε)
    (named : List (ε × Text)) : Prop where
  entries_eq : named.map Prod.fst = entries
  distinct : (named.map Prod.snd).Nodup
  usable : ∀ p ∈ named, Usable reserved p.2

section

variable {ε ν : Type} {snake : Bool} {reserved : List Text} {aliases : List (Text × Text)}
variable {entries : List ε} {toNamed : ε → Named}
variable {records : List ν} {entryOf : ν → ε} {identifierOf : ν → Text}

/-- Records that get assigned identifiers are a namespace. -/
theorem isNamespace_assign (hreserved : ∀ t ∈ reserved, EndsInLetter t)
    (hentries : records.map entryOf = entries)
    (hidentifiers : records.map identifierOf =
      assign snake reserved aliases (entries.map toNamed)) :
    IsNamespace reserved entries (records.map fun n => (entryOf n, identifierOf n)) := by
  refine ⟨?_, ?_, ?_⟩
  · rw [List.map_map]
    exact hentries
  · rw [List.map_map]
    exact hidentifiers ▸ nodup_assign snake reserved aliases (entries.map toNamed)
  · intro p hp
    obtain ⟨n, hn, rfl⟩ := List.mem_map.mp hp
    have hmem : identifierOf n ∈ assign snake reserved aliases (entries.map toNamed) := by
      rw [← hidentifiers]
      exact List.mem_map_of_mem hn
    exact usable_of_mem_assign hreserved hmem

/-- Each record stands with its own entry among the entries and their identifiers. -/
theorem mem_zip_assign (hentries : records.map entryOf = entries)
    (hidentifiers : records.map identifierOf =
      assign snake reserved aliases (entries.map toNamed)) {n : ν} (hn : n ∈ records) :
    (toNamed (entryOf n), identifierOf n) ∈
      (entries.map toNamed).zip (assign snake reserved aliases (entries.map toNamed)) := by
  rw [← hidentifiers, ← hentries, List.map_map, List.zip_map']
  exact List.mem_map_of_mem (f := fun n => (toNamed (entryOf n), identifierOf n)) hn

theorem startsWith_records_iff (hreserved : ∀ t ∈ reserved, EndsInLetter t)
    (hidentifiers : records.map identifierOf =
      assign snake reserved aliases (entries.map toNamed)) :
    (∀ n ∈ records, Text.startsWith (identifierOf n) "__" = false) ↔
      entries.countP (fun entry => isBareEntry snake aliases (toNamed entry)) ≤ 1 := by
  have hassign := assign_startsWith_iff hreserved snake aliases (entries.map toNamed)
  rw [← hidentifiers, List.forall_mem_map, List.countP_map] at hassign
  exact hassign

end

section

variable {artifact : Artifact} {aliases : List (Text × Text)} {contract : Contract}

/-- Every function, event and error of the artifact has one identifier, in the order of the
artifact. Within each kind the identifiers are all different, and each has the form of an
identifier and is neither a keyword nor reserved. Those of functions without an alias have no
capitals. -/
theorem ofArtifact_identifiers (h : ofArtifact artifact aliases = .ok contract) :
    IsNamespace reservedForMethods artifact.functions
        (contract.functions.map fun f => (f.entry, f.identifier)) ∧
      IsNamespace reservedForRecords artifact.events
        (contract.events.map fun e => (e.entry, e.identifier)) ∧
      IsNamespace reservedForRecords artifact.errors
        (contract.errors.map fun e => (e.entry, e.identifier)) ∧
      ∀ f ∈ contract.functions, Json.lookup aliases (signatureOfFunction f.entry) = none →
        ∀ c ∈ f.identifier, c.isUpper = false := by
  obtain ⟨hfunctions, hmethods⟩ := functions_ofArtifact h
  obtain ⟨hevents, hlogged⟩ := events_ofArtifact h
  obtain ⟨herrors, hreverted⟩ := errors_ofArtifact h
  refine ⟨?_, ?_, ?_, ?_⟩
  · exact isNamespace_assign endsInLetter_of_mem_reservedForMethods hfunctions hmethods
  · exact isNamespace_assign endsInLetter_of_mem_reservedForRecords hevents hlogged
  · exact isNamespace_assign endsInLetter_of_mem_reservedForRecords herrors hreverted
  · intro f hf hnone c hc
    exact isUpper_of_mem_zip_assign (mem_zip_assign hfunctions hmethods hf) hnone hc

/-- An alias that is reserved, names that are one in snake case, a name without any letter and a
keyword. -/
def clashing : Artifact where
  name := "Clashing"
  abi := [.function ⟨0, "ping", [], [], .view⟩, .function ⟨1, "getX", [], [], .view⟩,
    .function ⟨2, "get_x", [], [], .view⟩, .event ⟨3, "é", [], false⟩, .error ⟨4, "class", []⟩]
  bytecode := none
  deployments := []

theorem ofArtifact_identifiers_clashing :
    ∃ contract, ofArtifact clashing [("ping()", "deploy")] = .ok contract ∧
      IsNamespace reservedForMethods clashing.functions
        (contract.functions.map fun f => (f.entry, f.identifier)) ∧
      IsNamespace reservedForRecords clashing.events
        (contract.events.map fun e => (e.entry, e.identifier)) ∧
      IsNamespace reservedForRecords clashing.errors
        (contract.errors.map fun e => (e.entry, e.identifier)) ∧
      ∀ f ∈ contract.functions,
        Json.lookup [("ping()", ("deploy" : Text))] (signatureOfFunction f.entry) = none →
          ∀ c ∈ f.identifier, c.isUpper = false := by
  obtain ⟨contract, h⟩ : ∃ contract, ofArtifact clashing [("ping()", "deploy")] = .ok contract :=
    ⟨_, rfl⟩
  exact ⟨contract, h, ofArtifact_identifiers h⟩

example : identifiersOfFunctions [("ping()", "deploy")] clashing.functions =
    [("deploy_" : Text), "get_x", "get_x_1"] := by decide

/-- Within a kind, no identifier has two underscores in front exactly when at most one entry shows
nothing else: an entry whose alias, or whose name if it has none, has no code point that an
identifier keeps as a letter or a digit. -/
theorem ofArtifact_startsWith_iff (h : ofArtifact artifact aliases = .ok contract) :
    ((∀ f ∈ contract.functions, Text.startsWith f.identifier "__" = false) ↔
        artifact.functions.countP
          (fun entry => isBareEntry true aliases (namedOfFunction entry)) ≤ 1) ∧
      ((∀ e ∈ contract.events, Text.startsWith e.identifier "__" = false) ↔
        artifact.events.countP (fun entry => isBare false entry.name) ≤ 1) ∧
      ((∀ e ∈ contract.errors, Text.startsWith e.identifier "__" = false) ↔
        artifact.errors.countP (fun entry => isBare false entry.name) ≤ 1) := by
  obtain ⟨-, hmethods⟩ := functions_ofArtifact h
  obtain ⟨-, hlogged⟩ := events_ofArtifact h
  obtain ⟨-, hreverted⟩ := errors_ofArtifact h
  refine ⟨?_, ?_, ?_⟩
  · exact startsWith_records_iff endsInLetter_of_mem_reservedForMethods hmethods
  · exact startsWith_records_iff endsInLetter_of_mem_reservedForRecords hlogged
  · exact startsWith_records_iff endsInLetter_of_mem_reservedForRecords hreverted

/-- Two overloads of a function that is called by the underscore. -/
def underscores : Artifact where
  name := "Underscores"
  abi := [.function ⟨0, "_", [], [], .nonpayable⟩,
    .function ⟨1, "_", [⟨[], .elementary (.bool none), false, none⟩], [], .nonpayable⟩]
  bytecode := none
  deployments := []

theorem ofArtifact_startsWith_iff_underscores :
    ∃ contract, ofArtifact underscores [] = .ok contract ∧
      ((∀ f ∈ contract.functions, Text.startsWith f.identifier "__" = false) ↔
        underscores.functions.countP
          (fun entry => isBareEntry true [] (namedOfFunction entry)) ≤ 1) ∧
      ((∀ e ∈ contract.events, Text.startsWith e.identifier "__" = false) ↔
        underscores.events.countP (fun entry => isBare false entry.name) ≤ 1) ∧
      ((∀ e ∈ contract.errors, Text.startsWith e.identifier "__" = false) ↔
        underscores.errors.countP (fun entry => isBare false entry.name) ≤ 1) := by
  obtain ⟨contract, h⟩ : ∃ contract, ofArtifact underscores [] = .ok contract := ⟨_, rfl⟩
  exact ⟨contract, h, ofArtifact_startsWith_iff h⟩

/-- The second of the overloads is numbered after its underscore. -/
theorem exists_startsWith_underscores :
    ¬ ∀ artifact aliases contract, ofArtifact artifact aliases = .ok contract →
      (∀ f ∈ contract.functions, Text.startsWith f.identifier "__" = false) ∧
        (∀ e ∈ contract.events, Text.startsWith e.identifier "__" = false) ∧
        (∀ e ∈ contract.errors, Text.startsWith e.identifier "__" = false) := by
  intro hall
  obtain ⟨contract, h⟩ : ∃ contract, ofArtifact underscores [] = .ok contract := ⟨_, rfl⟩
  obtain ⟨hmethods, -, -⟩ := hall underscores [] contract h
  have hidentifiers : contract.functions.map NamedFunction.identifier = [("_" : Text), "__1"] :=
    (functions_ofArtifact h).2.trans (by decide)
  have hsecond : ("__1" : Text) ∈ contract.functions.map NamedFunction.identifier := by
    rw [hidentifiers]
    decide
  obtain ⟨f, hf, heq⟩ := List.mem_map.mp hsecond
  have hstart := hmethods f hf
  rw [heq] at hstart
  exact absurd hstart (by decide)

end

end AbiBindings.Contract
