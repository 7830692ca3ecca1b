import AbiBindings.Contract
import AbiBindings.Proofs.Identifier.Assign
import AbiBindings.Proofs.Outcome

/-!
What a contract is named from. When naming succeeds, every entry of the artifact has its own
record, in the order of the artifact, with the identifier that its place in the namespace gives it.
-/

namespace AbiBindings.Contract

open Outcome

theorem nameFunction_eq_ok {entry : FunctionEntry} {identifier : Text} {named : NamedFunction} :
    nameFunction entry identifier = .ok named ↔
      ∃ selector, Signature.selector (signatureOfFunction entry) = .ok selector ∧
        ⟨entry, identifier, signatureOfFunction entry, selector,
          NamedParam.ofInputs entry.inputs, NamedParam.ofOutputs entry.outputs⟩ = named := by
  simp only [nameFunction, bind_eq_ok, pure_eq_ok, Except.ok.injEq]

def topicOf (entry : EventEntry) : Except Fault (Option Text) :=
  if entry.anonymous then pure none else some <$> Signature.topic (signatureOfEvent entry)

theorem nameEvent_eq_ok {entry : EventEntry} {identifier : Text} {named : NamedEvent} :
    nameEvent entry identifier = .ok named ↔
      ∃ topic, topicOf entry = .ok topic ∧
        ⟨entry, identifier, signatureOfEvent entry, topic,
          NamedParam.ofInputs entry.inputs⟩ = named := by
  rw [nameEvent, topicOf]
  split <;> simp only [bind_eq_ok, pure_eq_ok, Except.ok.injEq]

theorem nameError_eq_ok {entry : ErrorEntry} {identifier : Text} {named : NamedError} :
    nameError entry identifier = .ok named ↔
      ∃ selector, Signature.selector (signatureOfError entry) = .ok selector ∧
        ⟨entry, identifier, signatureOfError entry, selector,
          NamedParam.ofInputs entry.inputs⟩ = named := by
  simp only [nameError, bind_eq_ok, pure_eq_ok, Except.ok.injEq]

theorem hash_fault {signature : Text} {fault : Fault}
    (h : Signature.hash signature = .error fault) : ∃ place, fault = .unencodable place := by
  rw [Signature.hash] at h
  cases hencode : Text.encode signature with
  | ok bytes =>
    rw [hencode] at h
    cases h
  | error place =>
    rw [hencode] at h
    exact ⟨place, (Except.error.inj h).symm⟩

theorem selector_fault {signature : Text} {fault : Fault}
    (h : Signature.selector signature = .error fault) : ∃ place, fault = .unencodable place := by
  rcases bind_eq_error.mp h with hhash | ⟨bytes, -, hdone⟩
  · exact hash_fault hhash
  · cases hdone

theorem topicOf_fault {entry : EventEntry} {fault : Fault}
    (h : topicOf entry = .error fault) : ∃ place, fault = .unencodable place := by
  rw [topicOf] at h
  split at h
  · cases h
  · rw [← bind_pure_comp] at h
    rcases bind_eq_error.mp h with htopic | ⟨topic, -, hdone⟩
    · rcases bind_eq_error.mp htopic with hhash | ⟨bytes, -, hdone⟩
      · exact hash_fault hhash
      · cases hdone
    · cases hdone

theorem nameFunction_fault {entry : FunctionEntry} {identifier : Text} {fault : Fault}
    (h : nameFunction entry identifier = .error fault) : ∃ place, fault = .unencodable place := by
  rcases bind_eq_error.mp h with hselector | ⟨selector, -, hdone⟩
  · exact selector_fault hselector
  · cases hdone

theorem nameEvent_fault {entry : EventEntry} {identifier : Text} {fault : Fault}
    (h : nameEvent entry identifier = .error fault) : ∃ place, fault = .unencodable place := by
  have hbind : nameEvent entry identifier = topicOf entry >>= fun topic =>
      pure ⟨entry, identifier, signatureOfEvent entry, topic,
        NamedParam.ofInputs entry.inputs⟩ := by
    rw [nameEvent, topicOf]
    split <;> rfl
  rw [hbind] at h
  rcases bind_eq_error.mp h with htopic | ⟨topic, -, hdone⟩
  · exact topicOf_fault htopic
  · cases hdone

theorem nameError_fault {entry : ErrorEntry} {identifier : Text} {fault : Fault}
    (h : nameError entry identifier = .error fault) : ∃ place, fault = .unencodable place := by
  rcases bind_eq_error.mp h with hselector | ⟨selector, -, hdone⟩
  · exact selector_fault hselector
  · cases hdone

section

variable {artifact : Artifact} {aliases : List (Text × Text)} {contract : Contract}

theorem ofArtifact_eq_ok :
    ofArtifact artifact aliases = .ok contract ↔
      checkAllDuplicates artifact = .ok () ∧
      ∃ functions, ((artifact.functions.zip (functionIdentifiers aliases
          (signedFunctions artifact))).mapM fun p => nameFunction p.1 p.2) = .ok functions ∧
      ∃ events, ((artifact.events.zip (recordIdentifiers
          (signedEvents artifact))).mapM fun p => nameEvent p.1 p.2) = .ok events ∧
      ∃ errors, ((artifact.errors.zip (recordIdentifiers
          (signedErrors artifact))).mapM fun p => nameError p.1 p.2) = .ok errors ∧
      ⟨artifact, identifierOf artifact.name,
        NamedParam.ofInputs ((artifact.constructor?.map ConstructorEntry.inputs).getD []),
        functions, events, errors⟩ = contract := by
  rw [ofArtifact]
  simp only [bind_eq_ok, pure_eq_ok, Except.ok.injEq]
  constructor
  · rintro ⟨⟨⟩, hdistinct, hnamed⟩
    exact ⟨hdistinct, hnamed⟩
  · rintro ⟨hdistinct, hnamed⟩
    exact ⟨(), hdistinct, hnamed⟩

/-- Naming fails as the check for duplicates does, or for text without an encoding. -/
theorem ofArtifact_fault {fault : Fault} (h : ofArtifact artifact aliases = .error fault) :
    checkAllDuplicates artifact = .error fault ∨ ∃ place, fault = .unencodable place := by
  rcases bind_eq_error.mp h with hduplicate | ⟨-, -, hnaming⟩
  · exact .inl hduplicate
  right
  rcases bind_eq_error.mp hnaming with hfunctions | ⟨functions, -, hnaming⟩
  · obtain ⟨p, -, hp⟩ := exists_of_mapM_eq_error hfunctions
    exact nameFunction_fault hp
  rcases bind_eq_error.mp hnaming with hevents | ⟨events, -, hnaming⟩
  · obtain ⟨p, -, hp⟩ := exists_of_mapM_eq_error hevents
    exact nameEvent_fault hp
  rcases bind_eq_error.mp hnaming with herrors | ⟨errors, -, hdone⟩
  · obtain ⟨p, -, hp⟩ := exists_of_mapM_eq_error herrors
    exact nameError_fault hp
  · cases hdone

end

def namedOfFunction (entry : FunctionEntry) : Identifier.Named :=
  ⟨entry.name, signatureOfFunction entry⟩

def namedOfEvent (entry : EventEntry) : Identifier.Named := ⟨entry.name, signatureOfEvent entry⟩

def namedOfError (entry : ErrorEntry) : Identifier.Named := ⟨entry.name, signatureOfError entry⟩

def identifiersOfFunctions (aliases : List (Text × Text)) (entries : List FunctionEntry) :
    List Text :=
  Identifier.assign true Identifier.reservedForMethods aliases (entries.map namedOfFunction)

def identifiersOfEvents (entries : List EventEntry) : List Text :=
  Identifier.assign false Identifier.reservedForRecords [] (entries.map namedOfEvent)

def identifiersOfErrors (entries : List ErrorEntry) : List Text :=
  Identifier.assign false Identifier.reservedForRecords [] (entries.map namedOfError)

section

variable {ε ν : Type} {f : ε × Text → Except Fault ν} {entryOf : ν → ε} {identifierOf : ν → Text}

/-- Records that keep their entry and identifier have the entries and the identifiers they were
made from. -/
theorem map_of_zip_mapM_eq_ok
    (hf : ∀ p named, f p = .ok named → (entryOf named, identifierOf named) = p)
    {entries : List ε} {identifiers : List Text} (hlength : identifiers.length = entries.length)
    {records : List ν} (h : (entries.zip identifiers).mapM f = .ok records) :
    records.map entryOf = entries ∧ records.map identifierOf = identifiers := by
  have hmap := map_of_mapM_eq_ok (g := fun named => (entryOf named, identifierOf named)) hf h
  constructor
  · rw [← List.map_fst_zip (Nat.le_of_eq hlength.symm), ← hmap, List.map_map]
    rfl
  · rw [← List.map_snd_zip (Nat.le_of_eq hlength), ← hmap, List.map_map]
    rfl

end

section

variable {artifact : Artifact} {aliases : List (Text × Text)} {contract : Contract}

theorem functions_ofArtifact (h : ofArtifact artifact aliases = .ok contract) :
    contract.functions.map NamedFunction.entry = artifact.functions ∧
      contract.functions.map NamedFunction.identifier =
        identifiersOfFunctions aliases artifact.functions := by
  obtain ⟨-, functions, hfunctions, -, -, -, -, rfl⟩ := ofArtifact_eq_ok.mp h
  rw [functionIdentifiers, signedFunctions, List.map_map] at hfunctions
  apply map_of_zip_mapM_eq_ok _ _ hfunctions
  · intro p named hnamed
    obtain ⟨selector, -, rfl⟩ := nameFunction_eq_ok.mp hnamed
    rfl
  · rw [Identifier.length_assign, List.length_map]

theorem events_ofArtifact (h : ofArtifact artifact aliases = .ok contract) :
    contract.events.map NamedEvent.entry = artifact.events ∧
      contract.events.map NamedEvent.identifier = identifiersOfEvents artifact.events := by
  obtain ⟨-, -, -, events, hevents, -, -, rfl⟩ := ofArtifact_eq_ok.mp h
  rw [recordIdentifiers, signedEvents, List.map_map] at hevents
  apply map_of_zip_mapM_eq_ok _ _ hevents
  · intro p named hnamed
    obtain ⟨topic, -, rfl⟩ := nameEvent_eq_ok.mp hnamed
    rfl
  · rw [Identifier.length_assign, List.length_map]

theorem errors_ofArtifact (h : ofArtifact artifact aliases = .ok contract) :
    contract.errors.map NamedError.entry = artifact.errors ∧
      contract.errors.map NamedError.identifier = identifiersOfErrors artifact.errors := by
  obtain ⟨-, -, -, -, -, errors, herrors, rfl⟩ := ofArtifact_eq_ok.mp h
  rw [recordIdentifiers, signedErrors, List.map_map] at herrors
  apply map_of_zip_mapM_eq_ok _ _ herrors
  · intro p named hnamed
    obtain ⟨selector, -, rfl⟩ := nameError_eq_ok.mp hnamed
    rfl
  · rw [Identifier.length_assign, List.length_map]

/-- What is named are the entries of the artifact, kind by kind and in order. -/
structure NamesEntriesOf (artifact : Artifact) (contract : Contract) : Prop where
  functions : contract.functions.map NamedFunction.entry = artifact.functions
  events : contract.events.map NamedEvent.entry = artifact.events
  errors : contract.errors.map NamedError.entry = artifact.errors

theorem namesEntriesOf_ofArtifact (h : ofArtifact artifact aliases = .ok contract) :
    NamesEntriesOf artifact contract :=
  ⟨(functions_ofArtifact h).1, (events_ofArtifact h).1, (errors_ofArtifact h).1⟩

theorem exists_nameFunction (h : ofArtifact artifact aliases = .ok contract) :
    ∀ f ∈ contract.functions, ∃ identifier, nameFunction f.entry identifier = .ok f := by
  obtain ⟨-, functions, hfunctions, -, -, -, -, rfl⟩ := ofArtifact_eq_ok.mp h
  intro f hf
  obtain ⟨p, -, hnamed⟩ := exists_of_forall₂ (mapM_eq_ok.mp hfunctions) hf
  obtain ⟨selector, -, rfl⟩ := nameFunction_eq_ok.mp hnamed
  exact ⟨p.2, hnamed⟩

theorem exists_nameEvent (h : ofArtifact artifact aliases = .ok contract) :
    ∀ e ∈ contract.events, ∃ identifier, nameEvent e.entry identifier = .ok e := by
  obtain ⟨-, -, -, events, hevents, -, -, rfl⟩ := ofArtifact_eq_ok.mp h
  intro e he
  obtain ⟨p, -, hnamed⟩ := exists_of_forall₂ (mapM_eq_ok.mp hevents) he
  obtain ⟨topic, -, rfl⟩ := nameEvent_eq_ok.mp hnamed
  exact ⟨p.2, hnamed⟩

theorem exists_nameError (h : ofArtifact artifact aliases = .ok contract) :
    ∀ e ∈ contract.errors, ∃ identifier, nameError e.entry identifier = .ok e := by
  obtain ⟨-, -, -, -, -, errors, herrors, rfl⟩ := ofArtifact_eq_ok.mp h
  intro e he
  obtain ⟨p, -, hnamed⟩ := exists_of_forall₂ (mapM_eq_ok.mp herrors) he
  obtain ⟨selector, -, rfl⟩ := nameError_eq_ok.mp hnamed
  exact ⟨p.2, hnamed⟩

end

end AbiBindings.Contract
