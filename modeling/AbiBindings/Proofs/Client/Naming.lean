import AbiBindings.Proofs.Client.Image
import AbiBindings.Proofs.Identifier.Words

/-!
The names in a module. Methods and records go by words. The fields of each list have names of their
own that methods leave free, also where the indexed fields of an event stand in front of the others.
-/

namespace AbiBindings.Client

open Identifier (AreParamNames IsWord)
open Outcome

structure Assembles (contract : Contract) (package : Text) (name : Option Text) (client : Client) :
    Prop where
  names : nameAndIdentifier contract name = (client.contractName, client.identifier)
  package : client.runtimePackage = package
  inputs : fieldsOf contract.constructorInputs = .ok client.constructor.inputs
  methods : contract.functions.mapM methodOf = .ok client.methods
  events : contract.events.mapM eventRecordOf = .ok client.events
  errors : contract.errors.mapM errorRecordOf = .ok client.errors
  deployment : client.deployment = deploymentOf contract.artifact

theorem assembles_ofContract {contract : Contract} {package : Text} {name : Option Text}
    {client : Client} (h : ofContract contract package name = .ok client) :
    Assembles contract package name client := by
  simp only [ofContract, bind_eq_ok, pure_eq_ok, Except.ok.injEq] at h
  obtain ⟨inputs, hinputs, methods, hmethods, events, hevents, errors, herrors, rfl⟩ := h
  exact ⟨rfl, rfl, hinputs, hmethods, hevents, herrors, rfl⟩

def identifiers (fields : List Field) : List Text := fields.map Field.identifier

theorem identifiers_fieldsOf {params : List NamedParam} {fields : List Field}
    (h : fieldsOf params = .ok fields) :
    identifiers fields = params.map NamedParam.identifier := by
  refine map_eq_of_forall₂ ?_ (mapM_eq_ok.mp h)
  intro param field hof
  obtain ⟨binding, -, hdone⟩ := bind_eq_ok.mp hof
  cases hdone
  rfl

theorem isWord_of_mem_map {ν : Type} {records : List ν} {identifierOf : ν → Text} {snake : Bool}
    {reserved : List Text} {aliases : List (Text × Text)} {entries : List Identifier.Named}
    (h : records.map identifierOf = Identifier.assign snake reserved aliases entries) :
    ∀ record ∈ records, IsWord (identifierOf record) := by
  intro record hrecord
  have hmem := List.mem_map_of_mem (f := identifierOf) hrecord
  rw [h] at hmem
  exact Identifier.isWord_of_mem_assign hmem

/-- A module in which the fields of each list have names of their own, and free ones. -/
structure Scoped (client : Client) : Prop where
  identifier : IsWord client.identifier
  inputs : AreParamNames (identifiers client.constructor.inputs)
  methods : ∀ m ∈ client.methods, IsWord m.identifier ∧
    AreParamNames (identifiers m.inputs) ∧ AreParamNames (identifiers m.outputs)
  events : ∀ e ∈ client.events, IsWord e.identifier ∧
    AreParamNames (identifiers (e.topicFields ++ e.dataFields))
  errors : ∀ e ∈ client.errors, IsWord e.identifier ∧ AreParamNames (identifiers e.fields)

/-- Fields of an event stand in another order than its inputs, but none is lost or new. -/
theorem perm_identifiers {inputs : List NamedParam} {topics data : List Field}
    (htopics : fieldsOf (inputs.filter fun p => p.declared.indexed) = .ok topics)
    (hdata : fieldsOf (inputs.filter fun p => !p.declared.indexed) = .ok data) :
    (inputs.map NamedParam.identifier).Perm (identifiers (topics ++ data)) := by
  have happend : identifiers (topics ++ data) = identifiers topics ++ identifiers data :=
    List.map_append
  rw [happend, identifiers_fieldsOf htopics, identifiers_fieldsOf hdata, ← List.map_append]
  exact ((List.filter_append_perm _ inputs).map _).symm

/-- Whichever name a module has, its identifier is made of that name. -/
theorem identifier_ofContract {artifact : Artifact} {aliases : List (Text × Text)}
    {contract : Contract} (hcontract : Contract.ofArtifact artifact aliases = .ok contract)
    {package : Text} {name : Option Text} {client : Client}
    (h : ofContract contract package name = .ok client) :
    client.identifier = Contract.identifierOf client.contractName := by
  have hown : contract.identifier = Contract.identifierOf contract.artifact.name := by
    obtain ⟨-, -, -, -, -, -, -, rfl⟩ := Contract.ofArtifact_eq_ok.mp hcontract
    rfl
  have hnames : (nameAndIdentifier contract name).2 =
      Contract.identifierOf (nameAndIdentifier contract name).1 := by
    cases name with
    | none => exact hown
    | some given =>
      rw [nameAndIdentifier]
      split
      · exact hown
      · rfl
  rwa [(assembles_ofContract h).names] at hnames

theorem scoped_ofContract {artifact : Artifact} {aliases : List (Text × Text)}
    {contract : Contract} (hcontract : Contract.ofArtifact artifact aliases = .ok contract)
    {package : Text} {name : Option Text} {client : Client}
    (h : ofContract contract package name = .ok client) : client.Scoped := by
  have hmade := assembles_ofContract h
  have hidentifier : IsWord client.identifier := by
    rw [identifier_ofContract hcontract h]
    exact Identifier.isWord_sanitize _ _ _
  have hparams := Contract.areParamNames_ofArtifact hcontract
  have hfunctions := isWord_of_mem_map (Contract.functions_ofArtifact hcontract).2
  have hlogged := isWord_of_mem_map (Contract.events_ofArtifact hcontract).2
  have hreverted := isWord_of_mem_map (Contract.errors_ofArtifact hcontract).2
  simp only [Contract.paramLists, List.forall_mem_append, List.forall_mem_cons,
    List.forall_mem_map] at hparams
  obtain ⟨⟨⟨hconstructor, hinputs⟩, hevents⟩, herrors⟩ := hparams
  refine ⟨hidentifier, ?inputs, ?methods, ?events, ?errors⟩
  case inputs =>
    rw [identifiers_fieldsOf hmade.inputs]
    exact hconstructor
  case methods =>
    intro m hm
    obtain ⟨f, hf, hof⟩ := exists_of_forall₂ (mapM_eq_ok.mp hmade.methods) hm
    have hlist {params : List NamedParam} (hmem : params ∈ [f.inputs, f.outputs]) :=
      hinputs params (List.mem_flatMap.mpr ⟨f, hf, hmem⟩)
    simp only [methodOf, bind_eq_ok, pure_eq_ok, Except.ok.injEq] at hof
    obtain ⟨fields, hfields, outputs, houtputs, rfl⟩ := hof
    rw [identifiers_fieldsOf hfields, identifiers_fieldsOf houtputs]
    exact ⟨hfunctions f hf, hlist (by simp), hlist (by simp)⟩
  case events =>
    intro r hr
    obtain ⟨e, he, hof⟩ := exists_of_forall₂ (mapM_eq_ok.mp hmade.events) hr
    simp only [eventRecordOf, bind_eq_ok, pure_eq_ok, Except.ok.injEq] at hof
    obtain ⟨topics, htopics, data, hdata, rfl⟩ := hof
    exact ⟨hlogged e he, (hevents e he).perm (perm_identifiers htopics hdata)⟩
  case errors =>
    intro r hr
    obtain ⟨e, he, hof⟩ := exists_of_forall₂ (mapM_eq_ok.mp hmade.errors) hr
    simp only [errorRecordOf, bind_eq_ok, pure_eq_ok, Except.ok.injEq] at hof
    obtain ⟨fields, hfields, rfl⟩ := hof
    rw [identifiers_fieldsOf hfields]
    exact ⟨hreverted e he, herrors e he⟩

end AbiBindings.Client
