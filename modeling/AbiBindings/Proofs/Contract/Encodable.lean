import AbiBindings.Proofs.Artifact.Encodable
import AbiBindings.Proofs.Contract.Parameters

/-!
The texts of a contract. Identifiers are made of ASCII and hashes of hexadecimal digits, so the
names that a contract adds to its artifact have UTF-8 forms; the rest are texts of the artifact.
-/

namespace AbiBindings

open Text (Encodable)
open Outcome

theorem Identifier.IsWord.encodable {t : Text} (h : Identifier.IsWord t) : Encodable t :=
  fun c hc => CodePoint.isSurrogate_of_isIdentifierPart (h c hc)

structure NamedParam.Written (param : NamedParam) : Prop where
  declared : param.declared.Written
  identifier : Encodable param.identifier

namespace NamedParam

open Identifier (IsWord)

section

variable {params : List Param}

theorem isWord_ofInputs : ∀ param ∈ ofInputs params, IsWord param.identifier := fun _ hparam =>
  ((areParamNames_ofInputs params).names _ (List.mem_map_of_mem hparam)).isWord

theorem written_ofParams {kind : Text} (h : ∀ param ∈ params, param.Written) :
    ∀ param ∈ ofParams kind params, Encodable param.identifier → param.Written := by
  intro param hparam hidentifier
  refine ⟨h _ ?_, hidentifier⟩
  rw [← declared_ofParams kind params]
  exact List.mem_map_of_mem hparam

theorem written_ofInputs (h : ∀ param ∈ params, param.Written) :
    ∀ param ∈ ofInputs params, param.Written := fun param hparam =>
  written_ofParams h param hparam (isWord_ofInputs param hparam).encodable

theorem written_ofOutputs (h : ∀ param ∈ params, param.Written) :
    ∀ param ∈ ofOutputs params, param.Written := by
  intro param hparam
  have hname := (areParamNames_ofOutputs params).names _ (List.mem_map_of_mem hparam)
  exact written_ofParams h param hparam hname.isWord.encodable

end

end NamedParam

theorem Signature.encodable_selector {signature digits : Text}
    (h : Signature.selector signature = .ok digits) : Encodable digits := by
  obtain ⟨bytes, -, hdigits⟩ := bind_eq_ok.mp h
  cases hdigits
  simp

theorem Signature.encodable_topic {signature digits : Text}
    (h : Signature.topic signature = .ok digits) : Encodable digits := by
  obtain ⟨bytes, -, hdigits⟩ := bind_eq_ok.mp h
  cases hdigits
  simp

theorem Signature.encodable_canonical {name : Text} (hname : Encodable name) {params : List Param}
    (h : ∀ param ∈ params, param.Written) :
    Encodable (Signature.canonical name (Contract.typesOf params)) := by
  rw [Signature.canonical, Text.encodable_append, AbiType.encodable_argumentList,
    Contract.typesOf, List.forall_mem_map]
  exact ⟨hname, fun param hparam => (h param hparam).supported.encodable_canonical⟩

structure NamedFunction.Written (f : NamedFunction) : Prop where
  name : Encodable f.entry.name
  identifier : Encodable f.identifier
  signature : Encodable f.signature
  selector : Encodable f.selector
  inputs : ∀ param ∈ f.inputs, param.Written
  outputs : ∀ param ∈ f.outputs, param.Written

structure NamedEvent.Written (e : NamedEvent) : Prop where
  name : Encodable e.entry.name
  identifier : Encodable e.identifier
  signature : Encodable e.signature
  topic : ∀ topic, e.topic = some topic → Encodable topic
  inputs : ∀ param ∈ e.inputs, param.Written

structure NamedError.Written (e : NamedError) : Prop where
  name : Encodable e.entry.name
  identifier : Encodable e.identifier
  signature : Encodable e.signature
  selector : Encodable e.selector
  inputs : ∀ param ∈ e.inputs, param.Written

namespace Contract

theorem written_nameFunction {entry : FunctionEntry} {identifier : Text} {f : NamedFunction}
    (h : nameFunction entry identifier = .ok f) (hname : Encodable entry.name)
    (hidentifier : Encodable identifier)
    (hparams : ∀ param ∈ entry.inputs ++ entry.outputs, param.Written) : f.Written := by
  obtain ⟨hinputs, houtputs⟩ := List.forall_mem_append.mp hparams
  obtain ⟨selector, hselector, rfl⟩ := nameFunction_eq_ok.mp h
  exact {
    name := hname
    identifier := hidentifier
    signature := Signature.encodable_canonical hname hinputs
    selector := Signature.encodable_selector hselector
    inputs := NamedParam.written_ofInputs hinputs
    outputs := NamedParam.written_ofOutputs houtputs }

theorem encodable_topicOf {entry : EventEntry} {topic : Option Text}
    (h : topicOf entry = .ok topic) : ∀ digits, topic = some digits → Encodable digits := by
  rintro digits rfl
  rw [topicOf] at h
  split at h
  · cases h
  · rw [← bind_pure_comp] at h
    obtain ⟨topic, htopic, hsome⟩ := bind_eq_ok.mp h
    cases hsome
    exact Signature.encodable_topic htopic

theorem written_nameEvent {entry : EventEntry} {identifier : Text} {e : NamedEvent}
    (h : nameEvent entry identifier = .ok e) (hname : Encodable entry.name)
    (hidentifier : Encodable identifier) (hinputs : ∀ param ∈ entry.inputs, param.Written) :
    e.Written := by
  obtain ⟨topic, htopic, rfl⟩ := nameEvent_eq_ok.mp h
  exact {
    name := hname
    identifier := hidentifier
    signature := Signature.encodable_canonical hname hinputs
    topic := encodable_topicOf htopic
    inputs := NamedParam.written_ofInputs hinputs }

theorem written_nameError {entry : ErrorEntry} {identifier : Text} {e : NamedError}
    (h : nameError entry identifier = .ok e) (hname : Encodable entry.name)
    (hidentifier : Encodable identifier) (hinputs : ∀ param ∈ entry.inputs, param.Written) :
    e.Written := by
  obtain ⟨selector, hselector, rfl⟩ := nameError_eq_ok.mp h
  exact {
    name := hname
    identifier := hidentifier
    signature := Signature.encodable_canonical hname hinputs
    selector := Signature.encodable_selector hselector
    inputs := NamedParam.written_ofInputs hinputs }

/-- A contract of which everything written has a UTF-8 form, but for the names of networks. -/
structure Written (contract : Contract) : Prop where
  artifact : contract.artifact.Written
  identifier : Encodable contract.identifier
  constructorInputs : ∀ param ∈ contract.constructorInputs, param.Written
  functions : ∀ f ∈ contract.functions, f.Written
  events : ∀ e ∈ contract.events, e.Written
  errors : ∀ e ∈ contract.errors, e.Written

/-- Naming adds only texts with a UTF-8 form. -/
theorem written_of_ofArtifact {artifact : Artifact} {aliases : List (Text × Text)}
    {contract : Contract} (h : ofArtifact artifact aliases = .ok contract)
    (hartifact : artifact.Written) : contract.Written := by
  obtain ⟨-, functions, hfunctions, events, hevents, errors, herrors, rfl⟩ := ofArtifact_eq_ok.mp h
  constructor
  · exact hartifact
  · exact (Identifier.isWord_sanitize _ _ _).encodable
  · apply NamedParam.written_ofInputs
    cases hconstructor : artifact.constructor? with
    | none => simp
    | some entry => exact hartifact.param _ (Artifact.mem_of_constructor? hconstructor)
  · intro f hf
    obtain ⟨⟨entry, identifier⟩, hmem, hnamed⟩ := exists_of_forall₂ (mapM_eq_ok.mp hfunctions) hf
    obtain ⟨hentry, hidentifier⟩ := List.of_mem_zip hmem
    have hdeclared := Artifact.mem_functions.mp hentry
    exact written_nameFunction hnamed (hartifact.entryName _ hdeclared)
      (Identifier.isWord_of_mem_assign hidentifier).encodable (hartifact.param _ hdeclared)
  · intro e he
    obtain ⟨⟨entry, identifier⟩, hmem, hnamed⟩ := exists_of_forall₂ (mapM_eq_ok.mp hevents) he
    obtain ⟨hentry, hidentifier⟩ := List.of_mem_zip hmem
    have hdeclared := Artifact.mem_events.mp hentry
    exact written_nameEvent hnamed (hartifact.entryName _ hdeclared)
      (Identifier.isWord_of_mem_assign hidentifier).encodable (hartifact.param _ hdeclared)
  · intro e he
    obtain ⟨⟨entry, identifier⟩, hmem, hnamed⟩ := exists_of_forall₂ (mapM_eq_ok.mp herrors) he
    obtain ⟨hentry, hidentifier⟩ := List.of_mem_zip hmem
    have hdeclared := Artifact.mem_errors.mp hentry
    exact written_nameError hnamed (hartifact.entryName _ hdeclared)
      (Identifier.isWord_of_mem_assign hidentifier).encodable (hartifact.param _ hdeclared)

end Contract

end AbiBindings
