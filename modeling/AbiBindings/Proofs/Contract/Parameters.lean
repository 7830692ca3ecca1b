import AbiBindings.Proofs.Contract.Naming
import AbiBindings.Proofs.Identifier.Params

/-!
The parameters of a contract. Whichever entry a list of parameters belongs to, its identifiers all
differ and are free to be used in the head of a method.
-/

namespace AbiBindings

open Identifier (AreParamNames IsParamName)

namespace NamedParam

theorem declared_ofParams (kind : Text) (params : List Param) :
    (ofParams kind params).map declared = params := by
  rw [ofParams, List.map_map]
  apply List.map_fst_zip
  simp [Identifier.assignParams, Identifier.length_assignParamsFrom]

theorem map_identifier_ofParams (kind : Text) (params : List Param) :
    (ofParams kind params).map identifier =
      Identifier.assignParams kind (params.map Param.name) := by
  rw [ofParams, List.map_map]
  apply List.map_snd_zip
  simp [Identifier.assignParams, Identifier.length_assignParamsFrom]

theorem areParamNames_ofInputs (params : List Param) :
    AreParamNames ((ofInputs params).map identifier) := by
  rw [ofInputs, map_identifier_ofParams]
  exact Identifier.areParamNames_assignParams (by decide) _

theorem areParamNames_ofOutputs (params : List Param) :
    AreParamNames ((ofOutputs params).map identifier) := by
  rw [ofOutputs, map_identifier_ofParams]
  exact Identifier.areParamNames_assignParams (by decide) _

end NamedParam

namespace Contract

/-- The parameter lists of a contract: inputs of the constructor, inputs and outputs of each
function, and inputs of each event and error. -/
def paramLists (contract : Contract) : List (List NamedParam) :=
  contract.constructorInputs :: contract.functions.flatMap (fun f => [f.inputs, f.outputs]) ++
    contract.events.map NamedEvent.inputs ++ contract.errors.map NamedError.inputs

/-- The lists of parameters are those that the artifact declares: for the constructor, if there is
one, and for each entry that is named. -/
structure NamesParamsOf (artifact : Artifact) (contract : Contract) : Prop
    extends NamesEntriesOf artifact contract where
  constructorInputs : contract.constructorInputs.map NamedParam.declared =
    (artifact.constructor?.map ConstructorEntry.inputs).getD []
  functionParams : ∀ f ∈ contract.functions, f.inputs.map NamedParam.declared = f.entry.inputs ∧
    f.outputs.map NamedParam.declared = f.entry.outputs
  eventParams : ∀ e ∈ contract.events, e.inputs.map NamedParam.declared = e.entry.inputs
  errorParams : ∀ e ∈ contract.errors, e.inputs.map NamedParam.declared = e.entry.inputs

section

variable {artifact : Artifact} {aliases : List (Text × Text)} {contract : Contract}

theorem namesParamsOf_ofArtifact (h : ofArtifact artifact aliases = .ok contract) :
    NamesParamsOf artifact contract where
  toNamesEntriesOf := namesEntriesOf_ofArtifact h
  constructorInputs := by
    obtain ⟨-, -, -, -, -, -, -, rfl⟩ := ofArtifact_eq_ok.mp h
    exact NamedParam.declared_ofParams _ _
  functionParams f hf := by
    obtain ⟨identifier, hnamed⟩ := exists_nameFunction h f hf
    obtain ⟨selector, -, heq⟩ := nameFunction_eq_ok.mp hnamed
    rw [← heq]
    exact ⟨NamedParam.declared_ofParams _ _, NamedParam.declared_ofParams _ _⟩
  eventParams e he := by
    obtain ⟨identifier, hnamed⟩ := exists_nameEvent h e he
    obtain ⟨topic, -, heq⟩ := nameEvent_eq_ok.mp hnamed
    rw [← heq]
    exact NamedParam.declared_ofParams _ _
  errorParams e he := by
    obtain ⟨identifier, hnamed⟩ := exists_nameError h e he
    obtain ⟨selector, -, heq⟩ := nameError_eq_ok.mp hnamed
    rw [← heq]
    exact NamedParam.declared_ofParams _ _

theorem areParamNames_ofArtifact (h : ofArtifact artifact aliases = .ok contract) :
    ∀ params ∈ contract.paramLists, AreParamNames (params.map NamedParam.identifier) := by
  simp only [paramLists, List.forall_mem_append, List.forall_mem_cons, List.forall_mem_map]
  refine ⟨⟨⟨?constructor, ?functions⟩, ?events⟩, ?errors⟩
  case constructor =>
    obtain ⟨-, -, -, -, -, -, -, rfl⟩ := ofArtifact_eq_ok.mp h
    exact NamedParam.areParamNames_ofInputs _
  case functions =>
    intro params hparams
    obtain ⟨f, hf, hmem⟩ := List.mem_flatMap.mp hparams
    obtain ⟨identifier, hnamed⟩ := exists_nameFunction h f hf
    obtain ⟨selector, -, heq⟩ := nameFunction_eq_ok.mp hnamed
    simp only [List.mem_cons, List.not_mem_nil, or_false] at hmem
    rcases hmem with rfl | rfl
    · rw [← heq]
      exact NamedParam.areParamNames_ofInputs _
    · rw [← heq]
      exact NamedParam.areParamNames_ofOutputs _
  case events =>
    intro e he
    obtain ⟨identifier, hnamed⟩ := exists_nameEvent h e he
    obtain ⟨topic, -, heq⟩ := nameEvent_eq_ok.mp hnamed
    rw [← heq]
    exact NamedParam.areParamNames_ofInputs _
  case errors =>
    intro e he
    obtain ⟨identifier, hnamed⟩ := exists_nameError h e he
    obtain ⟨selector, -, heq⟩ := nameError_eq_ok.mp hnamed
    rw [← heq]
    exact NamedParam.areParamNames_ofInputs _

end

end Contract

end AbiBindings
