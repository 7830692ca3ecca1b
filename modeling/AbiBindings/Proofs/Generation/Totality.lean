import AbiBindings.Generation
import AbiBindings.Proofs.Binding.Sharing
import AbiBindings.Proofs.Contract.Duplicates
import AbiBindings.Proofs.Contract.Encodable

/-!
What can still go wrong once an artifact is loaded. Loading has looked at every name and every type
that naming and assembly use, so signatures can be hashed and types have bindings. Only duplicates
are left to be refused.
-/

namespace AbiBindings

open Text (Encodable)
open Outcome

theorem Signature.exists_hash {signature : Text} (h : Encodable signature) :
    ∃ bytes, hash signature = .ok bytes := by
  obtain ⟨bytes, hbytes⟩ := Text.exists_encode_eq_ok.mpr h
  exact ⟨Hash.keccak256 bytes, by rw [hash, hbytes]; rfl⟩

theorem Signature.exists_selector {signature : Text} (h : Encodable signature) :
    ∃ digits, selector signature = .ok digits := by
  obtain ⟨bytes, hbytes⟩ := exists_hash h
  exact ⟨_, by rw [selector, hbytes, ok_bind, pure_eq_ok]⟩

theorem Signature.exists_topic {signature : Text} (h : Encodable signature) :
    ∃ digits, topic signature = .ok digits := by
  obtain ⟨bytes, hbytes⟩ := exists_hash h
  exact ⟨_, by rw [topic, hbytes, ok_bind, pure_eq_ok]⟩

namespace Contract

section

variable {artifact : Artifact} {aliases : List (Text × Text)} (h : artifact.Written)
include h

theorem exists_named_function {entry : FunctionEntry} (hentry : entry ∈ artifact.functions)
    (identifier : Text) : ∃ f, nameFunction entry identifier = .ok f := by
  have hdeclared := Artifact.mem_functions.mp hentry
  have hinputs := (List.forall_mem_append.mp (h.param _ hdeclared)).1
  obtain ⟨selector, hselector⟩ := Signature.exists_selector
    (Signature.encodable_canonical (h.entryName _ hdeclared) hinputs)
  exact ⟨_, nameFunction_eq_ok.mpr ⟨selector, hselector, rfl⟩⟩

theorem exists_named_event {entry : EventEntry} (hentry : entry ∈ artifact.events)
    (identifier : Text) : ∃ e, nameEvent entry identifier = .ok e := by
  have hdeclared := Artifact.mem_events.mp hentry
  obtain ⟨digits, hdigits⟩ := Signature.exists_topic
    (Signature.encodable_canonical (h.entryName _ hdeclared) (h.param _ hdeclared))
  obtain ⟨topic, htopic⟩ : ∃ topic, topicOf entry = .ok topic := by
    rw [topicOf]
    split
    · exact ⟨none, rfl⟩
    · exact ⟨some digits, congrArg (some <$> ·) hdigits⟩
  exact ⟨_, nameEvent_eq_ok.mpr ⟨topic, htopic, rfl⟩⟩

theorem exists_named_error {entry : ErrorEntry} (hentry : entry ∈ artifact.errors)
    (identifier : Text) : ∃ e, nameError entry identifier = .ok e := by
  have hdeclared := Artifact.mem_errors.mp hentry
  obtain ⟨selector, hselector⟩ := Signature.exists_selector
    (Signature.encodable_canonical (h.entryName _ hdeclared) (h.param _ hdeclared))
  exact ⟨_, nameError_eq_ok.mpr ⟨selector, hselector, rfl⟩⟩

/-- Without duplicates, everything can be named. -/
theorem exists_ofArtifact (hdistinct : checkAllDuplicates artifact = .ok ()) :
    ∃ contract, ofArtifact artifact aliases = .ok contract := by
  obtain ⟨functions, hfunctions⟩ : ∃ functions, ((artifact.functions.zip (functionIdentifiers
      aliases (signedFunctions artifact))).mapM fun p => nameFunction p.1 p.2) = .ok functions :=
    exists_mapM_eq_ok fun p hp => exists_named_function h (List.of_mem_zip hp).1 p.2
  obtain ⟨events, hevents⟩ : ∃ events, ((artifact.events.zip (recordIdentifiers
      (signedEvents artifact))).mapM fun p => nameEvent p.1 p.2) = .ok events :=
    exists_mapM_eq_ok fun p hp => exists_named_event h (List.of_mem_zip hp).1 p.2
  obtain ⟨errors, herrors⟩ : ∃ errors, ((artifact.errors.zip (recordIdentifiers
      (signedErrors artifact))).mapM fun p => nameError p.1 p.2) = .ok errors :=
    exists_mapM_eq_ok fun p hp => exists_named_error h (List.of_mem_zip hp).1 p.2
  exact ⟨_, ofArtifact_eq_ok.mpr ⟨hdistinct, functions, hfunctions, events, hevents, errors,
    herrors, rfl⟩⟩

end

/-- A loaded artifact is named, or refused for a duplicate. -/
theorem named_or_duplicate {raw : Json} {name : Option Text} {artifact : Artifact}
    (h : Artifact.load raw name = .ok artifact) (aliases : List (Text × Text)) :
    (∃ contract, ofArtifact artifact aliases = .ok contract) ∨
      ∃ entry signature positions,
        ofArtifact artifact aliases = .error (.duplicateEntry entry signature positions) := by
  cases hcheck : checkAllDuplicates artifact with
  | ok =>
    exact .inl (exists_ofArtifact (Artifact.written_of_load h) hcheck)
  | error fault =>
    obtain ⟨entry, signature, positions, rfl⟩ :=
      checkAllDuplicates_fault (wellRead_of_load h) hcheck
    exact .inr ⟨entry, signature, positions, ofArtifact_eq_duplicateEntry.mpr hcheck⟩

end Contract

namespace Client

theorem exists_fieldsOf {params : List NamedParam} (h : ∀ param ∈ params, param.Written) :
    ∃ fields, fieldsOf params = .ok fields := by
  apply exists_mapM_eq_ok
  intro param hparam
  obtain ⟨binding, hbinding⟩ := Binding.exists_ofType (h param hparam).declared.supported
  exact ⟨_, by rw [fieldOf, hbinding, ok_bind, pure_eq_ok]⟩

theorem exists_methodOf {f : NamedFunction} (h : f.Written) : ∃ m, methodOf f = .ok m := by
  obtain ⟨inputs, hinputs⟩ := exists_fieldsOf h.inputs
  obtain ⟨outputs, houtputs⟩ := exists_fieldsOf h.outputs
  exact ⟨_, by rw [methodOf, hinputs, ok_bind, houtputs, ok_bind, pure_eq_ok]⟩

theorem exists_eventRecordOf {e : NamedEvent} (h : e.Written) :
    ∃ r, eventRecordOf e = .ok r := by
  have hfields (mark : NamedParam → Bool) :
      ∃ fields, fieldsOf (e.inputs.filter mark) = .ok fields :=
    exists_fieldsOf fun p hp => h.inputs p (List.mem_of_mem_filter hp)
  obtain ⟨topicFields, htopic⟩ := hfields fun p => p.declared.indexed
  obtain ⟨dataFields, hdata⟩ := hfields fun p => !p.declared.indexed
  exact ⟨_, by rw [eventRecordOf, htopic, ok_bind, hdata, ok_bind, pure_eq_ok]⟩

theorem exists_errorRecordOf {e : NamedError} (h : e.Written) :
    ∃ r, errorRecordOf e = .ok r := by
  obtain ⟨fields, hfields⟩ := exists_fieldsOf h.inputs
  exact ⟨_, by rw [errorRecordOf, hfields, ok_bind, pure_eq_ok]⟩

/-- A named contract always makes a module. -/
theorem exists_ofContract {contract : Contract} (h : contract.Written) (package : Text)
    (name : Option Text) : ∃ client, ofContract contract package name = .ok client := by
  obtain ⟨inputs, hinputs⟩ := exists_fieldsOf h.constructorInputs
  obtain ⟨methods, hmethods⟩ := exists_mapM_eq_ok (f := methodOf) fun f hf =>
    exists_methodOf (h.functions f hf)
  obtain ⟨events, hevents⟩ := exists_mapM_eq_ok (f := eventRecordOf) fun e he =>
    exists_eventRecordOf (h.events e he)
  obtain ⟨errors, herrors⟩ := exists_mapM_eq_ok (f := errorRecordOf) fun e he =>
    exists_errorRecordOf (h.errors e he)
  simp only [ofContract, hinputs, hmethods, hevents, herrors, ok_bind, pure_eq_ok]
  exact ⟨_, rfl⟩

end Client

end AbiBindings
