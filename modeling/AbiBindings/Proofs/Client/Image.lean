import AbiBindings.Generation
import AbiBindings.Proofs.Artifact.Loading
import AbiBindings.Proofs.Client.Parts
import AbiBindings.Proofs.Contract.Parameters
import AbiBindings.Proofs.Hash.Digest

/-!
A module as the image of its artifact. Every function, event and error has one part, in the order
of the ABI and wherever entries of other kinds stand between them. A part holds the name and the
typed inputs of its own entry, and the hash of the signature that these spell. Indexed inputs of
an event stand apart from the others, and the marks of the entry put them back in order.
-/

namespace AbiBindings

open Outcome

/-- Takes the next item from the first list where a mark is set and from the second elsewhere. -/
def interleave {α : Type} : List Bool → List α → List α → List α
  | true :: marks, x :: xs, ys => x :: interleave marks xs ys
  | false :: marks, xs, y :: ys => y :: interleave marks xs ys
  | _, _, _ => []

section

variable {α β : Type}

/-- A list that was split by a mark is put together again. -/
theorem interleave_filter (mark : α → Bool) (items : List α) :
    interleave (items.map mark) (items.filter mark) (items.filter fun x => !mark x) = items := by
  induction items with
  | nil => rfl
  | cons item rest ih =>
    cases hmark : mark item with
    | true => simp [hmark, interleave, ih]
    | false => simp [hmark, interleave, ih]

theorem map_interleave (f : α → β) (marks : List Bool) (xs ys : List α) :
    interleave marks (xs.map f) (ys.map f) = (interleave marks xs ys).map f := by
  induction marks generalizing xs ys with
  | nil => cases xs <;> cases ys <;> rfl
  | cons mark marks ih =>
    cases mark with
    | true =>
      cases xs with
      | nil => rfl
      | cons x xs => simp [interleave, ih]
    | false =>
      cases ys with
      | nil => cases xs <;> rfl
      | cons y ys => cases xs <;> simp [interleave, ← ih]

theorem map_eq_of_forall₂ {γ : Type} {R : α → β → Prop} {f : α → γ} {g : β → γ}
    (hR : ∀ a b, R a b → g b = f a) {as : List α} {bs : List β} (h : List.Forall₂ R as bs) :
    bs.map g = as.map f := by
  induction h with
  | nil => rfl
  | @cons a b as bs hab _ ih => rw [List.map_cons, List.map_cons, hR a b hab, ih]

end

structure Field.Depicts (param : Param) (field : Field) : Prop where
  name : field.name = param.name
  type : field.type = param.type
  binding : Binding.ofType param.type = .ok field.binding

namespace Client

theorem depicts_fieldsOf {named : List NamedParam} {fields : List Field}
    (h : fieldsOf named = .ok fields) :
    List.Forall₂ Field.Depicts (named.map NamedParam.declared) fields := by
  rw [List.forall₂_map_left_iff]
  refine (mapM_eq_ok.mp h).imp fun param field hof => ?_
  obtain ⟨binding, hbinding, hdone⟩ := bind_eq_ok.mp hof
  cases hdone
  exact ⟨rfl, rfl, hbinding⟩

theorem depicts_inputs {params : List Param} {fields : List Field}
    (h : fieldsOf (NamedParam.ofInputs params) = .ok fields) :
    List.Forall₂ Field.Depicts params fields := by
  have hfields := depicts_fieldsOf h
  rwa [NamedParam.ofInputs, NamedParam.declared_ofParams] at hfields

theorem depicts_outputs {params : List Param} {fields : List Field}
    (h : fieldsOf (NamedParam.ofOutputs params) = .ok fields) :
    List.Forall₂ Field.Depicts params fields := by
  have hfields := depicts_fieldsOf h
  rwa [NamedParam.ofOutputs, NamedParam.declared_ofParams] at hfields

/-- The fields of the inputs with a mark are those of the inputs that have it. -/
theorem depicts_filter (mark : Param → Bool) {params : List Param} {fields : List Field}
    (h : fieldsOf ((NamedParam.ofInputs params).filter fun p => mark p.declared) = .ok fields) :
    List.Forall₂ Field.Depicts (params.filter mark) fields := by
  have hfields := depicts_fieldsOf h
  have hfilter := List.filter_map (f := NamedParam.declared) (p := mark)
    (l := NamedParam.ofInputs params)
  rw [NamedParam.ofInputs, NamedParam.declared_ofParams] at hfilter
  rw [hfilter]
  exact hfields

/-- A hash of a signature as it is written: `0x` and the digits of its first bytes. -/
def IsHash (count : Nat) (signature written : Text) : Prop :=
  ∃ bytes, Text.encode signature = .ok bytes ∧
    written = "0x" ++ Hash.hexOfBytes ((Hash.keccak256 bytes).take count)

theorem hash_eq_ok {signature : Text} {hash : List UInt8}
    (h : Signature.hash signature = .ok hash) :
    ∃ bytes, Text.encode signature = .ok bytes ∧ hash = Hash.keccak256 bytes := by
  rw [Signature.hash, mapError_eq_ok] at h
  cases hencode : Text.encode signature with
  | error place =>
    rw [hencode] at h
    cases h
  | ok bytes =>
    rw [hencode] at h
    exact ⟨bytes, rfl, (Except.ok.inj h).symm⟩

theorem isHash_selector {signature selector : Text}
    (h : Signature.selector signature = .ok selector) : IsHash 4 signature selector := by
  obtain ⟨hash, hhash, hdone⟩ := bind_eq_ok.mp h
  obtain ⟨bytes, hbytes, rfl⟩ := hash_eq_ok hhash
  exact ⟨bytes, hbytes, (Except.ok.inj hdone).symm⟩

/-- A topic is a whole digest, which has 32 bytes. -/
theorem isHash_topic {signature topic : Text} (h : Signature.topic signature = .ok topic) :
    IsHash 32 signature topic := by
  obtain ⟨hash, hhash, hdone⟩ := bind_eq_ok.mp h
  obtain ⟨bytes, hbytes, rfl⟩ := hash_eq_ok hhash
  refine ⟨bytes, hbytes, ?_⟩
  rw [Hash.take_keccak256]
  exact (Except.ok.inj hdone).symm

/-- A signature is the name of an entry before the types of its inputs. -/
theorem canonical_eq_of_depicts (name : Text) {params : List Param} {fields : List Field}
    (h : List.Forall₂ Field.Depicts params fields) :
    Signature.canonical name (Contract.typesOf params) =
      name ++ "(" ++ Text.join "," (fields.map fun field => field.type.canonical) ++ ")" := by
  have htypes : fields.map (fun field => field.type.canonical) =
      (Contract.typesOf params).map AbiType.canonical := by
    rw [Contract.typesOf, List.map_map]
    exact map_eq_of_forall₂ (fun param field hfield => congrArg AbiType.canonical hfield.type) h
  rw [htypes, Signature.canonical, AbiType.argumentList]
  simp only [List.append_assoc]

/-- A method carries what a function declares, and the first four bytes of its hash. -/
structure Method.Depicts (entry : FunctionEntry) (m : Method) : Prop where
  name : m.name = entry.name
  mutability : m.mutability = entry.mutability
  inputs : List.Forall₂ Field.Depicts entry.inputs m.inputs
  outputs : List.Forall₂ Field.Depicts entry.outputs m.outputs
  signature : m.signature = entry.name ++ "(" ++
    Text.join "," (m.inputs.map fun field => field.type.canonical) ++ ")"
  selector : IsHash 4 m.signature m.selector

theorem Method.depicts_methodOf {entry : FunctionEntry} {identifier : Text} {f : NamedFunction}
    {m : Method} (hf : Contract.nameFunction entry identifier = .ok f) (h : methodOf f = .ok m) :
    Method.Depicts entry m := by
  obtain ⟨selector, hselector, rfl⟩ := Contract.nameFunction_eq_ok.mp hf
  obtain ⟨inputs, hinputs, h⟩ := bind_eq_ok.mp h
  obtain ⟨outputs, houtputs, h⟩ := bind_eq_ok.mp h
  cases h
  have hdepicts := depicts_inputs hinputs
  exact {
    name := rfl
    mutability := rfl
    inputs := hdepicts
    outputs := depicts_outputs houtputs
    signature := canonical_eq_of_depicts entry.name hdepicts
    selector := isHash_selector hselector }

/-- A record carries what an event declares, its indexed inputs apart from the others, and the
whole hash unless the event is anonymous. -/
structure EventRecord.Depicts (entry : EventEntry) (e : EventRecord) : Prop where
  name : e.name = entry.name
  anonymous : e.anonymous = entry.anonymous
  topicFields : List.Forall₂ Field.Depicts (entry.inputs.filter Param.indexed) e.topicFields
  dataFields : List.Forall₂ Field.Depicts (entry.inputs.filter fun p => !p.indexed) e.dataFields
  inputs : ((e.topicFields ++ e.dataFields).map fun field => (field.name, field.type)).Perm
    (entry.inputs.map fun param => (param.name, param.type))
  signature : e.signature = entry.name ++ "(" ++
    Text.join "," ((interleave (entry.inputs.map Param.indexed) e.topicFields e.dataFields).map
      fun field => field.type.canonical) ++ ")"
  topic_eq_none : e.topic = none ↔ entry.anonymous = true
  topic : ∀ topic, e.topic = some topic → IsHash 32 e.signature topic

section

variable {params : List Param} {topics data : List Field}
variable (htopics : List.Forall₂ Field.Depicts (params.filter Param.indexed) topics)
variable (hdata : List.Forall₂ Field.Depicts (params.filter fun p => !p.indexed) data)

include htopics hdata

/-- The fields of both kinds are those of the inputs in another order. -/
theorem perm_of_depicts : ((topics ++ data).map fun field => (field.name, field.type)).Perm
    (params.map fun param => (param.name, param.type)) := by
  have hboth := List.rel_append htopics hdata
  rw [map_eq_of_forall₂ (fun param field h => congrArg₂ Prod.mk h.name h.type) hboth]
  exact (List.filter_append_perm Param.indexed params).map _

/-- The marks of the inputs put the fields of both kinds into the order of the inputs. -/
theorem interleave_of_depicts :
    (interleave (params.map Param.indexed) topics data).map (fun field => field.type.canonical) =
      params.map fun param => param.type.canonical := by
  have hfield : ∀ param field, Field.Depicts param field →
      field.type.canonical = param.type.canonical :=
    fun param field h => congrArg _ h.type
  rw [← map_interleave, map_eq_of_forall₂ hfield htopics, map_eq_of_forall₂ hfield hdata,
    map_interleave, interleave_filter]

end

theorem EventRecord.topic_of_topicOf {entry : EventEntry} {topic : Option Text}
    (h : Contract.topicOf entry = .ok topic) : (topic = none ↔ entry.anonymous = true) ∧
      ∀ hash, topic = some hash → IsHash 32 (Contract.signatureOfEvent entry) hash := by
  rw [Contract.topicOf] at h
  split at h
  · next hanonymous =>
    cases h
    simp [hanonymous]
  · next hanonymous =>
    rw [← bind_pure_comp] at h
    obtain ⟨hash, hhash, h⟩ := bind_eq_ok.mp h
    cases h
    refine ⟨by simp [hanonymous], ?_⟩
    rintro hash' ⟨⟩
    exact isHash_topic hhash

theorem EventRecord.depicts_eventRecordOf {entry : EventEntry} {identifier : Text} {n : NamedEvent}
    {e : EventRecord} (hn : Contract.nameEvent entry identifier = .ok n)
    (h : eventRecordOf n = .ok e) : EventRecord.Depicts entry e := by
  obtain ⟨topic, htopic, rfl⟩ := Contract.nameEvent_eq_ok.mp hn
  obtain ⟨topics, htopics, h⟩ := bind_eq_ok.mp h
  obtain ⟨data, hdata, h⟩ := bind_eq_ok.mp h
  cases h
  have htopics := depicts_filter Param.indexed htopics
  have hdata := depicts_filter (fun p => !p.indexed) hdata
  obtain ⟨hnone, hsome⟩ := topic_of_topicOf htopic
  refine ⟨rfl, rfl, htopics, hdata, perm_of_depicts htopics hdata, ?_, hnone, hsome⟩
  rw [interleave_of_depicts htopics hdata, Contract.signatureOfEvent, Signature.canonical,
    AbiType.argumentList, Contract.typesOf, List.map_map]
  simp only [List.append_assoc]
  rfl

/-- A record carries what an error declares, and the first four bytes of its hash. -/
structure ErrorRecord.Depicts (entry : ErrorEntry) (e : ErrorRecord) : Prop where
  name : e.name = entry.name
  fields : List.Forall₂ Field.Depicts entry.inputs e.fields
  signature : e.signature = entry.name ++ "(" ++
    Text.join "," (e.fields.map fun field => field.type.canonical) ++ ")"
  selector : IsHash 4 e.signature e.selector

theorem ErrorRecord.depicts_errorRecordOf {entry : ErrorEntry} {identifier : Text} {n : NamedError}
    {e : ErrorRecord} (hn : Contract.nameError entry identifier = .ok n)
    (h : errorRecordOf n = .ok e) : ErrorRecord.Depicts entry e := by
  obtain ⟨selector, hselector, rfl⟩ := Contract.nameError_eq_ok.mp hn
  obtain ⟨fields, hfields, h⟩ := bind_eq_ok.mp h
  cases h
  have hdepicts := depicts_inputs hfields
  exact ⟨rfl, hdepicts, canonical_eq_of_depicts entry.name hdepicts, isHash_selector hselector⟩

end Client

end AbiBindings
