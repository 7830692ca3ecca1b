import AbiBindings.Proofs.Client.Field
import AbiBindings.Proofs.Config.Names
import AbiBindings.Proofs.Contract.Encodable

/-!
Which texts of a client module have a UTF-8 form. Loading lets surrogates through only in the names
of networks, and assembly adds identifiers, canonical types and literals, so the JSON of a module
is free of surrogates exactly if those names are.
-/

namespace AbiBindings

open Text (Encodable)
open Outcome

structure Field.Written (field : Field) : Prop where
  name : Encodable field.name
  identifier : Encodable field.identifier
  type : Encodable field.type.canonical
  tree : field.type.toJson.AllEncodable
  binding : field.binding.Written

namespace Client

theorem written_fieldsOf {params : List NamedParam} {fields : List Field}
    (h : fieldsOf params = .ok fields) (hparams : ∀ param ∈ params, param.Written) :
    ∀ field ∈ fields, field.Written := by
  intro field hfield
  obtain ⟨param, hparam, hof⟩ := exists_of_forall₂ (mapM_eq_ok.mp h) hfield
  obtain ⟨binding, hbinding, hdone⟩ := bind_eq_ok.mp hof
  cases hdone
  obtain ⟨hdeclared, hidentifier⟩ := hparams param hparam
  exact {
    name := hdeclared.name
    identifier := hidentifier
    type := hdeclared.supported.encodable_canonical
    tree := hdeclared.supported.allEncodable_toJson hdeclared.names
    binding := Binding.written_ofType hbinding }

theorem allEncodable_fields {fields : List Field} (h : ∀ field ∈ fields, field.Written) :
    (Field.listJson fields).AllEncodable := by
  rw [Field.listJson, Json.allEncodable_arr, List.forall_mem_map]
  intro field hfield
  obtain ⟨hname, hidentifier, htype, htree, hbinding⟩ := h field hfield
  simp [Field.toJson, hname, hidentifier, htype, htree, hbinding.toJson]

structure Method.Written (m : Method) : Prop where
  identifier : Encodable m.identifier
  name : Encodable m.name
  signature : Encodable m.signature
  selector : Encodable m.selector
  inputs : ∀ field ∈ m.inputs, field.Written
  outputs : ∀ field ∈ m.outputs, field.Written

structure EventRecord.Written (e : EventRecord) : Prop where
  identifier : Encodable e.identifier
  name : Encodable e.name
  signature : Encodable e.signature
  topic : ∀ topic, e.topic = some topic → Encodable topic
  topicFields : ∀ field ∈ e.topicFields, field.Written
  dataFields : ∀ field ∈ e.dataFields, field.Written

structure ErrorRecord.Written (e : ErrorRecord) : Prop where
  identifier : Encodable e.identifier
  name : Encodable e.name
  signature : Encodable e.signature
  selector : Encodable e.selector
  fields : ∀ field ∈ e.fields, field.Written

theorem written_methodOf {f : NamedFunction} {m : Method} (h : methodOf f = .ok m)
    (hf : f.Written) : m.Written := by
  simp only [methodOf, bind_eq_ok, pure_eq_ok, Except.ok.injEq] at h
  obtain ⟨inputs, hinputs, outputs, houtputs, rfl⟩ := h
  exact {
    identifier := hf.identifier
    name := hf.name
    signature := hf.signature
    selector := hf.selector
    inputs := written_fieldsOf hinputs hf.inputs
    outputs := written_fieldsOf houtputs hf.outputs }

theorem written_eventRecordOf {e : NamedEvent} {r : EventRecord} (h : eventRecordOf e = .ok r)
    (he : e.Written) : r.Written := by
  simp only [eventRecordOf, bind_eq_ok, pure_eq_ok, Except.ok.injEq] at h
  obtain ⟨topicFields, htopicFields, dataFields, hdataFields, rfl⟩ := h
  exact {
    identifier := he.identifier
    name := he.name
    signature := he.signature
    topic := he.topic
    topicFields := written_fieldsOf htopicFields fun param hparam =>
      he.inputs param (List.mem_of_mem_filter hparam)
    dataFields := written_fieldsOf hdataFields fun param hparam =>
      he.inputs param (List.mem_of_mem_filter hparam) }

theorem written_errorRecordOf {e : NamedError} {r : ErrorRecord} (h : errorRecordOf e = .ok r)
    (he : e.Written) : r.Written := by
  simp only [errorRecordOf, bind_eq_ok, pure_eq_ok, Except.ok.injEq] at h
  obtain ⟨fields, hfields, rfl⟩ := h
  exact {
    identifier := he.identifier
    name := he.name
    signature := he.signature
    selector := he.selector
    fields := written_fieldsOf hfields he.inputs }

/-- A module of which everything written has a UTF-8 form, but for the names of networks. -/
structure Written (client : Client) : Prop where
  contractName : Encodable client.contractName
  identifier : Encodable client.identifier
  runtimePackage : Encodable client.runtimePackage
  inputs : ∀ field ∈ client.constructor.inputs, field.Written
  methods : ∀ m ∈ client.methods, m.Written
  events : ∀ e ∈ client.events, e.Written
  errors : ∀ e ∈ client.errors, e.Written
  bytecode : ∀ hex, client.deployment.bytecode = some hex → Encodable hex
  placeholder : ∀ ref ∈ client.deployment.linkRefs, Encodable ref.placeholder
  address : ∀ network ∈ client.deployment.networks, Encodable network.2

theorem written_ofContract {contract : Contract} {package : Text} {client : Client}
    (h : ofContract contract package none = .ok client) (hcontract : contract.Written)
    (hpackage : Encodable package) : client.Written := by
  simp only [ofContract, nameAndIdentifier, bind_eq_ok, pure_eq_ok, Except.ok.injEq] at h
  obtain ⟨inputs, hinputs, methods, hmethods, events, hevents, errors, herrors, rfl⟩ := h
  constructor
  · exact hcontract.artifact.name
  · exact hcontract.identifier
  · exact hpackage
  · exact written_fieldsOf hinputs hcontract.constructorInputs
  · intro m hm
    obtain ⟨f, hf, hof⟩ := exists_of_forall₂ (mapM_eq_ok.mp hmethods) hm
    exact written_methodOf hof (hcontract.functions f hf)
  · intro r hr
    obtain ⟨e, he, hof⟩ := exists_of_forall₂ (mapM_eq_ok.mp hevents) hr
    exact written_eventRecordOf hof (hcontract.events e he)
  · intro r hr
    obtain ⟨e, he, hof⟩ := exists_of_forall₂ (mapM_eq_ok.mp herrors) hr
    exact written_errorRecordOf hof (hcontract.errors e he)
  · intro hex hhex
    obtain ⟨code, hcode, rfl⟩ := Option.map_eq_some_iff.mp hhex
    exact (hcontract.artifact.bytecode code hcode).1
  · intro ref href
    cases hcode : contract.artifact.bytecode with
    | none =>
      rw [deploymentOf, hcode] at href
      cases href
    | some code =>
      rw [deploymentOf, hcode] at href
      exact (hcontract.artifact.bytecode code hcode).2 ref href
  · exact hcontract.artifact.address

end Client

namespace Config

/-- The package of an acceptable configuration is ASCII. -/
theorem encodable_runtimePackage {config : Config} (h : config.validated = .ok config) :
    Encodable config.runtimePackage := by
  obtain ⟨parts, hpath⟩ := exists_isPath_of_validated h
  have hstart : Encodable (Text.dropLineEnd config.runtimePackage) := by
    intro c hc
    rcases hpath.forall_mem c hc with rfl | hpart
    · exact CodePoint.isSurrogate_ofChar '.'
    · exact CodePoint.isSurrogate_of_isIdentifierPart hpart
  rcases Text.eq_dropLineEnd config.runtimePackage with heq | heq
  · rw [heq]
    exact hstart
  · rw [heq]
    simp [hstart]

end Config

theorem Mutability.encodable_name (m : Mutability) : Encodable m.name := by
  cases m <;> simp [Mutability.name]

namespace Client

theorem allEncodable_optional {text : Option Text} :
    (optionalJson text).AllEncodable ↔ ∀ t, text = some t → Encodable t := by
  cases text <;> simp [optionalJson]

theorem encodable_trimUnderscores {t : Text} (h : Encodable t) :
    Encodable (Text.trimUnderscores t) := by
  obtain ⟨before, after, heq, -, -⟩ := Text.exists_eq_trimUnderscores t
  rw [heq] at h
  simp only [Text.encodable_append] at h
  exact h.1.2

/-- The names that the runtime package may have to provide. -/
def runtimeWords : List Text :=
  ["Contract", "ViewCall", "Transaction", "EventLog", "RevertError", "Deployer",
    "link_bytecode"].map Text.ofString

theorem mem_runtimeWords (client : Client) : ∀ name ∈ client.imports, name ∈ runtimeWords := by
  intro name hname
  rw [imports, Text.mem_sortDistinct] at hname
  have hdeployment : ∀ part ∈ client.deployment.runtimeNames, part ∈ runtimeWords := by
    rw [Deployment.runtimeNames, List.forall_mem_append]
    constructor
    · split <;> decide
    · split <;> decide
  have hmethod (m : Method) : m.runtimeName ∈ runtimeWords := by
    rw [Method.runtimeName]
    split <;> decide
  have hall : ∀ part ∈ client.runtimeNames, part ∈ runtimeWords := by
    simp only [runtimeNames, List.forall_mem_cons, List.forall_mem_append, List.forall_mem_map]
    exact ⟨by decide, ⟨⟨fun m _ => hmethod m, fun _ _ => by decide⟩, fun _ _ => by decide⟩,
      hdeployment⟩
  exact hall name hname

theorem encodable_imports (client : Client) : ∀ name ∈ client.imports, Encodable name := by
  intro name hname
  obtain ⟨word, -, rfl⟩ := List.mem_map.mp (mem_runtimeWords client name hname)
  exact Text.encodable_ofString word

theorem allEncodable_deployment {d : Deployment}
    (hbytecode : ∀ hex, d.bytecode = some hex → Encodable hex)
    (hplaceholder : ∀ ref ∈ d.linkRefs, Encodable ref.placeholder)
    (haddress : ∀ network ∈ d.networks, Encodable network.2) :
    d.toJson.AllEncodable ↔ ∀ network ∈ d.networks, Encodable network.1 := by
  have hrefs : ∀ item ∈ d.linkRefs.map Deployment.linkRefJson, item.AllEncodable := by
    rw [List.forall_mem_map]
    intro ref href
    have hlibrary := encodable_trimUnderscores (hplaceholder ref href)
    simp [Deployment.linkRefJson, LinkRef.library, hplaceholder ref href, hlibrary]
  have hnetworks : (∀ item ∈ d.networks.map Deployment.networkJson, item.AllEncodable) ↔
      ∀ network ∈ d.networks, Encodable network.1 := by
    rw [List.forall_mem_map]
    apply forall₂_congr
    intro network hnetwork
    simp [Deployment.networkJson, haddress network hnetwork]
  rw [← hnetworks]
  simp only [Deployment.toJson, Json.allEncodable_obj, List.forall_mem_cons, Json.allEncodable_arr,
    Json.allEncodable_str, Text.encodable_ofString, allEncodable_optional, true_and,
    List.not_mem_nil, false_implies, implies_true, and_true]
  exact ⟨fun hall => hall.2.2, fun hall => ⟨hbytecode, hrefs, hall⟩⟩

theorem Method.Written.allEncodable_toJson {m : Method} (h : m.Written) :
    m.toJson.AllEncodable := by
  have hinputs := allEncodable_fields h.inputs
  have houtputs := allEncodable_fields h.outputs
  simp [Method.toJson, h.identifier, h.name, h.signature, h.selector, m.mutability.encodable_name,
    hinputs, houtputs]

theorem EventRecord.Written.allEncodable_toJson {e : EventRecord} (h : e.Written) :
    e.toJson.AllEncodable := by
  have htopic := allEncodable_optional.mpr h.topic
  have htopicFields := allEncodable_fields h.topicFields
  have hdataFields := allEncodable_fields h.dataFields
  simp [EventRecord.toJson, h.identifier, h.name, h.signature, htopic, htopicFields, hdataFields]

theorem ErrorRecord.Written.allEncodable_toJson {e : ErrorRecord} (h : e.Written) :
    e.toJson.AllEncodable := by
  have hfields := allEncodable_fields h.fields
  simp [ErrorRecord.toJson, h.identifier, h.name, h.signature, h.selector, hfields]

/-- Only the names of networks can hold surrogates. -/
theorem Written.allEncodable_toJson {client : Client} (h : client.Written) :
    client.toJson.AllEncodable ↔
      ∀ network ∈ client.deployment.networks, Encodable network.1 := by
  have hconstructor : client.constructor.toJson.AllEncodable := by
    simp [Constructor.toJson, allEncodable_fields h.inputs]
  have hdeployment := allEncodable_deployment h.bytecode h.placeholder h.address
  have hparts : (∀ part ∈ client.partsJson, part.AllEncodable) ↔
      ∀ network ∈ client.deployment.networks, Encodable network.1 := by
    rw [← hdeployment]
    simp only [partsJson, List.cons_append, List.forall_mem_cons, List.forall_mem_append,
      List.forall_mem_map, List.not_mem_nil, false_implies, implies_true, and_true]
    constructor
    · intro hall
      exact hall.2.2
    · intro hlast
      exact ⟨hconstructor, ⟨⟨fun m hm => (h.methods m hm).allEncodable_toJson,
        fun e he => (h.events e he).allEncodable_toJson⟩,
        fun e he => (h.errors e he).allEncodable_toJson⟩, hlast⟩
  have himports : ∀ item ∈ client.imports.map Json.str, item.AllEncodable := by
    rw [List.forall_mem_map]
    exact encodable_imports client
  have hfallback : (optionalJson (client.fallback.map Mutability.name)).AllEncodable := by
    rw [allEncodable_optional]
    intro name hname
    obtain ⟨mutability, -, rfl⟩ := Option.map_eq_some_iff.mp hname
    exact mutability.encodable_name
  have hgenerator : Encodable Release.generator := by
    simp [Release.generator, Release.version]
  have hversion : Encodable Release.formatVersion := Text.encodable_ofString _
  rw [← hparts]
  simp only [toJson, Json.allEncodable_obj, List.forall_mem_cons, Json.allEncodable_str,
    Json.allEncodable_arr, Json.allEncodable_bool, Text.encodable_ofString, true_and, and_true,
    List.not_mem_nil, false_implies, implies_true, hgenerator, hversion, h.contractName,
    h.identifier, h.runtimePackage, hfallback]
  exact ⟨fun hall => hall.2, fun hall => ⟨himports, hall⟩⟩

end Client

end AbiBindings
