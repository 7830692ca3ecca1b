import AbiBindings.Proofs.Client.Encodable
import AbiBindings.Proofs.Client.Parts

/-!
The source text of a module and UTF-8. Names of networks stand in it only as quoted literals, which
show surrogates by number, so what is written around the fingerprint always has a UTF-8 form.
-/

namespace AbiBindings.Client

open Text (Encodable)

theorem encodable_lines {all : List Text} :
    Encodable (lines all) ↔ ∀ line ∈ all, Encodable line := by
  simp [lines, Text.encodable_flatMap]

theorem encodable_optionalLiteral (text : Option Text) : Encodable (optionalLiteral text) := by
  cases text <;> simp [optionalLiteral]

theorem encodable_truthLiteral (b : Bool) : Encodable (truthLiteral b) := by
  cases b <;> simp [truthLiteral]

theorem encodable_tupleLiteral {items : List Text} (h : ∀ item ∈ items, Encodable item) :
    Encodable (tupleLiteral items) := by
  have hcomma := Text.encodable_ofString ", "
  unfold tupleLiteral
  split
  · next item => simp [h item (List.mem_singleton_self item)]
  · simpa [Text.encodable_join hcomma] using h

theorem encodable_mapLiteral {entries : List (Text × Text)}
    (h : ∀ entry ∈ entries, Encodable entry.1 ∧ Encodable entry.2) :
    Encodable (mapLiteral entries) := by
  have hcomma := Text.encodable_ofString ", "
  simp only [mapLiteral, Text.encodable_append, Text.encodable_ofString,
    Text.encodable_join hcomma, List.forall_mem_map, true_and, and_true]
  exact h

theorem encodable_docText (t : Text) : Encodable (docText t) := by
  rw [docText, Text.encodable_flatMap]
  intro c hc
  have hsurrogate := Text.encodable_quotedBody t c hc
  split
  · simp
  · simp [hsurrogate]

namespace Source

theorem encodable_annotate (field : Field) : Encodable <| annotation field := by
  unfold annotation
  cases hwords : field.binding.host.annotation? with
  | none => exact Text.encodable_nil
  | some words => exact HostType.written_annotate field.binding.host words hwords

section

variable {fields : List Field}

theorem encodable_params (h : ∀ field ∈ fields, field.Written) : Encodable (params fields) := by
  rw [params, Text.encodable_flatMap]
  intro field hfield
  simp [(h field hfield).identifier, encodable_annotate field]

theorem encodable_arguments (h : ∀ field ∈ fields, field.Written) :
    Encodable (arguments fields) := by
  rw [arguments, Text.encodable_join (Text.encodable_ofString ", "), List.forall_mem_map]
  exact fun field hfield => (h field hfield).identifier

theorem encodable_results : Encodable (results fields) := by
  have hcomma := Text.encodable_ofString ", "
  have hall : ∀ text ∈ fields.map annotation, Encodable text := by
    rw [List.forall_mem_map]
    exact fun field _ => encodable_annotate field
  unfold results
  split
  · simp
  · exact encodable_annotate _
  · simpa [Text.encodable_join hcomma] using hall

theorem encodable_record {identifier signature : Text} {constants : List (Text × Text)}
    (hidentifier : Encodable identifier)
    (hconstants : ∀ constant ∈ constants, Encodable constant.1 ∧ Encodable constant.2)
    (hfields : ∀ field ∈ fields, field.Written) :
    Encodable (record identifier signature constants fields) := by
  rw [record]
  simp only [Text.encodable_append, encodable_lines, List.forall_mem_map]
  refine ⟨⟨⟨?start, ?values⟩, ?typed⟩, ?last⟩
  case start => simp [hidentifier, encodable_docText]
  case values =>
    intro constant hconstant
    simp [hconstants constant hconstant]
  case typed =>
    intro field hfield
    simp [(hfields field hfield).identifier, encodable_annotate field]
  case last => simp

end

theorem encodable_eventRecord {e : EventRecord} (h : e.Written) : Encodable (eventRecord e) := by
  apply encodable_record h.identifier
  · have hindexed : Encodable
        (tupleLiteral (e.topicFields.map fun field => Text.quoted field.identifier)) := by
      apply encodable_tupleLiteral
      rw [List.forall_mem_map]
      exact fun field _ => Text.encodable_quoted field.identifier
    simp [encodable_optionalLiteral, hindexed]
  · rw [List.forall_mem_append]
    exact ⟨h.topicFields, h.dataFields⟩

theorem encodable_errorRecord {e : ErrorRecord} (h : e.Written) : Encodable (errorRecord e) :=
  encodable_record h.identifier (by simp) h.fields

theorem encodable_recordClass {name doc : Text} {records : List Text} (hname : Encodable name)
    (hdoc : Encodable doc) (hrecords : ∀ text ∈ records, Encodable text) :
    Encodable (recordClass name doc records) := by
  have hbody : Encodable (if records.isEmpty then lines ["    pass"] else records.flatten) := by
    split
    · simp [encodable_lines]
    · exact Text.encodable_flatten.mpr hrecords
  rw [recordClass, Text.encodable_append]
  exact ⟨by simp [encodable_lines, hname, hdoc], hbody⟩

theorem encodable_deployDoc (c : Constructor) : Encodable (deployDoc c) := by
  simp [deployDoc, Mutability.encodable_name]

theorem encodable_deploy {c : Constructor} (h : ∀ field ∈ c.inputs, field.Written) :
    Encodable (deploy c) := by
  simp [deploy, encodable_lines, encodable_params h, encodable_arguments h, encodable_deployDoc,
    encodable_truthLiteral]

theorem encodable_deployLinked {c : Constructor} (h : ∀ field ∈ c.inputs, field.Written) :
    Encodable (deployLinked c) := by
  simp [deployLinked, encodable_lines, encodable_params h, encodable_arguments h,
    encodable_deployDoc, encodable_truthLiteral]

theorem encodable_methodDoc (m : Method) : Encodable (methodDoc m) := by
  simp [methodDoc, encodable_docText, Mutability.encodable_name]

section

variable {m : Method}

theorem encodable_callArguments (h : m.Written) : Encodable (callArguments m) := by
  simp [callArguments, encodable_arguments h.inputs]

theorem encodable_viewMethod (h : m.Written) : Encodable (viewMethod m) := by
  simp [viewMethod, encodable_lines, h.identifier, encodable_params h.inputs, encodable_results,
    encodable_methodDoc, encodable_callArguments h]

theorem encodable_sendMethod (h : m.Written) : Encodable (sendMethod m) := by
  simp [sendMethod, encodable_lines, h.identifier, encodable_params h.inputs, encodable_methodDoc,
    encodable_callArguments h, encodable_truthLiteral]

end

end Source

section

variable {client : Client}

open Source

theorem Written.encodable_members (h : client.Written) :
    ∀ member ∈ members client, Encodable member.text := by
  apply forall_members
  case hdeploy => exact encodable_deploy h.inputs
  case hlinked => exact encodable_deployLinked h.inputs
  case hview => exact fun m hm => encodable_viewMethod (h.methods m hm)
  case hsend => exact fun m hm => encodable_sendMethod (h.methods m hm)
  case hevents => simp [Member.text, eventsHelper, encodable_lines]
  case herrors => simp [Member.text, errorsHelper, encodable_lines]

theorem Written.encodable_heading (h : client.Written) {fingerprint : Text}
    (hfingerprint : Encodable fingerprint) : Encodable (heading client fingerprint) := by
  have hgenerator : Encodable Release.generator := by simp [Release.generator, Release.version]
  have himports : Encodable (Text.join ", " client.imports) := by
    rw [Text.encodable_join (Text.encodable_ofString ", ")]
    exact encodable_imports client
  have hreferences : Encodable (mapLiteral (client.deployment.linkRefs.map fun ref =>
      (Text.quoted ref.placeholder, tupleLiteral (ref.offsets.map Text.ofNat)))) := by
    apply encodable_mapLiteral
    rw [List.forall_mem_map]
    intro ref _
    refine ⟨Text.encodable_quoted _, encodable_tupleLiteral ?_⟩
    rw [List.forall_mem_map]
    exact fun offset _ => Text.encodable_ofNat offset
  have hnetworks : Encodable (mapLiteral (client.deployment.networks.map fun network =>
      (Text.quoted network.1, Text.quoted network.2))) := by
    apply encodable_mapLiteral
    rw [List.forall_mem_map]
    exact fun network _ => ⟨Text.encodable_quoted _, Text.encodable_quoted _⟩
  simp [heading, encodable_lines, hgenerator, hfingerprint, h.identifier, h.runtimePackage,
    himports, encodable_optionalLiteral, hreferences, hnetworks]

theorem Written.encodable_eventClass (h : client.Written) : Encodable (eventClass client) := by
  apply encodable_recordClass (Text.encodable_ofString _) (Text.encodable_ofString _)
  rw [List.forall_mem_map]
  exact fun e he => encodable_eventRecord (h.events e he)

theorem Written.encodable_errorClass (h : client.Written) : Encodable (errorClass client) := by
  have hrecords : ∀ text ∈ client.errors.map errorRecord, Encodable text := by
    rw [List.forall_mem_map]
    exact fun e he => encodable_errorRecord (h.errors e he)
  have htable : Encodable (mapLiteral (client.errors.map fun e =>
      (Text.quoted e.selector, ("Errors." ++ e.identifier : Text)))) := by
    apply encodable_mapLiteral
    rw [List.forall_mem_map]
    intro e he
    simp [(h.errors e he).identifier]
  rw [errorClass, Text.encodable_append]
  refine ⟨encodable_recordClass (Text.encodable_ofString _) (Text.encodable_ofString _) hrecords,
    ?_⟩
  simp [encodable_lines, htable]

/-- What stands in the source besides the fingerprint always has a UTF-8 form. -/
theorem Written.encodable_parts (h : client.Written) {fingerprint : Text}
    (hfingerprint : Encodable fingerprint) :
    Encodable (heading client fingerprint ++ eventClass client ++ errorClass client ++
      contractClass client fingerprint ++ (members client).flatMap Member.text ++
      exports client) := by
  simp only [Text.encodable_append, Text.encodable_flatMap]
  refine ⟨⟨⟨⟨⟨h.encodable_heading hfingerprint, h.encodable_eventClass⟩, h.encodable_errorClass⟩,
    ?contract⟩, h.encodable_members⟩, ?exports⟩
  case contract =>
    simp [contractClass, encodable_lines, h.identifier, encodable_truthLiteral]
  case exports => simp [exports, encodable_lines, h.identifier]

end

end AbiBindings.Client
