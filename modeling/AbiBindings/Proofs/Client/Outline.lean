import AbiBindings.Proofs.Client.Legible
import AbiBindings.Proofs.Script.Statements

/-!
What the source of a module says, part by part: the data of the module, each piece in its place.
The source is made of whole lines, and reading these gives the outline.
-/

namespace AbiBindings.Client

open Identifier (IsWord)
open Script
open Text (Plain)

def optionalValue : Option Text → Value
  | none => .name "None"
  | some text => .text text

def truthValue (b : Bool) : Value := .name (truthLiteral b)

namespace Outline

/-- What the heading says: the deployments, with the places of each placeholder and the address on
each network. -/
def heading (client : Client) : List Statement :=
  let d := client.deployment
  [.doc ("Typed bindings for the " ++ client.identifier ++ " contract."),
   .assigned "BYTECODE" (optionalValue d.bytecode),
   .assigned "LINK_REFERENCES"
     (.map (d.linkRefs.map fun ref => (ref.placeholder, .tuple (ref.offsets.map .number)))),
   .assigned "NETWORKS" (.map (d.networks.map fun network => (network.1, .text network.2)))]

def eventRecord (e : EventRecord) : List Statement :=
  [.head "class" e.identifier, .doc e.signature, .assigned "SIGNATURE" (.text e.signature),
   .assigned "TOPIC" (optionalValue e.topic),
   .assigned "INDEXED" (.tuple (e.topicFields.map fun field => .text field.identifier))]

def errorRecord (e : ErrorRecord) : List Statement :=
  [.head "class" e.identifier, .doc e.signature, .assigned "SIGNATURE" (.text e.signature),
   .assigned "SELECTOR" (.text e.selector)]

def eventClass (client : Client) : List Statement :=
  [.head "class" "Events", .doc "Event records: indexed fields first, then data fields."] ++
    client.events.flatMap eventRecord

def errorClass (client : Client) : List Statement :=
  [.head "class" "Errors", .doc "Custom error records, keyed by selector in ERRORS."] ++
    client.errors.flatMap errorRecord ++
    [.assigned "ERRORS"
      (.map (client.errors.map fun e => (e.selector, .name ("Errors." ++ e.identifier))))]

def contractClass (client : Client) (fingerprint : Text) : List Statement :=
  [.head "class" client.identifier,
   .doc ("Typed client for the " ++ client.identifier ++ " contract."),
   .assigned "CONTRACT_NAME" (.text client.contractName),
   .assigned "ABI_FINGERPRINT" (.text fingerprint),
   .assigned "HAS_FALLBACK" (truthValue client.fallback.isSome),
   .assigned "HAS_RECEIVE" (truthValue client.receive),
   .assigned "Events" (.name "Events"),
   .assigned "Errors" (.name "Errors")]

/-- What a method says: its signature and mutability, and then what it passes on. -/
def method (m : Method) (callee : Text) : List Statement :=
  [.head "def" m.identifier, .doc (m.signature ++ " [" ++ m.mutability.name ++ "]"),
   .returned callee [m.signature, m.selector]]

def member : Source.Member → List Statement
  | .deploy c =>
    [.head "def" "deploy", .doc (Source.deployDoc c ++ "."), .returned "Deployer" []]
  | .deployLinked c =>
    [.head "def" "deploy",
     .doc (Source.deployDoc c ++ "; `libraries` maps library name to address."),
     .returned "Deployer" []]
  | .view m => method m "ViewCall"
  | .send m => method m "Transaction"
  | .events =>
    [.head "def" "events",
     .doc "Decode every log of `event` (an ``Events.*`` record) in a receipt or log list.",
     .returned "EventLog" []]
  | .errors =>
    [.head "def" "revert_error",
     .doc "Match revert data against the contract's custom errors.",
     .returned "RevertError" []]

def exports (client : Client) : List Statement :=
  [.assigned "__all__" (.list [.text client.identifier, .text "Events", .text "Errors"])]

end Outline

/-- What the source of a module says. -/
def outline (client : Client) (fingerprint : Text) : List Statement :=
  Outline.heading client ++ Outline.eventClass client ++ Outline.errorClass client ++
    Outline.contractClass client fingerprint ++
    (Source.members client).flatMap Outline.member ++ Outline.exports client

theorem denotes_optional (text : Option Text) :
    Denotes readValue (optionalLiteral text) (optionalValue text) := by
  cases text with
  | none =>
    have hnone : Denotes readAtom "None" (.name "None") := denotes_word (by decide) rfl
    exact hnone.simple.value
  | some text => exact (denotes_text text).simple.value

theorem denotes_truth (b : Bool) : Denotes readValue (truthLiteral b) (truthValue b) := by
  have htruth : Denotes readAtom (truthLiteral b) (truthValue b) := by
    cases b <;> exact denotes_word (by decide) rfl
  exact htruth.simple.value

theorem denotes_record {identifier : Text} (h : IsWord identifier) :
    Denotes readSimple ("Errors." ++ identifier) (.name ("Errors." ++ identifier)) := by
  have hparts : ∀ c ∈ ("Errors." : Text) ++ identifier, isPathPart c = true := by
    rw [List.forall_mem_append]
    refine ⟨by decide, ?_⟩
    intro c hc
    rw [isPathPart, h c hc, Bool.true_or]
  have hword : Denotes readAtom ("Errors." ++ identifier) (.name ("Errors." ++ identifier)) :=
    denotes_word hparts rfl
  exact hword.simple

theorem quiet_blank : Quiet " " := by decide

theorem quiet_imports (client : Client) : Quiet (Text.join ", " client.imports) := by
  have hwords : ∀ word ∈ runtimeWords, Quiet word := by decide
  have hcomma : Quiet ", " := by decide
  rw [Quiet, Text.forall_mem_join hcomma]
  exact fun name hname => hwords name (mem_runtimeWords client name hname)

/-- The lines of the source in front of the one that imports from the package. -/
def preamble (client : Client) (fingerprint : Text) : List Text :=
  ["# This file was generated by " ++ Release.generator ++ ". Do not edit by hand.",
   "# IR fingerprint: " ++ fingerprint,
   "\"\"\"Typed bindings for the " ++ client.identifier ++ " contract.\"\"\"",
   "",
   "from __future__ import annotations",
   "",
   "from typing import Any, List, NamedTuple, Optional, Tuple",
   ""]

section

variable {client : Client} (h : client.Legible)
include h

/-- The package may end its line; what is imported from it then stands on the next one. -/
theorem Legible.says_import :
    Says ("from " ++ client.runtimePackage ++ " import " ++ Text.join ", " client.imports ++ "\n")
      [] := by
  have hpackage := quiet_of_isPathPart h.package
  have hnames : Quiet (Text.join ", " client.imports) := quiet_imports client
  have hfrom : ("from " : Text) = Text.spaces 0 ++ ("from" ++ " ") := rfl
  rcases Text.eq_dropLineEnd client.runtimePackage with heq | heq
  · have hrest : Quiet (" " ++ (Text.dropLineEnd client.runtimePackage ++ (" import " ++
        Text.join ", " client.imports))) :=
      quiet_blank.append (hpackage.append (Quiet.append (by decide) hnames))
    have hline := lineSays_none 0 "from" (by decide) hrest rfl rfl (.inr (by decide))
    rw [heq, hfrom]
    simpa only [List.append_assoc, Option.toList_none] using hline.ended
  · have himport : (" import " : Text) = Text.spaces 1 ++ ("import" ++ " ") := rfl
    have hend : [CodePoint.ofChar '\n'] = ("\n" : Text) := rfl
    have hline := lineSays_none 0 "from" (by decide) (quiet_blank.append hpackage) rfl rfl
      (.inr (by decide))
    have hnext := lineSays_none 1 "import" (by decide) (quiet_blank.append hnames) rfl rfl
      (.inr (by decide))
    have hboth := hline.ended.append hnext.ended
    rw [heq, hfrom, himport, hend]
    simpa only [List.append_assoc, Option.toList_none, List.append_nil] using hboth

theorem Legible.lineSays_preamble {fingerprint : Text}
    (hfingerprint : ∀ c ∈ fingerprint, 32 ≤ c.val) :
    List.Forall₂ LineSays (preamble client fingerprint)
      [none, none, some (.doc ("Typed bindings for the " ++ client.identifier ++ " contract.")),
        none, none, none, none, none] := by
  have hgenerated : LineSays
      ("# This file was generated by " ++ Release.generator ++ ". Do not edit by hand.") none := by
    have hgenerator : ∀ c ∈ Release.generator, 32 ≤ c.val := by decide
    have hafter : Unescaped ". Do not edit by hand." := Text.literal Unescaped (by decide)
    rw [List.append_assoc]
    exact lineSays_comment (by decide) (List.forall_mem_append.mpr ⟨hgenerator, hafter.le_val⟩)
  have hcomment : LineSays ("# IR fingerprint: " ++ fingerprint) none :=
    lineSays_comment (by decide) hfingerprint
  have hidentifier := unescaped_of_plain (Text.plain_of_isIdentifierPart h.identifier)
  have hdoc : LineSays ("\"\"\"Typed bindings for the " ++ client.identifier ++ " contract.\"\"\"")
      (some (.doc ("Typed bindings for the " ++ client.identifier ++ " contract."))) :=
    lineSays_docAround 0 rfl rfl (by decide) (by decide) hidentifier.spells hidentifier.le_val
  have hfuture : LineSays "from __future__ import annotations" none :=
    lineSays_fixed (by decide) rfl
  have htyping : LineSays "from typing import Any, List, NamedTuple, Optional, Tuple" none :=
    lineSays_fixed (by decide) rfl
  exact .cons hgenerated (.cons hcomment (.cons hdoc (.cons lineSays_blank (.cons hfuture
    (.cons lineSays_blank (.cons htyping (.cons lineSays_blank .nil)))))))

theorem Legible.says_heading {fingerprint : Text} (hfingerprint : ∀ c ∈ fingerprint, 32 ≤ c.val) :
    Says (Source.heading client fingerprint) (Outline.heading client) := by
  have hreferences : Denotes readValue
      (mapLiteral (client.deployment.linkRefs.map fun ref =>
        (Text.quoted ref.placeholder, tupleLiteral (ref.offsets.map Text.ofNat))))
      (.map (client.deployment.linkRefs.map fun ref =>
        (ref.placeholder, .tuple (ref.offsets.map .number)))) :=
    denotes_map fun ref _ => denotes_tuple fun offset _ => denotes_number offset
  have hnetworks : Denotes readValue
      (mapLiteral (client.deployment.networks.map fun network =>
        (Text.quoted network.1, Text.quoted network.2)))
      (.map (client.deployment.networks.map fun network => (network.1, .text network.2))) :=
    denotes_map fun network _ => (denotes_text network.2).simple
  have hbytecode : LineSays
      ("BYTECODE: Optional[str] = " ++ optionalLiteral client.deployment.bytecode)
      (some (.assigned "BYTECODE" (optionalValue client.deployment.bytecode))) :=
    lineSays_assigned _ _ (.fixed (by decide) (by decide) fun _ => rfl) (denotes_optional _)
  have hlinks := lineSays_assigned "LINK_REFERENCES: dict[str, tuple[int, ...]] = "
    "LINK_REFERENCES" (.fixed (by decide) (by decide) fun _ => rfl) hreferences
  have hplaces := lineSays_assigned "NETWORKS: dict[str, str] = " "NETWORKS"
    (.fixed (by decide) (by decide) fun _ => rfl) hnetworks
  have hstart := says_lines (h.lineSays_preamble hfingerprint)
  have hrest := says_lines (.cons lineSays_blank (.cons hbytecode (.cons hlinks
    (.cons hplaces .nil))))
  exact hstart.between h.says_import hrest

end

theorem quiet_annotated (field : Field) : Quiet (Source.annotation field) := by
  have hwords : ∀ word ∈ HostType.annotationWords, Quiet word := by decide
  unfold Source.annotation
  cases hannotation : field.binding.host.annotation? with
  | none => exact fun c hc => absurd hc List.not_mem_nil
  | some words => exact HostType.shows_annotate hwords field.binding.host words hannotation

theorem lineSays_field {field : Field} (h : IsWord field.identifier) :
    LineSays ("        " ++ field.identifier ++ ": " ++ Source.annotation field) none := by
  have hrest : Quiet (": " ++ Source.annotation field) :=
    Quiet.append (by decide) (quiet_annotated field)
  have hstart : Text.NotAhead (fun c => c = CodePoint.ofChar ' ')
      (field.identifier ++ (": " ++ Source.annotation field)) := by
    cases hidentifier : field.identifier with
    | nil => rfl
    | cons c rest =>
      rw [hidentifier] at h
      have hc := h c List.mem_cons_self
      rw [List.cons_append, Text.notAhead_cons, decide_eq_false_iff_not]
      rintro rfl
      exact absurd hc (by decide)
  have hline := lineSays_none 8 field.identifier h hrest hstart rfl (.inl rfl)
  have hspaces : ("        " : Text) = Text.spaces 8 := rfl
  rw [hspaces]
  simpa only [List.append_assoc] using hline

theorem says_blank : Says (lines [""]) [] := by
  exact says_lines (.cons lineSays_blank .nil)

theorem says_fields {fields : List Field} (h : Worded fields) :
    Says (lines (fields.map fun field =>
      "        " ++ field.identifier ++ ": " ++ Source.annotation field)) [] := by
  have hnone : fields.flatMap (fun _ => ([] : List Statement)) = [] := by simp
  rw [lines, List.flatMap_map, ← hnone]
  exact says_flatMap fun field hfield => (lineSays_field (h field hfield)).ended

theorem lineSays_recordHead {identifier : Text} (h : IsWord identifier) :
    LineSays ("    class " ++ identifier ++ "(NamedTuple):") (some (.head "class" identifier)) :=
  lineSays_head _ _ (.fixed (by decide) (by decide) fun _ => rfl) h
    (Text.literal Plain (by decide)) rfl

theorem lineSays_recordDoc (signature : Text) :
    LineSays ("        \"\"\"" ++ docText signature ++ "\"\"\"") (some (.doc signature)) := by
  have hopening : ("        \"\"\"" : Text) = Text.spaces 8 ++ "\"\"\"" := rfl
  have hline := lineSays_doc 8 (spells_docText signature) (le_val_docText signature)
  rw [hopening]
  simpa only [List.append_assoc] using hline

theorem lineSays_signature (signature : Text) :
    LineSays ("        SIGNATURE = " ++ Text.quoted signature)
      (some (.assigned "SIGNATURE" (.text signature))) :=
  lineSays_assigned "        SIGNATURE = " "SIGNATURE"
    (.fixed (by decide) (by decide) fun _ => rfl) (denotes_text signature).simple.value

/-- A record says its name, its signature twice, and its constants. -/
theorem says_record {identifier : Text} (hidentifier : IsWord identifier) (signature : Text)
    (constants : List (Text × Text)) {said : List (Option Statement)}
    (hconstants : List.Forall₂ (fun constant said =>
      LineSays ("        " ++ constant.1 ++ " = " ++ constant.2) said) constants said)
    {fields : List Field} (hfields : Worded fields) :
    Says (Source.record identifier signature constants fields)
      ([Statement.head "class" identifier, .doc signature,
        .assigned "SIGNATURE" (.text signature)] ++ said.reduceOption) := by
  have hstart := says_lines (.cons lineSays_blank (.cons (lineSays_recordHead hidentifier)
    (.cons (lineSays_recordDoc signature) (.cons lineSays_blank
    (.cons (lineSays_signature signature) .nil)))))
  have hvalues := says_lines (List.forall₂_map_left_iff.mpr hconstants)
  have hall := ((hstart.append hvalues).append (says_fields hfields)).append says_blank
  rw [List.append_nil, List.append_nil] at hall
  exact hall

/-- A constant of a record. -/
theorem lineSays_constant (name : Text) {text : Text} {value : Value} (hword : IsWord name)
    (hname : ∀ tokens, statement? (codes ("        " ++ name ++ " = ") ++ tokens) =
      (wholeValue? tokens).map (.assigned name))
    (hvalue : Denotes readValue text value) :
    LineSays ("        " ++ name ++ " = " ++ text) (some (.assigned name value)) := by
  have hspaces : Plain "        " := by decide
  have hequals : Plain " = " := by decide
  have hopening : Plain ("        " ++ name ++ " = ") := by
    simp only [Text.plain_append]
    exact ⟨⟨hspaces, Text.plain_of_isIdentifierPart hword⟩, hequals⟩
  have hopens : Opens " = " := by decide
  exact lineSays_assigned _ name ⟨hopening, hopens.append, hname⟩ hvalue

theorem lineSays_topic (topic : Option Text) :
    LineSays ("        " ++ "TOPIC" ++ " = " ++ optionalLiteral topic)
      (some (.assigned "TOPIC" (optionalValue topic))) :=
  lineSays_constant "TOPIC" (by decide) (fun _ => rfl) (denotes_optional topic)

theorem lineSays_indexed (fields : List Field) :
    LineSays ("        " ++ "INDEXED" ++ " = " ++
        tupleLiteral (fields.map fun field => Text.quoted field.identifier))
      (some (.assigned "INDEXED" (.tuple (fields.map fun field => .text field.identifier)))) := by
  have hnames : Denotes readSimple
      (tupleLiteral (fields.map fun field => Text.quoted field.identifier))
      (.tuple (fields.map fun field => .text field.identifier)) :=
    denotes_tuple fun field _ => denotes_text field.identifier
  exact lineSays_constant "INDEXED" (by decide) (fun _ => rfl) hnames.value

theorem lineSays_selector (selector : Text) :
    LineSays ("        " ++ "SELECTOR" ++ " = " ++ Text.quoted selector)
      (some (.assigned "SELECTOR" (.text selector))) :=
  lineSays_constant "SELECTOR" (by decide) (fun _ => rfl) (denotes_text selector).simple.value

theorem says_eventRecord {e : EventRecord} (hidentifier : IsWord e.identifier)
    (hfields : Worded (e.topicFields ++ e.dataFields)) :
    Says (Source.eventRecord e) (Outline.eventRecord e) := by
  have hrecord := says_record hidentifier e.signature [(_, _), (_, _)]
    (.cons (lineSays_topic e.topic) (.cons (lineSays_indexed e.topicFields) .nil)) hfields
  exact hrecord

theorem says_errorRecord {e : ErrorRecord} (hidentifier : IsWord e.identifier)
    (hfields : Worded e.fields) : Says (Source.errorRecord e) (Outline.errorRecord e) := by
  have hrecord := says_record hidentifier e.signature [(_, _)]
    (.cons (lineSays_selector e.selector) .nil) hfields
  exact hrecord

theorem says_recordClass {α : Type} {name doc : Text} (hname : IsWord name)
    (hdoc : Unescaped doc) {items : List α} {text : α → Text} {said : α → List Statement}
    (h : ∀ x ∈ items, Says (text x) (said x)) :
    Says (Source.recordClass name doc (items.map text))
      ([Statement.head "class" name, .doc doc] ++ items.flatMap said) := by
  have hclass : LineSays ("class " ++ name ++ ":") (some (.head "class" name)) :=
    lineSays_head _ _ (.fixed (by decide) (by decide) fun _ => rfl) hname (by decide) rfl
  have hopening : ("    \"\"\"" : Text) = Text.spaces 4 ++ "\"\"\"" := rfl
  have hdocline : LineSays ("    \"\"\"" ++ doc ++ "\"\"\"") (some (.doc doc)) := by
    have hline := lineSays_doc 4 hdoc.spells hdoc.le_val
    rw [hopening]
    simpa only [List.append_assoc] using hline
  have hpass : LineSays "    pass" none := lineSays_fixed (by decide) rfl
  have hstart := says_lines (.cons lineSays_blank (.cons lineSays_blank (.cons hclass
    (.cons hdocline .nil))))
  have hbody : Says (if (items.map text).isEmpty then lines ["    pass"]
      else (items.map text).flatten) (items.flatMap said) := by
    cases items with
    | nil =>
      have hsaid : Says (lines ["    pass"]) [] := says_lines (.cons hpass .nil)
      exact hsaid
    | cons x xs =>
      have hall := says_flatMap h
      rw [List.flatMap_def] at hall
      exact hall
  exact hstart.append hbody

/-- The table of errors says which record goes with each selector. -/
theorem lineSays_errorTable {errors : List ErrorRecord} (h : ∀ e ∈ errors, IsWord e.identifier) :
    LineSays ("ERRORS: dict[str, type] = " ++
        mapLiteral (errors.map fun e => (Text.quoted e.selector, "Errors." ++ e.identifier)))
      (some (.assigned "ERRORS"
        (.map (errors.map fun e => (e.selector, .name ("Errors." ++ e.identifier)))))) := by
  have hmap : Denotes readValue
      (mapLiteral (errors.map fun e => (Text.quoted e.selector, "Errors." ++ e.identifier)))
      (.map (errors.map fun e => (e.selector, .name ("Errors." ++ e.identifier)))) :=
    denotes_map fun e he => denotes_record (h e he)
  exact lineSays_assigned _ "ERRORS" (.fixed (by decide) (by decide) fun _ => rfl) hmap

section

variable {client : Client} (h : client.Legible)
include h

theorem Legible.says_eventClass : Says (Source.eventClass client) (Outline.eventClass client) :=
  says_recordClass (by decide) (Text.literal Unescaped (by decide)) fun e he =>
    says_eventRecord (h.events e he).1 (h.events e he).2

theorem Legible.says_errorClass : Says (Source.errorClass client) (Outline.errorClass client) := by
  have hrecords : Says (Source.recordClass "Errors"
      "Custom error records, keyed by selector in ERRORS." (client.errors.map Source.errorRecord))
      ([Statement.head "class" "Errors",
        .doc "Custom error records, keyed by selector in ERRORS."] ++
        client.errors.flatMap Outline.errorRecord) :=
    says_recordClass (by decide) (Text.literal Unescaped (by decide)) fun e he =>
      says_errorRecord (h.errors e he).1 (h.errors e he).2
  have htable := lineSays_errorTable fun e he => (h.errors e he).1
  exact hrecords.append (says_lines (.cons lineSays_blank (.cons lineSays_blank (.cons htable
    .nil))))

theorem Legible.says_contractClass (fingerprint : Text) :
    Says (Source.contractClass client fingerprint)
      (Outline.contractClass client fingerprint) := by
  have hclass : LineSays ("class " ++ client.identifier ++ "(Contract):")
      (some (.head "class" client.identifier)) :=
    lineSays_head _ _ (.fixed (by decide) (by decide) fun _ => rfl) h.identifier
      (Text.literal Plain (by decide)) rfl
  have hidentifier := unescaped_of_plain (Text.plain_of_isIdentifierPart h.identifier)
  have hdoc : LineSays
      ("    \"\"\"Typed client for the " ++ client.identifier ++ " contract.\"\"\"")
      (some (.doc ("Typed client for the " ++ client.identifier ++ " contract."))) :=
    lineSays_docAround 4 rfl rfl (by decide) (by decide) hidentifier.spells hidentifier.le_val
  have hname := lineSays_assigned "    CONTRACT_NAME = " "CONTRACT_NAME"
    (.fixed (by decide) (by decide) fun _ => rfl) (denotes_text client.contractName).simple.value
  have hfingerprint := lineSays_assigned "    ABI_FINGERPRINT = " "ABI_FINGERPRINT"
    (.fixed (by decide) (by decide) fun _ => rfl) (denotes_text fingerprint).simple.value
  have hfallback := lineSays_assigned "    HAS_FALLBACK = " "HAS_FALLBACK"
    (.fixed (by decide) (by decide) fun _ => rfl) (denotes_truth client.fallback.isSome)
  have hreceive := lineSays_assigned "    HAS_RECEIVE = " "HAS_RECEIVE"
    (.fixed (by decide) (by decide) fun _ => rfl) (denotes_truth client.receive)
  have hevents : LineSays "    Events = Events" (some (.assigned "Events" (.name "Events"))) :=
    lineSays_fixed (by decide) rfl
  have herrors : LineSays "    Errors = Errors" (some (.assigned "Errors" (.name "Errors"))) :=
    lineSays_fixed (by decide) rfl
  exact says_lines (.cons lineSays_blank (.cons lineSays_blank (.cons hclass (.cons hdoc
    (.cons lineSays_blank (.cons hname (.cons hfingerprint (.cons hfallback
    (.cons hreceive (.cons hevents (.cons herrors .nil)))))))))))

end

end AbiBindings.Client
