import AbiBindings.Client.Encoded
import AbiBindings.Text.Quoted

/-!
The source text of a client module, and the formats in which a module can be written. The source
holds data only as quoted literals, and signatures also in documentation strings; both end where
they should whatever the artifact holds. The parts come in a fixed order: heading, records of
events and errors, the contract class with its methods, and the list of exported names.
-/

namespace AbiBindings

namespace Client

def lines (all : List Text) : Text := all.flatMap fun line => line ++ "\n"

def optionalLiteral : Option Text → Text
  | none => "None"
  | some text => Text.quoted text

def truthLiteral (b : Bool) : Text := if b then "True" else "False"

/-- Literals between parentheses; a single one has a comma after it. -/
def tupleLiteral (items : List Text) : Text :=
  match items with
  | [item] => "(" ++ item ++ ",)"
  | items => "(" ++ Text.join ", " items ++ ")"

/-- Keys and values, both as literals, between braces. -/
def mapLiteral (entries : List (Text × Text)) : Text :=
  "\x7b" ++ Text.join ", " (entries.map fun entry => entry.1 ++ ": " ++ entry.2) ++ "\x7d"

/-- A text inside a documentation string: the body of its literal, with double quotes escaped. -/
def docText (t : Text) : Text :=
  (Text.quotedBody t).flatMap fun c => if c = Text.doubleQuote then "\\\"" else [c]

namespace Source

def annotation (field : Field) : Text := field.binding.host.annotation?.getD []

def params (fields : List Field) : Text :=
  fields.flatMap fun field => ", " ++ field.identifier ++ ": " ++ annotation field

def arguments (fields : List Field) : Text := Text.join ", " (fields.map Field.identifier)

def results (outputs : List Field) : Text :=
  match outputs with
  | [] => "None"
  | [output] => annotation output
  | outputs => "Tuple[" ++ Text.join ", " (outputs.map annotation) ++ "]"

/-- The heading: where the text comes from, what it imports, and the deployments. -/
def heading (client : Client) (fingerprint : Text) : Text :=
  let d := client.deployment
  lines [
    "# This file was generated by " ++ Release.generator ++ ". Do not edit by hand.",
    "# IR fingerprint: " ++ fingerprint,
    "\"\"\"Typed bindings for the " ++ client.identifier ++ " contract.\"\"\"",
    "",
    "from __future__ import annotations",
    "",
    "from typing import Any, List, NamedTuple, Optional, Tuple",
    "",
    "from " ++ client.runtimePackage ++ " import " ++ Text.join ", " client.imports,
    "",
    "BYTECODE: Optional[str] = " ++ optionalLiteral d.bytecode,
    "LINK_REFERENCES: dict[str, tuple[int, ...]] = " ++
      mapLiteral (d.linkRefs.map fun ref =>
        (Text.quoted ref.placeholder, tupleLiteral (ref.offsets.map Text.ofNat))),
    "NETWORKS: dict[str, str] = " ++
      mapLiteral (d.networks.map fun network =>
        (Text.quoted network.1, Text.quoted network.2))]

def record (identifier signature : Text) (constants : List (Text × Text)) (fields : List Field) :
    Text :=
  let constantLine (constant : Text × Text) : Text :=
    "        " ++ constant.1 ++ " = " ++ constant.2
  let fieldLine (field : Field) : Text :=
    "        " ++ field.identifier ++ ": " ++ annotation field
  lines [
    "",
    "    class " ++ identifier ++ "(NamedTuple):",
    "        \"\"\"" ++ docText signature ++ "\"\"\"",
    "",
    "        SIGNATURE = " ++ Text.quoted signature] ++
  lines (constants.map constantLine) ++ lines (fields.map fieldLine) ++ lines [""]

/-- The record of an event: its topics first, then its data. -/
def eventRecord (e : EventRecord) : Text :=
  record e.identifier e.signature
    [("TOPIC", optionalLiteral e.topic),
     ("INDEXED", tupleLiteral (e.topicFields.map fun field => Text.quoted field.identifier))]
    (e.topicFields ++ e.dataFields)

def errorRecord (e : ErrorRecord) : Text :=
  record e.identifier e.signature [("SELECTOR", Text.quoted e.selector)] e.fields

def recordClass (name doc : Text) (records : List Text) : Text :=
  lines ["", "", "class " ++ name ++ ":", "    \"\"\"" ++ doc ++ "\"\"\""] ++
    (if records.isEmpty then lines ["    pass"] else records.flatten)

def eventClass (client : Client) : Text :=
  recordClass "Events" "Event records: indexed fields first, then data fields."
    (client.events.map eventRecord)

/-- The records of errors, and the table that finds one by its selector. -/
def errorClass (client : Client) : Text :=
  recordClass "Errors" "Custom error records, keyed by selector in ERRORS."
    (client.errors.map errorRecord) ++
  lines ["", "",
    "ERRORS: dict[str, type] = " ++
      mapLiteral (client.errors.map fun e =>
        (Text.quoted e.selector, "Errors." ++ e.identifier))]

def contractClass (client : Client) (fingerprint : Text) : Text :=
  lines [
    "",
    "",
    "class " ++ client.identifier ++ "(Contract):",
    "    \"\"\"Typed client for the " ++ client.identifier ++ " contract.\"\"\"",
    "",
    "    CONTRACT_NAME = " ++ Text.quoted client.contractName,
    "    ABI_FINGERPRINT = " ++ Text.quoted fingerprint,
    "    HAS_FALLBACK = " ++ truthLiteral client.fallback.isSome,
    "    HAS_RECEIVE = " ++ truthLiteral client.receive,
    "    Events = Events",
    "    Errors = Errors"]

def deployDoc (c : Constructor) : Text :=
  "Deploy a new instance (" ++ (if c.payable then Mutability.payable else .nonpayable).name ++ ")"

def deploy (c : Constructor) : Text :=
  lines [
    "",
    "    @classmethod",
    "    def deploy(cls" ++ params c.inputs ++ ", **overrides: Any) -> Deployer:",
    "        \"\"\"" ++ deployDoc c ++ ".\"\"\"",
    "        return Deployer(cls, BYTECODE, [" ++ arguments c.inputs ++ "], payable=" ++
      truthLiteral c.payable ++ ", **overrides)"]

/-- Deployment of bytecode with open libraries, whose addresses are asked for. -/
def deployLinked (c : Constructor) : Text :=
  lines [
    "",
    "    @classmethod",
    "    def deploy(cls" ++ params c.inputs ++
      ", *, libraries: dict[str, str], **overrides: Any) -> Deployer:",
    "        \"\"\"" ++ deployDoc c ++ "; `libraries` maps library name to address.\"\"\"",
    "        return Deployer(cls, link_bytecode(BYTECODE, LINK_REFERENCES, libraries), [" ++
      arguments c.inputs ++ "], payable=" ++ truthLiteral c.payable ++ ", **overrides)"]

def methodDoc (m : Method) : Text :=
  "        \"\"\"" ++ docText m.signature ++ " [" ++ m.mutability.name ++ "]\"\"\""

/-- What a method passes on to the runtime before its options. -/
def callArguments (m : Method) : Text :=
  "self, " ++ Text.quoted m.signature ++ ", " ++ Text.quoted m.selector ++ ", [" ++
    arguments m.inputs ++ "]"

def viewMethod (m : Method) : Text :=
  lines [
    "",
    "    def " ++ m.identifier ++ "(self" ++ params m.inputs ++
      ", **overrides: Any) -> ViewCall[" ++ results m.outputs ++ "]:",
    methodDoc m,
    "        return ViewCall(" ++ callArguments m ++ ", **overrides)"]

def sendMethod (m : Method) : Text :=
  lines [
    "",
    "    def " ++ m.identifier ++ "(self" ++ params m.inputs ++
      ", **overrides: Any) -> Transaction:",
    methodDoc m,
    "        return Transaction(" ++ callArguments m ++ ", payable=" ++
      truthLiteral m.isPayable ++ ", **overrides)"]

def eventsHelper : Text :=
  lines [
    "",
    "    def events(self, event: type, receipt_or_logs: Any) -> List[Any]:",
    "        \"\"\"Decode every log of `event` (an ``Events.*`` record) in a " ++
      "receipt or log list.\"\"\"",
    "        return EventLog(self, event).decode(receipt_or_logs)"]

def errorsHelper : Text :=
  lines [
    "",
    "    def revert_error(self, data: bytes) -> RevertError:",
    "        \"\"\"Match revert data against the contract's custom errors.\"\"\"",
    "        return RevertError(data, ERRORS)"]

def exports (client : Client) : Text :=
  lines ["", "", "__all__ = [\"" ++ client.identifier ++ "\", \"Events\", \"Errors\"]"]

/-- A member of the contract class: which text stands for which part of the module. -/
inductive Member where
  | deploy (c : Constructor)
  | deployLinked (c : Constructor)
  | view (m : Method)
  | send (m : Method)
  | events
  | errors

def Member.text : Member → Text
  | deploy c => Source.deploy c
  | deployLinked c => Source.deployLinked c
  | view m => viewMethod m
  | send m => sendMethod m
  | events => eventsHelper
  | errors => errorsHelper

/-- The members of the contract class: deployment if there is bytecode, the methods, and a helper
for events and for errors if there are any. -/
def members (client : Client) : List Member :=
  (if client.deployment.bytecode.isNone then []
   else if client.imports.contains "link_bytecode" then [.deployLinked client.constructor]
   else [.deploy client.constructor]) ++
  client.methods.map (fun m => if m.isReadOnly then .view m else .send m) ++
  (if client.events.isEmpty then [] else [.events]) ++
  (if client.errors.isEmpty then [] else [.errors])

end Source

def source (client : Client) : Except Fault Text := do
  let fingerprint ← client.fingerprint
  return Source.heading client fingerprint ++ Source.eventClass client ++
    Source.errorClass client ++ Source.contractClass client fingerprint ++
    (Source.members client).flatMap Source.Member.text ++ Source.exports client

end Client

inductive Format where
  /-- Source text. -/
  | source
  /-- The module itself as JSON. -/
  | json
deriving DecidableEq, Repr

namespace Format

def name : Format → Text
  | source => "py"
  | json => "ir"

def all : List Format := [json, source]

def ofName? (word : Text) : Option Format := all.find? fun format => format.name = word

def render (format : Format) (client : Client) : Except Fault Text :=
  match format with
  | source => client.source
  | json => .ok (client.toJsonText (.indented 2) ++ "\n")

end Format

end AbiBindings
