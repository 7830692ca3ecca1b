import AbiBindings.AbiType.Parser
import AbiBindings.Artifact.Basic
import AbiBindings.Artifact.Shape
import AbiBindings.Schema.Relevance

/-!
From a JSON document to an artifact. The document is checked as a whole, then each entry by its
kind, and only then are its parts read; a part that the checks promise and that is missing all the
same would be a `missingPart`. Fields that nothing reads are ignored. A bare ABI list stands for a
document with nothing else, and a name from outside takes the place of the one in the document.
-/

namespace AbiBindings.Artifact

/-- Refuses a value that breaks a shape, for its most relevant violation. All violations are put
into words before one is picked; what breaks an alternative is a violation only where none applies.
`place` is where the value is. -/
def check (shape : Shape) (value : Json) (place : Location) : Except Fault Unit :=
  let violations := value.violations Shape.ofItem shape
  match Violation.mostRelevant? violations with
  | none => .ok ()
  | some violation =>
    if Violation.allHaveWords violations then
      .error (.invalidArtifact (Location.write (place ++ violation.location))
        (.breach violation.breach))
    else .error .integerUnwritable

mutual

/-- The place of the first text in a value that has no UTF-8 form; keys do not count. -/
def unencodableIn? : Json → Option Location
  | .str text => if Text.isEncodable text then none else some []
  | .arr items => unencodableInItems? 0 items
  | .obj fields => unencodableInFields? fields
  | _ => none

def unencodableInItems? : (index : Nat) → List Json → Option Location
  | _, [] => none
  | index, item :: rest =>
    match unencodableIn? item with
    | some location => some (.index index :: location)
    | none => unencodableInItems? (index + 1) rest

def unencodableInFields? : List (Text × Json) → Option Location
  | [] => none
  | (key, value) :: rest =>
    match unencodableIn? value with
    | some location => some (.key key :: location)
    | none => unencodableInFields? rest

end

def checkText (value : Json) (place : Location) : Except Fault Unit :=
  match unencodableIn? value with
  | none => .ok ()
  | some location =>
    .error (.invalidArtifact (Location.write (place ++ location)) .unencodable)

def part (value : Json) (key : Text) : Except Fault Json :=
  match value.field? key with
  | some part => .ok part
  | none => .error (.missingPart key)

def textPart (value : Json) (key : Text) : Except Fault Text := do
  match ← part value key with
  | .str text => return text
  | _ => .error (.missingPart key)

def optionalText (value : Json) (key : Text) : Except Fault (Option Text) :=
  match value.field? key with
  | none => .ok none
  | some (.str text) => .ok (some text)
  | some _ => .error (.missingPart key)

/-- A list that counts as empty when absent. -/
def listPart (value : Json) (key : Text) : Except Fault (List Json) :=
  match value.field? key with
  | none => .ok []
  | some (.arr items) => .ok items
  | some _ => .error (.missingPart key)

def flagPart (value : Json) (key : Text) : Bool := ((value.field? key).map Json.isSet).getD false

/-- The parameters of a list, which stands at `place`, from position `index` on. Only parameters
of events keep the mark for indexed ones. -/
def loadParams (ofEvent : Bool) (place : Location) :
    (index : Nat) → List Json → Except Fault (List Param)
  | _, [] => .ok []
  | index, item :: rest => do
    let name ← optionalText item "name"
    let typeText ← part item "type"
    let components := (item.field? "components").getD .null
    let type ← AbiType.parse typeText components
      (some (Location.write (place ++ [.index index, .key "type"])))
    let internalType ← optionalText item "internalType"
    let param : Param :=
      ⟨name.getD [], type, ofEvent && flagPart item "indexed", internalType⟩
    return param :: (← loadParams ofEvent place (index + 1) rest)

def paramsPart (ofEvent : Bool) (item : Json) (place : Location) (key : Text) :
    Except Fault (List Param) := do
  loadParams ofEvent (place ++ [.key key]) 0 (← listPart item key)

/-- The declared mutability; without one, two older flags tell, the first of them first. -/
def mutabilityPart (item : Json) : Except Fault Mutability :=
  match item.field? "stateMutability" with
  | some (.str word) =>
    match Mutability.ofName? word with
    | some mutability => .ok mutability
    | none => .error (.missingPart "stateMutability")
  | some _ => .error (.missingPart "stateMutability")
  | none =>
    if flagPart item "constant" then .ok .view
    else if flagPart item "payable" then .ok .payable
    else .ok .nonpayable

def loadChecked (kind : EntryKind) (item : Json) (index : Nat) : Except Fault Entry := do
  let place : Location := [.key "abi", .index index]
  match kind with
  | .function =>
    let name ← textPart item "name"
    let inputs ← paramsPart false item place "inputs"
    let outputs ← paramsPart false item place "outputs"
    return .function ⟨index, name, inputs, outputs, ← mutabilityPart item⟩
  | .event =>
    let name ← textPart item "name"
    let inputs ← paramsPart true item place "inputs"
    return .event ⟨index, name, inputs, flagPart item "anonymous"⟩
  | .error =>
    let name ← textPart item "name"
    return .error ⟨index, name, ← paramsPart false item place "inputs"⟩
  | .constructor =>
    let inputs ← paramsPart false item place "inputs"
    return .constructor ⟨index, inputs, ← mutabilityPart item⟩
  | .fallback => return .fallback ⟨index, ← mutabilityPart item⟩
  | .receive => return .receive ⟨index⟩

/-- The kind of an entry: that of a function unless it says otherwise. -/
def kindOf (item : Json) : Except Json EntryKind :=
  match item.field? "type" with
  | none => .ok .function
  | some (.str word) =>
    match EntryKind.ofName? word with
    | some kind => .ok kind
    | none => .error (.str word)
  | some other => .error other

def loadEntry (item : Json) (index : Nat) : Except Fault Entry := do
  let place : Location := [.key "abi", .index index]
  match kindOf item with
  | .error word =>
    if word.display?.isSome then
      .error (.invalidArtifact (Location.write (place ++ [.key "type"])) (.unknownEntry word))
    else .error .integerUnwritable
  | .ok kind =>
    check (Shape.ofEntry kind) item place
    loadChecked kind item index

def loadEntries : (index : Nat) → List Json → Except Fault (List Entry)
  | _, [] => .ok []
  | index, item :: rest => do
    let entry ← loadEntry item index
    return entry :: (← loadEntries (index + 1) rest)

def checkSole (entries : List Entry) (kind : EntryKind) : Except Fault Unit :=
  match entries.filter fun entry => entry.kind = kind with
  | _ :: second :: _ =>
    .error (.invalidArtifact (Location.write [.key "abi", .index second.index])
      (.repeatedEntry kind))
  | _ => .ok ()

/-- The text of the bytecode: given as it is or inside an object, and empty when absent. -/
def bytecodeText (document : Json) : Except Fault Text :=
  match document.field? "bytecode" with
  | none | some .null => .ok []
  | some (.str text) => .ok text
  | some value => textPart value "object"

def loadBytecode (document : Json) : Except Fault (Option Bytecode) := do
  let text ← bytecodeText document
  if text.isEmpty then return none
  (Bytecode.ofText? text).mapError fun fault =>
    .invalidArtifact (Location.write [.key "bytecode"]) (.bytecode fault)

/-- Whether a text is an address: `0x` and forty hexadecimal digits, and perhaps a line end. -/
def isAddress (text : Text) : Bool :=
  let digits := Text.dropLineEnd (text.drop 2)
  Text.startsWith text "0x" && digits.length == 40 && digits.all CodePoint.isHexDigit

/-- The address of a network: given as it is or inside an object. -/
def addressPart (value : Json) : Except Fault Text :=
  match value with
  | .str text => .ok text
  | other => textPart other "address"

def loadDeployments : List (Text × Json) → Except Fault (List (Text × Text))
  | [] => .ok []
  | (network, value) :: rest => do
    let address ← addressPart value
    if isAddress address then
      return (network, address) :: (← loadDeployments rest)
    else
      .error (.invalidArtifact (Location.write [.key "networks", .key network])
        (.invalidAddress address))

def networksPart (document : Json) : Except Fault (List (Text × Json)) :=
  match document.field? "networks" with
  | none => .ok []
  | some (.obj fields) => .ok fields
  | some _ => .error (.missingPart "networks")

/-- The document that a value stands for: itself, or an ABI list alone. -/
def documentOf (raw : Json) : Except Fault Json :=
  match raw with
  | .arr items => .ok (.obj [("abi", .arr items)])
  | .obj fields => .ok (.obj fields)
  | other => .error (.invalidArtifact (Location.write []) (.notObject other))

def abiPart (document : Json) : Except Fault (List Json) :=
  match document.field? "abi" with
  | some (.arr items) => .ok items
  | _ => .error (.missingPart "abi")

/-- The keys whose texts must have a UTF-8 form, in the order of the checks. -/
def textKeys : List Text := ["contractName", "abi", "bytecode", "networks"]

/-- Refuses a text without a UTF-8 form under one of the keys. -/
def checkTexts (document : Json) : Except Fault Unit :=
  textKeys.forM fun key =>
    match document.field? key with
    | none => .ok ()
    | some value => checkText value [.key key]

/-- The name of the contract: the one from outside unless it is empty, or else the one in the
document. -/
def contractName (document : Json) (name : Option Text) : Except Fault Text := do
  let place : Location := [.key "contractName"]
  let own ← optionalText document "contractName"
  let chosen := match name with
    | none => own
    | some text => if text.isEmpty then own else some text
  match chosen with
  | none => .error (.invalidArtifact (Location.write place) .unnamed)
  | some text =>
    if text.isEmpty then .error (.invalidArtifact (Location.write place) .unnamed)
    checkText (.str text) place
    return text

structure Draft where
  document : Json
  name : Text
  entries : List Entry
  bytecode : Option Bytecode

/-- Checks a document and reads everything but the networks. -/
def Draft.ofJson (raw : Json) (name : Option Text) : Except Fault Draft := do
  let document ← documentOf raw
  check Shape.document document []
  checkTexts document
  let contractName ← contractName document name
  let entries ← loadEntries 0 (← abiPart document)
  EntryKind.singletons.forM (checkSole entries)
  let bytecode ← loadBytecode document
  return ⟨document, contractName, entries, bytecode⟩

/-- Loads an artifact from a JSON document, under another name if one is given. -/
def load (raw : Json) (name : Option Text) : Except Fault Artifact := do
  let draft ← Draft.ofJson raw name
  let deployments ← loadDeployments (← networksPart draft.document)
  return ⟨draft.name, draft.entries, draft.bytecode, deployments⟩

end AbiBindings.Artifact
