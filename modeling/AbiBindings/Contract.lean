import AbiBindings.Artifact.Basic
import AbiBindings.Identifier.Assign
import AbiBindings.Signature

/-!
A contract with everything named: each function, event and error has its signature, its hash and
an identifier that no other one of its kind has, and so has each parameter within its list. Two
entries of one kind with one signature are duplicates and refused; entries that only share a name
are overloads and numbered.
-/

namespace AbiBindings

structure NamedParam where
  declared : Param
  identifier : Text
deriving DecidableEq

namespace NamedParam

/-- Gives the parameters of a list their identifiers; nameless ones are called by `kind` and
position. -/
def ofParams (kind : Text) (params : List Param) : List NamedParam :=
  (params.zip (Identifier.assignParams kind (params.map Param.name))).map fun p => ⟨p.1, p.2⟩

def ofInputs (params : List Param) : List NamedParam := ofParams "arg" params

def ofOutputs (params : List Param) : List NamedParam := ofParams "out" params

end NamedParam

structure NamedFunction where
  entry : FunctionEntry
  identifier : Text
  signature : Text
  selector : Text
  inputs : List NamedParam
  outputs : List NamedParam
deriving DecidableEq

structure NamedEvent where
  entry : EventEntry
  identifier : Text
  signature : Text
  topic : Option Text
  inputs : List NamedParam
deriving DecidableEq

structure NamedError where
  entry : ErrorEntry
  identifier : Text
  signature : Text
  selector : Text
  inputs : List NamedParam
deriving DecidableEq

structure Contract where
  artifact : Artifact
  identifier : Text
  constructorInputs : List NamedParam
  functions : List NamedFunction
  events : List NamedEvent
  errors : List NamedError
deriving DecidableEq

namespace Contract

def constructorPayable (contract : Contract) : Bool :=
  contract.artifact.constructor?.any fun entry => entry.mutability = .payable

def typesOf (params : List Param) : List AbiType := params.map Param.type

def signatureOfFunction (entry : FunctionEntry) : Text :=
  Signature.canonical entry.name (typesOf entry.inputs)

def signatureOfEvent (entry : EventEntry) : Text :=
  Signature.canonical entry.name (typesOf entry.inputs)

def signatureOfError (entry : ErrorEntry) : Text :=
  Signature.canonical entry.name (typesOf entry.inputs)

structure Signed where
  index : Nat
  name : Text
  signature : Text
deriving DecidableEq, Repr

namespace Signed

def toNamed (entry : Signed) : Identifier.Named := ⟨entry.name, entry.signature⟩

end Signed

def signedFunctions (artifact : Artifact) : List Signed :=
  artifact.functions.map fun e => ⟨e.index, e.name, signatureOfFunction e⟩

def signedEvents (artifact : Artifact) : List Signed :=
  artifact.events.map fun e => ⟨e.index, e.name, signatureOfEvent e⟩

def signedErrors (artifact : Artifact) : List Signed :=
  artifact.errors.map fun e => ⟨e.index, e.name, signatureOfError e⟩

/-- Refuses entries of which two share a signature. The first entry with a twin is named, with the
positions of all entries that share its signature. -/
def checkDuplicates (entries : List Signed) : Except Fault Unit :=
  let twins (entry : Signed) := entries.filter fun other => other.signature = entry.signature
  match entries.find? fun entry => 1 < (twins entry).length with
  | none => .ok ()
  | some entry =>
    .error (.duplicateEntry entry.name entry.signature ((twins entry).map Signed.index))

/-- The identifiers of functions: in lower case with underscores, unless an alias is given. -/
def functionIdentifiers (aliases : List (Text × Text)) (entries : List Signed) : List Text :=
  Identifier.assign true Identifier.reservedForMethods aliases (entries.map Signed.toNamed)

/-- The identifiers of events or errors, which keep their spelling. -/
def recordIdentifiers (entries : List Signed) : List Text :=
  Identifier.assign false Identifier.reservedForRecords [] (entries.map Signed.toNamed)

def identifierOf (name : Text) : Text :=
  Identifier.sanitize false Identifier.reservedForContract name

def nameFunction (entry : FunctionEntry) (identifier : Text) : Except Fault NamedFunction := do
  let signature := signatureOfFunction entry
  return ⟨entry, identifier, signature, ← Signature.selector signature,
    NamedParam.ofInputs entry.inputs, NamedParam.ofOutputs entry.outputs⟩

def nameEvent (entry : EventEntry) (identifier : Text) : Except Fault NamedEvent := do
  let signature := signatureOfEvent entry
  let topic ← if entry.anonymous then pure none else some <$> Signature.topic signature
  return ⟨entry, identifier, signature, topic, NamedParam.ofInputs entry.inputs⟩

def nameError (entry : ErrorEntry) (identifier : Text) : Except Fault NamedError := do
  let signature := signatureOfError entry
  return ⟨entry, identifier, signature, ← Signature.selector signature,
    NamedParam.ofInputs entry.inputs⟩

/-- Refuses duplicates among functions, then among events, then among errors. -/
def checkAllDuplicates (artifact : Artifact) : Except Fault Unit := do
  checkDuplicates (signedFunctions artifact)
  checkDuplicates (signedEvents artifact)
  checkDuplicates (signedErrors artifact)

/-- Names everything in an artifact. `aliases` gives identifiers for the functions with certain
signatures; the others are ignored. -/
def ofArtifact (artifact : Artifact) (aliases : List (Text × Text)) : Except Fault Contract := do
  checkAllDuplicates artifact
  let functions ← (artifact.functions.zip
    (functionIdentifiers aliases (signedFunctions artifact))).mapM fun p => nameFunction p.1 p.2
  let events ← (artifact.events.zip
    (recordIdentifiers (signedEvents artifact))).mapM fun p => nameEvent p.1 p.2
  let errors ← (artifact.errors.zip
    (recordIdentifiers (signedErrors artifact))).mapM fun p => nameError p.1 p.2
  let inputs := (artifact.constructor?.map ConstructorEntry.inputs).getD []
  return ⟨artifact, identifierOf artifact.name, NamedParam.ofInputs inputs, functions, events,
    errors⟩

end Contract

end AbiBindings
