import AbiBindings.Binding
import AbiBindings.Contract
import AbiBindings.Release

/-!
The client module generated for a contract, before it is written out: one constructor, a method
for every function, a record for every event and every error, and what is known of deployments.
The parts of each kind stand in ABI order. What the module imports from the runtime package
follows from its parts.
-/

namespace AbiBindings

structure Field where
  name : Text
  identifier : Text
  type : AbiType
  binding : Binding

structure Client.Constructor where
  inputs : List Field
  payable : Bool

structure Client.Method where
  identifier : Text
  name : Text
  signature : Text
  selector : Text
  inputs : List Field
  outputs : List Field
  mutability : Mutability

structure Client.EventRecord where
  identifier : Text
  name : Text
  signature : Text
  topic : Option Text
  anonymous : Bool
  topicFields : List Field
  dataFields : List Field

structure Client.ErrorRecord where
  identifier : Text
  name : Text
  signature : Text
  selector : Text
  fields : List Field

/-- Creation bytecode with its open libraries, and the known addresses by network. -/
structure Client.Deployment where
  bytecode : Option Text
  linkRefs : List LinkRef
  networks : List (Text × Text)

structure Client where
  contractName : Text
  identifier : Text
  /-- The package that the module imports its runtime from. -/
  runtimePackage : Text
  constructor : Client.Constructor
  methods : List Client.Method
  events : List Client.EventRecord
  errors : List Client.ErrorRecord
  deployment : Client.Deployment
  /-- The mutability of the fallback function, if there is one. -/
  fallback : Option Mutability
  /-- Whether there is a receive function. -/
  receive : Bool

namespace Client

/-- The package that modules import from unless told otherwise. -/
def defaultPackage : Text := "ethcontract"

namespace Method

/-- Whether the method makes a call rather than send a transaction. -/
def isReadOnly (method : Method) : Bool := method.mutability.isReadOnly

def isPayable (method : Method) : Bool := method.mutability = .payable

def runtimeName (method : Method) : Text := if method.isReadOnly then "ViewCall" else "Transaction"

end Method

def fieldOf (param : NamedParam) : Except Fault Field := do
  let type := param.declared.type
  return ⟨param.declared.name, param.identifier, type, ← Binding.ofType type⟩

def fieldsOf (params : List NamedParam) : Except Fault (List Field) := params.mapM fieldOf

def methodOf (f : NamedFunction) : Except Fault Method := do
  return ⟨f.identifier, f.entry.name, f.signature, f.selector, ← fieldsOf f.inputs,
    ← fieldsOf f.outputs, f.entry.mutability⟩

def eventRecordOf (e : NamedEvent) : Except Fault EventRecord := do
  let topicFields ← fieldsOf (e.inputs.filter fun p => p.declared.indexed)
  let dataFields ← fieldsOf (e.inputs.filter fun p => !p.declared.indexed)
  return ⟨e.identifier, e.entry.name, e.signature, e.topic, e.entry.anonymous, topicFields,
    dataFields⟩

def errorRecordOf (e : NamedError) : Except Fault ErrorRecord := do
  return ⟨e.identifier, e.entry.name, e.signature, e.selector, ← fieldsOf e.inputs⟩

def deploymentOf (artifact : Artifact) : Deployment :=
  ⟨artifact.bytecode.map Bytecode.hex, (artifact.bytecode.map Bytecode.linkRefs).getD [],
    artifact.deployments⟩

/-- The name and the identifier of the module: those of the contract, unless another name is given
that is not empty. -/
def nameAndIdentifier (contract : Contract) (name : Option Text) : Text × Text :=
  match name with
  | none => (contract.artifact.name, contract.identifier)
  | some name =>
    if name.isEmpty then (contract.artifact.name, contract.identifier)
    else (name, Contract.identifierOf name)

/-- The client module of a contract, which imports from a package and may be renamed. -/
def ofContract (contract : Contract) (runtimePackage : Text) (name : Option Text) :
    Except Fault Client := do
  let (contractName, identifier) := nameAndIdentifier contract name
  let inputs ← fieldsOf contract.constructorInputs
  let methods ← contract.functions.mapM methodOf
  let events ← contract.events.mapM eventRecordOf
  let errors ← contract.errors.mapM errorRecordOf
  return {
    contractName, identifier, runtimePackage, methods, events, errors
    constructor := ⟨inputs, contract.constructorPayable⟩
    deployment := deploymentOf contract.artifact
    fallback := contract.artifact.fallback?.map FallbackEntry.mutability
    receive := contract.artifact.receive?.isSome }

def Deployment.runtimeNames (d : Deployment) : List Text :=
  let deployer : List Text := if d.bytecode.isSome then ["Deployer"] else []
  let linker : List Text := if d.linkRefs.isEmpty then [] else ["link_bytecode"]
  deployer ++ linker

/-- What the module needs from the runtime package, part by part. -/
def runtimeNames (client : Client) : List Text :=
  let methods : List Text := client.methods.map Method.runtimeName
  let events : List Text := client.events.map fun _ => "EventLog"
  let errors : List Text := client.errors.map fun _ => "RevertError"
  "Contract" :: (methods ++ events ++ errors ++ client.deployment.runtimeNames)

/-- The names that the module imports from the runtime package, in increasing order. -/
def imports (client : Client) : List Text := Text.sortDistinct client.runtimeNames

def partCount (client : Client) : Nat :=
  client.methods.length + client.events.length + client.errors.length + 2

end Client

end AbiBindings
