import AbiBindings.AbiType.Basic
import AbiBindings.Artifact.Bytecode

/-!
A contract artifact after validation: the entries of its ABI with parsed types, its creation
bytecode, and the addresses where it is deployed. Every entry knows its position in the ABI list.
-/

namespace AbiBindings

/-- What a function may do to the state and to the balance of its contract. -/
inductive Mutability where
  | pure
  | view
  | nonpayable
  | payable
deriving DecidableEq, Repr

namespace Mutability

def name : Mutability → Text
  | pure => "pure"
  | view => "view"
  | nonpayable => "nonpayable"
  | payable => "payable"

def all : List Mutability := [pure, view, nonpayable, payable]

def ofName? (word : Text) : Option Mutability := all.find? fun m => m.name = word

theorem ofName?_name (m : Mutability) : ofName? m.name = some m := by
  cases m <;> decide

def isReadOnly : Mutability → Bool
  | pure | view => true
  | _ => false

end Mutability

/-- A parameter as declared. Only parameters of events can be indexed. -/
structure Param where
  name : Text
  type : AbiType
  indexed : Bool
  internalType : Option Text
deriving DecidableEq

structure FunctionEntry where
  index : Nat
  name : Text
  inputs : List Param
  outputs : List Param
  mutability : Mutability
deriving DecidableEq

structure ConstructorEntry where
  index : Nat
  inputs : List Param
  mutability : Mutability
deriving DecidableEq

structure EventEntry where
  index : Nat
  name : Text
  inputs : List Param
  anonymous : Bool
deriving DecidableEq

structure ErrorEntry where
  index : Nat
  name : Text
  inputs : List Param
deriving DecidableEq

/-- The function called when no other one matches. -/
structure FallbackEntry where
  index : Nat
  mutability : Mutability
deriving DecidableEq

/-- The function called when value comes without data. -/
structure ReceiveEntry where
  index : Nat
deriving DecidableEq

inductive Entry where
  | function (entry : FunctionEntry)
  | constructor (entry : ConstructorEntry)
  | event (entry : EventEntry)
  | error (entry : ErrorEntry)
  | fallback (entry : FallbackEntry)
  | receive (entry : ReceiveEntry)
deriving DecidableEq

namespace Entry

def kind : Entry → EntryKind
  | function _ => .function
  | constructor _ => .constructor
  | event _ => .event
  | error _ => .error
  | fallback _ => .fallback
  | receive _ => .receive

def index : Entry → Nat
  | function entry => entry.index
  | constructor entry => entry.index
  | event entry => entry.index
  | error entry => entry.index
  | fallback entry => entry.index
  | receive entry => entry.index

def function? : Entry → Option FunctionEntry
  | function entry => some entry
  | _ => none

def constructor? : Entry → Option ConstructorEntry
  | constructor entry => some entry
  | _ => none

def event? : Entry → Option EventEntry
  | event entry => some entry
  | _ => none

def error? : Entry → Option ErrorEntry
  | error entry => some entry
  | _ => none

def fallback? : Entry → Option FallbackEntry
  | fallback entry => some entry
  | _ => none

def receive? : Entry → Option ReceiveEntry
  | receive entry => some entry
  | _ => none

end Entry

structure Artifact where
  name : Text
  abi : List Entry
  bytecode : Option Bytecode
  /-- Networks with the address of the contract there, in the order of the document. -/
  deployments : List (Text × Text)
deriving DecidableEq

namespace Artifact

def functions (artifact : Artifact) : List FunctionEntry := artifact.abi.filterMap Entry.function?

def events (artifact : Artifact) : List EventEntry := artifact.abi.filterMap Entry.event?

def errors (artifact : Artifact) : List ErrorEntry := artifact.abi.filterMap Entry.error?

def constructor? (artifact : Artifact) : Option ConstructorEntry :=
  artifact.abi.findSome? Entry.constructor?

def fallback? (artifact : Artifact) : Option FallbackEntry :=
  artifact.abi.findSome? Entry.fallback?

def receive? (artifact : Artifact) : Option ReceiveEntry :=
  artifact.abi.findSome? Entry.receive?

end Artifact

end AbiBindings
