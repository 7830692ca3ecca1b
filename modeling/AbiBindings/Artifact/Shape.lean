import AbiBindings.EntryKind
import AbiBindings.Schema.Basic

/-!
The schemas that artifacts and ABI entries follow. The document is checked first, with every entry
any object, and then each entry against the schema of its kind. Keys that no schema mentions may
hold anything.
-/

namespace AbiBindings.Artifact

inductive ItemShape where
  | object
  | param
  | eventParam
deriving DecidableEq, Repr

/-- Schemas over those of items. -/
abbrev Shape := Schema ItemShape

namespace Shape

def text : Shape := .mk (some .text) []

def name : Shape := .mk (some .text) [.nonEmpty]

def flag : Shape := .mk (some .bool) []

def listOf (item : ItemShape) : Shape := .mk (some .array) [.items item]

def word (words : List Text) : Shape := .mk none [.oneOf words]

/-- The rules for a parameter: a type, and names and components where given. -/
def paramRules : List (Rule ItemShape) :=
  [.required "type", .property "name" text, .property "type" text,
   .property "internalType" text, .property "components" (listOf .param)]

/-- The shape behind the name of an item shape; a parameter of an event may be marked as
indexed. -/
def ofItem : ItemShape → Shape
  | .object => .mk (some .object) []
  | .param => .mk (some .object) paramRules
  | .eventParam => .mk (some .object) (paramRules ++ [.property "indexed" flag])

def textOrField (key : Text) : List Shape :=
  [text, .mk (some .object) [.required key, .property key text]]

def document : Shape :=
  .mk (some .object)
    [.required "abi", .property "contractName" name, .property "abi" (listOf .object),
     .property "bytecode" (.mk none [.anyOf (.mk (some .null) [] :: textOrField "object")]),
     .property "networks"
       (.mk (some .object) [.values (.mk none [.anyOf (textOrField "address")])])]

/-- What a constructor or fallback function may be declared as. -/
def receivingWords : List Text := ["nonpayable", "payable"]

def ofEntry : EntryKind → Shape
  | .function =>
    .mk (some .object)
      [.required "name", .property "name" name, .property "inputs" (listOf .param),
       .property "outputs" (listOf .param),
       .property "stateMutability" (word ["pure", "view", "nonpayable", "payable"]),
       .property "constant" flag, .property "payable" flag]
  | .constructor =>
    .mk (some .object)
      [.property "inputs" (listOf .param), .property "stateMutability" (word receivingWords),
       .property "payable" flag]
  | .event =>
    .mk (some .object)
      [.required "name", .property "name" name, .property "inputs" (listOf .eventParam),
       .property "anonymous" flag]
  | .error =>
    .mk (some .object)
      [.required "name", .property "name" name, .property "inputs" (listOf .param)]
  | .fallback =>
    .mk (some .object)
      [.property "stateMutability" (word receivingWords), .property "payable" flag]
  | .receive => .mk (some .object) [.property "stateMutability" (.mk none [.exactly "payable"])]

end Shape

end AbiBindings.Artifact
