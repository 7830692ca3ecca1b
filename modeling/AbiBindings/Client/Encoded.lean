import AbiBindings.Client.Basic
import AbiBindings.Json.Writer

/-!
A client module as JSON, and its fingerprint. The JSON holds the whole module, so that any
generator can work from it alone; two modules with the same text are the same module. The
fingerprint is the hash of the compact text.
-/

namespace AbiBindings

namespace Field

def toJson (field : Field) : Json :=
  .obj [("name", .str field.name), ("identifier", .str field.identifier),
    ("abi_type", .str field.type.canonical), ("type", field.type.toJson),
    ("binding", field.binding.toJson)]

def listJson (fields : List Field) : Json := .arr (fields.map toJson)

end Field

namespace Client

def optionalJson : Option Text → Json
  | none => .null
  | some text => .str text

namespace Constructor

def toJson (c : Constructor) : Json :=
  .obj [("kind", .str "constructor"), ("inputs", Field.listJson c.inputs),
    ("payable", .bool c.payable)]

end Constructor

namespace Method

def toJson (m : Method) : Json :=
  .obj [("kind", .str "method"), ("identifier", .str m.identifier), ("name", .str m.name),
    ("signature", .str m.signature), ("selector", .str m.selector),
    ("mutability", .str m.mutability.name), ("inputs", Field.listJson m.inputs),
    ("outputs", Field.listJson m.outputs)]

end Method

namespace EventRecord

def toJson (e : EventRecord) : Json :=
  .obj [("kind", .str "event"), ("identifier", .str e.identifier), ("name", .str e.name),
    ("signature", .str e.signature), ("topic", optionalJson e.topic),
    ("anonymous", .bool e.anonymous), ("topic_fields", Field.listJson e.topicFields),
    ("data_fields", Field.listJson e.dataFields)]

end EventRecord

namespace ErrorRecord

def toJson (e : ErrorRecord) : Json :=
  .obj [("kind", .str "error"), ("identifier", .str e.identifier), ("name", .str e.name),
    ("signature", .str e.signature), ("selector", .str e.selector),
    ("fields", Field.listJson e.fields)]

end ErrorRecord

namespace Deployment

def linkRefJson (ref : LinkRef) : Json :=
  .obj [("placeholder", .str ref.placeholder), ("library", .str ref.library),
    ("offsets", .arr (ref.offsets.map fun (offset : Nat) => .int offset))]

def networkJson (network : Text × Text) : Json :=
  .obj [("network", .str network.1), ("address", .str network.2)]

def toJson (d : Deployment) : Json :=
  .obj [("kind", .str "deployment"), ("bytecode", optionalJson d.bytecode),
    ("link_refs", .arr (d.linkRefs.map linkRefJson)),
    ("networks", .arr (d.networks.map networkJson))]

end Deployment

/-- The parts of a module as JSON: the constructor, methods, events, errors and deployments. -/
def partsJson (client : Client) : List Json :=
  client.constructor.toJson :: client.methods.map Method.toJson ++
    client.events.map EventRecord.toJson ++ client.errors.map ErrorRecord.toJson ++
    [client.deployment.toJson]

def toJson (client : Client) : Json :=
  .obj [("ir_version", .str Release.formatVersion), ("generator", .str Release.generator),
    ("contract_name", .str client.contractName), ("identifier", .str client.identifier),
    ("runtime_package", .str client.runtimePackage),
    ("imports", .arr (client.imports.map .str)),
    ("fallback", optionalJson (client.fallback.map Mutability.name)),
    ("receive", .bool client.receive), ("units", .arr client.partsJson)]

def toJsonText (client : Client) (style : Json.Style) : Text := client.toJson.write style

/-- The fingerprint of a module: the hash of its compact text, in hexadecimal digits after
`0x`. -/
def fingerprint (client : Client) : Except Fault Text :=
  match Text.encode (client.toJsonText .compact) with
  | .ok bytes => .ok ("0x" ++ Hash.hexOfBytes (Hash.sha3 bytes))
  | .error place => .error (.unencodable place)

end Client

end AbiBindings
