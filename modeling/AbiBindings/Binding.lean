import AbiBindings.AbiType.Basic
import AbiBindings.Fault
import AbiBindings.HostType

/-!
How values of an ABI type are represented by the caller: a host type and the codec that moves
values across the wire, with the bindings of the parts. An integer takes the smallest native width
that holds it, and an arbitrary-precision type beyond the widest one, so no value is cut off.
`Memo` keeps the binding of every shape met so far; equal shapes share one entry.
-/

namespace AbiBindings

structure Binding where
  host : HostType
  codec : Text
  elements : List Binding

namespace Binding

instance : Inhabited Binding := ⟨⟨default, [], []⟩⟩

def nativeWidths : List Nat := [8, 16, 32, 64, 128]

/-- The integer type with a base name for a number of bits; an absent or zero number is 256. -/
def integerHost (base : Text) (bits : Option Int) : HostType :=
  let bits := match bits with
    | none => 256
    | some n => if n = 0 then 256 else n
  match nativeWidths.find? fun (width : Nat) => bits ≤ (width : Int) with
  | some width => .plain (base ++ Text.ofNat width)
  | none => .plain ("Big" ++ base)

def ofElementary (kind : Elementary) : Except Fault Binding :=
  match kind with
  | .uint bits => .ok ⟨integerHost "UInt" bits, kind.canonical, []⟩
  | .int bits => .ok ⟨integerHost "Int" bits, kind.canonical, []⟩
  | .address _ => .ok ⟨⟨"Address", some 20, []⟩, "address", []⟩
  | .bool _ => .ok ⟨.plain "Bool", "bool", []⟩
  | .fixedBytes size => .ok ⟨⟨"FixedBytes", some size, []⟩, kind.canonical, []⟩
  | .bytes => .ok ⟨.plain "Bytes", "bytes", []⟩
  | .string => .ok ⟨.plain "Text", "string", []⟩
  | .foreign _ _ | .absent => .error (.unsupportedType kind.display none .notAType)

def ofArray (length : Option Int) (item : Binding) : Binding :=
  match length with
  | none => ⟨⟨"List", none, [item.host]⟩, "array[]", [item]⟩
  | some n => ⟨⟨"FixedArray", some n, [item.host]⟩, "array[" ++ Text.ofInt n ++ "]", [item]⟩

def ofTuple (components : List Binding) : Binding :=
  ⟨⟨"Record", none, components.map host⟩, "tuple", components⟩

mutual

def ofType : AbiType → Except Fault Binding
  | .elementary kind => ofElementary kind
  | .array length item => do
    let item ← ofType item
    return ofArray length item
  | .tuple components => do
    let components ← ofComponents components
    return ofTuple components

def ofComponents : List (Text × AbiType) → Except Fault (List Binding)
  | [] => .ok []
  | (_, type) :: rest => do
    let first ← ofType type
    let others ← ofComponents rest
    return first :: others

end

mutual

/-- The binding as JSON: the description of the host type, the codec, and the parts if any. -/
def toJson : Binding → Json
  | ⟨host, codec, elements⟩ =>
    let elementField : List (Text × Json) :=
      if elements.isEmpty then [] else [("elements", .arr (toJsons elements))]
    .obj (("host", .str (host.describe?.getD [])) :: ("codec", .str codec) :: elementField)

def toJsons : List Binding → List Json
  | [] => []
  | element :: rest => element.toJson :: toJsons rest

end

end Binding

/-- The shapes bound so far with their bindings, in the order in which they were completed. -/
abbrev Memo := List (AbiType × Binding)

namespace Memo

def find? (memo : Memo) (type : AbiType) : Option Binding :=
  (memo.lookup type)

/-- The position of the entry for a shape: which of the kept bindings it has. -/
def slot? (memo : Memo) (type : AbiType) : Option Nat :=
  memo.findIdx? fun entry => entry.1 = type

mutual

/-- The binding of a type, from the memo if it is there; otherwise the parts are bound first, and
then the type is entered after them. -/
def bind (memo : Memo) : AbiType → Except Fault (Binding × Memo)
  | .elementary kind =>
    match memo.find? (.elementary kind) with
    | some binding => .ok (binding, memo)
    | none => do
      let binding ← Binding.ofElementary kind
      return (binding, memo ++ [(.elementary kind, binding)])
  | .array length item =>
    match memo.find? (.array length item) with
    | some binding => .ok (binding, memo)
    | none => do
      let (bound, memo) ← bind memo item
      let binding := Binding.ofArray length bound
      return (binding, memo ++ [(.array length item, binding)])
  | .tuple components =>
    match memo.find? (.tuple components) with
    | some binding => .ok (binding, memo)
    | none => do
      let (bound, memo) ← bindComponents memo components
      let binding := Binding.ofTuple bound
      return (binding, memo ++ [(.tuple components, binding)])

def bindComponents (memo : Memo) : List (Text × AbiType) → Except Fault (List Binding × Memo)
  | [] => .ok ([], memo)
  | (_, type) :: rest => do
    let (first, memo) ← bind memo type
    let (others, memo) ← bindComponents memo rest
    return (first :: others, memo)

end

end Memo

end AbiBindings
