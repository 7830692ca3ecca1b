import AbiBindings.Json.Display
import AbiBindings.Json.Basic

/-!
ABI types as trees: elementary types, arrays and tuples. Sizes are integers and a number of bits
may be absent, so trees from elsewhere can be held and spelled as they are; the parser builds only
those whose sizes the ABI allows. Tuple components keep their names, which the canonical spelling
leaves out.
-/

namespace AbiBindings

inductive Elementary where
  | uint (bits : Option Int)
  | int (bits : Option Int)
  | address (bits : Option Int)
  | bool (bits : Option Int)
  | fixedBytes (size : Int)
  | bytes
  | string
  /-- A word of a kind that is none of the above. -/
  | foreign (kind : Text) (bits : Option Int)
  /-- No type at all, where a hand-built tree has a gap. -/
  | absent
deriving DecidableEq, Repr

inductive AbiType where
  | elementary (kind : Elementary)
  /-- An array of a fixed length, or of any length. -/
  | array (length : Option Int) (item : AbiType)
  /-- A tuple of named components; a name may be empty. -/
  | tuple (components : List (Text × AbiType))

namespace AbiType

instance : Inhabited AbiType := ⟨elementary .absent⟩

mutual

/-- Decides whether two types are the same, component names included. -/
def decideEq : (s t : AbiType) → Decidable (s = t)
  | elementary a, elementary b => decidable_of_iff (a = b) (by simp)
  | array m s, array n t =>
    match decideEq s t with
    | isTrue h => decidable_of_iff (m = n) (by simp [h])
    | isFalse h => isFalse (by simp [h])
  | tuple cs, tuple ds =>
    match decideEqAll cs ds with
    | isTrue h => isTrue (by rw [h])
    | isFalse h => isFalse (by simpa using h)
  | elementary _, array _ _ | elementary _, tuple _ | array _ _, elementary _ |
    array _ _, tuple _ | tuple _, elementary _ | tuple _, array _ _ => isFalse (by simp)

def decideEqAll : (cs ds : List (Text × AbiType)) → Decidable (cs = ds)
  | [], [] => isTrue rfl
  | [], _ :: _ | _ :: _, [] => isFalse (by simp)
  | (a, s) :: cs, (b, t) :: ds =>
    match decideEq s t, decideEqAll cs ds with
    | isTrue h, isTrue h' => decidable_of_iff (a = b) (by simp [h, h'])
    | isFalse h, _ => isFalse (by simp [h])
    | _, isFalse h => isFalse (by simp [h])

end

instance : DecidableEq AbiType := decideEq

/-- The spelling of a number of bits or bytes, with a word for an absent one. -/
def sizeText : Option Int → Text
  | none => "None"
  | some size => Text.ofInt size

end AbiType

namespace Elementary

def canonical : Elementary → Text
  | uint bits => "uint" ++ AbiType.sizeText bits
  | int bits => "int" ++ AbiType.sizeText bits
  | address _ => "address"
  | bool _ => "bool"
  | fixedBytes size => "bytes" ++ Text.ofInt size
  | bytes => "bytes"
  | string => "string"
  | foreign kind _ => kind
  | absent => []

/-- Whether values have no fixed size on the wire. -/
def isDynamic : Elementary → Bool
  | bytes | string => true
  | _ => false

def wordJson (kind : Text) (bits : Option Int) : Json :=
  .obj [("kind", .str kind), ("bits", match bits with | none => .null | some n => .int n)]

def toJson : Elementary → Json
  | uint bits => wordJson "uint" bits
  | int bits => wordJson "int" bits
  | address bits => wordJson "address" bits
  | bool bits => wordJson "bool" bits
  | fixedBytes size => .obj [("kind", .str "fixed_bytes"), ("size", .int size)]
  | bytes => .obj [("kind", .str "bytes")]
  | string => .obj [("kind", .str "string")]
  | foreign kind bits => wordJson kind bits
  | absent => .null

def ofWord (kind : Text) (bits : Option Int) : Elementary :=
  if kind = "uint" then uint bits
  else if kind = "int" then int bits
  else if kind = "address" then address bits
  else if kind = "bool" then bool bits
  else foreign kind bits

/-- How a type that cannot be bound is shown: the word with its kind and bits, or the gap. -/
def display : Elementary → Text
  | foreign kind bits =>
    "Primitive(kind=" ++ Text.quoted kind ++ ", bits=" ++ AbiType.sizeText bits ++ ")"
  | absent => "None"
  | other => other.canonical

end Elementary

namespace AbiType

mutual

/-- The canonical spelling: a tuple is its components between parentheses, and an array its item
before the length in brackets. -/
def canonical : AbiType → Text
  | elementary kind => kind.canonical
  | array none item => item.canonical ++ "[]"
  | array (some length) item => item.canonical ++ "[" ++ Text.ofInt length ++ "]"
  | tuple components => "(" ++ Text.join "," (canonicals components) ++ ")"

def canonicals : List (Text × AbiType) → List Text
  | [] => []
  | (_, type) :: rest => type.canonical :: canonicals rest

end

mutual

/-- Whether values have no fixed size on the wire: byte strings and texts of any length, arrays of
any length, and whatever contains one. -/
def isDynamic : AbiType → Bool
  | elementary kind => kind.isDynamic
  | array none _ => true
  | array (some _) item => item.isDynamic
  | tuple components => anyDynamic components

def anyDynamic : List (Text × AbiType) → Bool
  | [] => false
  | (_, type) :: rest => type.isDynamic || anyDynamic rest

end

mutual

def toJson : AbiType → Json
  | elementary kind => kind.toJson
  | array none item => .obj [("kind", .str "array"), ("item", item.toJson)]
  | array (some length) item =>
    .obj [("kind", .str "fixed_array"), ("length", .int length), ("item", item.toJson)]
  | tuple components =>
    .obj [("kind", .str "tuple"), ("components", .arr (toJsons components))]

def toJsons : List (Text × AbiType) → List Json
  | [] => []
  | (name, type) :: rest => .obj [("name", .str name), ("type", type.toJson)] :: toJsons rest

end

/-- The canonical spelling of a list of types between parentheses, as signatures have it. -/
def argumentList (types : List AbiType) : Text :=
  "(" ++ Text.join "," (types.map canonical) ++ ")"

def typesOf (components : List (Text × AbiType)) : List AbiType := components.map Prod.snd

theorem canonicals_eq_map (components : List (Text × AbiType)) :
    canonicals components = (typesOf components).map canonical := by
  induction components with
  | nil => rfl
  | cons component rest ih =>
    obtain ⟨name, type⟩ := component
    simp [canonicals, typesOf, ih]

/-- A tuple is spelled like the argument list of its types. -/
theorem canonical_tuple (components : List (Text × AbiType)) :
    (tuple components).canonical = argumentList (typesOf components) := by
  simp [canonical, argumentList, canonicals_eq_map]

end AbiType

end AbiBindings
