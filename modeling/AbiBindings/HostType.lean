import AbiBindings.Json.Basic

/-!
Types on the caller's side of the bindings, named without reference to a particular language. A
host type may have a size and may have parameters; an array type needs the type of its items to be
described, and `describe?` and `annotation?` are `none` where it is missing.
-/

namespace AbiBindings

structure HostType where
  name : Text
  size : Option Int
  params : List HostType

namespace HostType

instance : Inhabited HostType := ⟨⟨[], none, []⟩⟩

def plain (name : Text) : HostType := ⟨name, none, []⟩

/-- The spelling of a size in a description, with a word for an absent one. -/
def sizeText : Option Int → Text
  | none => "None"
  | some size => Text.ofInt size

/-- The description of a type with described parameters: sizes and parameters stand in angle
brackets. -/
def describeParts (name : Text) (size : Option Int) (params : List (Option Text)) : Option Text :=
  if name = "FixedBytes" then some (name ++ "<" ++ sizeText size ++ ">")
  else if name = "FixedArray" then
    match params with
    | [] => none
    | item :: _ => item.map fun item => "FixedArray<" ++ item ++ ", " ++ sizeText size ++ ">"
  else if params.isEmpty then some name
  else (params.mapM id).map fun params => name ++ "<" ++ Text.join ", " params ++ ">"

mutual

/-- The description, with sizes and parameters in angle brackets. -/
def describe? : HostType → Option Text
  | ⟨name, size, params⟩ => describeParts name size (describeEach params)

def describeEach : List HostType → List (Option Text)
  | [] => []
  | param :: rest => param.describe? :: describeEach rest

end

def integerNames : List Text := ["UInt", "Int", "BigUInt", "BigInt"]

/-- The annotation of a type with annotated parameters: every integer is `int`, every array a list,
and a record a tuple; what has no counterpart is `Any`. -/
def annotateParts (name : Text) (params : List (Option Text)) : Option Text :=
  if integerNames.any fun start => Text.startsWith name start then some "int"
  else if name = "Bool" then some "bool"
  else if name = "Address" ∨ name = "Text" then some "str"
  else if name = "FixedBytes" ∨ name = "Bytes" then some "bytes"
  else if name = "FixedArray" ∨ name = "List" then
    match params with
    | [] => none
    | item :: _ => item.map fun item => "List[" ++ item ++ "]"
  else if name = "Record" then
    if params.isEmpty then some "Tuple[()]"
    else (params.mapM id).map fun params => "Tuple[" ++ Text.join ", " params ++ "]"
  else some "Any"

mutual

def annotation? : HostType → Option Text
  | ⟨name, _, params⟩ => annotateParts name (annotateEach params)

def annotateEach : List HostType → List (Option Text)
  | [] => []
  | param :: rest => param.annotation? :: annotateEach rest

end

mutual

/-- The type as JSON, with a size and parameters only where there are any. -/
def toJson : HostType → Json
  | ⟨name, size, params⟩ =>
    let sizeField : List (Text × Json) := match size with
      | none => []
      | some size => [("size", .int size)]
    let paramField : List (Text × Json) :=
      if params.isEmpty then [] else [("params", .arr (toJsons params))]
    .obj (("name", .str name) :: (sizeField ++ paramField))

def toJsons : List HostType → List Json
  | [] => []
  | param :: rest => param.toJson :: toJsons rest

end

end HostType

end AbiBindings
