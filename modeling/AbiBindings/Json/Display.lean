import AbiBindings.Decimal.Shortest
import AbiBindings.Json.Basic
import AbiBindings.Text.Quoted

/-!
How a value is shown in a message: texts as quoted literals, the constants by name, numbers in
full, arrays in square brackets and objects in braces with their fields in order. A value with an
integer of more than `digitLimit` digits in it cannot be shown.
-/

namespace AbiBindings.Json

def openBrace : Text := "\x7b"

def closeBrace : Text := "\x7d"

mutual

def display? : Json → Option Text
  | null => some "None"
  | bool value => some (if value then "True" else "False")
  | int value =>
    if digitLimit < (Text.ofNat value.natAbs).length then none else some (Text.ofInt value)
  | float value => some value.toText
  | str value => some (Text.quoted value)
  | arr items =>
    (displayItems? items).map fun shown => "[" ++ Text.join ", " shown ++ "]"
  | obj fields =>
    (displayFields? fields).map fun shown => openBrace ++ Text.join ", " shown ++ closeBrace

/-- Every item of an array as a message shows it. -/
def displayItems? : List Json → Option (List Text)
  | [] => some []
  | item :: rest => do
    let shown ← display? item
    let others ← displayItems? rest
    return shown :: others

/-- Every field of an object as a message shows it. -/
def displayFields? : List (Text × Json) → Option (List Text)
  | [] => some []
  | (key, value) :: rest => do
    let shown ← display? value
    let others ← displayFields? rest
    return (Text.quoted key ++ ": " ++ shown) :: others

end

/-- The word for the kind of a value in the message that refuses it. -/
def kindName : Json → Text
  | null => "NoneType"
  | bool _ => "bool"
  | int _ => "int"
  | float _ => "float"
  | str _ => "str"
  | arr _ => "list"
  | obj _ => "dict"

end AbiBindings.Json
