import AbiBindings.Json.Display
import AbiBindings.Location

/-!
Schemas of JSON values, and what it means to break one. A schema may ask for a kind of value and
lists further rules, in the order in which their violations are reported; a rule says nothing
about values of a kind it is not made for. Schemas of array items are named rather than nested,
so a schema can refer to itself below an array.
-/

namespace AbiBindings

inductive Kind where
  | null
  | bool
  | text
  | array
  | object
deriving DecidableEq, Repr

namespace Kind

def name : Kind → Text
  | null => "null"
  | bool => "boolean"
  | text => "string"
  | array => "array"
  | object => "object"

/-- Whether a value is of the kind. Numbers are of none of them. -/
def admits : Kind → Json → Bool
  | null, .null => true
  | bool, .bool _ => true
  | text, .str _ => true
  | array, .arr _ => true
  | object, .obj _ => true
  | _, _ => false

end Kind

mutual

inductive Schema (δ : Type) where
  | mk (kind : Option Kind) (rules : List (Rule δ))

inductive Rule (δ : Type) where
  /-- An object has the key. -/
  | required (key : Text)
  /-- A text is not empty. -/
  | nonEmpty
  /-- The value under the key, in an object that has it, follows a schema. -/
  | property (key : Text) (schema : Schema δ)
  /-- Every item of an array follows the schema with the name. -/
  | items (name : δ)
  /-- Every value in an object follows a schema. -/
  | values (schema : Schema δ)
  /-- The value follows one of the schemas. -/
  | anyOf (alternatives : List (Schema δ))
  /-- The value is one of the texts. -/
  | oneOf (texts : List Text)
  /-- The value is the text. -/
  | exactly (text : Text)

end

inductive Breach where
  | wrongKind (value : Json) (kind : Kind)
  | missing (key : Text)
  | empty
  | notListed (value : Json) (texts : List Text)
  | different (text : Text)
  | noAlternative (value : Json)

namespace Breach

/-- The words for a breach, unless it is one of a value that cannot be shown. -/
def message? : Breach → Option Text
  | wrongKind value kind =>
    value.display?.map (· ++ " is not of type " ++ Text.quoted kind.name)
  | missing key => some (Text.quoted key ++ " is a required property")
  | empty => some (Text.quoted [] ++ " should be non-empty")
  | notListed value texts =>
    value.display?.map
      (· ++ " is not one of [" ++ Text.join ", " (texts.map Text.quoted) ++ "]")
  | different text => some (Text.quoted text ++ " was expected")
  | noAlternative value =>
    value.display?.map (· ++ " is not valid under any of the given schemas")

end Breach

/-- A breach at a place below the value checked. `kindFits` tells whether the value at that place
is of the kind its schema asks for. Where no alternative applies, `alternatives` holds what breaks
each of them, one after the other, placed below the same value. -/
structure Violation where
  location : Location
  breach : Breach
  kindFits : Bool
  alternatives : List Violation

namespace Violation

def beneath (step : Step) (v : Violation) : Violation := { v with location := step :: v.location }

mutual

def hasWords : Violation → Bool
  | ⟨_, breach, _, alternatives⟩ => breach.message?.isSome && allHaveWords alternatives

def allHaveWords : List Violation → Bool
  | [] => true
  | v :: rest => v.hasWords && allHaveWords rest

end

end Violation

/-- The immediate parts of a value, each with what breaks a schema there. -/
abbrev Parts (δ : Type) := List (Step × (Schema δ → List Violation))

mutual

def Schema.violations {δ : Type} (define : δ → Schema δ) (value : Json) (parts : Parts δ) :
    Schema δ → List Violation
  | .mk none rules => Rule.violationsOf define value parts false rules
  | .mk (some kind) rules =>
    let fits := kind.admits value
    (if fits then [] else [⟨[], .wrongKind value kind, false, []⟩]) ++
      Rule.violationsOf define value parts fits rules

def Rule.violationsOf {δ : Type} (define : δ → Schema δ) (value : Json) (parts : Parts δ)
    (fits : Bool) : List (Rule δ) → List Violation
  | [] => []
  | rule :: rest =>
    Rule.violations define value parts fits rule ++ Rule.violationsOf define value parts fits rest

def Rule.violations {δ : Type} (define : δ → Schema δ) (value : Json) (parts : Parts δ)
    (fits : Bool) : Rule δ → List Violation
  | .required key =>
    match value with
    | .obj fields =>
      if (Json.lookup fields key).isSome then [] else [⟨[], .missing key, fits, []⟩]
    | _ => []
  | .nonEmpty =>
    match value with
    | .str [] => [⟨[], .empty, fits, []⟩]
    | _ => []
  | .property key schema =>
    match value with
    | .obj _ =>
      match parts.find? fun part => part.1 = .key key with
      | some (step, check) => (check schema).map (.beneath step)
      | none => []
    | _ => []
  | .items name =>
    match value with
    | .arr _ => parts.flatMap fun (step, check) => (check (define name)).map (.beneath step)
    | _ => []
  | .values schema =>
    match value with
    | .obj _ => parts.flatMap fun (step, check) => (check schema).map (.beneath step)
    | _ => []
  | .anyOf alternatives =>
    let broken := Schema.violationsOfEach define value parts alternatives
    if broken.any List.isEmpty then [] else [⟨[], .noAlternative value, fits, broken.flatten⟩]
  | .oneOf texts =>
    match value with
    | .str text => if texts.contains text then [] else [⟨[], .notListed value texts, fits, []⟩]
    | _ => [⟨[], .notListed value texts, fits, []⟩]
  | .exactly expected =>
    match value with
    | .str text => if text = expected then [] else [⟨[], .different expected, fits, []⟩]
    | _ => [⟨[], .different expected, fits, []⟩]

def Schema.violationsOfEach {δ : Type} (define : δ → Schema δ) (value : Json) (parts : Parts δ) :
    List (Schema δ) → List (List Violation)
  | [] => []
  | schema :: rest =>
    Schema.violations define value parts schema ::
      Schema.violationsOfEach define value parts rest

end

namespace Json

mutual

def violations {δ : Type} (define : δ → Schema δ) : Json → Schema δ → List Violation
  | arr items => fun schema => schema.violations define (arr items) (itemParts define 0 items)
  | obj fields => fun schema => schema.violations define (obj fields) (fieldParts define fields)
  | null => fun schema => schema.violations define null []
  | bool value => fun schema => schema.violations define (bool value) []
  | int value => fun schema => schema.violations define (int value) []
  | float value => fun schema => schema.violations define (float value) []
  | str value => fun schema => schema.violations define (str value) []

def itemParts {δ : Type} (define : δ → Schema δ) : (position : Nat) → List Json → Parts δ
  | _, [] => []
  | position, item :: rest =>
    (.index position, violations define item) :: itemParts define (position + 1) rest

def fieldParts {δ : Type} (define : δ → Schema δ) : List (Text × Json) → Parts δ
  | [] => []
  | (key, value) :: rest => (.key key, violations define value) :: fieldParts define rest

end

end Json

end AbiBindings
