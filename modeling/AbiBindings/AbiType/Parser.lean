import AbiBindings.AbiType.Basic
import AbiBindings.Fault

/-!
Reading ABI types. A type text is a base followed by array suffixes, innermost first; the base is
a name with an optional width, or a list of types in parentheses. The name `tuple` takes its parts
from a list of components that comes with the text, and each component is a text with components
of its own. Widths and lengths carry no leading zeros, and widths must be among those the ABI
allows. A refusal names the trimmed text that fails and the place of that text in the document.
-/

namespace AbiBindings.AbiType

inductive ScanFault where
  | unsupported (reason : TypeFault)
  | integerTooLong (digits : Nat)
deriving DecidableEq, Repr

def ScanFault.toFault (text : Text) (path : Option Text) : ScanFault → Fault
  | unsupported reason => .unsupportedType text path reason
  | integerTooLong digits => .integerTooLong digits

def readNumber (number : TypeNumber) (t : Text) : Except ScanFault (Option Nat × Text) :=
  let digits := t.takeWhile CodePoint.isDigit
  if digits.isEmpty then .ok (none, t)
  else if decide (1 < digits.length) && digits.head? == some '0' then
    .error (.unsupported (.leadingZeros number))
  else if Json.digitLimit < digits.length then .error (.integerTooLong digits.length)
  else .ok (some (Text.decimalValue digits), t.dropWhile CodePoint.isDigit)

def expect (wanted : CodePoint) : Text → Except ScanFault Text
  | [] => .error (.unsupported (.expected wanted none))
  | c :: rest =>
    if c = wanted then .ok rest else .error (.unsupported (.expected wanted (some c)))

/-- Wraps a type in the array suffixes at the start of a text. Every suffix takes a code point, so
the length of the text bounds their number. -/
def readSuffixes : (count : Nat) → AbiType → Text → Except ScanFault (AbiType × Text)
  | 0, type, t => .ok (type, t)
  | _ + 1, type, [] => .ok (type, [])
  | count + 1, type, c :: rest =>
    if c = '[' then do
      let (length, afterLength) ← readNumber .arrayLength rest
      let left ← expect ']' afterLength
      match length with
      | none => readSuffixes count (array none type) left
      | some 0 => .error (.unsupported .zeroLength)
      | some (n + 1) => readSuffixes count (array (some (n + 1 : Nat)) type) left
    else .ok (type, c :: rest)

inductive Base where
  | given (type : AbiType)
  | components

def ofName (word : Text) (width : Option Nat) : Except TypeFault Base :=
  let plain (base : Base) : Except TypeFault Base :=
    match width with
    | none => .ok base
    | some _ => .error (.takesNoWidth word)
  let integer (type : Option Int → Elementary) : Except TypeFault Base :=
    let bits := width.getD 256
    if bits % 8 = 0 ∧ 8 ≤ bits ∧ bits ≤ 256 then .ok (.given (elementary (type (some bits))))
    else .error .integerWidth
  if word = "uint" then integer .uint
  else if word = "int" then integer .int
  else if word = "bytes" then
    match width with
    | none => .ok (.given (elementary .bytes))
    | some size =>
      if 1 ≤ size ∧ size ≤ 32 then .ok (.given (elementary (.fixedBytes size)))
      else .error .bytesSize
  else if word = "address" then plain (.given (elementary (.address (some 160))))
  else if word = "bool" then plain (.given (elementary (.bool none)))
  else if word = "string" then plain (.given (elementary .string))
  else if word = "byte" then plain (.given (elementary (.fixedBytes 1)))
  else if word = "tuple" then plain .components
  else
    match width with
    | none => .error (.unknownName word)
    | some _ => .error (.takesNoWidth word)

/-- Names of types that no binding supports, refused before their width is read. -/
def refusedName? (word : Text) : Option TypeFault :=
  if word = "fixed" ∨ word = "ufixed" then some .fixedPoint
  else if word = "function" then some .functionPointer
  else none

def readName (t : Text) : Except ScanFault (Base × Text) :=
  let word := t.takeWhile CodePoint.isLower
  if word.isEmpty then .error (.unsupported (.expectedName t.head?))
  else
    match refusedName? word with
    | some reason => .error (.unsupported reason)
    | none => do
      let (width, left) ← readNumber .width (t.dropWhile CodePoint.isLower)
      match ofName word width with
      | .ok base => .ok (base, left)
      | .error reason => .error (.unsupported reason)

/-- One type or more, separated by commas. Every comma takes a code point, so the length of the
text bounds their number. -/
def readSeparated (readItem : Text → Except ScanFault (AbiType × Text)) :
    (count : Nat) → Text → Except ScanFault (List AbiType × Text)
  | 0, t => do
    let (type, left) ← readItem t
    return ([type], left)
  | count + 1, t => do
    let (type, left) ← readItem t
    match left with
    | [] => return ([type], [])
    | c :: rest =>
      if c = ',' then
        let (types, left) ← readSeparated readItem count rest
        return (type :: types, left)
      else return ([type], c :: rest)

def unnamedTuple (types : List AbiType) : AbiType := tuple (types.map fun type => ([], type))

/-- The base at the start of a text: a list of types in parentheses, read with `readItem`, or a
name. -/
def readBase (readItem : Text → Except ScanFault (AbiType × Text)) :
    Text → Except ScanFault (Base × Text)
  | [] => readName []
  | c :: rest =>
    if c ≠ '(' then readName (c :: rest)
    else if rest.head? = some ')' then .ok (.given (unnamedTuple []), rest.drop 1)
    else do
      let (types, left) ← readSeparated readItem rest.length rest
      let left ← expect ')' left
      return (.given (unnamedTuple types), left)

/-- A type inside parentheses, where no components are at hand. Every level takes a code point, so
the length of the text bounds the depth. -/
def readInner : (depth : Nat) → Text → Except ScanFault (AbiType × Text)
  | 0, _ => .error (.unsupported (.expectedName none))
  | depth + 1, t => do
    let (base, left) ← readBase (readInner depth) t
    match base with
    | .given type => readSuffixes left.length type left
    | .components => .error (.unsupported .componentsMissing)

/-- Reads a trimmed type text. `components` is what the name `tuple` stands for. -/
def ofText (text : Text) (path : Option Text) (components : Except Fault AbiType) :
    Except Fault AbiType := do
  let (base, left) ← (readBase (readInner text.length) text).mapError (·.toFault text path)
  let type ← match base with
    | .given type => .ok type
    | .components => components
  let (type, left) ← (readSuffixes left.length type left).mapError (·.toFault text path)
  match left with
  | [] => return type
  | c :: _ => .error (.unsupportedType text path (.unexpected c (text.length - left.length)))

/-- The place of a component below the place of its tuple. -/
def componentPath (path : Option Text) (index : Nat) : Text :=
  let start : Text := match path with
    | none => "$"
    | some path => if path.isEmpty then "$" else path
  start ++ ".components[" ++ Text.ofNat index ++ "]"

def componentTypePath (path : Option Text) (index : Nat) : Text :=
  componentPath path index ++ ".type"

/-- The name of a component: absent or unset counts as empty. -/
def componentName (fields : List (Text × Json)) : Option Text :=
  match Json.lookup fields "name" with
  | none => some []
  | some (.str name) => some name
  | some value => if value.isSet then none else some []

mutual

def ofComponents (text : Text) (path : Option Text) : Json → Except Fault AbiType
  | .null => .error (.unsupportedType text path .componentsMissing)
  | .arr items => do
    let components ← ofItems text path 0 items
    return tuple components
  | _ => .error (.unsupportedType text path .componentsNotList)

def ofItems (text : Text) (path : Option Text) :
    (index : Nat) → List Json → Except Fault (List (Text × AbiType))
  | _, [] => .ok []
  | index, item :: rest => do
    let component ← ofItem text path index item
    let components ← ofItems text path (index + 1) rest
    return component :: components

/-- One component: an object with a type, components if the type needs them, and maybe a name. -/
def ofItem (text : Text) (path : Option Text) (index : Nat) : Json → Except Fault (Text × AbiType)
  | .obj fields =>
    match Json.lookup fields "type" with
    | some (.str typeText) =>
      match componentName fields with
      | none =>
        .error (.unsupportedType text (some (componentPath path index)) .componentName)
      | some name => do
        let trimmed := Text.trim typeText
        let place := some (componentTypePath path index)
        let type ← ofText trimmed place (ofComponentsField trimmed place fields)
        return (name, type)
    | _ => .error (.unsupportedType text (some (componentPath path index)) .componentShape)
  | _ => .error (.unsupportedType text (some (componentPath path index)) .componentShape)

def ofComponentsField (text : Text) (path : Option Text) :
    List (Text × Json) → Except Fault AbiType
  | [] => .error (.unsupportedType text path .componentsMissing)
  | (key, value) :: rest =>
    if key = "components" then ofComponents text path value
    else ofComponentsField text path rest

end

/-- Reads a type text, which may have blanks around it, with the components that come with it. -/
def parseText (text : Text) (components : Json) (path : Option Text) : Except Fault AbiType :=
  let trimmed := Text.trim text
  ofText trimmed path (ofComponents trimmed path components)

/-- Reads a type from a JSON value, which must be a text. -/
def parse (type components : Json) (path : Option Text) : Except Fault AbiType :=
  match type with
  | .str text => parseText text components path
  | other =>
    match other.display? with
    | some shown => .error (.unsupportedType shown path .notText)
    | none => .error .integerUnwritable

end AbiBindings.AbiType
