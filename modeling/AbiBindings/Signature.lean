import AbiBindings.AbiType.Parser
import AbiBindings.Hash.Sponge

/-!
Signatures: a name and the canonical spellings of the argument types, as in
`transfer(address,uint256)`. The hash of a signature names it on the wire, its first four bytes
for functions and errors and all of it for events. A signature written by hand may have blanks
and short spellings; `normalize` gives its canonical form.
-/

namespace AbiBindings.Signature

def canonical (name : Text) (types : List AbiType) : Text := name ++ AbiType.argumentList types

def hash (signature : Text) : Except Fault (List UInt8) :=
  (Text.encode signature).map Hash.keccak256 |>.mapError .unencodable

/-- The four bytes that select a function or an error, in hexadecimal digits after `0x`. -/
def selector (signature : Text) : Except Fault Text := do
  return "0x" ++ Hash.hexOfBytes ((← hash signature).take 4)

/-- The topic under which an event is logged: the whole hash, in hexadecimal digits after `0x`. -/
def topic (signature : Text) : Except Fault Text := do
  return "0x" ++ Hash.hexOfBytes (← hash signature)

def isNameStart (c : CodePoint) : Bool := c.isIdentifierStart || c.val == 36

def isNamePart (c : CodePoint) : Bool := isNameStart c || c.isDigit

/-- The name and the argument list of a written signature without the blanks around both. An
argument list starts and ends with a parenthesis and does not run over a line end. -/
def split? (signature : Text) : Option (Text × Text) :=
  let trimmed := Text.trim signature
  let name := trimmed.takeWhile isNamePart
  let arguments := (trimmed.dropWhile isNamePart).dropWhile CodePoint.isBlank
  if name.head?.any isNameStart && arguments.head? == some (CodePoint.ofChar '(') &&
      arguments.getLast? == some (CodePoint.ofChar ')') && !arguments.contains '\n' then
    some (name, arguments)
  else none

/-- The canonical form of a written signature. -/
def normalize (signature : Text) : Except Fault Text :=
  match split? signature with
  | none => .error (.config (.notSignature signature))
  | some (name, arguments) => do
    match ← AbiType.parseText (Text.withoutBlanks arguments) .null none with
    | .tuple components => return canonical name (AbiType.typesOf components)
    | _ => .error (.config (.notSignature signature))

end AbiBindings.Signature
