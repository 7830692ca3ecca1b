import AbiBindings.Diagnostic
import AbiBindings.EntryKind
import AbiBindings.Json.Reader
import AbiBindings.Schema.Basic
import AbiBindings.Text.Utf8

/-!
Everything that can go wrong, as causes. Each cause holds what its message needs, and the wording
of all messages is in this module. Most causes are shown to callers as a `Diagnostic`; the others
have only their message.
-/

namespace AbiBindings

inductive TypeNumber where
  | width
  | arrayLength
deriving DecidableEq, Repr

def TypeNumber.name : TypeNumber → Text
  | width => "width"
  | arrayLength => "array length"

inductive TypeFault where
  | notText
  | unexpected (found : CodePoint) (offset : Nat)
  | expected (wanted : CodePoint) (found : Option CodePoint)
  | expectedName (found : Option CodePoint)
  | fixedPoint
  | functionPointer
  | leadingZeros (number : TypeNumber)
  | zeroLength
  | integerWidth
  | bytesSize
  | takesNoWidth (word : Text)
  | unknownName (word : Text)
  | componentsMissing
  | componentsNotList
  | componentShape
  | componentName
  | notAType
deriving DecidableEq, Repr

/-- What stands at a place where something else was expected. -/
def TypeFault.found : Option CodePoint → Text
  | none => "end of input"
  | some c => Text.quoted [c]

def TypeFault.message : TypeFault → Text
  | notText => "type must be a string"
  | unexpected c offset =>
    "unexpected " ++ Text.quoted [c] ++ " at offset " ++ Text.ofNat offset
  | expected wanted c => "expected " ++ Text.quoted [wanted] ++ ", found " ++ found c
  | expectedName c => "expected a type name, found " ++ found c
  | fixedPoint => "fixed-point types are not supported"
  | functionPointer => "function-pointer types are not supported"
  | leadingZeros number => number.name ++ " has leading zeros"
  | zeroLength => "fixed array length must be positive"
  | integerWidth => "integer width must be a multiple of 8 in 8..256"
  | bytesSize => "fixed bytes size must be in 1..32"
  | takesNoWidth word => Text.quoted word ++ " does not take a width"
  | unknownName word => "unknown type " ++ Text.quoted word
  | componentsMissing => "tuple requires a components list"
  | componentsNotList => "components must be a list"
  | componentShape => "component must be an object with a string 'type'"
  | componentName => "component name must be a string"
  | notAType => "not a SolidityType"

/-- Why some text is not creation bytecode; offsets count hexadecimal digits. -/
inductive BytecodeFault where
  | notHex
  | malformedPlaceholder (offset : Nat)
  | misalignedPlaceholder (offset : Nat)
  | oddLength
deriving DecidableEq, Repr

def BytecodeFault.message : BytecodeFault → Text
  | notHex => "bytecode is not valid hex"
  | malformedPlaceholder offset =>
    "malformed link placeholder at hex offset " ++ Text.ofNat offset
  | misalignedPlaceholder offset =>
    "misaligned link placeholder at hex offset " ++ Text.ofNat offset
  | oddLength => "bytecode has an odd number of hex digits"

inductive ArtifactFault where
  | invalidJson (error : Json.SyntaxError) (line column : Nat)
  | notObject (value : Json)
  | breach (cause : Breach)
  | unencodable
  | unnamed
  | unknownEntry (kind : Json)
  | repeatedEntry (kind : EntryKind)
  | bytecode (fault : BytecodeFault)
  | invalidAddress (address : Text)

/-- The words for the reason, unless they would show a value that cannot be shown. -/
def ArtifactFault.message? : ArtifactFault → Option Text
  | invalidJson error line column =>
    some ("invalid JSON: " ++ error.message ++ " (line " ++ Text.ofNat line ++ ", column " ++
      Text.ofNat column ++ ")")
  | notObject value => some ("artifact must be an object, got " ++ value.kindName)
  | breach cause => cause.message?
  | unencodable => some "text is not valid UTF-8"
  | unnamed => some "artifact has no contract name"
  | unknownEntry kind => kind.display?.map ("unrecognized entry type " ++ ·)
  | repeatedEntry kind => some ("more than one " ++ kind.name ++ " entry")
  | bytecode fault => some fault.message
  | invalidAddress address => some ("invalid address " ++ Text.quoted address)

inductive IoFault where
  | undecodable (place : Text.Undecodable)
  /-- The place above is missing. -/
  | missing (path : Text)
  /-- A directory is wanted where something stands. -/
  | fileExists (path : Text)
  /-- A directory is wanted below a file. -/
  | notDirectory (path : Text)
  /-- A file is to replace a directory. -/
  | isDirectory (source target : Text)
  /-- A file is to take a place that has no name of its own. -/
  | busy (source target : Text)
  /-- A name on the way, or the whole path, has too many bytes. -/
  | nameTooLong (path : Text)
  /-- Any other reason, in the words of whoever refused. -/
  | refused (reason : Text)
deriving DecidableEq, Repr

def IoFault.message : IoFault → Text
  | undecodable place => place.message
  | missing path => "[Errno 2] No such file or directory: " ++ Text.quoted path
  | fileExists path => "[Errno 17] File exists: " ++ Text.quoted path
  | notDirectory path => "[Errno 20] Not a directory: " ++ Text.quoted path
  | isDirectory source target =>
    "[Errno 21] Is a directory: " ++ Text.quoted source ++ " -> " ++ Text.quoted target
  | busy source target =>
    "[Errno 16] Device or resource busy: " ++ Text.quoted source ++ " -> " ++ Text.quoted target
  | nameTooLong path => "[Errno 36] File name too long: " ++ Text.quoted path
  | refused reason => reason

inductive ConfigFault where
  | notSignature (signature : Text)
  | invalidPackage (package : Text)
  | aliasNotIdentifier (signature word : Text)
  | aliasReused (word first second : Text)
deriving DecidableEq, Repr

def ConfigFault.message : ConfigFault → Text
  | notSignature signature => "not a function signature: " ++ Text.quoted signature
  | invalidPackage package => "invalid runtime package name: " ++ Text.quoted package
  | aliasNotIdentifier signature word =>
    "alias for " ++ signature ++ " is not an identifier: " ++ Text.quoted word
  | aliasReused word first second =>
    "alias " ++ Text.quoted word ++ " used for both " ++ first ++ " and " ++ second

inductive Fault where
  | artifactNotFound (path : Text)
  | invalidArtifact (path : Text) (reason : ArtifactFault)
  | unsupportedType (type : Text) (path : Option Text) (reason : TypeFault)
  | duplicateEntry (name signature : Text) (indices : List Nat)
  | io (path : Option Text) (reason : IoFault)
  /-- A path that could not even be looked up. -/
  | lookup (reason : IoFault)
  /-- A path with a zero byte in it. -/
  | zeroInPath
  | config (reason : ConfigFault)
  | integerTooLong (digits : Nat)
  /-- A value with an integer of too many digits is to be shown. -/
  | integerUnwritable
  | unencodable (place : Text.Unencodable)
  /-- An array type without the type of its items is to be described. -/
  | missingParameter
  /-- A value lacks a part that its schema promises. -/
  | missingPart (key : Text)

namespace Fault

/-- The failure as callers see it, for the causes that have such a form. -/
def diagnostic? : Fault → Option Diagnostic
  | artifactNotFound path => some (.artifactNotFound path)
  | invalidArtifact path reason => reason.message?.map (.invalidArtifact path)
  | unsupportedType type path reason => some (.unsupportedType type path (some reason.message))
  | duplicateEntry name signature indices =>
    some (.duplicateEntry name signature (indices.map Int.ofNat))
  | io path reason => some (.io path reason.message)
  | _ => none

/-- The sentence for an integer of too many digits, of which `found` may tell how many. -/
def digitLimitText (found : Text) : Text :=
  "Exceeds the limit (" ++ Text.ofNat Json.digitLimit ++
    " digits) for integer string conversion" ++ found ++
    "; use sys.set_int_max_str_digits() to increase the limit"

def message : Fault → Text
  | artifactNotFound path => (Diagnostic.artifactNotFound path).message
  | invalidArtifact path reason =>
    match reason.message? with
    | some words => (Diagnostic.invalidArtifact path words).message
    | none => digitLimitText []
  | unsupportedType type path reason =>
    (Diagnostic.unsupportedType type path (some reason.message)).message
  | duplicateEntry name signature indices =>
    (Diagnostic.duplicateEntry name signature (indices.map Int.ofNat)).message
  | io path reason => (Diagnostic.io path reason.message).message
  | lookup reason => reason.message
  | zeroInPath => "embedded null byte"
  | config reason => reason.message
  | integerTooLong digits => digitLimitText (": value has " ++ Text.ofNat digits ++ " digits")
  | integerUnwritable => digitLimitText []
  | unencodable place => place.message
  | missingParameter => "tuple index out of range"
  | missingPart key => Text.quoted key

end Fault

end AbiBindings
