import AbiBindings.Text.Quoted

/-!
What a caller gets to see of a failure that belongs to an artifact or a file: which of five kinds
it is, the detail a caller may want to show in its own way, and the sentence that shows it.
-/

namespace AbiBindings

inductive Diagnostic where
  /-- There is no artifact file at the path. -/
  | artifactNotFound (path : Text)
  /-- The artifact breaks the expected structure at a place in the document. -/
  | invalidArtifact (path detail : Text)
  /-- A type lies outside the supported ABI types. -/
  | unsupportedType (type : Text) (path detail : Option Text)
  /-- Entries of one kind share a signature; they are listed by position. -/
  | duplicateEntry (name signature : Text) (indices : List Int)
  /-- Reading the artifact or writing the output failed. -/
  | io (path : Option Text) (detail : Text)
deriving DecidableEq, Repr

namespace Diagnostic

def clause (words : Text) : Option Text → Text
  | none => []
  | some text => if text.isEmpty then [] else words ++ text

def message : Diagnostic → Text
  | artifactNotFound path => "artifact not found: " ++ path
  | invalidArtifact path detail => "invalid artifact at " ++ path ++ ": " ++ detail
  | unsupportedType type path detail =>
    "unsupported type " ++ Text.quoted type ++ clause " at " path ++ clause ": " detail
  | duplicateEntry _ signature indices =>
    let places := indices.map fun index => "abi[" ++ Text.ofInt index ++ "]"
    let listing : Text := if places.isEmpty then [] else " (" ++ Text.join ", " places ++ ")"
    "duplicate ABI entry " ++ signature ++ listing
  | io path detail =>
    let target : Text := match path with
      | none => "<sink>"
      | some path => if path.isEmpty then "<sink>" else path
    "I/O error on " ++ target ++ ": " ++ detail

end Diagnostic

end AbiBindings
