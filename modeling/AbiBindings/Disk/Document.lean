import AbiBindings.Disk.Basic
import AbiBindings.Json.Reader

/-!
Reading a JSON document from a disk. A path that leads to no file, the content that is no text, and
the text that is no JSON value are three different failures. Every kind of line end counts as one.
-/

namespace AbiBindings.Document

def ofText (t : Text) : Except Fault Json :=
  match Json.read t with
  | .ok document => .ok document
  | .error (.malformed error line column) =>
    .error (.invalidArtifact "$" (.invalidJson error line column))
  | .error (.integerTooLong digits) => .error (.integerTooLong digits)

/-- The document in a file whose path and content are given. -/
def ofBytes (path : Path) (bytes : List UInt8) : Except Fault Json :=
  match Text.decode bytes with
  | .error place => .error (.io (some path.toText) (.undecodable place))
  | .ok t => ofText t.unifyLineEnds

variable {m : Type → Type} [Monad m] [Disk m]

def read (path : Path) : m (Except Fault Json) := do
  match ← Disk.isFile path with
  | .error reason => return .error (.lookup reason)
  | .ok false => return .error (.artifactNotFound path.toText)
  | .ok true =>
    match ← Disk.readFile path with
    | .error reason => return .error (.io (some path.toText) reason)
    | .ok bytes => return ofBytes path bytes

end AbiBindings.Document
