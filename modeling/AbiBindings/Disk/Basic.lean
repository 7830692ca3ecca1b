import AbiBindings.Disk.FileName

/-!
What the program asks of a disk, and how it saves a text. Saving never shows a half-written file:
the text goes to a temporary file beside the target, which then takes the target's place. When a
step is refused, the temporary file is removed and the target is as it was.
-/

namespace AbiBindings

def Disk.temporaryEnding : Text := ".tmp"

/-- A disk as an effect: each request says by its answer whether it was granted. -/
class Disk (m : Type → Type) where
  /-- Whether a path leads to a file; a path may be refused. -/
  isFile : Path → m (Except IoFault Bool)
  /-- Whether a path leads to a directory. -/
  isDirectory : Path → m Bool
  /-- The content of a file. -/
  readFile : Path → m (Except IoFault (List UInt8))
  /-- Makes one directory, in a directory that is there. -/
  makeDirectory : Path → m (Except IoFault Unit)
  /-- Makes an empty file in a directory, under a new name that starts with the given text and ends
  in `temporaryEnding`. -/
  makeTemporary : (directory : Path) → (start : Text) → m (Except IoFault Path)
  /-- Writes the content of a file. -/
  writeFile : Path → List UInt8 → m (Except IoFault Unit)
  /-- Gives one file the name of another, which is gone then. -/
  replace : (source target : Path) → m (Except IoFault Unit)
  /-- Removes a file if it is there. -/
  remove : Path → m Unit

namespace Disk

variable {m : Type → Type} [Monad m] [Disk m]

def temporaryStart (target : Path) : Text := "." ++ target.name ++ "."

/-- Takes a refusal to make a directory back if the directory is there. -/
def unlessDirectory (path : Path) (reason : IoFault) : m (Except IoFault Unit) := do
  if ← isDirectory path then return .ok () else return .error reason

/-- Makes a directory whose place above is there, or finds it made. -/
def ensureDirectory (path : Path) : m (Except IoFault Unit) := do
  match ← makeDirectory path with
  | .ok _ => return .ok ()
  | .error (.missing place) => return .error (.missing place)
  | .error reason => unlessDirectory path reason

/-- Makes a directory and those above it that are missing. The parts of its path are given from the
last to the first. -/
def ensureDirectoriesReversed (root : Text) : List Text → m (Except IoFault Unit)
  | [] => ensureDirectory ⟨root, []⟩
  | part :: before => do
    let path : Path := ⟨root, (part :: before).reverse⟩
    match ← makeDirectory path with
    | .ok _ => return .ok ()
    | .error (.missing _) =>
      match ← ensureDirectoriesReversed root before with
      | .error reason => return .error reason
      | .ok _ => ensureDirectory path
    | .error reason => unlessDirectory path reason

def ensureDirectories (path : Path) : m (Except IoFault Unit) :=
  ensureDirectoriesReversed path.root path.parts.reverse

/-- Writes a temporary file and moves it to its target; a refused step removes it. -/
def commit (temporary target : Path) (bytes : List UInt8) : m (Except IoFault Unit) := do
  match ← writeFile temporary bytes with
  | .error reason =>
    remove temporary
    return .error reason
  | .ok _ =>
    match ← replace temporary target with
    | .error reason =>
      remove temporary
      return .error reason
    | .ok _ => return .ok ()

/-- Makes the directories above a target and a temporary file in the last of them. A path that is
none is found out where it is used first. -/
def prepare (target : Path) : m (Except Fault Path) := do
  match FileName.check target.parent.toText with
  | .error fault => return .error fault
  | .ok _ =>
    match ← ensureDirectories target.parent with
    | .error reason => return .error (.io (some target.toText) reason)
    | .ok _ =>
      match FileName.check target.name with
      | .error fault => return .error fault
      | .ok _ =>
        return (← makeTemporary target.parent (temporaryStart target)).mapError
          (.io (some target.toText))

/-- Saves a text as UTF-8 in a file, and makes the directories above it. The temporary file of a
text that has no UTF-8 form stays behind. -/
def save (target : Path) (text : Text) : m (Except Fault Unit) := do
  match ← prepare target with
  | .error fault => return .error fault
  | .ok temporary =>
    match text.encode with
    | .error place => return .error (.unencodable place)
    | .ok bytes => return (← commit temporary target bytes).mapError (.io (some target.toText))

end Disk

end AbiBindings
