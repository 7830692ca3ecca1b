import AbiBindings.CommandLine.Basic

/-!
The program: it carries out the command that its arguments spell, on the machine's own disk and
under its own environment. Nothing is decided here.
-/

namespace AbiBindings

def Path.toString (path : Path) : String := Text.toString path.toText

/-- The cause of a refusal by the machine, for a request about a path. -/
def IoFault.ofError (path : Path) : IO.Error → IoFault
  | .noFileOrDirectory _ _ _ => .missing path.toText
  | .alreadyExists _ _ _ => .fileExists path.toText
  | .inappropriateType _ 20 _ => .notDirectory path.toText
  | .invalidArgument _ 36 _ => .nameTooLong path.toText
  | error => .refused error.toString

/-- Makes a request about a path, and answers with its result or the cause of its refusal. -/
def attempt {α : Type} (path : Path) (request : IO α) : IO (Except IoFault α) := do
  match ← request.toBaseIO with
  | .ok answer => return .ok answer
  | .error error => return .error (.ofError path error)

def leadsTo (kind : IO.FS.FileType) (path : Path) : IO (Except IoFault Bool) := do
  match ← (do (← IO.FS.realPath path.toString).metadata : IO IO.FS.Metadata).toBaseIO with
  | .ok found => return .ok (found.type == kind)
  | .error error =>
    match IoFault.ofError path error with
    | .nameTooLong text => return .error (.nameTooLong text)
    | _ => return .ok false

def leadsToDirectory (path : Path) : IO Bool := do
  return (← leadsTo .dir path).toOption.getD false

instance : Disk IO where
  isFile path := leadsTo .file path
  isDirectory := leadsToDirectory
  readFile path := attempt path do return (← IO.FS.readBinFile path.toString).toList
  makeDirectory path := attempt path (IO.FS.createDir path.toString)
  makeTemporary directory start := do
    let middle := Text.ofNat (← IO.monoNanosNow)
    let path := directory.child (start ++ middle ++ Disk.temporaryEnding)
    attempt path do
      let _ ← IO.FS.Handle.mk path.toString .writeNew
      return path
  writeFile path bytes :=
    attempt path (IO.FS.writeBinFile path.toString (ByteArray.mk bytes.toArray))
  replace source target := do
    if ← leadsToDirectory target then
      return .error (.isDirectory source.toText target.toText)
    else attempt target (IO.FS.rename source.toString target.toString)
  remove path := do
    let _ ← attempt path (IO.FS.removeFile path.toString)

/-- The settings among the machine's environment variables. -/
def environmentSettings : IO Config.Environment :=
  Config.settingNames.filterMapM fun name => do
    return (← IO.getEnv (Text.toString name)).map fun value => (name, Text.ofString value)

/-- Carries out a command, prints its answer, and gives the exit code. -/
def program (words : List String) : IO UInt32 := do
  let answer : CommandLine.Answer ←
    CommandLine.run (← environmentSettings) (words.map Text.ofString)
  IO.print (Text.toString answer.output)
  IO.eprint (Text.toString answer.messages)
  return answer.code.toUInt32

end AbiBindings

def main (words : List String) : IO UInt32 := AbiBindings.program words
