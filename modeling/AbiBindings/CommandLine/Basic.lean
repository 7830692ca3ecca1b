import AbiBindings.CommandLine.Arguments
import AbiBindings.CommandLine.Styles
import AbiBindings.Job

/-!
What the commands do. The answer to a command is two texts and an exit code: results go to the
standard output, notes and failures to the standard error. Whatever goes wrong ends in one message
that starts with `error:`. Messages are written without the style sequences of terminals; notes and
bindings are written as they are.
-/

namespace AbiBindings.CommandLine

structure Answer where
  code : Nat
  output : Text
  messages : Text
deriving DecidableEq, Repr

inductive CommandFault where
  | usage (fault : UsageFault)
  | unknownFormat (word : Text)
  | malformedAlias (word : Text)
  | run (fault : Fault)

def CommandFault.message : CommandFault → Text
  | usage fault => fault.message
  | unknownFormat word =>
    "unknown format " ++ Text.quoted word ++ " (choose from " ++
      Text.join ", " (Format.all.map Format.name) ++ ")"
  | malformedAlias word => "expected SIGNATURE=NAME, got " ++ Text.quoted word
  | run fault => fault.message

namespace Answer

def noteLines (verbose : Bool) (notes : List Note) : Text :=
  (notes.filter fun note => verbose || note.level = .warning).flatMap fun note =>
    note.line ++ "\n"

def messageLine (message : Text) : Text := dropStyles message ++ "\n"

def printed (verbose : Bool) (notes : List Note) (output : Text) : Answer :=
  ⟨0, output, noteLines verbose notes⟩

def reported (verbose : Bool) (notes : List Note) (message : Text) : Answer :=
  ⟨0, [], noteLines verbose notes ++ messageLine message⟩

def failure (verbose : Bool) (notes : List Note) (fault : CommandFault) : Answer :=
  ⟨1, [], noteLines verbose notes ++ messageLine ("error: " ++ fault.message)⟩

end Answer

/-- The signature and the identifier in the value of an alias option: what stands before and after
its last equals sign. -/
def parseAlias (word : Text) : Except CommandFault (Text × Text) :=
  let isEquals (c : CodePoint) : Bool := c == ('=' : CodePoint)
  let name := Text.trim (word.reverse.takeWhile (!isEquals ·)).reverse
  let signature := Text.trim ((word.reverse.dropWhile (!isEquals ·)).drop 1).reverse
  if signature.isEmpty || name.isEmpty then .error (.malformedAlias word)
  else .ok (signature, name)

def addAlias (job : Job) (word : Text) : Except CommandFault Job := do
  let (signature, name) ← parseAlias word
  (job.withAlias signature name).mapError .run

def jobOf (environment : Config.Environment) (artifact : Text)
    (runtimePackage contractName : Option Text) (aliases : List Text) :
    Except CommandFault Job := do
  let config ← (Config.ofEnvironment environment Config.settingStart).mapError .run
  let config ← (config.withOverrides
    { Config.Overrides.none with runtimePackage, contractName }).mapError .run
  let job ← (Job.ofConfig (Path.ofText artifact).toText config).mapError .run
  aliases.foldlM addAlias job

def formatOf (word : Option Text) : Except CommandFault Format :=
  match word with
  | none => .ok .source
  | some word =>
    match Format.ofName? word with
    | some format => .ok format
    | none => .error (.unknownFormat word)

def checkPath (word : Text) : Except CommandFault Unit := (FileName.check word).mapError .run

def prepare (environment : Config.Environment) (options : GenerateOptions) :
    Except CommandFault (Format × Job) := do
  options.out.forM checkPath
  checkPath options.artifact
  let format ← formatOf options.format
  let job ← jobOf environment options.artifact options.runtimePackage options.contractName
    options.aliases
  return (format, job)

variable {m : Type → Type} [Monad m] [Disk m]

/-- Makes bindings, and prints or saves them. -/
def generate (environment : Config.Environment) (verbose : Bool) (options : GenerateOptions) :
    m Answer := do
  match prepare environment options with
  | .error fault => return .failure verbose [] fault
  | .ok (format, job) =>
    let run ← job.generate format
    match run.outcome, options.out with
    | .error fault, _ => return .failure verbose run.notes (.run fault)
    | .ok bindings, none => return .printed verbose run.notes bindings.source
    | .ok bindings, some out =>
      let path := Path.ofText out
      let saved ← bindings.save path
      let notes := run.notes ++ saved.notes
      match saved.outcome with
      | .error fault => return .failure verbose notes (.run fault)
      | .ok path => return .reported verbose notes ("wrote " ++ path.toText)

/-- Prints the client module of an artifact as JSON. -/
def inspect (environment : Config.Environment) (verbose : Bool) (artifact : Text)
    (contractName : Option Text) : m Answer := do
  match checkPath artifact *> jobOf environment artifact none contractName [] with
  | .error fault => return .failure verbose [] fault
  | .ok job =>
    let run ← job.build
    match run.outcome with
    | .error fault => return .failure verbose run.notes (.run fault)
    | .ok client =>
      return .printed verbose run.notes (Answer.messageLine (client.toJsonText (.indented 2)))

def run (environment : Config.Environment) (words : List Text) : m Answer := do
  match Invocation.parse words with
  | .error fault => return .failure false [] (.usage fault)
  | .ok ⟨verbose, .generate options⟩ => generate environment verbose options
  | .ok ⟨verbose, .inspect artifact contractName⟩ =>
    inspect environment verbose artifact contractName
  | .ok ⟨verbose, .version⟩ => return .printed verbose [] (Answer.messageLine Release.banner)

end AbiBindings.CommandLine
