import AbiBindings.Disk.Document
import AbiBindings.Generation

/-!
A job makes the bindings of one artifact file. It is a configuration with a path in it; each choice
gives a new job and leaves the old one as it was. Running a job reads the file, and gives with the
outcome the notes of the run, which tell how far it came when it failed.
-/

namespace AbiBindings

structure Run (α : Type) where
  outcome : Except Fault α
  notes : List Note

namespace Run

/-- Goes on with the outcome; the notes stay. -/
def andThen {α β : Type} (run : Run α) (next : α → Except Fault β) : Run β :=
  ⟨run.outcome >>= next, run.notes⟩

end Run

/-- A place that takes text: what it is called, what it took so far, and why it takes no more, if it
does not. -/
structure Sink where
  name : Option Text
  held : Text
  refusal : Option Text
deriving DecidableEq, Repr

def Sink.write (sink : Sink) (t : Text) : Except Fault Sink :=
  match sink.refusal with
  | none => .ok { sink with held := sink.held ++ t }
  | some reason => .error (.io sink.name (.refused reason))

structure Bindings where
  client : Client
  source : Text

namespace Bindings

def ofClient (format : Format) (client : Client) : Except Fault Bindings := do
  return ⟨client, ← format.render client⟩

def write (bindings : Bindings) (sink : Sink) : Except Fault Sink := sink.write bindings.source

def savedNote (bindings : Bindings) (path : Path) : Note :=
  ⟨.info, Journal.builder,
    "wrote " ++ bindings.client.contractName ++ " bindings to " ++ path.toText⟩

def save {m : Type → Type} [Monad m] [Disk m] (bindings : Bindings) (path : Path) :
    m (Run Path) := do
  match ← Disk.save path bindings.source with
  | .error fault => return ⟨.error fault, []⟩
  | .ok _ => return ⟨.ok path, [bindings.savedNote path]⟩

/-- The module itself as JSON, whatever the format of the text. -/
def toJsonText (bindings : Bindings) (style : Json.Style) : Text :=
  bindings.client.toJsonText style

end Bindings

structure Job where
  artifactPath : Text
  config : Config
deriving DecidableEq, Repr

namespace Job

/-- A job for an artifact file under a configuration; a path in the configuration gives way. -/
def ofConfig (path : Text) (config : Config) : Except Fault Job := do
  return ⟨path, ← Config.validated { config with artifactPath := some path }⟩

def withConfig (job : Job) (config : Config) : Except Fault Job := ofConfig job.artifactPath config

def withRuntimePackage (job : Job) (package : Text) : Except Fault Job := do
  job.withConfig (← Config.validated { job.config with runtimePackage := package })

def withContractName (job : Job) (name : Text) : Except Fault Job := do
  job.withConfig (← Config.validated { job.config with contractName := some name })

def withAlias (job : Job) (signature word : Text) : Except Fault Job := do
  job.withConfig (← job.config.withAlias signature word)

/-- The job with several aliases, given one after the other. -/
def withAliases (job : Job) (pairs : List (Text × Text)) : Except Fault Job :=
  pairs.foldlM (fun job pair => job.withAlias pair.1 pair.2) job

def display (job : Job) : Text := "Builder(" ++ Text.quoted job.artifactPath ++ ")"

def startNote (job : Job) : Note :=
  ⟨.debug, Journal.builder, "building bindings from " ++ job.artifactPath⟩

def runOn (job : Job) (document : Except Fault Json) : Run Client :=
  match document with
  | .error fault => ⟨.error fault, [job.startNote]⟩
  | .ok document =>
    ⟨Generation.client document job.config,
      job.startNote :: Generation.notes document job.config⟩

variable {m : Type → Type} [Monad m] [Disk m]

/-- Reads the artifact file and makes the client module. -/
def build (job : Job) : m (Run Client) := do
  return job.runOn (← Document.read (Path.ofText job.artifactPath))

/-- Makes the client module and its text in a format. -/
def generate (job : Job) (format : Format) : m (Run Bindings) := do
  return (← job.build).andThen (Bindings.ofClient format)

end Job

end AbiBindings
