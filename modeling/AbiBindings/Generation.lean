import AbiBindings.Client.Source
import AbiBindings.Config
import AbiBindings.Journal

/-!
The whole way from a JSON document to a client module: loading, naming, assembly. Each step is a
function of the one before, and the first failure is the outcome.
-/

namespace AbiBindings.Generation

/-- The client module for a document under a configuration. -/
def client (document : Json) (config : Config) : Except Fault Client := do
  let artifact ← Artifact.load document config.contractName
  let contract ← Contract.ofArtifact artifact config.aliases
  Client.ofContract contract config.runtimePackage none

def notesOfLoaded (artifact : Artifact) (aliases : List (Text × Text)) (package : Text)
    (name : Option Text) : List Note :=
  Journal.ofNaming artifact aliases ++
    match Contract.ofArtifact artifact aliases with
    | .error _ => []
    | .ok contract =>
      match Client.ofContract contract package name with
      | .error _ => []
      | .ok client => Journal.ofAssembly contract client

def notes (document : Json) (config : Config) : List Note :=
  Journal.ofLoad document config.contractName ++
    match Artifact.load document config.contractName with
    | .error _ => []
    | .ok artifact => notesOfLoaded artifact config.aliases config.runtimePackage none

end AbiBindings.Generation
