import AbiBindings.Artifact.Load
import AbiBindings.Client.Basic

/-!
The log of a run: what each stage notes about its work. A stage itself is a plain function; the
notes are computed beside it, and they stop where the stage stops. Warnings tell of aliases that no
function has and of libraries whose address is open.
-/

namespace AbiBindings

inductive Level where
  | debug
  | info
  | warning
deriving DecidableEq, Repr

def Level.name : Level → Text
  | debug => "DEBUG"
  | info => "INFO"
  | warning => "WARNING"

structure Note where
  level : Level
  author : Text
  message : Text
deriving DecidableEq, Repr

namespace Note

def line (note : Note) : Text := note.level.name ++ " " ++ note.author ++ ": " ++ note.message

def warnings (notes : List Note) : List Text :=
  (notes.filter fun note => note.level = .warning).map message

end Note

namespace Journal

/-- The author of notes about whole runs. -/
def builder : Text := "ethbind.builder"

/-- The author of notes about loading. -/
def artifact : Text := "ethbind.artifact"

/-- The author of notes about names. -/
def signatures : Text := "ethbind.signatures"

/-- The author of notes about assembly. -/
def assembler : Text := "ethbind.assembler"

/-- How many libraries of some bytecode are open, if any are. -/
def ofBytecode (code : Option Bytecode) : List Note :=
  match code with
  | none => []
  | some code =>
    if code.isLinked then []
    else
      let ending : Text := if code.linkRefs.length = 1 then "y" else "ies"
      [⟨.debug, artifact, "bytecode references " ++ Text.ofNat code.linkRefs.length ++
        " unlinked librar" ++ ending⟩]

def ofArtifact (loaded : Artifact) : Note :=
  let bytecode : Text := if loaded.bytecode.isSome then "yes" else "no"
  ⟨.debug, artifact, "loaded artifact " ++ loaded.name ++ ": " ++
    Text.ofNat loaded.abi.length ++ " abi entries, bytecode=" ++ bytecode ++ ", " ++
    Text.ofNat loaded.deployments.length ++ " deployment(s)"⟩

def ofLoad (raw : Json) (name : Option Text) : List Note :=
  match Artifact.Draft.ofJson raw name with
  | .error _ => []
  | .ok draft =>
    ofBytecode draft.bytecode ++
      match Artifact.load raw name with
      | .error _ => []
      | .ok loaded => [ofArtifact loaded]

/-- A warning for each alias whose signature no function has, by increasing signature. -/
def ofIgnoredAliases (loaded : Artifact) (aliases : List (Text × Text)) : List Note :=
  let known := (Contract.signedFunctions loaded).map Contract.Signed.signature
  let ignored := (aliases.map Prod.fst).filter fun signature => !known.contains signature
  (Text.sortDistinct ignored).map fun signature =>
    ⟨.warning, signatures, "alias for " ++ signature ++ " ignored: no such function in " ++
      loaded.name⟩

/-- The notes about identifiers that come from names: overloads, and identifiers that had to give
way. -/
def ofIdentifiers (snake : Bool) (reserved : List Text) (aliases : List (Text × Text))
    (entries : List Contract.Signed) (identifiers : List Text) : List Note :=
  let isAliased (entry : Contract.Signed) : Bool :=
    (Json.lookup aliases entry.signature).isSome
  let named := (entries.filter fun entry => !isAliased entry).map Contract.Signed.name
  (entries.zip identifiers).filterMap fun (entry, identifier) =>
    if isAliased entry then none
    else if 1 < named.count entry.name then
      some ⟨.debug, signatures, "overload " ++ entry.signature ++ " -> " ++ identifier⟩
    else if identifier = Identifier.sanitize snake reserved entry.name then none
    else some ⟨.debug, signatures, "identifier clash for " ++ entry.signature ++ ", using " ++
      identifier⟩

/-- The notes about the identifiers of events or errors. -/
def ofRecords (entries : List Contract.Signed) : List Note :=
  ofIdentifiers false Identifier.reservedForRecords [] entries
    (Contract.recordIdentifiers entries)

def after (check : Except Fault Unit) (notes : List Note) : List Note :=
  match check with
  | .ok _ => notes
  | .error _ => []

def ofContract (contract : Contract) : Note :=
  ⟨.debug, signatures, "resolved " ++ contract.artifact.name ++ ": " ++
    Text.ofNat contract.functions.length ++ " function(s), " ++
    Text.ofNat contract.events.length ++ " event(s), " ++
    Text.ofNat contract.errors.length ++ " error(s)"⟩

def ofNaming (loaded : Artifact) (aliases : List (Text × Text)) : List Note :=
  let functions := Contract.signedFunctions loaded
  let events := Contract.signedEvents loaded
  let errors := Contract.signedErrors loaded
  let last : List Note := match Contract.ofArtifact loaded aliases with
    | .ok contract => [ofContract contract]
    | .error _ => []
  after (Contract.checkDuplicates functions) <|
    ofIgnoredAliases loaded aliases ++
    ofIdentifiers true Identifier.reservedForMethods aliases functions
      (Contract.functionIdentifiers aliases functions) ++
    after (Contract.checkDuplicates events)
      (ofRecords events ++ after (Contract.checkDuplicates errors) (ofRecords errors ++ last))

def ofOpenLibraries (loaded : Artifact) : List Note :=
  ((loaded.bytecode.map Bytecode.linkRefs).getD []).map fun ref =>
    ⟨.warning, assembler, loaded.name ++ ": library " ++ ref.library ++ " is not linked (" ++
      Text.ofNat ref.offsets.length ++ " site(s))"⟩

def ofAssembly (contract : Contract) (client : Client) : List Note :=
  ofOpenLibraries contract.artifact ++
    [⟨.debug, assembler, "assembled " ++ contract.artifact.name ++ ": " ++
      Text.ofNat client.partCount ++ " unit(s), imports=" ++ Text.join "," client.imports⟩]

end Journal

end AbiBindings
