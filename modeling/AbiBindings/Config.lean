import AbiBindings.Client.Basic
import AbiBindings.Signature

/-!
What a caller can choose about the bindings of an artifact: where it is, which package the client
module imports from, another name for the contract, and identifiers for certain functions. A
configuration is a value; every change makes a new one and checks it as a whole, so a refused
change leaves nothing behind.
-/

namespace AbiBindings

/-- A configuration. The aliases are pairs of a signature and an identifier, in the order in which
they were given. -/
structure Config where
  artifactPath : Option Text
  runtimePackage : Text
  contractName : Option Text
  methodAliases : List (Text × Text)
deriving DecidableEq, Repr

namespace Config

/-- The configuration without any choice. -/
def standard : Config := ⟨none, Client.defaultPackage, none, []⟩

instance : Inhabited Config := ⟨standard⟩

def isIdentifier (t : Text) : Bool :=
  t.head?.any CodePoint.isIdentifierStart && t.all CodePoint.isIdentifierPart

/-- Whether a text may be an alias: an identifier, and perhaps a line end. -/
def isAlias (t : Text) : Bool := isIdentifier (Text.dropLineEnd t)

/-- Whether a text may be a package: identifiers with dots between them, and perhaps a line
end. -/
def isPackage (t : Text) : Bool := (Text.splitOn '.' (Text.dropLineEnd t)).all isIdentifier

/-- Refuses aliases that are no identifiers or that two signatures share. `seen` holds the pairs
before, each alias with its signature. -/
def checkAliases : (seen : List (Text × Text)) → List (Text × Text) → Except Fault Unit
  | _, [] => .ok ()
  | seen, (signature, word) :: rest =>
    if !isAlias word then .error (.config (.aliasNotIdentifier signature word))
    else
      match Json.lookup seen word with
      | some first => .error (.config (.aliasReused word first signature))
      | none => checkAliases (seen ++ [(word, signature)]) rest

def validated (config : Config) : Except Fault Config := do
  if !isPackage config.runtimePackage then
    .error (.config (.invalidPackage config.runtimePackage))
  checkAliases [] config.methodAliases
  return config

/-- The alias of each signature; of several for one signature the last. -/
def aliases (config : Config) : List (Text × Text) := Json.putAll [] config.methodAliases

def replaceAlias (pairs : List (Text × Text)) (signature word : Text) : List (Text × Text) :=
  pairs.filter (fun pair => pair.1 ≠ signature) ++ [(signature, word)]

/-- Gives a signature, in any spelling, an alias in place of the one it had. -/
def withAlias (config : Config) (signature word : Text) : Except Fault Config := do
  let signature ← Signature.normalize signature
  validated { config with methodAliases := replaceAlias config.methodAliases signature word }

/-- Gives several signatures their aliases, one after the other. -/
def withAliases (config : Config) (pairs : List (Text × Text)) : Except Fault Config :=
  pairs.foldlM (fun config pair => config.withAlias pair.1 pair.2) config

abbrev Environment := List (Text × Text)

/-- The value of a variable; an empty one counts as unset. -/
def setting? (environment : Environment) (name : Text) : Option Text :=
  match Json.lookup environment name with
  | none => none
  | some value => if value.isEmpty then none else some value

def settingStart : Text := "ETHBIND_"

def artifactSetting (start : Text) : Text := start ++ "ARTIFACT"

def packageSetting (start : Text) : Text := start ++ "RUNTIME_PACKAGE"

def nameSetting (start : Text) : Text := start ++ "CONTRACT_NAME"

def settingNames : List Text :=
  [artifactSetting settingStart, packageSetting settingStart, nameSetting settingStart]

def ofEnvironment (environment : Environment) (start : Text) : Except Fault Config :=
  validated {
    artifactPath := setting? environment (artifactSetting start)
    runtimePackage := (setting? environment (packageSetting start)).getD Client.defaultPackage
    contractName := setting? environment (nameSetting start)
    methodAliases := [] }

/-- Choices that take the place of those of another configuration, where given. -/
structure Overrides where
  artifactPath : Option Text
  runtimePackage : Option Text
  contractName : Option Text
  methodAliases : Option (List (Text × Text))
deriving DecidableEq, Repr

def Overrides.none : Overrides := ⟨.none, .none, .none, .none⟩

inductive Choice where
  | artifactPath (path : Option Text)
  | runtimePackage (package : Option Text)
  | contractName (name : Option Text)
  | methodAliases (pairs : Option (List (Text × Text)))
  | foreign (keyword : Text)
deriving DecidableEq, Repr

namespace Choice

def path? : Choice → Option Text
  | artifactPath path => path
  | _ => none

def package? : Choice → Option Text
  | runtimePackage package => package
  | _ => none

def name? : Choice → Option Text
  | contractName name => name
  | _ => none

def pairs? : Choice → Option (List (Text × Text))
  | methodAliases pairs => pairs
  | _ => none

end Choice

/-- The overrides of a list of keywords. Foreign ones and missing values make no choice. -/
def Overrides.ofChoices (choices : List Choice) : Overrides where
  artifactPath := choices.findSome? Choice.path?
  runtimePackage := choices.findSome? Choice.package?
  contractName := choices.findSome? Choice.name?
  methodAliases := choices.findSome? Choice.pairs?

/-- The configuration with some choices replaced. Aliases are added to those that are there, each
for the canonical form of its signature; those that are there are added once more when no others
are given. -/
def withOverrides (config : Config) (overrides : Overrides) : Except Fault Config := do
  let replaced ← validated {
    artifactPath := overrides.artifactPath <|> config.artifactPath
    runtimePackage := overrides.runtimePackage.getD config.runtimePackage
    contractName := overrides.contractName <|> config.contractName
    methodAliases := config.methodAliases }
  replaced.withAliases (overrides.methodAliases.getD config.aliases)

end Config

end AbiBindings
