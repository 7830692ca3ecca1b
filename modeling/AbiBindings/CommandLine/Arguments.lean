import AbiBindings.Config

/-!
The words of a command line. Switches of the program stand before the command; the options of a
command and its argument stand in any order after it. The value of an option is the next word,
whatever it looks like, or follows the option's name in the same word. Of an option given more than
once the last counts, but every alias does.
-/

namespace AbiBindings.CommandLine

inductive UsageFault where
  | noSuchOption (name : Text)
  | noValue (name : Text)
  | valueForSwitch (name : Text)
  | missingCommand
  | noSuchCommand (word : Text)
  | missingArtifact
  | extraArgument (word : Text)
deriving DecidableEq, Repr

def UsageFault.message : UsageFault → Text
  | noSuchOption name => "No such option: " ++ name
  | noValue name => "Option " ++ Text.quoted name ++ " requires an argument."
  | valueForSwitch name => "Option " ++ Text.quoted name ++ " does not take a value."
  | missingCommand => "Missing command."
  | noSuchCommand word => "No such command " ++ Text.quoted word ++ "."
  | missingArtifact => "Missing parameter: artifact"
  | extraArgument word => "Got unexpected extra argument (" ++ word ++ ")"

inductive Setting where
  | out
  | runtimePackage
  | contractName
  | methodAlias
  | format
deriving DecidableEq, Repr

namespace Setting

def names : Setting → List Text
  | out => ["-o", "--out"]
  | runtimePackage => ["--runtime-package"]
  | contractName => ["--contract-name"]
  | methodAlias => ["--alias"]
  | format => ["-f", "--format"]

def ofGenerate : List Setting := [out, runtimePackage, contractName, methodAlias, format]

def ofInspect : List Setting := [contractName]

def ofName? (settings : List Setting) (name : Text) : Option Setting :=
  settings.find? fun setting => setting.names.contains name

end Setting

structure Arguments where
  settings : List (Setting × Text)
  words : List Text
deriving DecidableEq, Repr

namespace Arguments

def none : Arguments := ⟨[], []⟩

def consSetting (setting : Setting) (value : Text) (rest : Arguments) : Arguments :=
  { rest with settings := (setting, value) :: rest.settings }

def consWord (word : Text) (rest : Arguments) : Arguments :=
  { rest with words := word :: rest.words }

def isOption (word : Text) : Bool := word.head? == some (CodePoint.ofChar '-') && 1 < word.length

/-- A word as the name of an option, with the value that it holds, if it holds one. A long name ends
before an equals sign; a short one is a dash and a letter. -/
def splitOption (word : Text) : Text × Option Text :=
  if word.startsWith "--" then
    let name := word.takeWhile fun c => c != ('=' : CodePoint)
    (name, if name.length < word.length then some (word.drop (name.length + 1)) else .none)
  else (word.take 2, if 2 < word.length then some (word.drop 2) else .none)

def parse (settings : List Setting) : List Text → Except UsageFault Arguments
  | [] => .ok none
  | word :: rest =>
    if word = "--" then .ok ⟨[], rest⟩
    else if isOption word then
      let (name, value) := splitOption word
      match Setting.ofName? settings name, value, rest with
      | .none, _, _ => .error (.noSuchOption name)
      | some setting, some value, rest => (parse settings rest).map (consSetting setting value)
      | some _, .none, [] => .error (.noValue name)
      | some setting, .none, value :: rest =>
        (parse settings rest).map (consSetting setting value)
    else (parse settings rest).map (consWord word)

def value? (arguments : Arguments) (setting : Setting) : Option Text :=
  (arguments.settings.reverse.find? fun given => given.1 = setting).map Prod.snd

def values (arguments : Arguments) (setting : Setting) : List Text :=
  (arguments.settings.filter fun given => given.1 = setting).map Prod.snd

def artifact (arguments : Arguments) : Except UsageFault Text :=
  match arguments.words with
  | [] => .error .missingArtifact
  | [word] => .ok word
  | _ :: extra :: _ => .error (.extraArgument extra)

end Arguments

structure GenerateOptions where
  artifact : Text
  out : Option Text
  runtimePackage : Option Text
  contractName : Option Text
  aliases : List Text
  format : Option Text
deriving DecidableEq, Repr

inductive Command where
  /-- Make bindings. -/
  | generate (options : GenerateOptions)
  /-- Print the client module as JSON. -/
  | inspect (artifact : Text) (contractName : Option Text)
  /-- Print the release. -/
  | version
deriving DecidableEq, Repr

def Command.parse (word : Text) (rest : List Text) : Except UsageFault Command :=
  if word = "generate" then do
    let arguments ← Arguments.parse Setting.ofGenerate rest
    return .generate {
      artifact := ← arguments.artifact
      out := arguments.value? .out
      runtimePackage := arguments.value? .runtimePackage
      contractName := arguments.value? .contractName
      aliases := arguments.values .methodAlias
      format := arguments.value? .format }
  else if word = "inspect" then do
    let arguments ← Arguments.parse Setting.ofInspect rest
    return .inspect (← arguments.artifact) (arguments.value? .contractName)
  else if word = "version" then do
    let arguments ← Arguments.parse [] rest
    match arguments.words with
    | [] => return .version
    | extra :: _ => .error (.extraArgument extra)
  else .error (.noSuchCommand word)

structure Invocation where
  verbose : Bool
  command : Command
deriving DecidableEq, Repr

/-- The first letter of a word of short switches, a dash and letters, that stands for none. -/
def unknownSwitch? (word : Text) : Option CodePoint := (word.drop 1).find? fun c => c ≠ 'v'

def Command.ofWords : List Text → Except UsageFault Command
  | [] => .error .missingCommand
  | word :: rest => parse word rest

def Invocation.parse : List Text → Except UsageFault Invocation
  | [] => .error .missingCommand
  | word :: rest =>
    let verbosely (invocation : Invocation) : Invocation := { invocation with verbose := true }
    if word = "--" then (Command.ofWords rest).map fun command => ⟨false, command⟩
    else if word = "--verbose" then (parse rest).map verbosely
    else if word.startsWith "--" then
      let (name, _) := Arguments.splitOption word
      .error (if name = "--verbose" then .valueForSwitch name else .noSuchOption name)
    else if Arguments.isOption word then
      match unknownSwitch? word with
      | none => (parse rest).map verbosely
      | some letter => .error (.noSuchOption ['-', letter])
    else (Command.parse word rest).map fun command => ⟨false, command⟩

end AbiBindings.CommandLine
