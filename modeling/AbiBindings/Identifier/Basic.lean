import AbiBindings.Text.Basic

/-!
Identifiers of the generated source. Any text becomes one: foreign code points turn into
underscores, a digit in front is set off by one, several underscores in front become one, and a
word that is taken gets one at its end. `claim` keeps the identifiers of a namespace apart by
numbering, and always ends at the first free number.
-/

namespace AbiBindings.Identifier

def keywords : List Text :=
  ["False", "None", "True", "and", "as", "assert", "async", "await", "break", "class", "continue",
   "def", "del", "elif", "else", "except", "finally", "for", "from", "global", "if", "import",
   "in", "is", "lambda", "nonlocal", "not", "or", "pass", "raise", "return", "try", "while",
   "with", "yield"].map Text.ofString

/-- Names that a method of the contract class must leave alone: attributes of the class and of the
base that it extends. -/
def reservedForMethods : List Text :=
  ["abi", "address", "at", "bytecode", "call", "deploy", "deployed", "errors", "events",
   "networks", "revert_error", "transact", "ABI_FINGERPRINT", "CONTRACT_NAME", "Errors", "Events",
   "HAS_FALLBACK", "HAS_RECEIVE"].map Text.ofString

/-- Names that a parameter must leave alone: those that method signatures and bodies use. -/
def reservedForParams : List Text :=
  ["self", "cls", "libraries", "link_bytecode", "overrides"].map Text.ofString

/-- Names that a record class must leave alone: those of the module around it. -/
def reservedForRecords : List Text :=
  ["Events", "Errors", "BYTECODE", "ERRORS", "LINK_REFERENCES", "NETWORKS", "NamedTuple"].map
    Text.ofString

/-- Names that the contract class must leave alone: those of the module, and all that it
imports. -/
def reservedForContract : List Text :=
  reservedForRecords ++
    ["Any", "Contract", "Deployer", "EventLog", "List", "NamedTuple", "Optional", "RevertError",
     "Transaction", "Tuple", "ViewCall"].map Text.ofString

inductive Place where
  /-- At the start, or after a line end: no word can end here. -/
  | start
  /-- After a code point that can be the last one of a word. -/
  | after
  /-- In the small letters of a word that was set off. -/
  | inside
deriving DecidableEq, Repr

/-- Sets off every capital that a small letter follows, with all its small letters, by an
underscore. A code point of a word that was set off does not set off another one. -/
def setOffWords : Place → Text → Text
  | _, [] => []
  | place, c :: rest =>
    if place = .inside ∧ c.isLower then c :: setOffWords .inside rest
    else if place = .after ∧ c.isUpper ∧ rest.head?.any CodePoint.isLower then
      '_' :: c :: setOffWords .inside rest
    else c :: setOffWords (if c = '\n' then .start else .after) rest

/-- Sets off every capital that follows a small letter or a digit by an underscore. -/
def setOffCapitals : (afterSmall : Bool) → Text → Text
  | _, [] => []
  | afterSmall, c :: rest =>
    let written := c :: setOffCapitals (c.isLower || c.isDigit) rest
    if afterSmall && c.isUpper then '_' :: written else written

/-- The small letters of a code point. Outside ASCII only the two capitals whose small form has an
ASCII letter change; no other one can end up as a letter of an identifier. -/
def lowerOne (c : CodePoint) : Text :=
  if c.isUpper then [CodePoint.ofNat (c.val + 32)]
  else if c.val = 0x130 then ['i', CodePoint.ofNat 0x307]
  else if c.val = 0x212A then ['k']
  else [c]

/-- The words of a name in small letters, joined by underscores; a run of capitals is one word. -/
def snakeCase (name : Text) : Text :=
  (setOffCapitals false (setOffWords .start name)).flatMap lowerOne

/-- An underscore for every code point that no identifier holds. -/
def replaceForeign (t : Text) : Text := t.map fun c => if c.isIdentifierPart then c else '_'

def guardDigit (t : Text) : Text :=
  if t.head?.any CodePoint.isDigit then '_' :: t else t

def collapseUnderscores (t : Text) : Text :=
  if Text.startsWith t "__" then '_' :: t.dropWhile (· == ('_' : CodePoint)) else t

/-- An underscore after a keyword or a reserved name. -/
def avoid (reserved : List Text) (t : Text) : Text :=
  if keywords.contains t || reserved.contains t then t ++ "_" else t

/-- The identifier for a name, in lower case with underscores if `snake` says so. -/
def sanitize (snake : Bool) (reserved : List Text) (name : Text) : Text :=
  let spelled := replaceForeign (Text.trim (if snake then snakeCase name else name))
  let spelled : Text := if spelled.isEmpty then "_" else spelled
  avoid reserved (collapseUnderscores (guardDigit spelled))

/-- A candidate with a number after it; the zeroth is the candidate itself. -/
def numbered (candidate : Text) : Nat → Text
  | 0 => candidate
  | number + 1 => candidate ++ "_" ++ Text.ofNat (number + 1)

/-- The first of the numbered candidates, from `number` on, that is not taken; at most `steps` of
them are passed over. -/
def firstFree (candidate : Text) (taken : List Text) : (steps number : Nat) → Text
  | 0, number => numbered candidate number
  | steps + 1, number =>
    if taken.contains (numbered candidate number) then
      firstFree candidate taken steps (number + 1)
    else numbered candidate number

/-- The first free name for a candidate. As many names as are taken can be passed over, and no
more, because all numbered candidates differ. -/
def claim (candidate : Text) (taken : List Text) : Text :=
  firstFree candidate taken taken.length 0

/-- Claims the first free name for a candidate and enters it among those that are taken. -/
def enter (candidate : Text) (taken : List Text) : Text × List Text :=
  let identifier := claim candidate taken
  (identifier, identifier :: taken)

end AbiBindings.Identifier
