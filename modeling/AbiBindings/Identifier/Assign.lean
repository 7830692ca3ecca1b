import AbiBindings.Identifier.Basic
import AbiBindings.Json.Basic

/-!
Identifiers for a whole namespace. Aliases are claimed first, in the order of the entries; after
that every other entry claims the identifier of its name, the second and later entries of one name
with a number. Whatever is still taken is numbered on, so no two entries share an identifier, and
the outcome depends only on the order of the entries and on the alias of each signature.
-/

namespace AbiBindings.Identifier

/-- An entry that needs an identifier: its name, and its signature, under which aliases are
given. -/
structure Named where
  name : Text
  signature : Text
deriving DecidableEq, Repr

def claimAliases (reserved : List Text) (aliases : List (Text × Text)) :
    (taken : List Text) → List Named → List (Option Text) × List Text
  | taken, [] => ([], taken)
  | taken, entry :: rest =>
    match Json.lookup aliases entry.signature with
    | some word =>
      let (identifier, taken) := enter (sanitize false reserved word) taken
      let (others, taken) := claimAliases reserved aliases taken rest
      (some identifier :: others, taken)
    | none =>
      let (others, taken) := claimAliases reserved aliases taken rest
      (none :: others, taken)

/-- The identifiers of all entries, given those that come from aliases. `seen` holds the names of
the entries before that have no alias. -/
def claimNames (snake : Bool) (reserved : List Text) :
    (taken seen : List Text) → List (Named × Option Text) → List Text
  | _, _, [] => []
  | taken, seen, (_, some identifier) :: rest =>
    identifier :: claimNames snake reserved taken seen rest
  | taken, seen, (entry, none) :: rest =>
    let base := sanitize snake reserved entry.name
    let (identifier, taken) := enter (numbered base (seen.count entry.name)) taken
    identifier :: claimNames snake reserved taken (entry.name :: seen) rest

def assign (snake : Bool) (reserved : List Text) (aliases : List (Text × Text))
    (entries : List Named) : List Text :=
  let (claimed, taken) := claimAliases reserved aliases [] entries
  claimNames snake reserved taken [] (entries.zip claimed)

/-- What the name of a parameter is spelled like before it is claimed: in lower case without
underscores in front, or by kind and position if nothing usable is left. -/
def paramCandidate (kind : Text) (index : Nat) (name : Text) : Text :=
  let base := (replaceForeign (snakeCase name)).dropWhile (· == ('_' : CodePoint))
  if base.isEmpty || base.head?.any CodePoint.isDigit then kind ++ Text.ofNat index
  else sanitize false reservedForParams base

def assignParamsFrom (kind : Text) : (index : Nat) → (taken : List Text) → List Text → List Text
  | _, _, [] => []
  | index, taken, name :: rest =>
    let (identifier, taken) := enter (paramCandidate kind index name) taken
    identifier :: assignParamsFrom kind (index + 1) taken rest

def assignParams (kind : Text) (names : List Text) : List Text := assignParamsFrom kind 0 [] names

end AbiBindings.Identifier
