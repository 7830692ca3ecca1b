import AbiBindings.Text.Basic

/-!
The kinds of entries in an ABI list.
-/

namespace AbiBindings

inductive EntryKind where
  | function
  | constructor
  | event
  | error
  | fallback
  | receive
deriving DecidableEq, Repr

namespace EntryKind

def name : EntryKind → Text
  | function => "function"
  | constructor => "constructor"
  | event => "event"
  | error => "error"
  | fallback => "fallback"
  | receive => "receive"

def all : List EntryKind := [function, constructor, event, error, fallback, receive]

def ofName? (word : Text) : Option EntryKind := all.find? fun kind => kind.name = word

theorem ofName?_name (kind : EntryKind) : ofName? kind.name = some kind := by
  cases kind <;> decide

def singletons : List EntryKind := [constructor, fallback, receive]

end EntryKind

end AbiBindings
