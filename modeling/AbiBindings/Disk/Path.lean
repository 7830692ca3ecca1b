import AbiBindings.Text.Basic

/-!
Paths of files as written text and as parts. Reading a path forgets what does not change its
meaning: repeated separators, a separator at its end, and `.` parts. A `..` part stays, because
what it means depends on what stands before it.
-/

namespace AbiBindings

/-- A path: what it starts from, empty for the working directory, and the names along the way. -/
structure Path where
  root : Text
  parts : List Text
deriving DecidableEq, Repr

namespace Path

def separator : CodePoint := CodePoint.ofChar '/'

def here : Text := "."

def up : Text := ".."

/-- What a written path starts from: one separator or more make the path absolute, and exactly two
are a start of their own. -/
def rootOf (t : Text) : Text :=
  match (t.takeWhile (· = separator)).length with
  | 0 => []
  | 2 => [separator, separator]
  | _ => [separator]

def ofText (t : Text) : Path where
  root := rootOf t
  parts := (Text.splitOn separator t).filter fun part => part ≠ [] && part ≠ here

def toText (path : Path) : Text :=
  let t := path.root ++ Text.join [separator] path.parts
  if t = [] then here else t

def parent (path : Path) : Path := { path with parts := path.parts.dropLast }

/-- The last part, empty where there is none. -/
def name (path : Path) : Text := path.parts.getLast?.getD []

def child (directory : Path) (name : Text) : Path :=
  { directory with parts := directory.parts ++ [name] }

end Path

end AbiBindings
