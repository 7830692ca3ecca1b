import AbiBindings.Disk.Basic

/-!
A disk as a value: files and directories in a tree, one of the directories being the working
directory. A place in the tree is the list of names that lead there from the root. Paths are
followed name by name, so `..` has a meaning only where a directory stands; the root is the place
above itself. A drive is such a tree that may refuse changes, as a full or failing disk does.
-/

namespace AbiBindings

/-- The names that lead to a place from the root. -/
abbrev Place := List Text

structure FileTree where
  working : Place
  files : List (Place × List UInt8)
  directories : List Place
deriving DecidableEq, Repr

namespace FileTree

/-- The places above a place and the place itself, but not the root. -/
def placesTo : Place → List Place
  | [] => []
  | name :: rest => [name] :: (placesTo rest).map (name :: ·)

/-- The tree without files, and with no directories but those that lead to the working one. -/
def empty (working : Place) : FileTree := ⟨working, [], placesTo working⟩

instance : Inhabited FileTree := ⟨empty []⟩

def file? (tree : FileTree) (place : Place) : Option (List UInt8) := tree.files.lookup place

def isDirectoryAt (tree : FileTree) (place : Place) : Bool :=
  place = [] || tree.directories.contains place

def holds (tree : FileTree) (place : Place) : Bool :=
  tree.isDirectoryAt place || (tree.file? place).isSome

/-- Why a path leads nowhere: a name on the way is missing, a file stands there, or a name or the
path is too long. -/
inductive Obstacle where
  | missing
  | notDirectory
  | tooLong
deriving DecidableEq, Repr

def follow (tree : FileTree) (place : Place) (name : Text) : Except Obstacle Place :=
  if tree.isDirectoryAt place then
    if name = Path.up then .ok place.dropLast
    else if FileName.nameLimit < FileName.width name then .error .tooLong
    else .ok (place ++ [name])
  else if (tree.file? place).isSome then .error .notDirectory
  else .error .missing

/-- The place that a path leads to. All names on the way but the last are there. -/
def locate (tree : FileTree) (path : Path) : Except Obstacle Place :=
  if FileName.pathLimit < FileName.width path.toText then .error .tooLong
  else path.parts.foldlM tree.follow (if path.root = [] then tree.working else [])

def isFile (tree : FileTree) (path : Path) : Except IoFault Bool :=
  match tree.locate path with
  | .ok place => .ok (tree.file? place).isSome
  | .error .tooLong => .error (.nameTooLong path.toText)
  | .error _ => .ok false

def isDirectory (tree : FileTree) (path : Path) : Bool :=
  match tree.locate path with
  | .ok place => tree.isDirectoryAt place
  | .error _ => false

/-- Why no file or directory can be made or used where a path leads. -/
def faultOf (obstacle : Obstacle) (path : Path) : IoFault :=
  match obstacle with
  | .missing => .missing path.toText
  | .notDirectory => .notDirectory path.toText
  | .tooLong => .nameTooLong path.toText

def content (tree : FileTree) (path : Path) : Except IoFault (List UInt8) :=
  match tree.locate path with
  | .error obstacle => .error (faultOf obstacle path)
  | .ok place =>
    match tree.file? place with
    | some bytes => .ok bytes
    | none => .error (.missing path.toText)

/-- The files below the working directory, each with its path from there. -/
def workingFiles (tree : FileTree) : List (Text × List UInt8) :=
  tree.files.filterMap fun (place, bytes) =>
    if tree.working.isPrefixOf place then
      some (Text.join [Path.separator] (place.drop tree.working.length), bytes)
    else none

/-- The paths of all files below the working directory, in order. -/
def listing (tree : FileTree) : List Text := Text.sortByKey id (tree.workingFiles.map Prod.fst)

def eraseFile (tree : FileTree) (place : Place) : FileTree :=
  { tree with files := tree.files.filter fun file => file.1 ≠ place }

/-- The tree with a file whose content is given, in place of any that was there. -/
def putFile (tree : FileTree) (place : Place) (bytes : List UInt8) : FileTree :=
  let others := tree.eraseFile place
  { others with files := others.files ++ [(place, bytes)] }

def putDirectory (tree : FileTree) (place : Place) : FileTree :=
  { tree with directories := tree.directories ++ [place] }

def makeDirectory (tree : FileTree) (path : Path) : Except IoFault FileTree :=
  match tree.locate path with
  | .error obstacle => .error (faultOf obstacle path)
  | .ok place =>
    if tree.holds place then .error (.fileExists path.toText)
    else .ok (tree.putDirectory place)

def temporaryName (start : Text) (more : Nat) : Text :=
  start ++ List.replicate (more + 1) (CodePoint.ofChar '*') ++ Disk.temporaryEnding

/-- The first name for a temporary file, from the one with `more` asterisks beyond the first, that
nothing in a directory has; at most `steps` of them are passed over. -/
def freeName (tree : FileTree) (directory : Place) (start : Text) : (steps more : Nat) → Text
  | 0, more => temporaryName start more
  | steps + 1, more =>
    if tree.holds (directory ++ [temporaryName start more]) then
      tree.freeName directory start steps (more + 1)
    else temporaryName start more

/-- The name of a new temporary file in a directory. No more names can be taken than there are
things in the tree. -/
def newName (tree : FileTree) (directory : Place) (start : Text) : Text :=
  tree.freeName directory start (tree.files.length + tree.directories.length) 0

/-- How many bytes a name for a temporary file has between what it starts with and the ending. A
name in this tree is shorter, but it must leave room for as many. -/
def temporaryRoom : Nat := 8

/-- Whether the name or the path of a temporary file would be too long. -/
def crowds (directory : Path) (start : Text) : Bool :=
  let name := start ++ Disk.temporaryEnding
  FileName.nameLimit < FileName.width name + temporaryRoom ||
    FileName.pathLimit < FileName.width (directory.child name).toText + temporaryRoom

def makeTemporary (tree : FileTree) (directory : Path) (start : Text) :
    Except IoFault (Path × FileTree) :=
  match tree.locate directory with
  | .error obstacle => .error (faultOf obstacle directory)
  | .ok place =>
    if !tree.isDirectoryAt place then .error (.missing directory.toText)
    else if crowds directory start then .error (.nameTooLong (temporaryName start 0))
    else
      let path := directory.child (tree.newName place start)
      match tree.locate path with
      | .error _ => .error (.nameTooLong (temporaryName start 0))
      | .ok newPlace => .ok (path, tree.putFile newPlace [])

/-- Writes the content of the file that a path leads to, and makes it if it is missing. -/
def writeFile (tree : FileTree) (path : Path) (bytes : List UInt8) : Except IoFault FileTree :=
  match tree.locate path with
  | .error obstacle => .error (faultOf obstacle path)
  | .ok place => .ok (tree.putFile place bytes)

/-- Moves the file that one path leads to to where another leads, in place of any file there. -/
def replace (tree : FileTree) (source target : Path) : Except IoFault FileTree :=
  match tree.locate source, tree.locate target with
  | .error obstacle, _ => .error (faultOf obstacle source)
  | _, .error obstacle => .error (faultOf obstacle target)
  | .ok fromPlace, .ok toPlace =>
    match tree.file? fromPlace with
    | none => .error (.missing source.toText)
    | some bytes =>
      if target.name = [] || target.name = Path.up then .error (.busy source.name target.toText)
      else if tree.isDirectoryAt toPlace then
        .error (.isDirectory source.name target.toText)
      else .ok ((tree.eraseFile fromPlace).putFile toPlace bytes)

def remove (tree : FileTree) (path : Path) : FileTree :=
  match tree.locate path with
  | .error _ => tree
  | .ok place => tree.eraseFile place

end FileTree

inductive Change where
  | makeDirectory (path : Path)
  | makeTemporary (directory : Path)
  | writeFile (path : Path)
  | replace (source target : Path)
deriving DecidableEq, Repr

/-- A tree of files, and which of the changes asked for are refused and why. That may depend on how
many were asked for before. A file that could not be written whole may have got a part of its
bytes. -/
structure Drive where
  tree : FileTree
  requests : Nat
  refusal : Nat → Change → Option IoFault
  written : Nat → Nat

namespace Drive

/-- A drive that refuses nothing it could do. -/
def sound (tree : FileTree) : Drive := ⟨tree, 0, fun _ _ => none, fun _ => 0⟩

/-- The drive after one more request, with what is in the tree then. -/
def next (drive : Drive) (tree : FileTree) : Drive :=
  { drive with tree, requests := drive.requests + 1 }

/-- Carries out a change unless it is refused, and answers with what it gives. -/
def change {α : Type} (what : Change) (act : FileTree → Except IoFault (α × FileTree)) :
    StateM Drive (Except IoFault α) := fun drive =>
  match drive.refusal drive.requests what with
  | some reason => (.error reason, drive.next drive.tree)
  | none =>
    match act drive.tree with
    | .error reason => (.error reason, drive.next drive.tree)
    | .ok (answer, tree) => (.ok answer, drive.next tree)

def writeFile (path : Path) (bytes : List UInt8) : StateM Drive (Except IoFault Unit) :=
  fun drive =>
    match drive.refusal drive.requests (.writeFile path) with
    | some reason =>
      let part := bytes.take (drive.written drive.requests)
      (.error reason, drive.next ((drive.tree.writeFile path part).toOption.getD drive.tree))
    | none =>
      match drive.tree.writeFile path bytes with
      | .error reason => (.error reason, drive.next drive.tree)
      | .ok tree => (.ok (), drive.next tree)

instance : Disk (StateM Drive) where
  isFile path := fun drive => (drive.tree.isFile path, drive)
  isDirectory path := fun drive => (drive.tree.isDirectory path, drive)
  readFile path := fun drive => (drive.tree.content path, drive)
  makeDirectory path :=
    change (.makeDirectory path) fun tree => (tree.makeDirectory path).map fun tree => ((), tree)
  makeTemporary directory start :=
    change (.makeTemporary directory) fun tree => tree.makeTemporary directory start
  writeFile path bytes := writeFile path bytes
  replace source target :=
    change (.replace source target) fun tree =>
      (tree.replace source target).map fun tree => ((), tree)
  remove path := fun drive => ((), { drive with tree := drive.tree.remove path })

end Drive

end AbiBindings
