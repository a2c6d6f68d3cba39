import SongBundle.Error
import SongBundle.Files.Path

/-!
# File trees

A `FileTree` is the content of a file system: which paths are directories, which are files, and what
the files hold.  Reading never changes it.  Changes are described by `FileAction`s;
`FileTree.perform` carries out a list of them and stops at the first that fails, keeping the effects
of those before it.

A path is followed part by part.  Empty parts and `.` stay where they are, `..` goes up, and every
part but the last must lead to a directory.
-/

set_option autoImplicit false

namespace SongBundle

/-- What is found at a place of a file tree. -/
inductive FileNode where
  | directory
  | file (contents : ByteArray)

/-- The names that lead from the root to a place. -/
abbrev Place := List String

/-- The content of a file system. -/
structure FileTree where
  /-- Everything but the root. -/
  nodes : Table Place FileNode
  /-- The directory where relative paths start. -/
  home : Place

/-- A change to a file tree. -/
inductive FileAction where
  /-- Makes a directory and the directories above it, as far as they are missing. -/
  | makeDirectories (path : String)
  /-- Gives a file new contents, making the file if it is missing. -/
  | write (path : String) (contents : ByteArray)

namespace FileTree

/-- What stands at a place. -/
def node? (t : FileTree) (place : Place) : Option FileNode :=
  if place = [] then some .directory else t.nodes.get? place

/-- Whether a directory stands at a place. -/
def hasDirectory (t : FileTree) (place : Place) : Bool :=
  match t.node? place with
  | some .directory => true
  | _ => false

/-- Puts something at a place. -/
def put (t : FileTree) (place : Place) (node : FileNode) : FileTree :=
  { t with nodes := t.nodes.insert place node }

/-- Where a path starts. -/
def origin (t : FileTree) (path : String) : Place := if Path.isAbsolute path then [] else t.home

/-- Follows parts from a place by their names alone. -/
def placeFrom (place : Place) : List String → Place
  | [] => place
  | part :: parts =>
    if part = "" ∨ part = "." then placeFrom place parts
    else if part = ".." then placeFrom place.dropLast parts
    else placeFrom (place ++ [part]) parts

/-- The place that a path names, whether or not something stands there. -/
def placeOf (t : FileTree) (path : String) : Place := placeFrom (t.origin path) (Path.parts path)

/-! ## Reading -/

/-- Follows parts from a place; everything on the way must exist. -/
def follow (t : FileTree) : Place → List String → Except FileFault Place
  | place, [] => .ok place
  | place, part :: parts =>
    match t.node? place with
    | none => .error .notFound
    | some (.file _) => .error .notADirectory
    | some .directory =>
      if part = "" ∨ part = "." then t.follow place parts
      else if part = ".." then t.follow place.dropLast parts
      else if !Path.isUsablePart part then .error .badName
      else if (t.node? (place ++ [part])).isNone then .error .notFound
      else t.follow (place ++ [part]) parts

/-- The place a path leads to. -/
def resolve (t : FileTree) (path : String) : Except FileFault Place :=
  if Path.isUsable path then t.follow (t.origin path) (Path.parts path)
  else if path = "" then .error .notFound
  else .error .badName

/-- What a path leads to. -/
def find (t : FileTree) (path : String) : Except FileFault FileNode := do
  match t.node? (← t.resolve path) with
  | some node => return node
  | none => throw .notFound

/-- Whether a path leads to a directory. -/
def isDirectory (t : FileTree) (path : String) : Bool :=
  match t.find path with
  | .ok .directory => true
  | _ => false

/-- Whether a path leads to a file. -/
def isFile (t : FileTree) (path : String) : Bool :=
  match t.find path with
  | .ok (.file _) => true
  | _ => false

/-- The contents of a file. -/
def read (t : FileTree) (path : String) : Except FileFault ByteArray := do
  match ← t.find path with
  | .file contents => return contents
  | .directory => throw .isADirectory

/-- Everything below a place, each with the names that lead to it from there. -/
def below (t : FileTree) (place : Place) : List (Place × FileNode) :=
  t.nodes.toList.filterMap fun e ↦
    if place <+: e.1 ∧ e.1.length ≠ place.length then some (e.1.drop place.length, e.2) else none

/-! ## Changing -/

/-- A change that may fail halfway. -/
abbrev Change (α : Type) := ExceptT FileFault (StateM FileTree) α

/-- Makes the directories named by parts, starting from a directory. -/
def makeFrom : Place → List String → Change Place
  | place, [] => return place
  | place, part :: parts => do
    if part = "" ∨ part = "." then makeFrom place parts
    else if part = ".." then makeFrom place.dropLast parts
    else
      let t ← get
      match t.node? (place ++ [part]) with
      | some .directory => makeFrom (place ++ [part]) parts
      | some (.file _) => throw .exists
      | none =>
        if Path.isUsablePart part then
          set (t.put (place ++ [part]) .directory)
          makeFrom (place ++ [part]) parts
        else throw .badName

/-- The parts of a path without what follows its last name or `..`. -/
def trimParts (parts : List String) : List String :=
  (parts.reverse.dropWhile fun p ↦ p = "" || p = ".").reverse

/-- Whether the last part of a path, slashes at its end aside, is `.`. -/
def endsInDot (parts : List String) : Bool :=
  (parts.reverse.find? (· ≠ "")) == some "."

/-- Whether parts lead to a file, or on from one. -/
def reachesFile (t : FileTree) (place : Place) (parts : List String) : Bool :=
  match t.follow place parts with
  | .ok place => !t.hasDirectory place
  | .error fault => fault == .notADirectory

/-- The parts of a path without its last one, slashes at its end aside. -/
def leadingParts (parts : List String) : List String :=
  (parts.reverse.dropWhile (· = "")).tail.reverse

/-- Makes a directory and those above it.  A path that ends in `.` names a directory that exists
already: only those above it are made.  Nothing is made below a file. -/
def makeDirectories (path : String) : Change Unit := do
  if path = "" then return
  if !Path.isUsable path then throw .badName
  let t ← get
  if t.reachesFile (t.origin path) (leadingParts (Path.parts path)) then throw .notADirectory
  let parts := Path.parts path
  if endsInDot parts then
    let _ ← makeFrom (t.origin path) (trimParts parts).dropLast
    let t ← get
    let place ← t.resolve path
    if !t.hasDirectory place then throw .notADirectory
  else
    let _ ← makeFrom (t.origin path) parts

/-- Writes a file into an existing directory. -/
def writeFile (path : String) (contents : ByteArray) : Change Unit := do
  let t ← get
  if path = "" then throw .notFound
  if !Path.isUsable path then throw .badName
  let parts := Path.parts path
  let place ← t.follow (t.origin path) parts.dropLast
  match parts.getLast? with
  | none => throw .notFound
  | some name =>
    if !t.hasDirectory place then throw .notADirectory
    if name = "" ∨ name = "." ∨ name = ".." then throw .isADirectory
    if !Path.isUsablePart name then throw .badName
    if t.hasDirectory (place ++ [name]) then throw .isADirectory
    set (t.put (place ++ [name]) (.file contents))

/-- Carries out one change. -/
def act : FileAction → Change Unit
  | .makeDirectories path => makeDirectories path
  | .write path contents => writeFile path contents

/-- Carries out changes in order, up to the first that fails. -/
def perform (t : FileTree) (actions : List FileAction) : Except FileFault Unit × FileTree :=
  (actions.forM act : Change Unit).run t

end FileTree

end SongBundle
