import SongBundle.Assets.EntryName
import SongBundle.Files.Tree
import SongBundle.Json.Writer

/-!
# Asset stores

An `AssetStore` is a bundle in memory: its containers and its entries, each with a name
(`SongBundle.Assets.EntryName`) and bytes.

* `AssetStore.write` and `AssetStore.writeJson` add an entry to a container.
* `AssetStore.require` checks that containers are there.
* `AssetStore.load` reads a directory, `AssetStore.save` says how to write one.
-/

set_option autoImplicit false

namespace SongBundle

/-- A bundle in memory. -/
structure AssetStore where
  /-- The directory the store was read from. -/
  source : Option String
  containers : Names
  /-- The entries by name. -/
  entries : Table String ByteArray

/-- Why an entry cannot be written. -/
inductive EntryFault where
  | invalidName (name : String)
  | unknownContainer (name container : String)
deriving DecidableEq, Repr

namespace EntryFault

/-- The words for a fault. -/
def message : EntryFault → String
  | invalidName name => s!"invalid asset entry name `{name}`"
  | unknownContainer name container =>
    s!"entry `{name}` targets unknown container `{container}`"

/-- The report on a fault. -/
def report (f : EntryFault) : BuildError := .plain f.message

end EntryFault

/-- The name an entry is stored under. -/
def EntryName.normalize (name : String) : Except EntryFault String :=
  match normalize? name with
  | some normal => .ok normal
  | none => .error (.invalidName (withSlashes name))

namespace AssetStore

/-- The containers that every bundle has. -/
def requiredContainers : List String :=
  ["moves", "battle", "partyjump", "practice", "sequences", "anims", "song"]

/-- The store without containers. -/
def empty : AssetStore := ⟨none, .empty, .empty⟩

/-- Adds a container. -/
def addContainer (s : AssetStore) (name : String) : AssetStore :=
  { s with containers := s.containers.add name }

/-- The store with the given containers and no entries. -/
def withContainers (names : List String) : AssetStore := names.foldl addContainer empty

def hasContainer (s : AssetStore) (name : String) : Bool := s.containers.contains name

/-- A container is missing. -/
def missingContainer (s : AssetStore) (name : String) : BuildError :=
  .resource ((s.source.map fun root ↦ Path.join root name).getD name)
    "required asset container is missing"

/-- Checks that containers are there; the first one missing is reported. -/
def require (s : AssetStore) (names : List String) : Except BuildError Unit :=
  match names.find? fun name ↦ !s.hasContainer name with
  | some name => .error (s.missingContainer name)
  | none => .ok ()

/-! ## Entries -/

/-- The bytes of an entry, asked for by the name it is stored under. -/
def read? (s : AssetStore) (name : String) : Option ByteArray := s.entries.get? name

/-- Writes an entry into its container, replacing the one that has its name. -/
def write (s : AssetStore) (name : String) (bytes : ByteArray) : Except EntryFault AssetStore := do
  let name ← EntryName.normalize name
  let container := EntryName.container name
  if s.hasContainer container then
    return { s with entries := s.entries.insert name bytes }
  else throw (.unknownContainer name container)

/-- Writes an entry that holds a value as indented JSON. -/
def writeJson (s : AssetStore) (name : String) (value : Json) : Except EntryFault AssetStore :=
  s.write name value.pretty.toUTF8

/-- The names of the entries below a container, in ascending order. -/
def list (s : AssetStore) (container : String) : List String :=
  s.entries.keys.filter (EntryName.isBelow container)

/-- The number of entries. -/
def size (s : AssetStore) : Nat := s.entries.size

/-- Whether there is no entry. -/
def isEmpty (s : AssetStore) : Bool := s.entries.isEmpty

/-! ## Directories -/

/-- The changes that write a store into a directory: first all containers, then all entries. -/
def save (s : AssetStore) (root : String) : List FileAction :=
  [.makeDirectories root]
    ++ s.containers.toList.map (fun name ↦ .makeDirectories (Path.join root name))
    ++ s.entries.toList.flatMap fun e ↦
      let path := Path.join root e.1
      [.makeDirectories (Path.parent path), .write path e.2]

/-- Adds what was found below a directory. -/
def addNode (s : AssetStore) (place : Place) : FileNode → AssetStore
  | .directory => s.addContainer (Path.ofParts place)
  | .file bytes => { s with entries := s.entries.insert (Path.ofParts place) bytes }

/-- Reads a directory: the directories below it become containers and the files entries. -/
def load (t : FileTree) (root : String) : Except BuildError AssetStore := do
  if !t.isDirectory root then throw (.resource root "asset template directory not found")
  let place ← (t.resolve root).mapError .file
  return (t.below place).foldl (fun s e ↦ s.addNode e.1 e.2) { empty with source := some root }

end AssetStore

end SongBundle
