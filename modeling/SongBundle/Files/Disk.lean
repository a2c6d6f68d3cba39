import SongBundle.Files.Tree

/-!
# File trees and the disk

`FileTree.mount` copies what stands at a path of the disk into a file tree, and `FileAction.apply`
carries out a change on the disk.
-/

set_option autoImplicit false

namespace SongBundle

namespace FileTree

/-- The names in a directory of the disk, if there is one at the path. -/
def namesOnDisk (path : String) : IO (Option (List String)) := do
  try
    let found ← (← IO.FS.realPath path).readDir
    return some (found.toList.map (·.fileName))
  catch _ => return none

/-- The contents of a file of the disk, if there is one at the path. -/
def contentsOnDisk (path : String) : IO (Option ByteArray) := do
  try
    return some (← IO.FS.readBinFile path)
  catch _ => return none

/-- Copies a file, or a directory with everything below it. -/
partial def copy (t : FileTree) (place : Place) (path : String) : IO FileTree := do
  match ← namesOnDisk path with
  | some names =>
    names.foldlM (fun t name ↦ t.copy (place ++ [name]) (Path.join path name))
      (t.put place .directory)
  | none =>
    match ← contentsOnDisk path with
    | some contents => return t.put place (.file contents)
    | none => return t

/-- Notes the directories that a path leads through. -/
def noteDirectories (t : FileTree) (path : String) : IO FileTree := do
  let parts := Path.parts path
  let leading := (List.range parts.length).map fun n ↦ Path.ofParts (parts.take n)
  leading.foldlM (fun t path ↦ do
    if (← namesOnDisk path).isSome then return t.put (t.placeOf path) .directory else return t) t

/-- Copies what stands at a path of the disk. -/
def mount (t : FileTree) (path : String) : IO FileTree := do
  (← t.noteDirectories path).copy (t.placeOf path) path

/-- The tree of the working directory, with nothing in it. -/
def ofWorkingDirectory : IO FileTree := do
  let home := placeFrom [] (Path.parts (← IO.currentDir).toString)
  let above := (List.range home.length).map fun n ↦ home.take (n + 1)
  return ⟨.ofList (above.map fun place ↦ (place, .directory)), home⟩

end FileTree

/-- Carries out a change on the disk. -/
def FileAction.apply : FileAction → IO Unit
  | .makeDirectories path => if path = "" then pure () else IO.FS.createDirAll path
  | .write path contents => IO.FS.writeBinFile path contents

end SongBundle
