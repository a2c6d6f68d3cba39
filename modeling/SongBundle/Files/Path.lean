/-!
# Paths

A path is a string of parts separated by slashes.  Paths are joined as text and never tidied up, so
that a message shows a path as its author wrote it.

* `Path.join` puts one path after another, `Path.parts` takes a path apart.
* `Path.isUsable` says which paths a file system takes at all.
-/

set_option autoImplicit false

namespace SongBundle.Path

/-- Splits a text at its slashes. -/
def splitSlash : List Char → List (List Char)
  | [] => [[]]
  | c :: cs =>
    if c = '/' then [] :: splitSlash cs
    else
      match splitSlash cs with
      | part :: rest => (c :: part) :: rest
      | [] => [[c]]

theorem splitSlash_ne_nil (cs : List Char) : splitSlash cs ≠ [] := by
  cases cs with
  | nil => simp [splitSlash]
  | cons c cs =>
    rw [splitSlash]
    split
    · simp
    · split <;> simp

/-- The texts between the slashes of a path, empty ones included. -/
def parts (path : String) : List String := (splitSlash path.toList).map String.ofList

/-- Whether a path starts at the root. -/
def isAbsolute (path : String) : Bool := path.toList.head? == some '/'

/-- Whether a path ends in a slash. -/
def endsInSlash (path : String) : Bool := path.toList.getLast? == some '/'

/-- The path `next`, starting from `base` unless it is absolute. -/
def join (base next : String) : String :=
  if isAbsolute next then next
  else if base = "" ∨ endsInSlash base then base ++ next
  else base ++ "/" ++ next

/-- The path with the given parts. -/
def ofParts (parts : List String) : String := "/".intercalate parts

/-- The path of the directory that holds what a path leads to: all but its last part. -/
def parent (path : String) : String :=
  match (parts path).dropLast with
  | [""] => "/"
  | parts => ofParts parts

/-- The greatest number of bytes in a part. -/
def partLimit : Nat := 255

/-- The number of bytes that no path reaches. -/
def pathLimit : Nat := 4096

/-- Whether a part can name a file or directory. -/
def isUsablePart (part : String) : Bool := part.utf8ByteSize ≤ partLimit

/-- Whether a file system takes a path: it is neither empty nor too long, and it holds no zero
character. -/
def isUsable (path : String) : Bool :=
  path ≠ "" && path.utf8ByteSize < pathLimit && !path.toList.contains '\x00'

end SongBundle.Path
