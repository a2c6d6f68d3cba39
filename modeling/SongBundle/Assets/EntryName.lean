import SongBundle.Files.Path

/-!
# Names of entries

The entries of a bundle have names like paths: segments between slashes, the first of which is the
container of the entry.  `EntryName.normalize` turns backslashes into slashes and refuses names that
could lead out of a bundle.
-/

set_option autoImplicit false

namespace SongBundle.EntryName

/-- A name with slashes for backslashes. -/
def withSlashes (name : String) : String :=
  String.ofList (name.toList.map fun c ↦ if c = '\\' then '/' else c)

/-- Whether a segment names something below the place where it stands. -/
def isProper (segment : String) : Bool := segment ≠ "" && segment ≠ "." && segment ≠ ".."

theorem isProper_iff {segment : String} :
    isProper segment = true ↔ segment ≠ "" ∧ segment ≠ "." ∧ segment ≠ ".." := by
  simp [isProper, and_assoc]

/-- Whether a name is in the form that entries are stored under. -/
def isNormal (name : String) : Bool := (Path.parts name).all isProper

/-- The form of a name that its entry is stored under, if it is a name at all. -/
def normalize? (name : String) : Option String :=
  let name := withSlashes name
  if isNormal name then some name else none

/-- The container of an entry. -/
def container (name : String) : String := (Path.parts name).headD ""

/-- Whether an entry lies below a container. -/
def isBelow (container name : String) : Bool := (container ++ "/").toList.isPrefixOf name.toList

end SongBundle.EntryName
