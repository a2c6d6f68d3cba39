import SongBundle.Library.Basic
import SongBundle.Track

/-!
# Import sessions

During one build a move is read from the library once, however often it is placed.  A `Session`
remembers what was read; it also keeps the list of all readings, so that it can be said how often the
library was asked.  A reading that fails is not remembered and is tried again.
-/

set_option autoImplicit false

namespace SongBundle

/-- What was read from a library. -/
structure Session where
  moves : Table MoveKey MoveMetadata
  sequences : Table MoveKey Pose.Sequence
  /-- The keys of the moves asked for, the latest first. -/
  moveLoads : List MoveKey
  /-- The keys of the sequences asked for, the latest first. -/
  sequenceLoads : List MoveKey

/-- A computation that reads from a library. -/
abbrev Import (α : Type) := ExceptT BuildError (StateM Session) α

namespace Session

/-- Nothing was read yet. -/
def initial : Session := ⟨.empty, .empty, [], []⟩

/-- The number of moves read. -/
def importedMoves (s : Session) : Nat := s.moves.size

/-- The number of sequences read. -/
def importedSequences (s : Session) : Nat := s.sequences.size

/-- The description of a move. -/
def metadata (library : Library) (k : MoveKey) : Import MoveMetadata := do
  let s ← get
  match s.moves.get? k with
  | some m => return m
  | none =>
    set { s with moveLoads := k :: s.moveLoads }
    match library.loadMove k with
    | .ok m =>
      set { s with moveLoads := k :: s.moveLoads, moves := s.moves.insert k m }
      return m
    | .error e => throw e

/-- The poses of a move. -/
def sequence (library : Library) (k : MoveKey) : Import Pose.Sequence := do
  let s ← get
  match s.sequences.get? k with
  | some q => return q
  | none =>
    set { s with sequenceLoads := k :: s.sequenceLoads }
    match library.loadSequence k with
    | .ok q =>
      set { s with sequenceLoads := k :: s.sequenceLoads, sequences := s.sequences.insert k q }
      return q
    | .error e => throw e

/-- A clip that the move of an event does not have. -/
def noClip (e : MoveEvent) : BuildError :=
  let k := MoveKey.ofEvent e
  .resource (Path.join k.directory Library.metadataFile)
    s!"clip `{e.clip}` is not part of move `{k.text}`"

/-- The move placed by an event. -/
def resolve (library : Library) (e : MoveEvent) : Import Move := do
  let m ← metadata library (.ofEvent e)
  match m.clips.get? e.clip with
  | some c => return .of e m c
  | none => throw (noClip e)

/-- The moves of a track, up to the first that cannot be resolved. -/
def resolveTrack (library : Library) (t : Track MoveEvent) : Import (Track Move) :=
  t.mapM (resolve library)

end Session

end SongBundle
