import SongBundle.Difficulty
import SongBundle.Event

/-!
# Tracks

A `Track` holds a value at each of its indices.  An editor lists only the places where the value
changes; `Track.densify` fills the gaps, carrying each value forward to the next listed index.

* `Track.densify` demands a value at the first index and none before it.
* `densifyMoves`, `densifyCameras` and `densifyExpressions` turn the events of a song into tracks.
  Measures are counted from one in events and from zero in tracks; beats are counted from one in
  both.
-/

set_option autoImplicit false

namespace SongBundle

open Json (Decoder)

/-- Values by index. -/
structure Track (α : Type) where
  entries : Table UInt32 α

namespace Track

variable {α β : Type}

instance : Inhabited (Track α) := ⟨⟨.empty⟩⟩

/-- The track without entries. -/
def empty : Track α := ⟨.empty⟩

/-- The value at an index. -/
def get? (t : Track α) (index : UInt32) : Option α := t.entries.get? index

/-- The entries by ascending index. -/
def toList (t : Track α) : List (UInt32 × α) := t.entries.toList

/-- The values by ascending index. -/
def values (t : Track α) : List α := t.entries.values

/-- The least index. -/
def firstIndex? (t : Track α) : Option UInt32 := t.entries.firstKey?

/-- The greatest index. -/
def lastIndex? (t : Track α) : Option UInt32 := t.entries.lastKey?

/-- The number of entries. -/
def length (t : Track α) : Nat := t.entries.size

/-- Whether the track has no entry. -/
def isEmpty (t : Track α) : Bool := t.entries.isEmpty

/-- Runs an action on every value in order and puts the results at the same indices. -/
def mapM {m : Type → Type} [Monad m] (f : α → m β) (t : Track α) : m (Track β) :=
  mk <$> t.entries.mapM f

/-- A track as JSON: its indices are written as strings. -/
def toJson (f : α → Json) (t : Track α) : Json := .ofTable wordText f t.entries

def decoder (value : Decoder α) : Decoder (Track α) := fun j ↦
  mk <$> Decoder.table Decoder.u32Key value j

/-! ## Carrying values forward -/

/-- The indices from `first` to `last`. -/
def span (first last : UInt32) : List UInt32 :=
  (List.range' first.toNat (last.toNat + 1 - first.toNat)).map UInt32.ofNat

/-- Gives each index in turn its listed value, or else the value of the index before it. -/
def carry (listed : Table UInt32 α) : α → List UInt32 → List (UInt32 × α)
  | _, [] => []
  | current, i :: is =>
    let now := (listed.get? i).getD current
    (i, now) :: carry listed now is

theorem map_fst_carry (listed : Table UInt32 α) (current : α) (is : List UInt32) :
    (carry listed current is).map Prod.fst = is := by
  induction is generalizing current with
  | nil => rfl
  | cons i is ih => rw [carry, List.map_cons, ih]

theorem pairwise_span (first last : UInt32) : (span first last).Pairwise (· < ·) := by
  rw [span, List.pairwise_map]
  refine List.Pairwise.imp_of_mem ?_ (List.pairwise_lt_range' 1)
  intro a b ha hb hab
  rw [List.mem_range'_1] at ha hb
  have := last.toNat_lt
  have hsize : UInt32.size = 4294967296 := rfl
  rw [UInt32.lt_iff_toNat_lt, UInt32.toNat_ofNat_of_lt' (by omega),
    UInt32.toNat_ofNat_of_lt' (by omega)]
  exact hab

theorem pairwise_carry (listed : Table UInt32 α) (current : α) (first last : UInt32) :
    (carry listed current (span first last)).Pairwise (fun a b ↦ compare a.1 b.1 = .lt) := by
  have h := pairwise_span first last
  rw [← map_fst_carry listed current (span first last), List.pairwise_map] at h
  exact h.imp fun hab ↦ Std.compare_eq_lt.2 hab

/-- Why a list of values makes no track. -/
inductive Fault where
  /-- A value is listed before the first index. -/
  | early (index start : UInt32)
  /-- No value is listed at the first index. -/
  | missingFirst (start : UInt32)
deriving DecidableEq, Repr

/-- The report on a track of a given name. -/
def Fault.report (stage : Stage) (track : String) : Fault → BuildError
  | .early index start =>
    .validation stage (some (.index index))
      s!"{track} track has an entry before its first index {wordText start}"
  | .missingFirst start =>
    .validation stage (some (.index start)) s!"missing first entry in {track} track"

/-- Fills the gaps of a list of values from `start` to the greatest listed index.  Of several values
listed for one index the last one counts. -/
def densify (start : UInt32) (sparse : List (UInt32 × α)) : Except Fault (Track α) :=
  let listed := Table.ofList sparse
  match listed.firstKey?, listed.lastKey? with
  | some first, some last =>
    if first < start then .error (.early first start)
    else
      match listed.get? start with
      | some a => .ok ⟨⟨carry listed a (span start last), pairwise_carry listed a start last⟩⟩
      | none => .error (.missingFirst start)
  | _, _ => .error (.missingFirst start)

/-- Fills the gaps of a named track, reporting on behalf of a stage. -/
def densifyFor (stage : Stage) (name : String) (start : UInt32) (sparse : List (UInt32 × α)) :
    Except BuildError (Track α) :=
  (densify start sparse).mapError (Fault.report stage name)

end Track

/-! ## The tracks of a song -/

/-- Where a move stands on its track; moves before the first measure have no place. -/
def MoveEvent.place (e : MoveEvent) : Except BuildError (UInt32 × MoveEvent) :=
  if e.measure = 0 then
    .error (.atMeasure .choreography e.measure s!"move `{e.move}` placed before measure 1")
  else .ok (e.measure - 1, e)

/-- The move at every measure of a level. -/
def densifyMoves (level : Difficulty) (events : List MoveEvent) :
    Except BuildError (Track MoveEvent) := do
  let sparse ← events.mapM MoveEvent.place
  Track.densifyFor .choreography s!"{level.text} move" 0 sparse

/-- The camera position at every beat of a level. -/
def densifyCameras (level : Difficulty) (events : List CameraEvent) :
    Except BuildError (Track String) :=
  Track.densifyFor .camera s!"{level.text} camera" 1 (events.map fun e ↦ (e.beat, e.position))

/-- The least of a list of beats. -/
def firstBeat? (events : List ExpressionEvent) : Option UInt32 :=
  (events.map ExpressionEvent.beat).min?

/-- The expression at every beat from the first one listed. -/
def densifyExpressions (events : List ExpressionEvent) : Except BuildError (Track String) :=
  match firstBeat? events with
  | none => .ok .empty
  | some start =>
    Track.densifyFor .expression "expression" start (events.map fun e ↦ (e.beat, e.name))

end SongBundle
