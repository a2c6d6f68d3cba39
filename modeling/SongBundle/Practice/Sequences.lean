import SongBundle.Library.Session
import SongBundle.Practice

/-!
# The poses of a practice plan

`Practice.sequences` gives every step of a plan its poses.  A learning step shows the poses of its
first move, placed at the beat of the song where that move starts.  A review shows what was learnt
since the last review of its section, under the header of the latest lesson of the section.

A learning step whose move the plan cannot place in a song is left out.
-/

set_option autoImplicit false

namespace SongBundle.Practice

/-- What a section has taught so far. -/
structure Lesson where
  /-- The frames that wait for a review. -/
  pending : List Pose.Frame
  /-- The header of the latest lesson. -/
  header : Option Pose.Header

/-- Nothing was taught yet. -/
def Lesson.initial : Lesson := ⟨[], none⟩

/-- The beat of the song at which a measure starts, if 32 bits hold it. -/
def startBeat? (beatsPerMeasure measure : UInt32) : Option UInt32 :=
  let beat := (measure.toNat - 1) * beatsPerMeasure.toNat
  if beat < UInt32.size then some (UInt32.ofNat beat) else none

/-- The step starts beyond the last beat that can be counted. -/
def tooLate (s : Step) : BuildError :=
  .atMeasure .frameSequence s.measure s!"practice step `{s.first}` starts out of range"

/-- The key of the move a step teaches. -/
def stepKey (s : Step) (song : SongRef) : MoveKey :=
  ⟨song.origin, song.song, MoveName.qualified s.first song.song⟩

/-- A copy of a sequence for a learning step. -/
def learnSequence (s : Step) (beat : UInt32) (source : Pose.Sequence) : Pose.Sequence where
  name := s!"learn_{s.first}_{s.next}"
  header := source.header
  frames := source.frames.map fun f ↦ { f with offset := beat.toFloat32 }

/-- The sequence of a review. -/
def reviewSequence (s : Step) (l : Lesson) : Pose.Sequence where
  name := s!"review_{s.first}_{s.next}"
  header := l.header.getD .default
  frames := l.pending

/-- The sequence of a step, if it has one, and the lesson after it. -/
def stepSequence (library : Library) (beatsPerMeasure : UInt32) (songs : Table String SongRef)
    (l : Lesson) (s : Step) : Import (Option Pose.Sequence × Lesson) :=
  match s.kind with
  | .review => return (some (reviewSequence s l), { l with pending := [] })
  | .learn =>
    match songs.get? s.first with
    | none => return (none, l)
    | some song =>
      match startBeat? beatsPerMeasure s.measure with
      | none => throw (tooLate s)
      | some beat => do
        let q := learnSequence s beat (← Session.sequence library (stepKey s song))
        return (some q, ⟨l.pending ++ q.frames, some q.header⟩)

/-- The sequences of the steps of a section. -/
def sectionSequences (library : Library) (beatsPerMeasure : UInt32)
    (songs : Table String SongRef) : Lesson → List Step → Import (List Pose.Sequence)
  | _, [] => return []
  | l, s :: steps => do
    let (q, l) ← stepSequence library beatsPerMeasure songs l s
    let rest ← sectionSequences library beatsPerMeasure songs l steps
    return q.toList ++ rest

/-- The sequences of a plan, in the order of its steps. -/
def sequences (library : Library) (beatsPerMeasure : UInt32) (p : Plan) :
    Import (List Pose.Sequence) := do
  let perSection ← p.sections.mapM fun s ↦
    sectionSequences library beatsPerMeasure p.songs .initial s.steps
  return perSection.flatten

end SongBundle.Practice
