import SongBundle.Animation
import SongBundle.Battle.Timeline
import SongBundle.Graph
import SongBundle.Practice.Sequences
import SongBundle.Request
import SongBundle.Timing.Score

/-!
# Compiled songs

`CompiledSong.compile` turns a request into everything that a bundle holds.  The parts of a request
are compiled one after the other, and the first error ends the work:

* moves, cameras and expressions become tracks (`Tracks.compile`);
* the moves become a graph;
* battle and party jumps become steps and intervals;
* each level of the practice becomes a plan and its pose sequences;
* the tracks become keyframes, level by level;
* tempo, milestones and drums become a score.
-/

set_option autoImplicit false

namespace SongBundle

/-- The tracks of a song. -/
structure Tracks where
  moves : Table Difficulty (Track Move)
  cameras : Table Difficulty (Track String)
  expressions : Track String

/-- A plan to practise a level, and the poses to show. -/
structure PracticeLevel where
  plan : Practice.Plan
  sequences : List Pose.Sequence

/-- Everything that a bundle holds. -/
structure CompiledSong where
  graph : MoveGraph
  battle : List Battle.Step
  partyJumps : List PartyJump.Interval
  practice : Table Difficulty Practice.Plan
  /-- The poses to show in the practice of each level. -/
  sequences : Table Difficulty (List Pose.Sequence)
  anims : Table Difficulty AnimEvents
  timing : Timing.Score
  manifest : SongManifest

namespace Tracks

/-- The moves of a level at every measure, with what the library knows of them. -/
def compileMoves (library : Library) (level : Difficulty) (events : List MoveEvent) :
    Import (Track Move) := do
  let track ← densifyMoves level events
  Session.resolveTrack library track

/-- The tracks of a request. -/
def compile (library : Library) (r : BuildRequest) : Import Tracks := do
  let moves ← r.moves.mapEntriesM (compileMoves library)
  let cameras ← r.cameras.mapEntriesM fun level events ↦
    (liftM (densifyCameras level events) : Import (Track String))
  let expressions ← densifyExpressions r.visemes
  return ⟨moves, cameras, expressions⟩

/-- The levels that have moves or cameras, from the easiest to the hardest. -/
def levels (t : Tracks) : List Difficulty :=
  Named.all.filter fun level ↦ t.moves.contains level || t.cameras.contains level

/-- The keyframes of a level. -/
def anim (t : Tracks) (level : Difficulty) : AnimEvents :=
  .ofTracks (t.moves.get? level) (t.cameras.get? level) t.expressions

/-- The keyframes of all levels. -/
def anims (t : Tracks) : Table Difficulty AnimEvents :=
  .ofList (t.levels.map fun level ↦ (level, t.anim level))

end Tracks

/-- The practice of a level. -/
def PracticeLevel.compile (library : Library) (beatsPerMeasure : UInt32) (level : Difficulty)
    (sections : List (List MoveEvent)) : Import PracticeLevel := do
  let plan ← (Practice.compile level sections).mapError Practice.Fault.report
  let sequences ← Practice.sequences library beatsPerMeasure plan
  return ⟨plan, sequences⟩

/-- The changes of tempo in a song.  A song that lists none has its own tempo throughout, if that is
positive. -/
def BuildRequest.tempoChanges (r : BuildRequest) : List TempoChange :=
  if r.tempo.isEmpty && 0 < r.song.bpm then [⟨0, r.song.bpm⟩] else r.tempo

namespace CompiledSong

/-- The manifest of a song that has the given levels. -/
def manifestOf (r : BuildRequest) (levels : List Difficulty) : SongManifest where
  song := r.song
  compression := r.compression
  totalMeasures := r.totalMeasures
  difficulties := levels
  phraseRepeats := r.phraseRepeats

/-- Compiles a request, reading from the library as needed. -/
def importing (library : Library) (c : BuildConfig) (r : BuildRequest) :
    Import CompiledSong := do
  let beatsPerMeasure := c.timing.beatsPerMeasure
  let tracks ← Tracks.compile library r
  let graph ← BuildError.checked (MoveGraph.build tracks.moves.toList r.beginnerMoves)
  let battle ← (Battle.compile r.battle r.totalMeasures).mapError Battle.Fault.report
  let partyJumps ←
    (PartyJump.compile r.partyJumps r.totalMeasures).mapError PartyJump.Fault.report
  let levels ← r.practice.mapEntriesM (PracticeLevel.compile library beatsPerMeasure)
  let timing ←
    (Timing.Score.compile r.tempoChanges r.songEvents r.drums beatsPerMeasure).mapError
      Timing.Fault.report
  return {
    graph, battle, partyJumps
    practice := levels.map fun _ p ↦ p.plan
    sequences := levels.map fun _ p ↦ p.sequences
    anims := tracks.anims
    timing
    manifest := manifestOf r tracks.levels }

/-- Compiles a request. -/
def compile (library : Library) (c : BuildConfig) (r : BuildRequest) :
    Except BuildError CompiledSong :=
  ((importing library c r).run Session.initial).1

end CompiledSong

end SongBundle
