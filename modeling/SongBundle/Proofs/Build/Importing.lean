import SongBundle.Build.CompiledSong
import SongBundle.Proofs.Practice.Sequences
import SongBundle.Proofs.Track

/-!
# Compiling without a session

`Library.compileSong` compiles a request by asking the library whenever it needs something, and
`compile_eq_compileSong` says that the session of a build makes no difference.  What a compiled song
consists of is then read off in `compile_eq_ok_iff`.
-/

set_option autoImplicit false

namespace SongBundle

namespace Library

variable (library : Library)

/-- The moves of a level at every measure, with what the library knows of them. -/
def moveTrack (level : Difficulty) (events : List MoveEvent) : Except BuildError (Track Move) := do
  let track ← densifyMoves level events
  track.mapM library.resolve

/-- The tracks of a request. -/
def tracks (r : BuildRequest) : Except BuildError Tracks := do
  let moves ← r.moves.mapEntriesM library.moveTrack
  let cameras ← r.cameras.mapEntriesM densifyCameras
  let expressions ← densifyExpressions r.visemes
  return ⟨moves, cameras, expressions⟩

/-- The practice of a level. -/
def practiceLevel (beatsPerMeasure : UInt32) (level : Difficulty)
    (sections : List (List MoveEvent)) : Except BuildError PracticeLevel := do
  let plan ← (Practice.compile level sections).mapError Practice.Fault.report
  let sequences ← library.sequences beatsPerMeasure plan
  return ⟨plan, sequences⟩

/-- Compiles a request, asking the library as needed. -/
def compileSong (c : BuildConfig) (r : BuildRequest) : Except BuildError CompiledSong := do
  let tracks ← library.tracks r
  let graph ← BuildError.checked (MoveGraph.build tracks.moves.toList r.beginnerMoves)
  let battle ← (Battle.compile r.battle r.totalMeasures).mapError Battle.Fault.report
  let partyJumps ←
    (PartyJump.compile r.partyJumps r.totalMeasures).mapError PartyJump.Fault.report
  let levels ← r.practice.mapEntriesM (library.practiceLevel c.timing.beatsPerMeasure)
  let timing ←
    (Timing.Score.compile r.tempoChanges r.songEvents r.drums c.timing.beatsPerMeasure).mapError
      Timing.Fault.report
  return ⟨graph, battle, partyJumps, levels.map fun _ p ↦ p.plan, levels.map fun _ p ↦ p.sequences,
    tracks.anims, timing, CompiledSong.manifestOf r tracks.levels⟩

end Library

variable {library : Library} {c : BuildConfig} {r : BuildRequest}

/-! ## In a session -/

theorem computes_moveTrack (level : Difficulty) (events : List MoveEvent) :
    Computes library (Tracks.compileMoves library level events)
      (library.moveTrack level events) :=
  (computes_lift _).bind fun t ↦ computes_resolveTrack library t

theorem computes_tracks (r : BuildRequest) :
    Computes library (Tracks.compile library r) (library.tracks r) := by
  refine (Computes.mapEntriesM computes_moveTrack r.moves).bind fun moves ↦ ?_
  refine (Computes.mapEntriesM (fun _ _ ↦ computes_lift _) r.cameras).bind fun cameras ↦ ?_
  exact (computes_lift _).bind fun expressions ↦ computes_pure _

theorem computes_practiceLevel (beatsPerMeasure : UInt32) (level : Difficulty)
    (sections : List (List MoveEvent)) :
    Computes library (PracticeLevel.compile library beatsPerMeasure level sections)
      (library.practiceLevel beatsPerMeasure level sections) :=
  (computes_lift _).bind fun plan ↦ (computes_sequences plan).bind fun _ ↦ computes_pure _

theorem computes_compileSong (c : BuildConfig) (r : BuildRequest) :
    Computes library (CompiledSong.importing library c r) (library.compileSong c r) := by
  refine (computes_tracks r).bind fun tracks ↦ (computes_lift _).bind fun graph ↦ ?_
  refine (computes_lift _).bind fun battle ↦ (computes_lift _).bind fun partyJumps ↦ ?_
  refine (Computes.mapEntriesM (computes_practiceLevel _) r.practice).bind fun levels ↦ ?_
  exact (computes_lift _).bind fun timing ↦ computes_pure _

/-- The session of a build makes no difference to what is compiled. -/
theorem CompiledSong.compile_eq_compileSong :
    compile library c r = library.compileSong c r := by
  obtain ⟨s, hrun, -⟩ := computes_compileSong c r .initial (Session.faithful_initial library)
  rw [CompiledSong.compile, hrun]

/-! ## What is compiled -/

theorem moveTrack_eq_ok_iff {level : Difficulty} {events : List MoveEvent} {t : Track Move} :
    library.moveTrack level events = .ok t ↔
      ∃ u, densifyMoves level events = .ok u ∧
        List.Forall₂ (fun e e' ↦ e'.1 = e.1 ∧ library.resolve e.2 = .ok e'.2)
          u.toList t.toList := by
  rw [Library.moveTrack, Outcome.bind_eq_ok_iff]
  refine exists_congr fun u ↦ and_congr_right fun _ ↦ ?_
  rw [Track.mapM_eq_ok_iff]
  exact Table.mapM_eq_ok_iff

theorem tracks_eq_ok_iff {t : Tracks} :
    library.tracks r = .ok t ↔
      r.moves.mapEntriesM library.moveTrack = .ok t.moves ∧
        r.cameras.mapEntriesM densifyCameras = .ok t.cameras ∧
        densifyExpressions r.visemes = .ok t.expressions := by
  simp only [Library.tracks, Outcome.bind_eq_ok_iff, Outcome.pure_eq_ok_iff]
  constructor
  · rintro ⟨moves, hmoves, cameras, hcameras, expressions, hexpressions, rfl⟩
    exact ⟨hmoves, hcameras, hexpressions⟩
  · rintro ⟨hmoves, hcameras, hexpressions⟩
    exact ⟨_, hmoves, _, hcameras, _, hexpressions, rfl⟩

/-- What a compiled song consists of. -/
theorem CompiledSong.compile_eq_ok_iff {song : CompiledSong} :
    compile library c r = .ok song ↔
      ∃ tracks levels, library.tracks r = .ok tracks ∧
        MoveGraph.build tracks.moves.toList r.beginnerMoves = some song.graph ∧
        Battle.compile r.battle r.totalMeasures = .ok song.battle ∧
        PartyJump.compile r.partyJumps r.totalMeasures = .ok song.partyJumps ∧
        r.practice.mapEntriesM (library.practiceLevel c.timing.beatsPerMeasure) = .ok levels ∧
        Timing.Score.compile r.tempoChanges r.songEvents r.drums c.timing.beatsPerMeasure =
          .ok song.timing ∧
        song.practice = (levels.map fun _ p ↦ p.plan) ∧
        song.sequences = (levels.map fun _ p ↦ p.sequences) ∧
        song.anims = tracks.anims ∧ song.manifest = manifestOf r tracks.levels := by
  simp only [compile_eq_compileSong, Library.compileSong, Outcome.bind_eq_ok_iff,
    Outcome.pure_eq_ok_iff, Outcome.mapError_eq_ok_iff, Outcome.checked_eq_ok_iff]
  constructor
  · rintro ⟨tracks, htracks, graph, hgraph, battle, hbattle, jumps, hjumps, levels, hlevels, timing,
      htiming, rfl⟩
    exact ⟨tracks, levels, htracks, hgraph, hbattle, hjumps, hlevels, htiming, rfl, rfl, rfl, rfl⟩
  · rintro ⟨tracks, levels, htracks, hgraph, hbattle, hjumps, hlevels, htiming, hpractice,
      hsequences, hanims, hmanifest⟩
    refine ⟨tracks, htracks, _, hgraph, _, hbattle, _, hjumps, levels, hlevels, _, htiming, ?_⟩
    rw [← hpractice, ← hsequences, ← hanims, ← hmanifest]

end SongBundle
