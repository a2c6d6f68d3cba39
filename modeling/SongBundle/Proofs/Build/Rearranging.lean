import Mathlib
import SongBundle.Proofs.Build.Consistency
import SongBundle.Proofs.PartyJump
import SongBundle.Proofs.Timing.Arrangement

/-!
# Songs do not depend on how a request is arranged

An author may list most things in any order.  `BuildRequest.Rearranged` says that two requests list
the same things and agree in everything else, and `compile_eq_ok_iff_of_rearranged` that both
compile to the same song or none.  Where two entries of a list would compete for one place, the
later one would win, so `BuildRequest.Unambiguous` asks that there are none.

Every stage has its own reason: tracks are filled through tables, tempo and milestones are sorted by
what tells them apart, battle and party jumps accept the marks of a script in any order, marking
moves for beginners commutes, and drums are told apart by their order among themselves.
-/

set_option autoImplicit false

namespace SongBundle

namespace BuildRequest

/-- One request lists what the other lists, maybe in another order, and nothing else differs. -/
structure Rearranged (r r' : BuildRequest) : Prop where
  moves : List.Forall₂ (fun l l' ↦ l'.1 = l.1 ∧ l.2.Perm l'.2) r.moves.toList r'.moves.toList
  cameras : List.Forall₂ (fun l l' ↦ l'.1 = l.1 ∧ l.2.Perm l'.2) r.cameras.toList r'.cameras.toList
  visemes : r.visemes.Perm r'.visemes
  battle : r.battle.Perm r'.battle
  partyJumps : r.partyJumps.Perm r'.partyJumps
  tempo : r.tempo.Perm r'.tempo
  songEvents : r.songEvents.Perm r'.songEvents
  beginnerMoves : r.beginnerMoves.Perm r'.beginnerMoves
  /-- The drums keep their places; only the hits of each may change theirs. -/
  drums : List.Forall₂ DrumTrack.Rearranged r.drums r'.drums
  rest : r' = { r with
    moves := r'.moves, cameras := r'.cameras, visemes := r'.visemes, battle := r'.battle
    partyJumps := r'.partyJumps, tempo := r'.tempo, songEvents := r'.songEvents
    beginnerMoves := r'.beginnerMoves, drums := r'.drums }

/-- No two entries of a list stand at one place. -/
structure Unambiguous (r : BuildRequest) : Prop where
  moves : ∀ l ∈ r.moves.toList, (l.2.map MoveEvent.measure).Nodup
  cameras : ∀ l ∈ r.cameras.toList, (l.2.map CameraEvent.beat).Nodup
  visemes : (r.visemes.map ExpressionEvent.beat).Nodup
  tempo : (r.tempo.map TempoChange.measure).Nodup
  /-- Numbers that are no beats of a song are no places. -/
  songEvents : ((r.songEvents.map SongEvent.beat).filter Timing.isBeat).Nodup

end BuildRequest

variable {library : Library} {c : BuildConfig} {r r' : BuildRequest}

/-! ## Stage by stage -/

/-- Tables of lists compile alike if each list does in any order. -/
theorem mapEntriesM_eq_ok_iff_of_perm {α β : Type} {f : Difficulty → List α → Except BuildError β}
    {P : List α → Prop} {t t' : Table Difficulty (List α)}
    (hf : ∀ level l l', l.Perm l' → P l → ∀ b, f level l = .ok b ↔ f level l' = .ok b)
    (hP : ∀ l ∈ t.toList, P l.2)
    (h : List.Forall₂ (fun l l' ↦ l'.1 = l.1 ∧ l.2.Perm l'.2) t.toList t'.toList)
    {u : Table Difficulty β} : t.mapEntriesM f = .ok u ↔ t'.mapEntriesM f = .ok u := by
  refine Table.mapEntriesM_congr (((List.forall₂_and_left _ _).2 ⟨hP, h⟩).imp ?_)
  rintro ⟨level, l⟩ ⟨level', l'⟩ ⟨hl, hlevel, hperm⟩
  obtain rfl : level' = level := hlevel
  exact ⟨rfl, hf level' l l' hperm hl⟩

theorem moveTrack_eq_ok_iff_of_perm {level : Difficulty} {events events' : List MoveEvent}
    (hperm : events.Perm events') (h : (events.map MoveEvent.measure).Nodup) (t : Track Move) :
    library.moveTrack level events = .ok t ↔ library.moveTrack level events' = .ok t := by
  simp only [moveTrack_eq_ok_iff, densifyMoves_eq_ok_iff_of_perm hperm h]

theorem tracks_eq_ok_iff_of_rearranged (h : r.Rearranged r') (hr : r.Unambiguous) {t : Tracks} :
    library.tracks r = .ok t ↔ library.tracks r' = .ok t := by
  have hmoves : r.moves.mapEntriesM library.moveTrack = .ok t.moves ↔
      r'.moves.mapEntriesM library.moveTrack = .ok t.moves := by
    refine mapEntriesM_eq_ok_iff_of_perm (P := fun l ↦ (l.map MoveEvent.measure).Nodup) ?_
      hr.moves h.moves
    exact fun level l l' ↦ moveTrack_eq_ok_iff_of_perm
  have hcameras : r.cameras.mapEntriesM densifyCameras = .ok t.cameras ↔
      r'.cameras.mapEntriesM densifyCameras = .ok t.cameras := by
    refine mapEntriesM_eq_ok_iff_of_perm (P := fun l ↦ (l.map CameraEvent.beat).Nodup) ?_
      hr.cameras h.cameras
    intro level l l' hperm hl b
    rw [densifyCameras_congr hperm hl]
  rw [tracks_eq_ok_iff, tracks_eq_ok_iff, hmoves, hcameras,
    densifyExpressions_congr h.visemes hr.visemes]

/-- Songs without changes of tempo have none in any order. -/
theorem BuildRequest.Rearranged.tempoChanges_perm (h : r.Rearranged r') :
    r.tempoChanges.Perm r'.tempoChanges := by
  have hsong : r'.song = r.song := by rw [h.rest]
  have hempty : r.tempo.isEmpty = r'.tempo.isEmpty := h.tempo.isEmpty_eq
  rw [tempoChanges, tempoChanges, hsong, hempty]
  split
  · exact .refl _
  · exact h.tempo

theorem BuildRequest.Unambiguous.nodup_tempoChanges (hr : r.Unambiguous) :
    (r.tempoChanges.map TempoChange.measure).Nodup := by
  rw [tempoChanges]
  split
  · exact List.nodup_singleton _
  · exact hr.tempo

theorem score_eq_ok_iff_of_rearranged (h : r.Rearranged r') (hr : r.Unambiguous)
    {beatsPerMeasure : UInt32} {s : Timing.Score} :
    Timing.Score.compile r.tempoChanges r.songEvents r.drums beatsPerMeasure = .ok s ↔
      Timing.Score.compile r'.tempoChanges r'.songEvents r'.drums beatsPerMeasure = .ok s := by
  rw [Timing.Score.compile_eq_ok_iff, Timing.Score.compile_eq_ok_iff,
    Timing.tempoPart_congr h.tempoChanges_perm hr.nodup_tempoChanges,
    Timing.markerPart_eq_ok_iff_of_perm h.songEvents hr.songEvents,
    Timing.drumPart_eq_ok_iff_of_rearranged h.drums]

/-! ## The whole song -/

/-- **Requests that list the same things compile to the same song or none**, in whatever order they
list them, if no two entries compete for one place. -/
theorem CompiledSong.compile_eq_ok_iff_of_rearranged (library : Library) (c : BuildConfig)
    (h : r.Rearranged r') (hr : r.Unambiguous) (song : CompiledSong) :
    compile library c r = .ok song ↔ compile library c r' = .ok song := by
  have htotal : r'.totalMeasures = r.totalMeasures := by rw [h.rest]
  have hpractice : r'.practice = r.practice := by rw [h.rest]
  have hmanifest (levels : List Difficulty) : manifestOf r' levels = manifestOf r levels := by
    rw [h.rest]
    rfl
  simp only [compile_eq_ok_iff, htotal, hpractice, hmanifest,
    ← tracks_eq_ok_iff_of_rearranged h hr, ← score_eq_ok_iff_of_rearranged h hr,
    ← Battle.compile_eq_ok_iff_of_perm h.battle, ← PartyJump.compile_congr h.partyJumps,
    ← MoveGraph.markBeginner_congr h.beginnerMoves, MoveGraph.build]

/-- A song with two drums that are hit at one time, and with two jumps that meet. -/
def ordered : BuildRequest where
  outputPath := "out"
  libraryRoot := "library"
  song := ⟨"gonow", "", "", 0, 0, 0, "", [], "", none⟩
  totalMeasures := 8
  compression := .none
  moves := .ofList [
    (.easy, [⟨1, "a", "dc1", "gonow", "wave_gonow"⟩, ⟨3, "b", "dc1", "gonow", "clap_gonow"⟩]),
    (.expert, [⟨1, "b", "dc1", "gonow", "clap_gonow"⟩])]
  cameras := .ofList [(.easy, [⟨1, "front"⟩, ⟨5, "close"⟩])]
  practice := .empty
  tempo := [⟨0, 120⟩, ⟨4, 90⟩]
  beginnerMoves := ["wave_gonow", "clap_gonow"]
  drums := [⟨"kick", [0, 1, 2]⟩, ⟨"snare", [0]⟩]
  songEvents := [⟨0, .musicStart⟩, ⟨0.5, .preview⟩]
  partyJumps := [⟨1, .start⟩, ⟨4, .stop⟩, ⟨4, .start⟩, ⟨6, .stop⟩]
  battle := [⟨0, .battleStart⟩, ⟨0, .opens .firstSolo⟩, ⟨3, .closes .firstSolo⟩]
  phraseRepeats := []
  visemes := [⟨1, "smile"⟩, ⟨3, "blink"⟩]

/-- The same song, each list of which is arranged in another way. -/
def shuffled : BuildRequest where
  outputPath := "out"
  libraryRoot := "library"
  song := ⟨"gonow", "", "", 0, 0, 0, "", [], "", none⟩
  totalMeasures := 8
  compression := .none
  moves := .ofList [
    (.easy, [⟨3, "b", "dc1", "gonow", "clap_gonow"⟩, ⟨1, "a", "dc1", "gonow", "wave_gonow"⟩]),
    (.expert, [⟨1, "b", "dc1", "gonow", "clap_gonow"⟩])]
  cameras := .ofList [(.easy, [⟨5, "close"⟩, ⟨1, "front"⟩])]
  practice := .empty
  tempo := [⟨4, 90⟩, ⟨0, 120⟩]
  beginnerMoves := ["clap_gonow", "wave_gonow"]
  drums := [⟨"kick", [2, 0, 1]⟩, ⟨"snare", [0]⟩]
  songEvents := [⟨0.5, .preview⟩, ⟨0, .musicStart⟩]
  partyJumps := [⟨4, .start⟩, ⟨6, .stop⟩, ⟨4, .stop⟩, ⟨1, .start⟩]
  battle := [⟨3, .closes .firstSolo⟩, ⟨0, .opens .firstSolo⟩, ⟨0, .battleStart⟩]
  phraseRepeats := []
  visemes := [⟨3, "blink"⟩, ⟨1, "smile"⟩]

theorem rearranged_shuffled : ordered.Rearranged shuffled where
  moves := .cons ⟨rfl, by decide⟩ (.cons ⟨rfl, by decide⟩ .nil)
  cameras := .cons ⟨rfl, by decide⟩ .nil
  visemes := by decide
  battle := by decide
  partyJumps := by decide
  tempo := .swap ..
  songEvents := .swap ..
  beginnerMoves := by decide
  drums := .cons ⟨rfl, by decide⟩ (.cons ⟨rfl, by decide⟩ .nil)
  rest := rfl

theorem unambiguous_ordered : ordered.Unambiguous where
  moves := by decide
  cameras := by decide
  visemes := by decide
  tempo := by decide
  songEvents := by decide +kernel

theorem compile_ordered : ∃ song, CompiledSong.compile twoClips .default ordered = .ok song := by
  have htempoChanges : ordered.tempoChanges = [⟨0, 120⟩, ⟨4, 90⟩] := if_neg (by decide)
  obtain ⟨tracks, htracks⟩ := Outcome.exists_of_isOk (x := twoClips.tracks ordered) (by decide)
  obtain ⟨battle, hbattle⟩ : ∃ steps, Battle.compile ordered.battle 8 = .ok steps :=
    ⟨_, Battle.compile_eq_ok_iff.2 ⟨by decide, 0, [⟨.firstSolo, ⟨0, 3⟩⟩],
      ⟨by decide, by decide, by decide, by decide, by decide, by decide⟩, by decide, rfl⟩⟩
  have hjumps : PartyJump.compile ordered.partyJumps 8 = .ok [⟨1, 4⟩, ⟨4, 6⟩] :=
    PartyJump.compile_eq_ok_iff.2 ⟨by decide, by decide, by decide⟩
  have htempo : (Timing.tempoPart [⟨0, 120⟩, ⟨4, 90⟩] 4).isOk = true := by
    rw [Timing.tempoPart, List.mergeSort_of_pairwise (by decide)]
    decide +kernel
  have hmarkers : (Timing.markerPart ordered.songEvents).isOk = true := by
    rw [Timing.markerPart, ordered, List.mergeSort_of_pairwise (by decide +kernel)]
    decide +kernel
  obtain ⟨drums, hdrums⟩ :
      ∃ p, Timing.drumPart [⟨"kick", [0, 1, 2]⟩, ⟨"snare", [0]⟩] = .ok p :=
    ⟨⟨"DRUMS", [⟨0, 0, .noteOn 36 100⟩, ⟨0, 0, .noteOn 36 100⟩, ⟨0, 0, .noteOn 38 100⟩,
      ⟨240, 240, .noteOff 36⟩, ⟨240, 0, .noteOff 36⟩, ⟨240, 0, .noteOff 38⟩,
      ⟨480, 240, .noteOn 36 100⟩, ⟨720, 240, .noteOff 36⟩]⟩, by cbv⟩
  obtain ⟨tempo, htempo⟩ := Outcome.exists_of_isOk htempo
  obtain ⟨markers, hmarkers⟩ := Outcome.exists_of_isOk hmarkers
  refine ⟨⟨.mergeAll tracks.moves.toList ordered.beginnerMoves, battle, [⟨1, 4⟩, ⟨4, 6⟩], .empty,
    .empty, tracks.anims, ⟨tempo, markers, drums⟩,
    CompiledSong.manifestOf ordered tracks.levels⟩, ?_⟩
  rw [CompiledSong.compile_eq_ok_iff, htempoChanges, Timing.Score.compile_eq_ok_iff]
  exact ⟨tracks, .empty, htracks, Tracks.build_eq htracks _, hbattle, hjumps, rfl,
    ⟨htempo, hmarkers, hdrums⟩, rfl, rfl, rfl, rfl⟩

theorem CompiledSong.compile_eq_ok_iff_of_rearranged_shuffled :
    ordered.Rearranged shuffled ∧ ordered.Unambiguous ∧
      ∃ song, compile twoClips .default ordered = .ok song ∧
        compile twoClips .default shuffled = .ok song := by
  obtain ⟨song, hsong⟩ := compile_ordered
  exact ⟨rearranged_shuffled, unambiguous_ordered, song, hsong,
    (compile_eq_ok_iff_of_rearranged _ _ rearranged_shuffled unambiguous_ordered song).1 hsong⟩

end SongBundle
