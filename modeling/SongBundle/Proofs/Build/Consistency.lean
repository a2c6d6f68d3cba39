import SongBundle.Proofs.Animation
import SongBundle.Proofs.Battle.Nesting
import SongBundle.Proofs.Build.Importing
import SongBundle.Proofs.Graph

/-!
# The parts of a compiled song agree

The graph, the keyframes and the manifest of a song are made separately from the same tracks.
`CompiledSong.Consistent` says in what they agree with each other and with the request, and
`compile_consistent` says that they always do.

The moves of every level are a track without gaps, since the gaps were filled before the library was
asked (`gapless_of_moveTrack`), and that is what ties positions, measures and neighbours together.
-/

set_option autoImplicit false

namespace SongBundle

open Std

/-- The parts of a song agree with each other and with the request that the song was made from. -/
structure CompiledSong.Consistent (song : CompiledSong) (r : BuildRequest) : Prop where
  /-- The levels with an order of play are those with moves. -/
  keys_clipOrder : song.graph.clipOrder.keys = r.moves.keys
  /-- A level plays a clip at every measure up to the greatest one with a move. -/
  length_order : ∀ level events order, r.moves.get? level = some events →
    song.graph.clipOrder.get? level = some order →
      (events.map (·.measure.toNat)).max? = some order.length
  /-- The neighbours after a clip are those that come after it in some order of play. -/
  follows : ∀ x y, song.graph.Follows x y ↔ song.graph.Consecutive x y
  /-- The neighbours before a clip are those that come before it in some order of play. -/
  precedes : ∀ x y, song.graph.Precedes x y ↔ song.graph.Consecutive x y
  /-- The clips of the graph are those that some level plays. -/
  mem_variants : ∀ clip, clip ∈ song.graph.variants.keys ↔
    ∃ level order, song.graph.clipOrder.get? level = some order ∧ clip ∈ order
  /-- The keyframes of a level show its clips in the order of play, each with its move. -/
  anims : ∀ level order, song.graph.clipOrder.get? level = some order →
    ∃ a, song.anims.get? level = some a ∧
      a.clips.map (fun k ↦ (k.time.toInt, k.value)) =
        order.mapIdx (fun i clip ↦ (((i : Int) - 1) * 60, clip)) ∧
      List.Forall₂ (fun move clip ↦ song.graph.Gathers move.value clip) a.moves order
  ascending : song.manifest.difficulties.Pairwise fun a b ↦ compare a b = .lt
  /-- The levels of the song are those with keyframes. -/
  difficulties_eq : song.manifest.difficulties = song.anims.keys
  /-- The levels of the song are those with moves or cameras. -/
  mem_difficulties : ∀ level, level ∈ song.manifest.difficulties ↔
    level ∈ r.moves.keys ∨ level ∈ r.cameras.keys

variable {library : Library} {c : BuildConfig} {r : BuildRequest}

/-! ## Tracks of moves -/

/-- The moves of a level fill the measures up to the greatest one listed. -/
theorem gapless_of_moveTrack {level : Difficulty} {events : List MoveEvent} {t : Track Move}
    (h : library.moveTrack level events = .ok t) :
    t.Gapless ∧ (events.map (·.measure.toNat)).max? = some t.values.length := by
  obtain ⟨u, hu, hmoves⟩ := moveTrack_eq_ok_iff.1 h
  obtain ⟨last, hkeys, hmax⟩ := keys_of_densifyMoves hu
  have hkeys' : t.entries.keys = Track.span 0 last :=
    (Table.forall₂_keys hmoves).trans hkeys
  have hlength : t.values.length = last.toNat + 1 := by
    rw [show t.values = t.entries.entries.map Prod.snd from rfl, List.length_map,
      ← List.length_map (f := Prod.fst), show t.entries.entries.map Prod.fst = _ from hkeys',
      Track.length_span]
    rfl
  obtain ⟨e, -, he⟩ := List.mem_map.1 (List.max?_eq_some_iff.1 hmax).1
  exact ⟨Track.gapless_of_keys hkeys' (he ▸ e.measure.toNat_lt), hlength ▸ hmax⟩

namespace Tracks

variable {t : Tracks}

theorem keys_moves (h : library.tracks r = .ok t) : t.moves.keys = r.moves.keys :=
  Table.forall₂_keys (Table.mapEntriesM_eq_ok_iff.1 (tracks_eq_ok_iff.1 h).1)

theorem keys_cameras (h : library.tracks r = .ok t) : t.cameras.keys = r.cameras.keys :=
  Table.forall₂_keys (Table.mapEntriesM_eq_ok_iff.1 (tracks_eq_ok_iff.1 h).2.1)

theorem gapless_moves (h : library.tracks r = .ok t) : ∀ l ∈ t.moves.toList, l.2.Gapless :=
  forall_mem_of_forall₂ ((Table.mapEntriesM_eq_ok_iff.1 (tracks_eq_ok_iff.1 h).1).imp
    fun _ _ ⟨_, hmoves⟩ ↦ (gapless_of_moveTrack hmoves).1)

/-- The graph of a song can always be made, since no track reaches the greatest index. -/
theorem build_eq (h : library.tracks r = .ok t) (beginnerMoves : List String) :
    MoveGraph.build t.moves.toList beginnerMoves =
      some (.mergeAll t.moves.toList beginnerMoves) :=
  MoveGraph.build_eq_some_iff.2 ⟨fun l hl ↦ (gapless_moves h l hl).bounded, rfl⟩

/-! ## Levels -/

theorem pairwise_levels (t : Tracks) : t.levels.Pairwise fun a b ↦ compare a b = .lt :=
  List.Pairwise.filter _ (by decide)

theorem mem_levels {level : Difficulty} :
    level ∈ t.levels ↔ level ∈ t.moves.keys ∨ level ∈ t.cameras.keys := by
  have hall : level ∈ (Named.all : List Difficulty) := by cases level <;> decide
  rw [levels, List.mem_filter, Bool.or_eq_true, Table.contains_iff, Table.contains_iff]
  exact and_iff_right hall

theorem toList_anims (t : Tracks) :
    t.anims.toList = t.levels.map fun level ↦ (level, t.anim level) :=
  Table.toList_ofList (List.pairwise_map.2 t.pairwise_levels)

theorem keys_anims (t : Tracks) : t.anims.keys = t.levels := by
  rw [show t.anims.keys = t.anims.toList.map Prod.fst from rfl, toList_anims, List.map_map]
  exact List.map_id _

theorem get?_anims {level : Difficulty} (h : level ∈ t.levels) :
    t.anims.get? level = some (t.anim level) := by
  rw [Table.get?_eq_some_iff, toList_anims]
  exact List.mem_map.2 ⟨level, h, rfl⟩

end Tracks

/-! ## The order of play -/

section

variable {tracks : Tracks} {beginnerMoves : List String} {level : Difficulty}
variable {order : List String}

/-- The order of play of a level ends at its greatest measure. -/
theorem max?_eq_length_order (h : library.tracks r = .ok tracks)
    (horder : (MoveGraph.mergeAll tracks.moves.toList beginnerMoves).clipOrder.get? level = some order)
    {events : List MoveEvent} (hevents : r.moves.get? level = some events) :
    (events.map (·.measure.toNat)).max? = some order.length := by
  have hmoves := Table.mapEntriesM_eq_ok_iff.1 (tracks_eq_ok_iff.1 h).1
  obtain ⟨t, ht, hcompiled⟩ := Table.exists_get?_of_forall₂ hmoves hevents
  obtain ⟨t', ht', rfl⟩ := MoveGraph.get?_clipOrder_mergeAll_iff.1 horder
  obtain rfl : t = t' := by
    rw [← Table.get?_eq_some_iff, ht, Option.some.injEq] at ht'
    exact ht'
  rw [List.length_map]
  exact (gapless_of_moveTrack hcompiled).2

/-- The keyframes of a level show its order of play, and every clip stands beside its move. -/
theorem anim_of_order (h : library.tracks r = .ok tracks)
    (horder : (MoveGraph.mergeAll tracks.moves.toList beginnerMoves).clipOrder.get? level =
      some order) :
    tracks.anims.get? level = some (tracks.anim level) ∧
      (tracks.anim level).clips.map (fun k ↦ (k.time.toInt, k.value)) =
        order.mapIdx (fun i clip ↦ (((i : Int) - 1) * 60, clip)) ∧
      List.Forall₂
        (fun move clip ↦
          (MoveGraph.mergeAll tracks.moves.toList beginnerMoves).Gathers move.value clip)
        (tracks.anim level).moves order := by
  obtain ⟨t, hmem, rfl⟩ := MoveGraph.get?_clipOrder_mergeAll_iff.1 horder
  have ht : tracks.moves.get? level = some t := Table.get?_eq_some_iff.2 hmem
  have hlevel : level ∈ tracks.levels :=
    Tracks.mem_levels.2 (.inl (Table.mem_keys_iff.2 ⟨t, ht⟩))
  have hclips : (tracks.anim level).clips = keyframes Move.clip t := by
    rw [Tracks.anim, ht]
    rfl
  have hmoves : (tracks.anim level).moves = keyframes Move.name t := by
    rw [Tracks.anim, ht]
    rfl
  refine ⟨Tracks.get?_anims hlevel, ?_, ?_⟩
  · rw [hclips]
    exact keyframes_of_gapless Move.clip (Tracks.gapless_moves h _ hmem)
  · rw [hmoves, keyframes, show t.values = t.toList.map Prod.snd from rfl, List.map_map,
      List.forall₂_map_left_iff, List.forall₂_map_right_iff, List.forall₂_same]
    intro e he
    exact ((MoveGraph.recorded_gathers _ _).mergeAll _ _).2 ⟨_, hmem, e, he, rfl, rfl⟩

end

/-! ## The whole song -/

/-- **The parts of a compiled song agree with each other and with the request.** -/
theorem CompiledSong.compile_consistent {song : CompiledSong}
    (h : compile library c r = .ok song) : song.Consistent r := by
  obtain ⟨tracks, -, htracks, hbuild, -, -, -, -, -, -, hanims, hmanifest⟩ := compile_eq_ok_iff.1 h
  have hgraph : song.graph = .mergeAll tracks.moves.toList r.beginnerMoves :=
    Option.some.inj (hbuild.symm.trans (Tracks.build_eq htracks r.beginnerMoves))
  have hgapless := Tracks.gapless_moves htracks
  have hdifficulties : song.manifest.difficulties = tracks.levels := hmanifest ▸ rfl
  constructor
  case keys_clipOrder =>
    rw [hgraph, MoveGraph.clipOrder_mergeAll_toList, Table.keys_map]
    exact Tracks.keys_moves htracks
  case length_order =>
    intro level events order hevents horder
    rw [hgraph] at horder
    exact max?_eq_length_order htracks horder hevents
  case follows =>
    intro x y
    rw [hgraph]
    exact MoveGraph.follows_mergeAll_iff_consecutive hgapless
  case precedes =>
    intro x y
    rw [hgraph]
    exact MoveGraph.precedes_mergeAll_iff_consecutive hgapless
  case mem_variants =>
    intro clip
    rw [hgraph]
    exact MoveGraph.mem_variants_mergeAll_iff
  case anims =>
    intro level order horder
    rw [hgraph] at horder
    rw [hgraph, hanims]
    exact ⟨_, anim_of_order htracks horder⟩
  case ascending =>
    rw [hdifficulties]
    exact tracks.pairwise_levels
  case difficulties_eq => rw [hdifficulties, hanims, tracks.keys_anims]
  case mem_difficulties =>
    intro level
    rw [hdifficulties, Tracks.mem_levels, Tracks.keys_moves htracks, Tracks.keys_cameras htracks]

/-- A library whose moves all have the clips `a` and `b`. -/
def twoClips : Library where
  loadMove k := .ok ⟨k.name, [], k.name, k.song, 0, 0, [],
    .ofList [("a", ⟨"", "", 0, []⟩), ("b", ⟨"", "", 0, []⟩)]⟩
  loadSequence k := .error (Library.noMove k.text k)

/-- A song that plays the clip `a` twice in a row at one level and after `b` at another. -/
def twoLevels : BuildRequest where
  outputPath := "out"
  libraryRoot := "library"
  song := ⟨"gonow", "", "", 0, 0, 0, "", [], "", none⟩
  totalMeasures := 8
  compression := .none
  moves := .ofList [
    (.easy, [⟨3, "b", "dc1", "gonow", "clap_gonow"⟩, ⟨1, "a", "dc1", "gonow", "wave_gonow"⟩]),
    (.expert, [⟨1, "b", "dc1", "gonow", "clap_gonow"⟩, ⟨2, "a", "dc1", "gonow", "wave_gonow"⟩])]
  cameras := .ofList [(.medium, [⟨1, "front"⟩])]
  practice := .empty
  tempo := []
  beginnerMoves := ["wave_gonow"]
  drums := []
  songEvents := []
  partyJumps := []
  battle := [⟨0, .battleStart⟩]
  phraseRepeats := []
  visemes := []

theorem CompiledSong.compile_consistent_twoLevels :
    ∃ song, compile twoClips .default twoLevels = .ok song ∧
      song.Consistent twoLevels := by
  have htempo : twoLevels.tempoChanges = [] := if_neg (by decide)
  obtain ⟨tracks, htracks⟩ := Outcome.exists_of_isOk (x := twoClips.tracks twoLevels) (by decide)
  obtain ⟨battle, hbattle⟩ : ∃ steps, Battle.compile [⟨0, .battleStart⟩] 8 = .ok steps :=
    ⟨_, Battle.compile_eq_ok_iff.2 ⟨by decide, 0, [], Battle.nested_nil (by decide), .refl _, rfl⟩⟩
  have hjumps : PartyJump.compile [] 8 = .ok [] := by
    rw [PartyJump.compile, List.mergeSort_nil]
    rfl
  obtain ⟨timing, htiming⟩ : ∃ s, Timing.Score.compile [] [] [] 4 = .ok s := by
    simp only [Timing.Score.compile, Timing.tempoPart, Timing.markerPart, Timing.drumPart,
      List.mergeSort_nil, List.mapM_nil, pure_bind, List.flatten_nil, List.map_nil]
    exact ⟨_, rfl⟩
  have hsong : compile twoClips .default twoLevels =
      .ok ⟨.mergeAll tracks.moves.toList ["wave_gonow"], battle, [], .empty, .empty, tracks.anims,
        timing, manifestOf twoLevels tracks.levels⟩ := by
    rw [compile_eq_ok_iff, htempo]
    exact ⟨tracks, .empty, htracks, Tracks.build_eq htracks _, hbattle, hjumps, rfl, htiming, rfl, rfl,
      rfl, rfl⟩
  exact ⟨_, hsong, compile_consistent hsong⟩

end SongBundle
