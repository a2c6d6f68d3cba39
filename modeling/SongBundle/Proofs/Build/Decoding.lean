import SongBundle.Proofs.Build.Committing
import SongBundle.Proofs.Build.Naming
import SongBundle.Proofs.Json.RoundTrip

/-!
# What is packaged can be decoded

Every type that a bundle holds has a decoder that finds again what was written
(`MoveGraph.reads`, `Practice.Plan.reads`, `AnimEvents.reads` and their companions), and no two parts
of a song are written under one name (`CompiledSong.nodup_storedNames`).  So the entries of a bundle
decode to the parts of the song that was packaged (`CompiledSong.decodes_of_package`).
-/

set_option autoImplicit false

namespace SongBundle

open Json (Decoder)
open Json.Decoder Json.Record EntryName

/-! ## The types of a bundle -/

theorem MoveVariant.reads (v : MoveVariant) : Reads decoder v.toJson v :=
  ((fills_required "clip" (reads_text v.clip)).map MoveVariant.mk
    |>.required "parent" (reads_text v.parent) (by simp)
    |>.required "prev" (reads_names v.before) (by simp)
    |>.required "next" (reads_names v.after) (by simp)
    |>.required "genre" (reads_text v.genre) (by simp)
    |>.required "era" (reads_text v.era) (by simp)
    |>.required "links" (reads_list fun link _ ↦ reads_text link) (by simp)
    |>.required "flags" (reads_u32 v.flags) (by simp)).reads "MoveVariant"

theorem MoveParent.reads (p : MoveParent) : Reads decoder p.toJson p :=
  ((fills_required "name" (reads_text p.name)).map MoveParent.mk
    |>.required "display_name" (reads_text p.displayName) (by simp)
    |>.required "song_name" (reads_text p.songName) (by simp)
    |>.required "variants" (reads_names p.variants) (by simp)
    |>.required "genres" (reads_names p.genres) (by simp)
    |>.required "eras" (reads_names p.eras) (by simp)
    |>.required "beginner" (reads_bool p.beginner) (by simp)).reads "MoveParent"

/-- The key of a member is read by its name. -/
theorem Difficulty.key_escape (level : Difficulty) :
    Named.key (Json.escape level.text) = .ok level := by
  rw [Named.key, lexeme_escape]
  cases level <;> rfl

theorem MoveGraph.reads (g : MoveGraph) : Reads decoder g.toJson g :=
  ((fills_required "parents"
      (reads_table lexeme_escape fun e _ ↦ e.2.reads)).map MoveGraph.mk
    |>.required "variants" (reads_table lexeme_escape fun e _ ↦ e.2.reads) (by simp)
    |>.required "clip_order" (reads_table Difficulty.key_escape
      fun e _ ↦ reads_list fun clip _ ↦ reads_text clip) (by simp)).reads "MoveGraph"

theorem MeasureRange.reads (r : MeasureRange) : Reads decoder r.toJson r :=
  ((fills_required "start" (reads_u32 r.first)).map MeasureRange.mk
    |>.required "end" (reads_u32 r.last) (by simp)).reads "MeasureRange"

theorem Battle.Step.reads (s : Step) : Reads Step.decoder s.toJson s :=
  ((fills_required "players" (reads_named (by cases s.players <;> rfl))).map Step.mk
    |>.required "music_range" s.music.reads (by simp)
    |>.nullable "play_range" (reads_option fun r _ ↦ ⟨r.reads, nofun⟩) (by simp)
    |>.required "camera" (reads_named (by cases s.camera <;> rfl)) (by simp)
    |>.required "nonplay_action" (reads_named (by cases s.pastime <;> rfl)) (by simp)
    |>.required "state" (reads_named (by cases s.mode <;> rfl)) (by simp)).reads "BattleStep"

theorem PartyJump.Interval.reads (i : Interval) : Reads Interval.decoder i.toJson i :=
  ((fills_required "start" (reads_u32 i.first)).map Interval.mk
    |>.required "end" (reads_u32 i.last) (by simp)).reads "PartyJumpInterval"

theorem Practice.Step.reads (s : Step) : Reads Step.decoder s.toJson s :=
  ((fills_required "type" (reads_named (by cases s.kind <;> rfl))).map Step.mk
    |>.required "start" (reads_text s.first) (by simp)
    |>.required "end" (reads_text s.next) (by simp)
    |>.required "boundary" (reads_bool s.crosses) (by simp)
    |>.required "measure" (reads_u32 s.measure) (by simp)).reads "PracticeStep"

theorem Practice.Section.reads {s : Section} (h : s.index < UInt64.size) :
    Reads Section.decoder s.toJson s :=
  ((fills_required "index" (reads_position h)).map Section.mk
    |>.required "steps" (reads_list fun step _ ↦ step.reads) (by simp)).reads "PracticeSection"

theorem Practice.SongRef.reads (r : SongRef) : Reads SongRef.decoder r.toJson r :=
  ((fills_required "origin" (reads_text r.origin)).map SongRef.mk
    |>.required "song" (reads_text r.song) (by simp)).reads "SongRef"

theorem Practice.Plan.reads {p : Plan} (h : ∀ s ∈ p.sections, s.index < UInt64.size) :
    Reads decoder p.toJson p :=
  ((fills_required "sections" (reads_list fun s hs ↦ Section.reads (h s hs))).map Plan.mk
    |>.required "song_names" (reads_table lexeme_escape fun e _ ↦ e.2.reads)
      (by simp)).reads "PracticePlan"

theorem Keyframe.reads (k : Keyframe) : Reads decoder k.toJson k :=
  ((fills_required "time" (reads_i64 k.time)).map Keyframe.mk
    |>.required "value" (reads_text k.value) (by simp)).reads "Keyframe"

theorem AnimEvents.reads (a : AnimEvents) : Reads decoder a.toJson a :=
  ((fills_required "clips" (reads_list fun k _ ↦ k.reads)).map AnimEvents.mk
    |>.required "moves" (reads_list fun k _ ↦ k.reads) (by simp)
    |>.required "cameras" (reads_list fun k _ ↦ k.reads) (by simp)
    |>.required "expressions" (reads_list fun k _ ↦ k.reads) (by simp)).reads "AnimEvents"

/-! ## Decoding a bundle -/

/-- The entry of a store under a name holds a value, as a decoder reads it. -/
def AssetStore.Holds {α : Type} (s : AssetStore) (name : String) (value : Decoder α) (a : α) :
    Prop :=
  ∃ bytes, s.read? name = some bytes ∧ Library.decodeBytes value bytes = .ok a

theorem decodeBytes_toUTF8 {α : Type} (value : Decoder α) (text : String) :
    Library.decodeBytes value text.toUTF8 = (Json.decode value text).mapError .json := by
  have htext : String.fromUTF8? text.toUTF8 = some text := dif_pos text.isValidUTF8
  rw [Library.decodeBytes, htext]

theorem AssetStore.holds_of_reads {α : Type} {s : AssetStore} {name : String} {j : Json}
    {value : Decoder α} {a : α} (h : s.read? name = some j.pretty.toUTF8)
    (hreads : Reads value j a) : s.Holds name value a := by
  refine ⟨_, h, ?_⟩
  rw [decodeBytes_toUTF8, Outcome.mapError_eq_ok_iff]
  exact hreads.decode

namespace CompiledSong

/-- The entries of a store decode to the graph of a song, its battle, its jumps and, for each level,
its plan and its keyframes. -/
structure Decodes (s : CompiledSong) (bundle : AssetStore) : Prop where
  graph : bundle.Holds "moves/graph.json" MoveGraph.decoder s.graph
  battle : bundle.Holds "battle/steps.json" (Decoder.list Battle.Step.decoder) s.battle
  partyJumps :
    bundle.Holds "partyjump/intervals.json" (Decoder.list PartyJump.Interval.decoder) s.partyJumps
  practice : ∀ e ∈ s.practice.toList,
    bundle.Holds (levelEntry "practice" e.1) Practice.Plan.decoder e.2
  anims : ∀ e ∈ s.anims.toList, bundle.Holds (levelEntry "anims" e.1) AnimEvents.decoder e.2

/-- Whether every section of a practice has an index that 64 bits hold.  A section is counted among
the sections of a list, so no machine has one that does not. -/
def IndexesFit (s : CompiledSong) : Prop :=
  ∀ e ∈ s.practice.toList, ∀ part ∈ e.2.sections, part.index < UInt64.size

/-- **What was packaged is decoded again.**  Whatever strings, measures and times a song holds, the
entries of its bundle decode to its parts. -/
theorem decodes_of_package {s : CompiledSong} {template : AssetStore} {o : BuildOutput}
    (h : s.package template = .ok o) (hfit : s.IndexesFit) : s.Decodes o.bundle := by
  have hholds {α : Type} {name : String} {j : Json} {value : Decoder α} {a : α}
      (he : (name, j) ∈ s.plainEntries) (hreads : Reads value j a) : o.bundle.Holds name value a :=
    AssetStore.holds_of_reads (read?_of_mem_plainEntries h he) hreads
  refine ⟨?_, ?_, ?_, fun e he ↦ ?_, fun e he ↦ ?_⟩
  · exact hholds (by simp [plainEntries]) s.graph.reads
  · exact hholds (by simp [plainEntries]) (reads_list fun step _ ↦ step.reads)
  · exact hholds (by simp [plainEntries]) (reads_list fun i _ ↦ i.reads)
  · refine hholds ?_ (Practice.Plan.reads (hfit e he))
    simp only [plainEntries, List.mem_append, List.mem_map]
    exact .inl (.inl (.inr ⟨e, he, rfl⟩))
  · refine hholds ?_ e.2.reads
    simp only [plainEntries, List.mem_append, List.mem_map]
    exact .inl (.inr ⟨e, he, rfl⟩)

/-- A song with quotes, a backslash, control characters and the greatest and least numbers. -/
def awkward : CompiledSong where
  graph :=
    ⟨.ofList [("\"hop\"",
        ⟨"\"hop\"", "hop\nand hop", "a\\b", .ofList ["é\x01"], .empty, .empty, true⟩)],
      .ofList [("é\x01", ⟨"é\x01", "\"hop\"", .empty, .empty, "", "", ["\t"], 4294967295⟩)],
      .ofList [(.easy, ["é\x01"])]⟩
  battle := [⟨.both, ⟨0, 4⟩, none, .normal, .none, .normal⟩,
    ⟨.first, ⟨5, 4294967295⟩, some ⟨5, 4294967295⟩, .firstSolo, .watch, .solo⟩]
  partyJumps := [⟨0, 4294967295⟩]
  practice := .ofList [(.easy, ⟨[⟨0, [⟨.review, "\"", "\\", true, 1⟩]⟩, ⟨1, []⟩], .empty⟩)]
  sequences := .ofList [(.expert, [⟨"\"", .default, []⟩])]
  anims := .ofList [(.easy, ⟨[⟨Int64.minValue, "é\x01"⟩], [], [⟨-60, ""⟩], []⟩)]
  timing := ⟨⟨"tempo", []⟩, ⟨"markers", []⟩, ⟨"drums", []⟩⟩
  manifest := manifestOf .bare [.easy]

theorem decodes_of_package_awkward :
    ∃ o, awkward.package (.withContainers AssetStore.requiredContainers) = .ok o ∧
      awkward.IndexesFit ∧ awkward.Decodes o.bundle := by
  have hnames : ∀ name ∈ awkward.entries.map (·.1),
      (AssetStore.withContainers AssetStore.requiredContainers).takes name = true := by
    have hentries : awkward.entries.map (·.1) = ["moves/graph.json", "battle/steps.json",
        "partyjump/intervals.json", "practice/easy.json",
        "sequences/expert/000_\".json", "anims/easy.json", "song/manifest.json"] := rfl
    rw [hentries]
    decide
  have hfit : awkward.IndexesFit := by
    intro e he part hpart
    obtain rfl := List.mem_singleton.1 he
    have hindexes : ∀ n ∈ [0, 1], n < UInt64.size := by decide
    exact hindexes _ (List.mem_map_of_mem hpart)
  obtain ⟨o, ho⟩ := exists_package_iff.2 ⟨by decide, List.forall_mem_map.1 hnames⟩
  exact ⟨o, ho, hfit, decodes_of_package ho hfit⟩

end CompiledSong

end SongBundle
