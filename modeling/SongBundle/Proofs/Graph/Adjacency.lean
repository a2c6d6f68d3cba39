import SongBundle.Proofs.Graph

/-!
# Graphs of any tracks

`MoveGraph.ofTracks` adds tracks one after the other: tracks with gaps, several of one level, the
same one twice.  `MoveGraph.Records` says what such a graph holds, and `records_ofTracks` that it
always does.

On a track with gaps two clips are neighbours only where their indices are (`MoveGraph.Adjoins`).
The graph looks one index back and one index ahead from every entry; `exists_clipBefore?_iff_adjoins`
and `exists_nextClip?_iff_adjoins` say that both come to the same.
-/

set_option autoImplicit false

namespace SongBundle.MoveGraph

open Std

/-- The graph that adding tracks one after the other leads to. -/
def ofTracks (tracks : List (Difficulty × Track Move)) : Option MoveGraph :=
  tracks.foldlM (fun g l ↦ g.addTrack l.1 l.2) empty

/-- The clip `x` stands at some index of a track, and the clip `y` at the next one. -/
def Adjoins (t : Track Move) (x y : String) : Prop :=
  ∃ i j : UInt32, j.toNat = i.toNat + 1 ∧ clipAt? t i = some x ∧ clipAt? t j = some y

/-! ## Neighbours on a track -/

section

variable {t : Track Move} {x y : String}

theorem clipAt?_eq_some_iff {i : UInt32} :
    clipAt? t i = some x ↔ ∃ e ∈ t.toList, e.1 = i ∧ e.2.clip = x := by
  rw [clipAt?, Option.map_eq_some_iff]
  constructor
  · rintro ⟨m, hm, hx⟩
    exact ⟨(i, m), Table.get?_eq_some_iff.1 hm, rfl, hx⟩
  · rintro ⟨e, he, rfl, hx⟩
    exact ⟨e.2, Table.get?_eq_some_iff.2 he, hx⟩

theorem clipBefore?_eq_some_iff {j : UInt32} :
    clipBefore? t j = some x ↔ ∃ i : UInt32, j.toNat = i.toNat + 1 ∧ clipAt? t i = some x := by
  rw [clipBefore?]
  split
  · rename_i hzero
    refine iff_of_false (Option.some_ne_none x).symm ?_
    rintro ⟨i, hij, -⟩
    simp [hzero] at hij
  · rename_i hpos
    have hprev (i : UInt32) : j.toNat = i.toNat + 1 ↔ i = j - 1 := by
      rw [← toNat_pred hpos, Nat.add_right_cancel_iff, UInt32.toNat_inj, eq_comm]
    simp only [hprev, exists_eq_left]

/-- Looking back from the second of two neighbours finds the first. -/
theorem exists_clipBefore?_iff_adjoins :
    (∃ e ∈ t.toList, y = e.2.clip ∧ clipBefore? t e.1 = some x) ↔ Adjoins t x y := by
  simp only [clipBefore?_eq_some_iff, Adjoins]
  constructor
  · rintro ⟨e, he, rfl, i, hi, hx⟩
    exact ⟨i, e.1, hi, hx, clipAt?_eq_some_iff.2 ⟨e, he, rfl, rfl⟩⟩
  · rintro ⟨i, j, hij, hx, hy⟩
    obtain ⟨e, he, rfl, rfl⟩ := clipAt?_eq_some_iff.1 hy
    exact ⟨e, he, rfl, i, hij, hx⟩

theorem nextClip?_eq_some_iff {i : UInt32} :
    nextClip? t i = some y ↔ ∃ j : UInt32, j.toNat = i.toNat + 1 ∧ clipAt? t j = some y := by
  rw [nextClip?, Option.bind_eq_some_iff]
  refine exists_congr fun j ↦ and_congr_left fun _ ↦ ?_
  rw [plus?_eq_some_iff]
  exact eq_comm

/-- Looking ahead from the first of two neighbours finds the second. -/
theorem exists_nextClip?_iff_adjoins :
    (∃ e ∈ t.toList, x = e.2.clip ∧ nextClip? t e.1 = some y) ↔ Adjoins t x y := by
  simp only [nextClip?_eq_some_iff, Adjoins]
  constructor
  · rintro ⟨e, he, rfl, j, hj, hy⟩
    exact ⟨e.1, j, hj, clipAt?_eq_some_iff.2 ⟨e, he, rfl, rfl⟩, hy⟩
  · rintro ⟨i, j, hj, hx, hy⟩
    obtain ⟨e, he, rfl, rfl⟩ := clipAt?_eq_some_iff.1 hx
    exact ⟨e, he, rfl, j, hj, hy⟩

theorem Adjoins.mem_values (h : Adjoins t x y) :
    (∃ e ∈ t.toList, x = e.2.clip) ∧ ∃ e ∈ t.toList, y = e.2.clip := by
  obtain ⟨i, j, -, hx, hy⟩ := h
  obtain ⟨e, he, -, hx⟩ := clipAt?_eq_some_iff.1 hx
  obtain ⟨e', he', -, hy⟩ := clipAt?_eq_some_iff.1 hy
  exact ⟨⟨e, he, hx.symm⟩, e', he', hy.symm⟩

end

/-! ## Clips and their keys -/

/-- Every clip stands under its own name. -/
def Labelled (g : MoveGraph) : Prop := ∀ e ∈ g.variants.toList, e.2.clip = e.1

theorem Labelled.visit {g : MoveGraph} (h : g.Labelled) (t : Track Move) (i : UInt32)
    (m : Move) : (visit t g i m).Labelled := by
  rintro ⟨clip, v⟩ he
  have hget := Table.get?_eq_some_iff.2 he
  rw [MoveGraph.visit, MoveGraph.mergeMove, Table.get?_insert_eq] at hget
  split at hget
  · rename_i hclip
    obtain rfl := Option.some.inj hget
    change ((g.variants.get? m.clip).getD (newVariant m)).clip = clip
    cases hv : g.variants.get? m.clip with
    | none => exact hclip.symm
    | some v => exact (h _ (Table.get?_eq_some_iff.1 hv)).trans hclip.symm
  · exact h _ (Table.get?_eq_some_iff.1 hget)

theorem Labelled.merge {g : MoveGraph} (h : g.Labelled) (level : Difficulty)
    (t : Track Move) : (g.merge level t).Labelled :=
  List.foldlRecOn t.toList (fun g e ↦ MoveGraph.visit t g e.1 e.2) (motive := Labelled) h
    fun _ hg e _ ↦ hg.visit t e.1 e.2

theorem labelled_mergeAll (tracks : List (Difficulty × Track Move)) :
    (mergeAll tracks []).Labelled :=
  List.foldlRecOn tracks (fun g l ↦ g.merge l.1 l.2) (motive := Labelled)
    (fun _ h ↦ (nomatch h)) fun _ hg l _ ↦ hg.merge l.1 l.2

/-! ## What a graph holds -/

/-- A graph holds the neighbours, the clips and the orders of play of some tracks and no others. -/
structure Records (g : MoveGraph) (tracks : List (Difficulty × Track Move)) : Prop where
  /-- The neighbours after a clip are those on some track. -/
  follows_iff : ∀ x y, g.Follows x y ↔ ∃ l ∈ tracks, Adjoins l.2 x y
  /-- The neighbours before a clip are those on some track. -/
  precedes_iff : ∀ x y, g.Precedes x y ↔ ∃ l ∈ tracks, Adjoins l.2 x y
  /-- One clip follows another if that one precedes it. -/
  follows_iff_precedes : ∀ x y, g.Follows x y ↔ g.Precedes x y
  /-- Neighbours are clips of the graph. -/
  mem_of_follows : ∀ x y, g.Follows x y → x ∈ g.variants.keys ∧ y ∈ g.variants.keys
  /-- The clips of the graph are those on some track. -/
  mem_variants_iff : ∀ clip, clip ∈ g.variants.keys ↔
    ∃ l ∈ tracks, ∃ m ∈ l.2.values, m.clip = clip
  /-- Every clip stands under its own name. -/
  map_clip_values : g.variants.values.map MoveVariant.clip = g.variants.keys
  /-- No clip is there twice. -/
  nodup_clips : (g.variants.values.map MoveVariant.clip).Nodup
  /-- The order of play of a level is that of the track added last for it. -/
  get?_clipOrder : ∀ level, g.clipOrder.get? level =
    (tracks.reverse.find? (·.1 = level)).map fun l ↦ l.2.values.map Move.clip

theorem records_mergeAll (tracks : List (Difficulty × Track Move)) :
    (mergeAll tracks []).Records tracks := by
  have hfollows (x y : String) :
      (mergeAll tracks []).Follows x y ↔ ∃ l ∈ tracks, Adjoins l.2 x y := by
    rw [(recorded_follows x y).mergeAll]
    exact exists_congr fun l ↦ and_congr_right fun _ ↦ exists_nextClip?_iff_adjoins
  have hprecedes (x y : String) :
      (mergeAll tracks []).Precedes x y ↔ ∃ l ∈ tracks, Adjoins l.2 x y := by
    rw [(recorded_precedes x y).mergeAll]
    exact exists_congr fun l ↦ and_congr_right fun _ ↦ exists_clipBefore?_iff_adjoins
  have hvariants (clip : String) :
      clip ∈ (mergeAll tracks []).variants.keys ↔
        ∃ l ∈ tracks, ∃ e ∈ l.2.toList, clip = e.2.clip := by
    rw [(recorded_variants clip).mergeAll]
  have hclips : (mergeAll tracks []).variants.values.map MoveVariant.clip =
      (mergeAll tracks []).variants.keys := by
    rw [Table.values, Table.keys, List.map_map]
    exact List.map_congr_left (labelled_mergeAll tracks)
  refine ⟨hfollows, hprecedes, fun x y ↦ (hfollows x y).trans (hprecedes x y).symm, ?_, ?_, hclips,
    ?_, fun level ↦ ?_⟩
  · intro x y hxy
    obtain ⟨l, hl, hadjoins⟩ := (hfollows x y).1 hxy
    obtain ⟨hx, hy⟩ := hadjoins.mem_values
    exact ⟨(hvariants x).2 ⟨l, hl, hx⟩, (hvariants y).2 ⟨l, hl, hy⟩⟩
  · intro clip
    rw [hvariants]
    refine exists_congr fun l ↦ and_congr_right fun _ ↦ ?_
    constructor
    · rintro ⟨e, he, rfl⟩
      exact ⟨e.2, List.mem_map_of_mem he, rfl⟩
    · rintro ⟨m, hm, rfl⟩
      obtain ⟨e, he, rfl⟩ := List.mem_map.1 hm
      exact ⟨e, he, rfl⟩
  · rw [hclips]
    exact (mergeAll tracks []).variants.pairwise_keys.imp fun hlt heq ↦ by simp [heq] at hlt
  · rw [clipOrder_mergeAll, Table.ofList, Table.get?_insertAll, Table.get?_empty,
      Option.or_none, ← List.map_reverse, List.find?_map, Option.map_map]
    simp only [Function.comp_def, eq_comm]

/-- **A graph records exactly what its tracks have side by side**, for tracks that do not reach the
greatest index. -/
theorem records_ofTracks {tracks : List (Difficulty × Track Move)}
    (h : ∀ l ∈ tracks, ∀ i ∈ l.2.entries.keys, i.toNat + 1 < UInt32.size) :
    ∃ g, ofTracks tracks = some g ∧ g.Records tracks := by
  have hbuild : build tracks [] = ofTracks tracks := bind_pure _
  exact ⟨mergeAll tracks [], hbuild ▸ build_eq_some_iff.2 ⟨h, rfl⟩, records_mergeAll tracks⟩

/-- A move that plays a clip. -/
def playing (clip : String) : Move :=
  ⟨1, clip, ⟨"dc1", "gonow", clip⟩, clip, clip, "gonow", "pop", "00s", [], 120, 0⟩

/-- Three tracks, two of them of one level: `a` is played twice in a row, `b` only after a gap, and
on the last track `b` is followed by `a`. -/
def gappedTracks : List (Difficulty × Track Move) :=
  [(.easy, ⟨.ofList [(0, playing "a"), (1, playing "a"), (3, playing "b")]⟩),
    (.medium, ⟨.ofList [(7, playing "c")]⟩),
    (.easy, ⟨.ofList [(5, playing "b"), (6, playing "a")]⟩)]

theorem records_ofTracks_gapped :
    (∀ l ∈ gappedTracks, ∀ i ∈ l.2.entries.keys, i.toNat + 1 < UInt32.size) ∧
      ∃ g, ofTracks gappedTracks = some g ∧ g.Records gappedTracks := by
  have hkeys : gappedTracks.map (fun l ↦ l.2.entries.keys) = [[0, 1, 3], [7], [5, 6]] := rfl
  have h : ∀ l ∈ gappedTracks, ∀ i ∈ l.2.entries.keys, i.toNat + 1 < UInt32.size := by
    intro l hl i hi
    have hmem : l.2.entries.keys ∈ [[0, 1, 3], [7], [5, 6]] := hkeys ▸ List.mem_map_of_mem hl
    have hle : i ≤ 7 := by grind
    calc
      i.toNat + 1 ≤ 7 + 1 := Nat.succ_le_succ (UInt32.le_iff_toNat_le.1 hle)
      _ < UInt32.size := by simp [UInt32.size]
  exact ⟨h, records_ofTracks h⟩

end SongBundle.MoveGraph
