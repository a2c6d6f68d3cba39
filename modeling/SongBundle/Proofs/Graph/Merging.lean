import SongBundle.Proofs.Graph.Adjacency
import SongBundle.Proofs.Track.Filling

/-!
# The end of the indices

The graph looks one index back and one index ahead from every entry of a track.  Looking back stops
at the least index, where nothing is found.  Looking ahead does not stop at the greatest one: there
the program ends, so a track that reaches so far cannot be merged, whatever else is on it.

* `follows_merge_iff` and `precedes_merge_iff` are the neighbours after merging a track.
* `merges_addTrack` says which tracks can be merged and what merging them comes to.
* `exists_unmergeable` are tracks that can be read and filled, but not merged.
-/

set_option autoImplicit false

namespace SongBundle

/-- The greatest index is the only one that none comes after. -/
theorem Track.bounded_iff {α : Type} {t : Track α} : t.Bounded ↔ t.get? 4294967295 = none := by
  have hend : t.get? 4294967295 = none ↔ 4294967295 ∉ t.entries.keys := by
    rw [Table.mem_keys_iff, ← Option.isSome_iff_exists, Option.not_isSome_iff_eq_none]
    exact .rfl
  rw [hend, Track.Bounded]
  simp only [toNat_succ_lt_size_iff]
  exact ⟨fun h hmem ↦ h _ hmem rfl, fun h i hi heq ↦ h (heq ▸ hi)⟩

/-- A filled track has an entry at the greatest index if one is listed there. -/
theorem Track.Filled.get?_max_eq_none_iff {α : Type} {t : Track α} {start : UInt32}
    {sparse : List (UInt32 × α)} (h : t.Filled start sparse) :
    t.get? 4294967295 = none ↔ ∀ e ∈ sparse, e.1 ≠ 4294967295 := by
  obtain ⟨last, hlast, hreach⟩ := h.reach
  have hmax (i : UInt32) : i ≤ 4294967295 :=
    UInt32.le_iff_toNat_le.2 (Nat.le_of_lt_succ i.toNat_lt)
  rw [← Option.not_isSome_iff_eq_none, hreach]
  constructor
  · intro h e he heq
    exact h ⟨hmax start, heq ▸ hlast.le e he⟩
  · rintro h ⟨-, hle⟩
    obtain ⟨e, he, rfl⟩ := hlast.listed
    exact h e he (UInt32.le_antisymm (hmax e.1) hle)

namespace MoveGraph

/-! ## Merging an entry and a track -/

section

variable {g : MoveGraph} {level : Difficulty} {t : Track Move} {x y : String}

theorem follows_visit_iff {i : UInt32} {m : Move} :
    (visit t g i m).Follows x y ↔ g.Follows x y ∨
      x = m.clip ∧ ∃ j : UInt32, j.toNat = i.toNat + 1 ∧ clipAt? t j = some y := by
  rw [(recorded_follows x y).visit, nextClip?_eq_some_iff]

theorem precedes_visit_iff {i : UInt32} {m : Move} :
    (visit t g i m).Precedes x y ↔ g.Precedes x y ∨
      y = m.clip ∧ ∃ j : UInt32, i.toNat = j.toNat + 1 ∧ clipAt? t j = some x := by
  rw [(recorded_precedes x y).visit, clipBefore?_eq_some_iff]

/-- Merging a track adds the neighbours that it has side by side. -/
theorem follows_merge_iff :
    (g.merge level t).Follows x y ↔ g.Follows x y ∨ Adjoins t x y := by
  rw [(recorded_follows x y).merge]
  exact or_congr_right exists_nextClip?_iff_adjoins

theorem precedes_merge_iff :
    (g.merge level t).Precedes x y ↔ g.Precedes x y ∨ Adjoins t x y := by
  rw [(recorded_precedes x y).merge]
  exact or_congr_right exists_clipBefore?_iff_adjoins

/-- No clip stands after the last entry of a track. -/
theorem not_exists_next_of_lastIndex? {last : UInt32} (h : t.lastIndex? = some last) :
    ¬∃ j : UInt32, j.toNat = last.toNat + 1 ∧ clipAt? t j = some y := by
  rintro ⟨j, hj, hclip⟩
  obtain ⟨e, he, rfl, -⟩ := clipAt?_eq_some_iff.1 hclip
  have hmax := (Table.lastKey?_eq_some_iff.1 h).2 e.1 (List.mem_map_of_mem (f := Prod.fst) he)
  rw [ne_eq, Std.compare_eq_gt, UInt32.not_lt, UInt32.le_iff_toNat_le] at hmax
  omega

end

/-! ## Which tracks can be merged -/

/-- What merging a track into a graph comes to. -/
structure Merges (g : MoveGraph) (level : Difficulty) (t : Track Move) : Prop where
  /-- A track can be merged if it has no entry at the greatest index. -/
  exists_iff : (∃ g', g.addTrack level t = some g') ↔ t.get? 4294967295 = none
  /-- For a filled track this means that nothing is listed there. -/
  get?_max_iff : ∀ start sparse, Track.densify start sparse = .ok t →
    (t.get? 4294967295 = none ↔ ∀ e ∈ sparse, e.1 ≠ 4294967295)
  /-- An entry at the greatest index cannot be merged into any graph. -/
  addMove_max : ∀ g' m, addMove t g' 4294967295 m = none
  /-- Every other entry can.  Its clip is followed by the clip at the next index and preceded by the
  one at the index before, if the track has them. -/
  addMove_of_ne : ∀ i ≠ 4294967295, ∀ g' m, ∃ g'', addMove t g' i m = some g'' ∧
    (∀ x y, g''.Follows x y ↔ g'.Follows x y ∨
      x = m.clip ∧ ∃ j : UInt32, j.toNat = i.toNat + 1 ∧ clipAt? t j = some y) ∧
    ∀ x y, g''.Precedes x y ↔ g'.Precedes x y ∨
      y = m.clip ∧ ∃ j : UInt32, i.toNat = j.toNat + 1 ∧ clipAt? t j = some x
  /-- The last entry brings no neighbour after its clip. -/
  follows_last_iff : ∀ last, t.lastIndex? = some last → ∀ g' m g'',
    addMove t g' last m = some g'' → ∀ x y, g''.Follows x y ↔ g'.Follows x y
  /-- The neighbours after a clip are those that it had and those on the track. -/
  follows_iff : ∀ g', g.addTrack level t = some g' →
    ∀ x y, g'.Follows x y ↔ g.Follows x y ∨ Adjoins t x y
  /-- The neighbours before a clip are those that it had and those on the track. -/
  precedes_iff : ∀ g', g.addTrack level t = some g' →
    ∀ x y, g'.Precedes x y ↔ g.Precedes x y ∨ Adjoins t x y
  /-- What follows and what precedes stay converse to each other. -/
  converse : (∀ x y, g.Follows x y ↔ g.Precedes x y) → ∀ g', g.addTrack level t = some g' →
    ∀ x y, g'.Follows x y ↔ g'.Precedes x y

/-- **A track can be merged exactly if it stops short of the greatest index**, and then every clip
gets the neighbours that it has on the track and no others. -/
theorem merges_addTrack (g : MoveGraph) (level : Difficulty) (t : Track Move) :
    g.Merges level t := by
  have hmerge {g' : MoveGraph} (h : g.addTrack level t = some g') : g.merge level t = g' :=
    (addTrack_eq_some_iff.1 h).2
  constructor
  case exists_iff => simp [addTrack_eq_some_iff, Track.bounded_iff]
  case get?_max_iff =>
    intro start sparse h
    exact (Track.filled_of_densify h).get?_max_eq_none_iff
  case addMove_max =>
    intro g' m
    rw [Option.eq_none_iff_forall_ne_some]
    intro g'' h
    exact absurd rfl (toNat_succ_lt_size_iff.1 (addMove_eq_some_iff.1 h).1)
  case addMove_of_ne =>
    intro i hi g' m
    exact ⟨visit t g' i m, addMove_eq_some_iff.2 ⟨toNat_succ_lt_size_iff.2 hi, rfl⟩,
      fun _ _ ↦ follows_visit_iff, fun _ _ ↦ precedes_visit_iff⟩
  case follows_last_iff =>
    intro last hlast g' m g'' h x y
    obtain ⟨-, rfl⟩ := addMove_eq_some_iff.1 h
    rw [follows_visit_iff, or_iff_left fun hnext ↦ not_exists_next_of_lastIndex? hlast hnext.2]
  case follows_iff =>
    intro g' h x y
    rw [← hmerge h, follows_merge_iff]
  case precedes_iff =>
    intro g' h x y
    rw [← hmerge h, precedes_merge_iff]
  case converse =>
    intro hconverse g' h x y
    rw [← hmerge h, follows_merge_iff, precedes_merge_iff, hconverse]

/-- A track that reaches the greatest index cannot be merged into any graph. -/
theorem addTrack_eq_none {g : MoveGraph} {level : Difficulty} {t : Track Move}
    (h : (t.get? 4294967295).isSome) : g.addTrack level t = none := by
  rw [Option.eq_none_iff_forall_ne_some]
  intro g' hmerged
  rw [Track.bounded_iff.1 (addTrack_eq_some_iff.1 hmerged).1] at h
  cases h

/-- A move as an array of its fields. -/
def listing (clip : String) : Json :=
  .array [.number "1", .string clip,
    .array [.string "dc1", .string "gonow", .string clip] .closed, .string clip, .string clip,
    .string "gonow", .string "pop", .string "00s", .array [] .closed, .number "120",
    .number "0"] .closed

/-- A track from the first to the last index with nothing in between. -/
def wideTrack : Json :=
  .object [("0", listing "a"), ("4294967295", listing "b")] .closed

/-- A track can be read, and another one filled, that reach the greatest index; neither can be merged
into any graph. -/
theorem exists_unmergeable :
    (∃ t, Track.decoder Move.decoder wideTrack = .ok t ∧ t.lastIndex? = some 4294967295 ∧
      ∀ g level, addTrack g level t = none) ∧
    ∃ t, Track.densify 4294967295 [(4294967295, playing "a")] = .ok t ∧
      t.lastIndex? = some 4294967295 ∧ ∀ g level, addTrack g level t = none := by
  obtain ⟨t, hread, hlast, hend⟩ : ∃ t, Track.decoder Move.decoder wideTrack = .ok t ∧
      t.lastIndex? = some 4294967295 ∧ (t.get? 4294967295).isSome := ⟨_, rfl, rfl, rfl⟩
  obtain ⟨t', hfill, hlast', hend'⟩ : ∃ t,
      Track.densify 4294967295 [(4294967295, playing "a")] = .ok t ∧
        t.lastIndex? = some 4294967295 ∧ (t.get? 4294967295).isSome := ⟨_, rfl, rfl, rfl⟩
  exact ⟨⟨t, hread, hlast, fun _ _ ↦ addTrack_eq_none hend⟩,
    t', hfill, hlast', fun _ _ ↦ addTrack_eq_none hend'⟩

end MoveGraph

end SongBundle
