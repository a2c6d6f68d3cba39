import SongBundle.Proofs.Battle.Nesting

/-!
# The steps of a battle tile the song

The bridges of a compiled battle cover what its solos and minigames leave free, so every measure of
the song belongs to one step and to no other.  `countP_gaps` counts the ranges that hold a measure,
by recursion on the intervals that are still ahead.
-/

set_option autoImplicit false

namespace SongBundle

/-- A measure of a range. -/
def MeasureRange.Holds (r : MeasureRange) (measure : UInt32) : Prop :=
  r.first ≤ measure ∧ measure ≤ r.last

instance (r : MeasureRange) (measure : UInt32) : Decidable (r.Holds measure) :=
  inferInstanceAs (Decidable (_ ∧ _))

namespace Battle

/-- The intervals lie one after the other between the measure `next` and the last one. -/
structure Ahead (last next : UInt32) (intervals : List Interval) : Prop where
  le_first : ∀ i ∈ intervals, next ≤ i.range.first
  first_le : ∀ i ∈ intervals, i.range.first ≤ i.range.last
  le_last : ∀ i ∈ intervals, i.range.last ≤ last
  apart : intervals.Pairwise fun i j ↦ i.range.last < j.range.first

theorem Nested.ahead {last start : UInt32} {intervals : List Interval}
    (h : Nested last start intervals) : Ahead last 0 intervals where
  le_first _ _ := UInt32.zero_le
  first_le := h.first_le
  le_last := h.le_last
  apart := h.apart

theorem Ahead.tail {last next : UInt32} {i : Interval} {rest : List Interval}
    (h : Ahead last next (i :: rest)) : Ahead last (i.range.last + 1) rest where
  le_first j hj := by
    have hj := (List.pairwise_cons.1 h.apart).1 j hj
    grind
  first_le j hj := h.first_le j (List.mem_cons_of_mem _ hj)
  le_last j hj := h.le_last j (List.mem_cons_of_mem _ hj)
  apart := h.apart.tail

/-! ## Gaps -/

/-- A gap is a range between the measure `next` and the last one, with its ends in order. -/
theorem bounds_of_mem_gaps {last next : UInt32} {intervals : List Interval} {r : MeasureRange}
    (hlast : last < 4294967295) (h : Ahead last next intervals)
    (hr : r ∈ gaps last next intervals) :
    next ≤ r.first ∧ r.first ≤ r.last ∧ r.last ≤ last := by
  induction intervals generalizing next with
  | nil =>
    rw [gaps] at hr
    split at hr
    · obtain rfl := List.mem_singleton.1 hr
      grind
    · exact absurd hr List.not_mem_nil
  | cons i rest ih =>
    have hnext := h.le_first i List.mem_cons_self
    have hle := h.first_le i List.mem_cons_self
    have hinside := h.le_last i List.mem_cons_self
    have hrest : r ∈ gaps last (i.range.last + 1) rest →
        next ≤ r.first ∧ r.first ≤ r.last ∧ r.last ≤ last := fun hr ↦ by
      have := ih (h.tail) hr
      grind
    rw [gaps] at hr
    split at hr
    · rcases List.mem_cons.1 hr with rfl | hr
      · grind
      · exact hrest hr
    · exact hrest hr

/-- From the measure `next` on, every measure is held by one gap or one interval. -/
theorem countP_gaps {last next : UInt32} {intervals : List Interval} (hlast : last < 4294967295)
    (h : Ahead last next intervals) (measure : UInt32) :
    (gaps last next intervals).countP (·.Holds measure) +
        intervals.countP (·.range.Holds measure) =
      if next ≤ measure ∧ measure ≤ last then 1 else 0 := by
  induction intervals generalizing next with
  | nil =>
    rw [gaps]
    split <;> simp [MeasureRange.Holds] <;> grind
  | cons i rest ih =>
    have hnext := h.le_first i List.mem_cons_self
    have hle := h.first_le i List.mem_cons_self
    have hinside := h.le_last i List.mem_cons_self
    have hrest := ih (h.tail)
    rw [gaps, List.countP_cons]
    simp only [MeasureRange.Holds] at hrest ⊢
    split
    · rw [List.countP_cons]
      grind
    · grind

/-! ## Steps -/

theorem music_bridge (start : UInt32) (range : MeasureRange) :
    (bridge start range).music = range := by
  rw [bridge]
  split <;> rfl

theorem music_steps (start : UInt32) (ranges : List MeasureRange) (intervals : List Interval) :
    (ranges.map (bridge start) ++ intervals.map Interval.step).map Step.music =
      ranges ++ intervals.map Interval.range := by
  simp [Function.comp_def, music_bridge, Interval.plays_step _ |>.music]

/-- The ranges of a compiled battle: gaps first, then the intervals of a nested battle. -/
theorem exists_music_of_compile {events : List Event} {total : UInt32} {steps : List Step}
    (h : compile events total = .ok steps) :
    total - 1 < 4294967295 ∧ ∃ intervals, Ahead (total - 1) 0 intervals ∧
      steps.map Step.music = gaps (total - 1) 0 intervals ++ intervals.map Interval.range := by
  obtain ⟨htotal, start, intervals, hnested, -, rfl⟩ := compile_eq_ok_iff.1 h
  exact ⟨by grind, intervals, hnested.ahead, music_steps start _ intervals⟩

/-- **The steps of a battle tile the song**: their ranges have their ends in order and inside the
song, and every measure of the song belongs to exactly one step. -/
theorem compile_tiles {events : List Event} {total : UInt32} {steps : List Step}
    (h : compile events total = .ok steps) :
    (∀ s ∈ steps, s.music.first ≤ s.music.last ∧ s.music.last ≤ total - 1) ∧
      ∀ measure < total, steps.countP (·.music.Holds measure) = 1 := by
  obtain ⟨hlast, intervals, hahead, hmusic⟩ := exists_music_of_compile h
  refine ⟨fun s hs ↦ ?_, fun measure hmeasure ↦ ?_⟩
  · have hs : s.music ∈ gaps (total - 1) 0 intervals ++ intervals.map Interval.range :=
      hmusic ▸ List.mem_map_of_mem hs
    rcases List.mem_append.1 hs with hgap | hrange
    · exact (bounds_of_mem_gaps hlast hahead hgap).2
    · obtain ⟨i, hi, hrange⟩ := List.mem_map.1 hrange
      exact hrange ▸ ⟨hahead.first_le i hi, hahead.le_last i hi⟩
  · have hcount := countP_gaps hlast hahead measure
    rw [if_pos (by grind)] at hcount
    have hsteps : steps.countP (·.music.Holds measure) =
        (steps.map Step.music).countP (·.Holds measure) := by
      rw [List.countP_map]
      rfl
    rw [hsteps, hmusic, List.countP_append, List.countP_map]
    exact hcount

/-- A minigame that a solo of one measure follows at once, the battle starting at measure one. -/
theorem compile_tiles_adjacent :
    ∃ steps, compile [⟨6, .closes .minigame⟩, ⟨2, .opens .minigame⟩, ⟨1, .battleStart⟩,
        ⟨7, .closes .firstSolo⟩, ⟨7, .opens .firstSolo⟩] 10 = .ok steps ∧
      (∀ s ∈ steps, s.music.first ≤ s.music.last ∧ s.music.last ≤ 10 - 1) ∧
      ∀ measure < 10, steps.countP (·.music.Holds measure) = 1 := by
  have hnested : Nested (10 - 1) 1 [⟨.minigame, ⟨2, 6⟩⟩, ⟨.firstSolo, ⟨7, 7⟩⟩] :=
    ⟨by decide, by decide, by decide, by decide, by decide, by decide⟩
  have hperm : [⟨6, .closes .minigame⟩, ⟨2, .opens .minigame⟩, ⟨1, .battleStart⟩,
      ⟨7, .closes .firstSolo⟩, ⟨7, .opens .firstSolo⟩].Perm
        (script 1 [⟨.minigame, ⟨2, 6⟩⟩, ⟨.firstSolo, ⟨7, 7⟩⟩]) := by decide
  have h := compile_eq_ok_iff.2 ⟨by decide, 1, _, hnested, hperm, rfl⟩
  exact ⟨_, h, compile_tiles h⟩

end Battle

end SongBundle
