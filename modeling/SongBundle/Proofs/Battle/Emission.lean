import SongBundle.Proofs.Battle.Tiling

/-!
# The order of the steps of a battle

A compiled battle lists its bridges and then its solos and minigames.  Each of these two blocks goes
by measures, so that solos and minigames come in the order in which their ends are marked, and
bridges are as long as they can be.

* `pairwise_gaps` says that some measure lies between any two gaps, and `length_gaps_le` that there
  is at most one gap more than intervals; both by recursion on the intervals that are still ahead.
* `Emitted` is what the two blocks have to be, and `compile_emits` says that they are.
-/

set_option autoImplicit false

namespace SongBundle.Battle

/-! ## Gaps -/

/-- Between two gaps there is at least one measure that belongs to neither. -/
theorem pairwise_gaps {last next : UInt32} {intervals : List Interval} (hlast : last < 4294967295)
    (h : Ahead last next intervals) :
    (gaps last next intervals).Pairwise fun r r' ↦ r.last.toNat + 1 < r'.first.toNat := by
  induction intervals generalizing next with
  | nil =>
    rw [gaps]
    split
    · exact List.pairwise_singleton ..
    · exact .nil
  | cons i rest ih =>
    have hnext := h.le_first i List.mem_cons_self
    have hle := h.first_le i List.mem_cons_self
    have hinside := h.le_last i List.mem_cons_self
    rw [gaps]
    split
    · refine List.pairwise_cons.2 ⟨fun r hr ↦ ?_, ih h.tail⟩
      -- the gap before an interval ends right before it, and the next one starts after it
      have hafter := (bounds_of_mem_gaps hlast h.tail hr).1
      have hlt : i.range.last < r.first := by grind
      calc (i.range.first - 1).toNat + 1 = i.range.first.toNat := toNat_pred (by grind)
        _ ≤ i.range.last.toNat := UInt32.le_iff_toNat_le.1 hle
        _ < r.first.toNat := UInt32.lt_iff_toNat_lt.1 hlt
    · exact ih h.tail

theorem length_gaps_le (last next : UInt32) (intervals : List Interval) :
    (gaps last next intervals).length ≤ intervals.length + 1 := by
  induction intervals generalizing next with
  | nil =>
    rw [gaps]
    split <;> simp
  | cons i rest ih =>
    have hrest := ih (i.range.last + 1)
    rw [gaps]
    split
    · exact Nat.succ_le_succ hrest
    · exact Nat.le_succ_of_le hrest

/-! ## Marks -/

/-- Whether a mark ends a solo or minigame. -/
def Mark.isEnd : Mark → Bool
  | .closes _ => true
  | _ => false

theorem length_script (start : UInt32) (intervals : List Interval) :
    (script start intervals).length = 2 * intervals.length + 1 := by
  have hevents : ∀ i : Interval, i.events.length = 2 := fun _ ↦ rfl
  simp [script, List.length_flatMap, hevents, Nat.mul_comm]

/-- A script marks the ends of its intervals in their order. -/
theorem filter_isEnd_script (start : UInt32) (intervals : List Interval) :
    (script start intervals).filter (·.mark.isEnd) =
      intervals.map fun i ↦ ⟨i.range.last, .closes i.kind⟩ := by
  have hevents : ∀ i : Interval,
      i.events.filter (·.mark.isEnd) = [⟨i.range.last, .closes i.kind⟩] := fun _ ↦ rfl
  rw [script, List.filter_cons_of_neg (by simp [Mark.isEnd]), List.filter_flatMap]
  simp only [hevents, ← List.map_eq_flatMap]

/-! ## Steps -/

/-- The steps of common play, and those of solos and minigames. -/
structure Emitted (bridges parts : List Step) : Prop where
  bridges_normal : ∀ s ∈ bridges, s.mode = .normal
  parts_not_normal : ∀ s ∈ parts, s.mode ≠ .normal
  bridges_ascending : bridges.Pairwise fun s s' ↦ s.music.first < s'.music.first
  parts_ascending : parts.Pairwise fun s s' ↦ s.music.first < s'.music.first
  /-- No bridge goes on where another one ends. -/
  maximal : ∀ s ∈ bridges, ∀ s' ∈ bridges, s.music.last.toNat + 1 ≠ s'.music.first.toNat
  length_bridges_le : bridges.length ≤ parts.length + 1

/-- Ranges with ordered ends and a measure between any two of them are never adjacent. -/
theorem ne_of_pairwise_apart {ranges : List MeasureRange}
    (h : ranges.Pairwise fun r r' ↦ r.last.toNat + 1 < r'.first.toNat)
    (hle : ∀ r ∈ ranges, r.first ≤ r.last) :
    ∀ r ∈ ranges, ∀ r' ∈ ranges, r.last.toNat + 1 ≠ r'.first.toNat := by
  intro r hr r' hr'
  obtain ⟨a, ha, rfl⟩ := List.getElem_of_mem hr
  obtain ⟨b, hb, rfl⟩ := List.getElem_of_mem hr'
  have hapart := List.pairwise_iff_getElem.1 h
  have hfirst := UInt32.le_iff_toNat_le.1 (hle _ hr)
  have hfirst' := UInt32.le_iff_toNat_le.1 (hle _ hr')
  rcases Nat.lt_trichotomy a b with hab | rfl | hab
  · exact Nat.ne_of_lt (hapart a b ha hb hab)
  · omega
  · have hlt := hapart b a hb ha hab
    omega

theorem Nested.emitted {last start : UInt32} {intervals : List Interval} (hlast : last < 4294967295)
    (h : Nested last start intervals) :
    Emitted ((gaps last 0 intervals).map (bridge start)) (intervals.map Interval.step) where
  bridges_normal := List.forall_mem_map.2 fun r _ ↦ mode_bridge start r
  parts_not_normal := List.forall_mem_map.2 fun i _ ↦ i.mode_step_ne
  bridges_ascending := by
    simp only [List.pairwise_map, music_bridge]
    refine (pairwise_gaps hlast h.ahead).imp_of_mem fun {r r'} hr _ hapart ↦ ?_
    have hle := UInt32.le_iff_toNat_le.1 (bounds_of_mem_gaps hlast h.ahead hr).2.1
    exact UInt32.lt_iff_toNat_lt.2 (by omega)
  parts_ascending := by
    simp only [List.pairwise_map, (Interval.plays_step _).music]
    refine h.apart.imp_of_mem fun {i j} hi _ hapart ↦ ?_
    exact UInt32.lt_of_le_of_lt (h.first_le i hi) hapart
  maximal := by
    simp only [List.forall_mem_map, music_bridge]
    exact ne_of_pairwise_apart (pairwise_gaps hlast h.ahead)
      fun r hr ↦ (bounds_of_mem_gaps hlast h.ahead hr).2.1
  length_bridges_le := by
    rw [List.length_map, List.length_map]
    exact length_gaps_le last 0 intervals

/-- **Bridges come first, and both they and the rest are in the order of the song.**  Solos and
minigames come in the order in which their ends are marked, no two bridges are adjacent, and what is
marked is the battle start and the two ends of each solo and minigame. -/
theorem compile_emits {events : List Event} {total : UInt32} {steps : List Step}
    (h : compile events total = .ok steps) :
    ∃ bridges parts, steps = bridges ++ parts ∧ Emitted bridges parts ∧
      ((events.mergeSort Event.before).filter (·.mark.isEnd)).map Event.measure =
        parts.map (·.music.last) ∧
      events.length = 2 * parts.length + 1 := by
  obtain ⟨htotal, start, intervals, hnested, hperm, rfl⟩ := compile_eq_ok_iff.1 h
  refine ⟨_, _, rfl, hnested.emitted (by grind), ?_, ?_⟩
  · rw [mergeSort_eq_script hnested hperm, filter_isEnd_script, List.map_map, List.map_map]
    exact List.map_congr_left fun i _ ↦ congrArg MeasureRange.last i.plays_step.music.symm
  · rw [hperm.length_eq, length_script, List.length_map]

/-- Three parts that are marked out of order, two of them with no bridge between them. -/
theorem compile_emits_adjacent :
    ∃ steps, compile [⟨0, .battleStart⟩, ⟨10, .opens .firstSolo⟩, ⟨12, .closes .firstSolo⟩,
        ⟨6, .closes .minigame⟩, ⟨2, .opens .minigame⟩, ⟨13, .opens .secondSolo⟩,
        ⟨13, .closes .secondSolo⟩] 20 = .ok steps ∧
      ∃ bridges parts, steps = bridges ++ parts ∧ Emitted bridges parts ∧
        [6, 12, 13] = parts.map (·.music.last) ∧ 7 = 2 * parts.length + 1 := by
  have hnested : Nested (20 - 1) 0
      [⟨.minigame, ⟨2, 6⟩⟩, ⟨.firstSolo, ⟨10, 12⟩⟩, ⟨.secondSolo, ⟨13, 13⟩⟩] :=
    ⟨by decide, by decide, by decide, by decide, by decide, by decide⟩
  have hperm : [⟨0, .battleStart⟩, ⟨10, .opens .firstSolo⟩, ⟨12, .closes .firstSolo⟩,
      ⟨6, .closes .minigame⟩, ⟨2, .opens .minigame⟩, ⟨13, .opens .secondSolo⟩,
      ⟨13, .closes .secondSolo⟩].Perm
        (script 0 [⟨.minigame, ⟨2, 6⟩⟩, ⟨.firstSolo, ⟨10, 12⟩⟩, ⟨.secondSolo, ⟨13, 13⟩⟩]) := by
    decide
  have h := compile_eq_ok_iff.2 ⟨by decide, 0, _, hnested, hperm, rfl⟩
  have hends : ((script 0 [⟨.minigame, ⟨2, 6⟩⟩, ⟨.firstSolo, ⟨10, 12⟩⟩,
      ⟨.secondSolo, ⟨13, 13⟩⟩]).filter (·.mark.isEnd)).map Event.measure = [6, 12, 13] := by decide
  obtain ⟨bridges, parts, hsteps, hemitted, hparts, hlength⟩ := compile_emits h
  rw [mergeSort_eq_script hnested hperm, hends] at hparts
  exact ⟨_, h, bridges, parts, hsteps, hemitted, hparts, hlength⟩

end SongBundle.Battle
