import SongBundle.Proofs.Battle.Tiling

/-!
# Which measures of a battle are danced

The steps of a battle tile the song with music, and from the battle start on all of that is danced.
Before the battle start there are bridges only, with music to which nobody dances, since no solo or
minigame can start there.

* `Step.PlaysFrom` is what a single step owes to the battle start: it is danced from there on, as
  far as its music goes.  `playsFrom_bridge` and `Interval.playsFrom_step` are the two kinds of
  steps, and `exists_start_of_compile` is all of them.
* `countP_plays` counts the steps in which a measure is danced.
* `compile_plays_from_start` puts these together.
-/

set_option autoImplicit false

namespace SongBundle.Battle

variable {start : UInt32}

/-! ## One step -/

/-- A measure that is danced in a step. -/
def Step.Plays (s : Step) (measure : UInt32) : Prop := ∃ r ∈ s.play, r.Holds measure

instance (s : Step) (measure : UInt32) : Decidable (s.Plays measure) :=
  inferInstanceAs (Decidable (∃ r ∈ s.play, r.Holds measure))

/-- A step is danced from the battle start on, as far as its music goes.  If it ends before the
battle start, nobody dances, and then it is a bridge. -/
structure Step.PlaysFrom (start : UInt32) (s : Step) : Prop where
  inside : ∀ r ∈ s.play, s.music.first ≤ r.first ∧ r.first ≤ r.last ∧ r.last ≤ s.music.last
  plays_iff : ∀ measure, s.Plays measure ↔ s.music.Holds measure ∧ start ≤ measure
  play_eq_none_iff : s.play = none ↔ s.music.last < start
  mode_of_none : s.play = none → s.mode = .normal
  idle_iff : s.pastime = .idle ↔ s.play = none

theorem bridge_of_lt {range : MeasureRange} (h : range.last < start) :
    bridge start range = ⟨.both, range, none, .normal, .idle, .normal⟩ := by
  have hmax := UInt32.max_def range.first start
  exact if_neg (by grind)

theorem bridge_of_le {range : MeasureRange} (hrange : range.first ≤ range.last)
    (h : start ≤ range.last) :
    bridge start range =
      ⟨.both, range, some ⟨max range.first start, range.last⟩, .normal, .none, .normal⟩ := by
  have hmax := UInt32.max_def range.first start
  exact if_pos (by grind)

theorem playsFrom_bridge {range : MeasureRange} (hrange : range.first ≤ range.last) :
    (bridge start range).PlaysFrom start := by
  by_cases h : range.last < start
  · rw [bridge_of_lt h]
    refine ⟨by simp, fun measure ↦ ?_, by simpa using h, fun _ ↦ rfl, by simp⟩
    simp only [Step.Plays, MeasureRange.Holds]
    grind
  · have hmax := UInt32.max_def range.first start
    rw [bridge_of_le hrange (UInt32.not_lt.1 h)]
    refine ⟨?_, fun measure ↦ ?_, by simpa using h, by simp, by simp⟩
    · simp only [Option.mem_some, forall_eq']
      grind
    · simp only [Step.Plays, MeasureRange.Holds, Option.mem_some, exists_eq_left']
      grind

theorem Interval.playsFrom_step {i : Interval} (hstart : start ≤ i.range.first)
    (hrange : i.range.first ≤ i.range.last) : i.step.PlaysFrom start := by
  have hmusic := i.plays_step.music
  have hplay := i.plays_step.play
  refine ⟨?_, fun measure ↦ ?_, ?_, ?_, ?_⟩
  · rw [hplay, hmusic]
    grind
  · rw [Step.Plays, hplay, hmusic]
    simp only [MeasureRange.Holds, Option.mem_some, exists_eq_left']
    grind
  · rw [hplay, hmusic]
    grind
  · simp [hplay]
  · obtain ⟨kind, range⟩ := i
    cases kind <;> simp [step]

/-! ## All steps -/

/-- A script marks one battle start. -/
theorem filter_script (start : UInt32) (intervals : List Interval) :
    (script start intervals).filter (·.mark = .battleStart) = [⟨start, .battleStart⟩] := by
  have hnone : (intervals.flatMap Interval.events).filter (·.mark = .battleStart) = [] := by
    rw [List.filter_eq_nil_iff]
    intro e he
    obtain ⟨i, -, he⟩ := List.mem_flatMap.1 he
    rcases Interval.mem_events.1 he with rfl | rfl <;> simp
  rw [script, List.filter_cons_of_pos (by simp), hnone]

variable {events : List Event} {total : UInt32} {steps : List Step}

/-- Whatever compiles has one battle start, and all steps are danced from there. -/
theorem exists_start_of_compile (h : compile events total = .ok steps) :
    ∃ start, events.filter (·.mark = .battleStart) = [⟨start, .battleStart⟩] ∧
      ∀ s ∈ steps, s.PlaysFrom start := by
  obtain ⟨htotal, start, intervals, hnested, hperm, rfl⟩ := compile_eq_ok_iff.1 h
  refine ⟨start, ?_, fun s hs ↦ ?_⟩
  · rw [← List.perm_singleton, ← filter_script start intervals]
    exact hperm.filter _
  · rcases List.mem_append.1 hs with hs | hs
    · obtain ⟨r, hr, rfl⟩ := List.mem_map.1 hs
      exact playsFrom_bridge (bounds_of_mem_gaps (by grind) hnested.ahead hr).2.1
    · obtain ⟨i, hi, rfl⟩ := List.mem_map.1 hs
      exact Interval.playsFrom_step (hnested.le_first i hi) (hnested.first_le i hi)

/-- Every measure from the battle start to the end of the song is danced in one step. -/
theorem countP_plays (h : compile events total = .ok steps)
    (hplays : ∀ s ∈ steps, s.PlaysFrom start) (measure : UInt32) :
    steps.countP (·.Plays measure) = if start ≤ measure ∧ measure < total then 1 else 0 := by
  obtain ⟨hlast, intervals, hahead, hmusic⟩ := exists_music_of_compile h
  by_cases hstart : start ≤ measure
  · have hsteps : steps.countP (·.Plays measure) =
        (steps.map Step.music).countP (·.Holds measure) := by
      rw [List.countP_map]
      refine List.countP_congr fun s hs ↦ ?_
      simp [(hplays s hs).plays_iff, hstart]
    rw [hsteps, hmusic, List.countP_append, List.countP_map]
    refine (countP_gaps hlast hahead measure).trans ?_
    grind
  · rw [if_neg fun hboth ↦ hstart hboth.1, List.countP_eq_zero]
    intro s hs
    simp [(hplays s hs).plays_iff, hstart]

/-- **A battle is danced from its battle start to the end of the song.**  Each step is danced from
the battle start on, and nobody dances in those that end before it; no measure is danced in two
steps, and exactly the measures from the battle start on are danced in one. -/
theorem compile_plays_from_start (h : compile events total = .ok steps) :
    ∃ start, events.filter (·.mark = .battleStart) = [⟨start, .battleStart⟩] ∧
      (∀ s ∈ steps, s.PlaysFrom start) ∧
      steps.Pairwise (fun s s' ↦ ∀ measure, ¬(s.Plays measure ∧ s'.Plays measure)) ∧
      ∀ measure, (∃ s ∈ steps, s.Plays measure) ↔ start ≤ measure ∧ measure < total := by
  obtain ⟨start, hstart, hplays⟩ := exists_start_of_compile h
  have hcount := countP_plays h hplays
  refine ⟨start, hstart, hplays, pairwise_of_countP_le_one fun measure ↦ ?_, fun measure ↦ ?_⟩
  · rw [hcount]
    split <;> decide
  · have hpos : 0 < steps.countP (·.Plays measure) ↔ ∃ s ∈ steps, s.Plays measure := by
      simp [List.countP_pos_iff]
    rw [← hpos, hcount]
    split <;> simp_all

/-- A battle that starts together with its first solo, so that the bridge before it is idle. -/
theorem compile_plays_from_start_solo :
    ∃ steps, compile [⟨8, .opens .minigame⟩, ⟨5, .opens .firstSolo⟩, ⟨12, .closes .minigame⟩,
        ⟨6, .closes .firstSolo⟩, ⟨5, .battleStart⟩] 14 = .ok steps ∧
      (∀ s ∈ steps, s.PlaysFrom 5) ∧
      steps.Pairwise (fun s s' ↦ ∀ measure, ¬(s.Plays measure ∧ s'.Plays measure)) ∧
      ∀ measure, (∃ s ∈ steps, s.Plays measure) ↔ 5 ≤ measure ∧ measure < 14 := by
  have hnested : Nested (14 - 1) 5 [⟨.firstSolo, ⟨5, 6⟩⟩, ⟨.minigame, ⟨8, 12⟩⟩] :=
    ⟨by decide, by decide, by decide, by decide, by decide, by decide⟩
  have hperm : [⟨8, .opens .minigame⟩, ⟨5, .opens .firstSolo⟩, ⟨12, .closes .minigame⟩,
      ⟨6, .closes .firstSolo⟩, ⟨5, .battleStart⟩].Perm
        (script 5 [⟨.firstSolo, ⟨5, 6⟩⟩, ⟨.minigame, ⟨8, 12⟩⟩]) := by decide
  have h := compile_eq_ok_iff.2 ⟨by decide, 5, _, hnested, hperm, rfl⟩
  obtain ⟨start, hstart, hplays⟩ := compile_plays_from_start h
  obtain rfl : 5 = start := by simpa using hstart
  exact ⟨_, h, hplays⟩

end SongBundle.Battle
