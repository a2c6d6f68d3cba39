import Mathlib.Order.Bounds.Basic
import SongBundle.Proofs.Practice.Plan

/-!
# Which sections make no plan

The last move of a section leads into a later section, unless its own section is the last one.  So
what stops a plan are sections without moves behind the last move of all.

* `learnSteps_eq_error_iff` is about one section: there are later ones, and they have no moves.
* `compileSections_eq_error_iff` is about all of them: the section that fails is the one of the last
  move, which `placed` lists with its index.
* `compile_fails_iff_trailing` says so of plans, with the whole report.
-/

set_option autoImplicit false

namespace SongBundle.Practice

open Outcome

variable {level : Difficulty} {index : Nat} {sections : List (List MoveEvent)} {fault : Fault}

/-- The fault of a move that nothing follows, in the section of an index. -/
def Fault.after (level : Difficulty) (e : Nat × MoveEvent) : Fault :=
  ⟨e.2.measure, shortName e.2, level, e.1⟩

/-- **A section fails exactly if its last move leads into later sections that have no moves.** -/
theorem learnSteps_eq_error_iff {later : List (List MoveEvent)} {moves : List MoveEvent} :
    learnSteps level index later moves = .error fault ↔
      later ≠ [] ∧ later.flatten = [] ∧
        ∃ e, moves.getLast? = some e ∧ Fault.after level (index, e) = fault := by
  match moves with
  | [] => simp [learnSteps]
  | [e] =>
    have hfirst : firstMove? later = later.flatten.head? := List.head?_flatten.symm
    rw [learnSteps, hfirst]
    by_cases hlater : later = []
    · simp [hlater]
    · cases hhead : later.flatten.head? with
      | none => simp [hlater, List.head?_eq_none_iff.1 hhead, Fault.after]
      | some next =>
        have hne : later.flatten ≠ [] := fun h ↦ by simp [h] at hhead
        simp [hlater, hne]
  | e :: next :: moves =>
    rw [learnSteps, bind_pure_eq_error_iff, learnSteps_eq_error_iff, List.getLast?_cons_cons]

/-- A section succeeds if there are moves behind it. -/
theorem exists_learnSteps {later : List (List MoveEvent)} {moves : List MoveEvent}
    (h : later = [] ∨ later.flatten ≠ []) :
    ∃ steps, learnSteps level index later moves = .ok steps :=
  ⟨_, learnSteps_eq_ok_iff.2 ⟨fun _ hne ↦ h.resolve_left hne, rfl⟩⟩

theorem placed_eq_nil_iff : placed index sections = [] ↔ sections.flatten = [] := by
  rw [← map_snd_placed index sections, List.map_eq_nil_iff]

theorem getLast?_eq_of_flatten_eq_nil (hne : sections ≠ []) (h : sections.flatten = []) :
    sections.getLast? = some [] := by
  rw [List.getLast?_eq_some_getLast hne]
  exact congrArg some (List.flatten_eq_nil_iff.1 h _ (List.getLast_mem hne))

/-- **Sections fail exactly if there are moves, but none in the last section**; the fault is that of
the last move of all. -/
theorem compileSections_eq_error_iff :
    compileSections level index sections = .error fault ↔
      sections.getLast? = some [] ∧
        ∃ e, (placed index sections).getLast? = some e ∧ Fault.after level e = fault := by
  induction sections generalizing index with
  | nil => simp [compileSections]
  | cons moves later ih =>
    rw [compileSections, bind_eq_error_iff, placed_cons, learnSteps_eq_error_iff]
    simp only [bind_pure_eq_error_iff, ih]
    rcases eq_or_ne later [] with rfl | hlater
    · -- the only section has moves or is empty, and cannot fail
      refine iff_of_false (by simp) ?_
      rintro ⟨hlast, e, he, -⟩
      obtain rfl : moves = [] := Option.some.inj hlast
      cases he
    have hlast : (moves :: later).getLast? = later.getLast? := by
      rw [List.getLast?_cons, List.getLast?_eq_some_getLast hlater, Option.getD_some]
    rw [hlast]
    by_cases hnone : later.flatten = []
    · -- this section fails if it has moves, and those after it succeed
      have hplaced : placed (index + 1) later = [] := placed_eq_nil_iff.2 hnone
      simp [hlater, hnone, hplaced, getLast?_eq_of_flatten_eq_nil hlater hnone]
    · -- this section succeeds, and the last move comes after it
      have hplaced : placed (index + 1) later ≠ [] := mt placed_eq_nil_iff.1 hnone
      obtain ⟨steps, hsteps⟩ : ∃ steps, learnSteps level index later moves = .ok steps :=
        exists_learnSteps (.inr hnone)
      simp [hnone, hsteps, List.getLast?_append_of_ne_nil _ hplaced]

/-! ## The last move of all -/

theorem pairwise_placed (index : Nat) (sections : List (List MoveEvent)) :
    (placed index sections).Pairwise fun a b ↦ a.1 ≤ b.1 := by
  induction sections generalizing index with
  | nil => exact .nil
  | cons moves later ih =>
    rw [placed_cons, List.pairwise_append]
    refine ⟨?_, ih (index + 1), fun a ha b hb ↦ ?_⟩
    · exact List.pairwise_map.2 (List.pairwise_of_forall fun _ _ ↦ Nat.le_refl _)
    · obtain ⟨_, -, rfl⟩ := List.mem_map.1 ha
      exact Nat.le_of_succ_le (le_of_mem_placed hb)

theorem mem_placed_iff {e : Nat × MoveEvent} :
    e ∈ placed 0 sections ↔ ∃ moves, sections[e.1]? = some moves ∧ e.2 ∈ moves := by
  simp only [placed, List.mem_flatMap, List.mem_map, Prod.exists, List.mem_zipIdx_iff_getElem?]
  constructor
  · rintro ⟨moves, i, hi, m, hm, rfl⟩
    exact ⟨moves, hi, hm⟩
  · rintro ⟨moves, hi, hm⟩
    exact ⟨moves, e.1, hi, e.2, hm, rfl⟩

/-- The last move of all is the last one of the row of moves, and it is in the last section that has
any. -/
theorem last_placed {e : Nat × MoveEvent} (h : (placed 0 sections).getLast? = some e) :
    sections.flatten.getLast? = some e.2 ∧
      IsGreatest {i | ∃ moves, sections[i]? = some moves ∧ moves ≠ []} e.1 := by
  refine ⟨?_, ?_, ?_⟩
  · rw [← map_snd_placed 0 sections, List.getLast?_map, h]
    rfl
  · obtain ⟨moves, hi, hm⟩ := mem_placed_iff.1 (List.mem_of_getLast? h)
    exact ⟨moves, hi, List.ne_nil_of_mem hm⟩
  · rintro i ⟨moves, hi, hne⟩
    obtain ⟨m, hm⟩ := List.exists_mem_of_ne_nil moves hne
    have hmem : (i, m) ∈ placed 0 sections := mem_placed_iff.2 ⟨moves, hi, hm⟩
    have hsorted := pairwise_placed 0 sections
    obtain ⟨front, hfront⟩ := List.getLast?_eq_some_iff.1 h
    rw [hfront] at hmem hsorted
    rcases List.mem_append.1 hmem with hmem | hmem
    · exact (List.pairwise_append.1 hsorted).2.2 _ hmem e (by simp)
    · obtain rfl := List.mem_singleton.1 hmem
      exact Nat.le_refl _

/-! ## Plans -/

/-- There are moves, but none in the last section. -/
def Trailing (sections : List (List MoveEvent)) : Prop :=
  (∃ moves ∈ sections, moves ≠ []) ∧ sections.getLast? = some []

theorem compile_eq_error_iff :
    compile level sections = .error fault ↔ compileSections level 0 sections = .error fault :=
  bind_pure_eq_error_iff

/-- **Sections make no plan exactly if the last one is empty and another is not.**  The report then
is on the last move of all, and names the last section that has moves. -/
theorem compile_fails_iff_trailing (level : Difficulty) (sections : List (List MoveEvent)) :
    (Trailing sections → ∃ fault e index, compile level sections = .error fault ∧
      sections.flatten.getLast? = some e ∧
      IsGreatest {i | ∃ moves, sections[i]? = some moves ∧ moves ≠ []} index ∧
      fault.report = .validation .practice (some (.measure e.measure))
        s!"no next move found after `{shortName e}` in {level.text} section {Json.natText index}") ∧
    (¬Trailing sections → ∃ p, compile level sections = .ok p) := by
  constructor
  · rintro ⟨⟨moves, hmem, hne⟩, hlast⟩
    have hplaced : placed 0 sections ≠ [] :=
      mt placed_eq_nil_iff.1 fun h ↦ hne (List.flatten_eq_nil_iff.1 h moves hmem)
    have he := List.getLast?_eq_some_getLast hplaced
    generalize (placed 0 sections).getLast hplaced = e at he
    obtain ⟨hend, hgreatest⟩ := last_placed he
    exact ⟨Fault.after level e, e.2, e.1,
      compile_eq_error_iff.2 (compileSections_eq_error_iff.2 ⟨hlast, e, he, rfl⟩), hend, hgreatest,
      rfl⟩
  · intro htrailing
    cases hresult : compile level sections with
    | ok p => exact ⟨p, rfl⟩
    | error fault =>
      obtain ⟨hlast, e, he, -⟩ := compileSections_eq_error_iff.1 (compile_eq_error_iff.1 hresult)
      obtain ⟨moves, hmoves, hne⟩ := (last_placed he).2.1
      exact absurd ⟨⟨moves, List.mem_of_getElem? hmoves, hne⟩, hlast⟩ htrailing

/-- Moves behind and in front of empty sections. -/
def trailed : List (List MoveEvent) :=
  [[⟨1, "wave_a", "dc1", "gonow", "wave_gonow"⟩], [],
    [⟨3, "wave_a", "dc1", "gonow", "wave_gonow"⟩,
      ⟨4, "clap_a", "dc1", "gonow", "clap_gonow.move"⟩], [], []]

theorem compile_fails_iff_trailing_trailed :
    Trailing trailed ∧ ∃ fault, compile .easy trailed = .error fault ∧
      fault.report = .validation .practice (some (.measure 4))
        "no next move found after `clap` in easy section 2" := by
  have htrailing : Trailing trailed := ⟨⟨_, List.mem_cons_self, by simp⟩, rfl⟩
  obtain ⟨fault, e, index, hfails, he, hindex, hreport⟩ :=
    (compile_fails_iff_trailing .easy trailed).1 htrailing
  have hlast : trailed.flatten.getLast? =
      some ⟨4, "clap_a", "dc1", "gonow", "clap_gonow.move"⟩ := rfl
  have hgreatest : IsGreatest {i | ∃ moves, trailed[i]? = some moves ∧ moves ≠ []} 2 := by
    refine ⟨⟨_, rfl, by simp⟩, ?_⟩
    rintro i ⟨moves, hmoves, hne⟩
    match i with
    | 0 | 1 | 2 => omega
    | 3 | 4 => exact absurd (Option.some.inj hmoves).symm hne
    | i + 5 => cases hmoves
  obtain rfl := Option.some.inj (hlast.symm.trans he)
  have hname : shortName ⟨4, "clap_a", "dc1", "gonow", "clap_gonow.move"⟩ = "clap" := by decide
  rw [hname, hindex.unique hgreatest] at hreport
  exact ⟨htrailing, fault, hfails, hreport⟩

end SongBundle.Practice
