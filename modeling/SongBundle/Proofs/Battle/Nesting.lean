import SongBundle.Battle.Timeline
import SongBundle.Proofs.Basic
import SongBundle.Proofs.Outcome

/-!
# Which marks make a battle

A battle is `Nested` if its intervals follow one another after the battle start, and `script` lists
the marks that set it.  `Battle.compile` accepts the marks of a script in any order and nothing
else.

* `Reached` says how far a battle is after a list of marks: nothing is marked yet, or the script of
  a nested battle is complete, or one more interval is under way.  `Reached.advance` is the step and
  `Reached.foldlM` the run.
* `foldlM_script` is the way back: the marks of a script are all accepted.
* `mergeSort_eq_script` says that a script is recovered from any arrangement of its marks, since no
  two of them agree in measure and rank.
* `compile_eq_ok_iff` puts these together.
-/

set_option autoImplicit false

namespace SongBundle.Battle

open Outcome

/-! ## The order in which marks are taken -/

theorem Event.before_iff {a b : Event} :
    a.before b = true ↔
      a.measure < b.measure ∨ a.measure = b.measure ∧ a.mark.rank ≤ b.mark.rank := by
  simp [before]

theorem Event.before_trans (a b c : Event) (hab : a.before b = true) (hbc : b.before c = true) :
    a.before c = true := by
  rw [before_iff] at *
  grind

theorem Event.before_total (a b : Event) : (a.before b || b.before a) = true := by
  rw [Bool.or_eq_true, before_iff, before_iff]
  grind

theorem Event.measure_le_of_before {a b : Event} (h : a.before b = true) :
    a.measure ≤ b.measure := by
  rw [before_iff] at h
  grind

theorem pairwise_mergeSort_before (events : List Event) :
    (events.mergeSort Event.before).Pairwise fun a b ↦ a.before b = true :=
  List.pairwise_mergeSort Event.before_trans Event.before_total events

/-! ## Nested battles -/

/-- The two marks of an interval. -/
def Interval.events (i : Interval) : List Event :=
  [⟨i.range.first, .opens i.kind⟩, ⟨i.range.last, .closes i.kind⟩]

theorem Interval.mem_events {i : Interval} {e : Event} :
    e ∈ i.events ↔ e = ⟨i.range.first, .opens i.kind⟩ ∨ e = ⟨i.range.last, .closes i.kind⟩ := by
  simp [events]

/-- The marks of a battle that starts at a measure and has the given intervals. -/
def script (start : UInt32) (intervals : List Interval) : List Event :=
  ⟨start, .battleStart⟩ :: intervals.flatMap Interval.events

/-- The intervals lie one after the other between the battle start and the last measure, and
minigames are long enough. -/
structure Nested (last start : UInt32) (intervals : List Interval) : Prop where
  start_le : start ≤ last
  le_first : ∀ i ∈ intervals, start ≤ i.range.first
  first_le : ∀ i ∈ intervals, i.range.first ≤ i.range.last
  le_last : ∀ i ∈ intervals, i.range.last ≤ last
  apart : intervals.Pairwise fun i j ↦ i.range.last < j.range.first
  long : ∀ i ∈ intervals, i.kind = .minigame →
    5 ≤ i.range.last.toNat - i.range.first.toNat + 1

theorem nested_nil {last start : UInt32} (h : start ≤ last) : Nested last start [] where
  start_le := h
  le_first := by simp
  first_le := by simp
  le_last := by simp
  apart := .nil
  long := by simp

/-- A nested battle goes on with an interval after all that it has. -/
theorem Nested.concat {last start : UInt32} {intervals : List Interval} {i : Interval}
    (h : Nested last start intervals) (hstart : start ≤ i.range.first)
    (hafter : ∀ j ∈ intervals, j.range.last < i.range.first)
    (hfirst : i.range.first ≤ i.range.last) (hlast : i.range.last ≤ last)
    (hlong : i.kind = .minigame → 5 ≤ i.range.last.toNat - i.range.first.toNat + 1) :
    Nested last start (intervals ++ [i]) where
  start_le := h.start_le
  le_first := List.forall_mem_append.2 ⟨h.le_first, by simpa using hstart⟩
  first_le := List.forall_mem_append.2 ⟨h.first_le, by simpa using hfirst⟩
  le_last := List.forall_mem_append.2 ⟨h.le_last, by simpa using hlast⟩
  apart := List.pairwise_append.2 ⟨h.apart, List.pairwise_singleton .., by simpa using hafter⟩
  long := List.forall_mem_append.2 ⟨h.long, by simpa using hlong⟩

theorem script_concat (start : UInt32) (intervals : List Interval) (i : Interval) :
    script start (intervals ++ [i]) =
      script start intervals ++
        [⟨i.range.first, .opens i.kind⟩, ⟨i.range.last, .closes i.kind⟩] := by
  simp [script, Interval.events]

/-! ## One mark -/

namespace Progress

variable {p q : Progress} {kind : Kind} {measure last : UInt32} {e : Event}

theorem start_eq_ok_iff :
    p.start measure = .ok q ↔ p.started = none ∧ q = { p with started := some measure } := by
  rw [start]
  split
  · simp_all
  · simp_all [eq_comm]

/-- A solo or minigame starts in a battle, with none under way, after the latest that ended. -/
theorem openAt_eq_ok_iff :
    p.openAt kind measure = .ok q ↔
      p.started.isSome ∧ p.current = none ∧ (∀ i ∈ p.ended.head?, i.range.last < measure) ∧
        q = { p with current := some (kind, measure) } := by
  rw [openAt]
  split
  · simp_all
  · split
    · simp_all
    · simp_all
  · rename_i latest rest hstarted hcurrent hended
    have hlatest : (∀ i ∈ p.ended.head?, i.range.last < measure) ↔ latest.range.last < measure := by
      simp [hended]
    rw [hlatest, hstarted, hcurrent]
    split
    · rename_i hle
      simp [UInt32.not_lt.2 hle]
    · rename_i hle
      simp [UInt32.not_le.1 hle, eq_comm]
  · simp_all [eq_comm]

/-- A solo or minigame ends if it is the one under way, and a minigame if it was long enough. -/
theorem closeAt_eq_ok_iff :
    p.closeAt kind measure = .ok q ↔
      ∃ first, p.current = some (kind, first) ∧
        ¬(kind = .minigame ∧ (MeasureRange.mk first measure).length < leastMinigame) ∧
        q = { p with current := none, ended := ⟨kind, ⟨first, measure⟩⟩ :: p.ended } := by
  rw [closeAt]
  split
  · rename_i other first hcurrent
    by_cases hkind : other = kind
    · subst hkind
      simp only [ne_eq, not_true_eq_false, if_false, hcurrent, Option.some.injEq, Prod.mk.injEq,
        true_and, exists_eq_left']
      split
      · rename_i hshort
        exact ⟨fun h ↦ (nomatch h), fun h ↦ absurd hshort h.1⟩
      · rename_i hlong
        exact ⟨fun h ↦ ⟨hlong, (Except.ok.inj h).symm⟩, fun h ↦ congrArg _ h.2.symm⟩
    · simp [hkind, hcurrent]
  · rename_i hcurrent
    simp [hcurrent]

/-- What taking a mark needs and does. -/
theorem advance_eq_ok_iff :
    p.advance last e = .ok q ↔
      e.measure ≤ last ∧
        match e.mark with
        | .battleStart => p.start e.measure = .ok q
        | .opens kind => p.openAt kind e.measure = .ok q
        | .closes kind => p.closeAt kind e.measure = .ok q := by
  rw [advance]
  split
  · grind
  · cases e.mark <;> grind

end Progress

/-! ## A run of marks -/

/-- How far a battle is after a list of marks. -/
inductive Reached (last : UInt32) : List Event → Progress → Prop where
  | initial : Reached last [] .initial
  | between {start : UInt32} {intervals : List Interval} (h : Nested last start intervals) :
      Reached last (script start intervals) ⟨some start, none, intervals.reverse⟩
  | during {start first : UInt32} {intervals : List Interval} (kind : Kind)
      (h : Nested last start intervals) (hstart : start ≤ first)
      (hafter : ∀ i ∈ intervals, i.range.last < first) :
      Reached last (script start intervals ++ [⟨first, .opens kind⟩])
        ⟨some start, some (kind, first), intervals.reverse⟩

/-- In a nested battle, what starts after the latest interval starts after all of them. -/
theorem Nested.last_lt_of_head {last start measure : UInt32} {intervals : List Interval}
    (h : Nested last start intervals)
    (hhead : ∀ i ∈ intervals.reverse.head?, i.range.last < measure) :
    ∀ i ∈ intervals, i.range.last < measure := by
  intro i hi
  rw [List.head?_reverse] at hhead
  obtain ⟨front, latest, rfl⟩ :=
    (List.eq_nil_or_concat intervals).resolve_left (List.ne_nil_of_mem hi)
  rw [List.concat_eq_append] at *
  have hlatest : latest.range.last < measure := hhead latest (by simp)
  rcases List.mem_append.1 hi with hi | hi
  · have hapart := (List.pairwise_append.1 h.apart).2.2 i hi latest (by simp)
    have hfirst := h.first_le latest (by simp)
    grind
  · rw [List.mem_singleton.1 hi]
    exact hlatest

/-- The length of a range with ordered ends does not wrap below the greatest word. -/
theorem toNat_length {r : MeasureRange} (hle : r.first ≤ r.last)
    (hlt : r.last.toNat + 1 < UInt32.size) :
    r.length.toNat = r.last.toNat - r.first.toNat + 1 := by
  have hspan : r.last.toNat - r.first.toNat + 1 < UInt32.size :=
    Nat.lt_of_le_of_lt (Nat.succ_le_succ (Nat.sub_le _ _)) hlt
  rw [MeasureRange.length, UInt32.toNat_add, UInt32.toNat_sub_of_le _ _ hle]
  exact Nat.mod_eq_of_lt hspan

/-- One more mark, no earlier than those before it, brings a battle one step further. -/
theorem Reached.advance {last : UInt32} {marks : List Event} {p q : Progress} {e : Event}
    (h : Reached last marks p) (hlast : last.toNat + 1 < UInt32.size)
    (hle : ∀ a ∈ marks, a.measure ≤ e.measure) (hq : p.advance last e = .ok q) :
    Reached last (marks ++ [e]) q := by
  obtain ⟨measure, mark⟩ := e
  rw [Progress.advance_eq_ok_iff] at hq
  obtain ⟨hmeasure, hq⟩ := hq
  cases mark with
  | battleStart =>
    obtain ⟨hstarted, rfl⟩ := Progress.start_eq_ok_iff.1 hq
    cases h with
    | initial => exact .between (nested_nil hmeasure)
    | between | during => exact nomatch hstarted
  | opens kind =>
    obtain ⟨hstarted, hcurrent, hhead, rfl⟩ := Progress.openAt_eq_ok_iff.1 hq
    cases h with
    | initial => exact nomatch hstarted
    | between h =>
      exact .during kind h (hle ⟨_, .battleStart⟩ (by simp [script])) (h.last_lt_of_head hhead)
    | during => exact nomatch hcurrent
  | closes kind =>
    obtain ⟨first, hcurrent, hlong, rfl⟩ := Progress.closeAt_eq_ok_iff.1 hq
    cases h with
    | initial | between => exact nomatch hcurrent
    | @during start first' intervals kind' h hstart hafter =>
      obtain ⟨rfl, rfl⟩ : kind' = kind ∧ first' = first := by simpa using hcurrent
      have hfirst : first' ≤ measure := hle ⟨first', .opens kind'⟩ (by simp)
      have hfive : kind' = .minigame → 5 ≤ measure.toNat - first'.toNat + 1 := fun hkind ↦ by
        have hlength : ¬(MeasureRange.mk first' measure).length < leastMinigame :=
          fun hl ↦ hlong ⟨hkind, hl⟩
        rw [← toNat_length (r := ⟨first', measure⟩) hfirst]
        · exact UInt32.le_iff_toNat_le.1 (UInt32.not_lt.1 hlength)
        · exact succ_lt_size_of_le hmeasure hlast
      have hnext := h.concat (i := ⟨kind', ⟨first', measure⟩⟩) hstart hafter hfirst hmeasure hfive
      have hreached := Reached.between hnext
      rw [script_concat, List.reverse_concat] at hreached
      simpa using hreached

/-- Marks in ascending order bring a battle as far as they are accepted. -/
theorem Reached.foldlM {last : UInt32} {marks rest : List Event} {p q : Progress}
    (h : Reached last marks p) (hlast : last.toNat + 1 < UInt32.size)
    (hsorted : (marks ++ rest).Pairwise fun a b ↦ a.before b = true)
    (hq : rest.foldlM (Progress.advance last) p = .ok q) : Reached last (marks ++ rest) q := by
  induction rest generalizing marks p with
  | nil =>
    rw [List.append_nil]
    exact Outcome.pure_eq_ok_iff.1 hq ▸ h
  | cons e rest ih =>
    obtain ⟨mid, hmid, hrest⟩ := foldlM_cons_eq_ok_iff.1 hq
    have hle : ∀ a ∈ marks, a.measure ≤ e.measure := fun a ha ↦
      Event.measure_le_of_before ((List.pairwise_append.1 hsorted).2.2 a ha e (by simp))
    rw [List.append_cons] at hsorted ⊢
    exact ih (h.advance hlast hle hmid) hsorted hrest

/-! ## The way back -/

/-- The intervals of a nested battle are accepted one after the other. -/
theorem foldlM_events {last start : UInt32} {done rest : List Interval}
    (hlast : last.toNat + 1 < UInt32.size) (h : Nested last start (done ++ rest)) :
    (rest.flatMap Interval.events).foldlM (Progress.advance last) ⟨some start, none, done.reverse⟩ =
      .ok ⟨some start, none, (done ++ rest).reverse⟩ := by
  induction rest generalizing done with
  | nil => simp [pure, Except.pure]
  | cons i rest ih =>
    have hi : i ∈ done ++ i :: rest := by simp
    have hle := h.first_le i hi
    have hinside := h.le_last i hi
    have hopen : Progress.advance last ⟨some start, none, done.reverse⟩
        ⟨i.range.first, .opens i.kind⟩ =
          .ok ⟨some start, some (i.kind, i.range.first), done.reverse⟩ := by
      refine Progress.advance_eq_ok_iff.2 ⟨UInt32.le_trans hle hinside, ?_⟩
      refine Progress.openAt_eq_ok_iff.2 ⟨rfl, rfl, fun j hj ↦ ?_, rfl⟩
      have hj : j ∈ done := List.mem_reverse.1 (List.mem_of_mem_head? hj)
      exact (List.pairwise_append.1 h.apart).2.2 j hj i (by simp)
    have hclose : Progress.advance last ⟨some start, some (i.kind, i.range.first), done.reverse⟩
        ⟨i.range.last, .closes i.kind⟩ = .ok ⟨some start, none, (done ++ [i]).reverse⟩ := by
      refine Progress.advance_eq_ok_iff.2 ⟨hinside, ?_⟩
      refine Progress.closeAt_eq_ok_iff.2 ⟨i.range.first, rfl, fun hshort ↦ ?_, by simp⟩
      have hfive := h.long i hi hshort.1
      have hlength := UInt32.lt_iff_toNat_lt.1 hshort.2
      rw [toNat_length hle (succ_lt_size_of_le hinside hlast)] at hlength
      exact absurd hlength (Nat.not_lt.2 hfive)
    rw [List.flatMap_cons, Interval.events, List.cons_append, List.cons_append, List.nil_append]
    rw [List.append_cons] at h ⊢
    exact foldlM_cons_eq_ok_iff.2 ⟨_, hopen, foldlM_cons_eq_ok_iff.2 ⟨_, hclose, ih h⟩⟩

/-- The marks of a nested battle are accepted in the order of its script. -/
theorem foldlM_script {last start : UInt32} {intervals : List Interval}
    (hlast : last.toNat + 1 < UInt32.size) (h : Nested last start intervals) :
    (script start intervals).foldlM (Progress.advance last) .initial =
      .ok ⟨some start, none, intervals.reverse⟩ := by
  have hstart : Progress.advance last .initial ⟨start, .battleStart⟩ = .ok ⟨some start, none, []⟩ :=
    Progress.advance_eq_ok_iff.2 ⟨h.start_le, rfl⟩
  have hrest := foldlM_events hlast (show Nested last start ([] ++ intervals) from h)
  exact foldlM_cons_eq_ok_iff.2 ⟨_, hstart, hrest⟩

/-! ## Scripts are recovered by sorting -/

theorem mem_script {start : UInt32} {intervals : List Interval} {e : Event} :
    e ∈ script start intervals ↔ e = ⟨start, .battleStart⟩ ∨ ∃ i ∈ intervals,
      e = ⟨i.range.first, .opens i.kind⟩ ∨ e = ⟨i.range.last, .closes i.kind⟩ := by
  simp [script, Interval.mem_events]

/-- Two intervals of a nested battle that share a measure are the same one. -/
theorem Nested.eq_of_meets {last start : UInt32} {intervals : List Interval} {i j : Interval}
    (h : Nested last start intervals) (hi : i ∈ intervals) (hj : j ∈ intervals)
    (hij : i.range.first ≤ j.range.last) (hji : j.range.first ≤ i.range.last) : i = j := by
  obtain ⟨a, ha, rfl⟩ := List.getElem_of_mem hi
  obtain ⟨b, hb, rfl⟩ := List.getElem_of_mem hj
  have hapart := List.pairwise_iff_getElem.1 h.apart
  rcases Nat.lt_trichotomy a b with hab | rfl | hab
  · exact absurd hji (UInt32.not_le.2 (hapart a b ha hb hab))
  · rfl
  · exact absurd hij (UInt32.not_le.2 (hapart b a hb ha hab))

/-- No two marks of a script agree in measure and rank. -/
theorem Nested.eq_of_before {last start : UInt32} {intervals : List Interval} {a b : Event}
    (h : Nested last start intervals) (ha : a ∈ script start intervals)
    (hb : b ∈ script start intervals) (hab : a.before b = true) (hba : b.before a = true) :
    a = b := by
  rw [Event.before_iff] at hab hba
  have hmeasure : a.measure = b.measure := by grind
  have hrank : a.mark.rank = b.mark.rank := by grind
  rcases mem_script.1 ha with rfl | ⟨i, hi, rfl | rfl⟩ <;>
    rcases mem_script.1 hb with rfl | ⟨j, hj, rfl | rfl⟩ <;> simp [Mark.rank] at hmeasure hrank
  · rfl
  · rw [h.eq_of_meets hi hj (hmeasure ▸ h.first_le j hj) (hmeasure ▸ h.first_le i hi)]
  · rw [h.eq_of_meets hi hj (hmeasure ▸ h.first_le i hi) (hmeasure ▸ h.first_le j hj)]

theorem Nested.pairwise_script {last start : UInt32} {intervals : List Interval}
    (h : Nested last start intervals) :
    (script start intervals).Pairwise fun a b ↦ a.before b = true := by
  refine List.pairwise_cons.2 ⟨fun e he ↦ ?_, List.pairwise_flatMap.2 ⟨fun i hi ↦ ?_, ?_⟩⟩
  · obtain ⟨i, hi, he⟩ := List.mem_flatMap.1 he
    have hstart := h.le_first i hi
    have hle := h.first_le i hi
    rw [Event.before_iff]
    rcases Interval.mem_events.1 he with rfl | rfl <;> grind [Mark.rank]
  · have hle := h.first_le i hi
    simp only [Interval.events, List.pairwise_cons, List.mem_singleton, forall_eq,
      Event.before_iff, List.not_mem_nil, false_implies, implies_true, List.Pairwise.nil, and_true]
    grind [Mark.rank]
  · refine h.apart.imp_of_mem fun {i j} hi hj hij a ha b hb ↦ ?_
    have hle := h.first_le i hi
    have hle' := h.first_le j hj
    rw [Event.before_iff]
    rcases Interval.mem_events.1 ha with rfl | rfl <;>
      rcases Interval.mem_events.1 hb with rfl | rfl <;> grind

/-- Whatever the arrangement of a script, sorting restores it. -/
theorem mergeSort_eq_script {last start : UInt32} {intervals : List Interval} {events : List Event}
    (h : Nested last start intervals) (hperm : events.Perm (script start intervals)) :
    events.mergeSort Event.before = script start intervals := by
  have hsorted := (List.mergeSort_perm events Event.before).trans hperm
  refine List.Perm.eq_of_pairwise (fun a b ha hb hab hba ↦ ?_) (pairwise_mergeSort_before events)
    h.pairwise_script hsorted
  exact h.eq_of_before (hsorted.mem_iff.1 ha) hb hab hba

theorem flatMap_events_inj {is js : List Interval}
    (h : is.flatMap Interval.events = js.flatMap Interval.events) : is = js := by
  induction is generalizing js with
  | nil =>
    cases js with
    | nil => rfl
    | cons j js => simp [Interval.events] at h
  | cons i is ih =>
    cases js with
    | nil => simp [Interval.events] at h
    | cons j js =>
      obtain ⟨kind, first, last⟩ := i
      obtain ⟨kind', first', last'⟩ := j
      simp only [List.flatMap_cons, Interval.events, List.cons_append, List.nil_append,
        List.cons.injEq, Event.mk.injEq, Mark.opens.injEq] at h
      obtain ⟨⟨rfl, rfl⟩, ⟨rfl, -⟩, hrest⟩ := h
      rw [ih hrest]

theorem script_inj {start start' : UInt32} {is js : List Interval}
    (h : script start is = script start' js) : start = start' ∧ is = js := by
  rw [script, script, List.cons.injEq, Event.mk.injEq] at h
  exact ⟨h.1.1, flatMap_events_inj h.2⟩

/-! ## Compiled battles -/

/-- Progress that can be finished belongs to a complete script. -/
theorem Reached.of_finish {last start : UInt32} {marks : List Event} {p : Progress}
    {intervals : List Interval} (h : Reached last marks p)
    (hfinish : p.finish = .ok (start, intervals)) :
    Nested last start intervals ∧ marks = script start intervals := by
  cases h with
  | initial | during => exact nomatch hfinish
  | between h =>
    rw [Progress.finish, List.reverse_reverse] at hfinish
    obtain ⟨rfl, rfl⟩ := Prod.mk.inj (Except.ok.inj hfinish)
    exact ⟨h, rfl⟩

/-- A battle compiles exactly if its marks are those of a nested battle, to the bridges over what
that battle leaves free and the steps of its intervals. -/
theorem compile_eq_ok_iff {events : List Event} {total : UInt32} {steps : List Step} :
    compile events total = .ok steps ↔
      total ≠ 0 ∧ ∃ start intervals, Nested (total - 1) start intervals ∧
        events.Perm (script start intervals) ∧
        steps = (gaps (total - 1) 0 intervals).map (bridge start) ++
          intervals.map Interval.step := by
  rw [compile, guard_bind_eq_ok_iff]
  refine and_congr_right fun htotal ↦ ?_
  have hlast := toNat_pred htotal ▸ total.toNat_lt
  constructor
  · intro h
    obtain ⟨progress, hrun, h⟩ := bind_eq_ok_iff.1 h
    obtain ⟨⟨start, intervals⟩, hfinish, h⟩ := bind_eq_ok_iff.1 h
    have hreached := Reached.initial.foldlM hlast (pairwise_mergeSort_before events) hrun
    obtain ⟨hnested, hmarks⟩ := hreached.of_finish hfinish
    refine ⟨start, intervals, hnested, ?_, (pure_eq_ok_iff.1 h).symm⟩
    exact (List.mergeSort_perm events Event.before).symm.trans (.of_eq hmarks)
  · rintro ⟨start, intervals, hnested, hperm, rfl⟩
    rw [mergeSort_eq_script hnested hperm, foldlM_script hlast hnested]
    refine bind_eq_ok_iff.2 ⟨_, rfl, bind_eq_ok_iff.2 ⟨(start, intervals), ?_, rfl⟩⟩
    simp [Progress.finish]

theorem compile_eq_ok_iff_of_perm {events events' : List Event} (hperm : events.Perm events')
    {total : UInt32} {steps : List Step} :
    compile events total = .ok steps ↔ compile events' total = .ok steps := by
  rw [compile_eq_ok_iff, compile_eq_ok_iff]
  refine and_congr_right fun _ ↦ exists_congr fun start ↦ exists_congr fun intervals ↦
    and_congr_right fun _ ↦ and_congr_left fun _ ↦ ?_
  exact ⟨fun h ↦ hperm.symm.trans h, fun h ↦ hperm.trans h⟩

/-- Who dances, where the camera looks and what the others do during a solo or minigame. -/
def Kind.setting : Kind → Players × Camera × Pastime × Mode
  | .firstSolo => (.first, .firstSolo, .watch, .solo)
  | .secondSolo => (.second, .secondSolo, .watch, .solo)
  | .minigame => (.both, .minigame, .none, .minigame)

/-- A step plays an interval throughout, in the setting of its kind. -/
structure Interval.Plays (i : Interval) (s : Step) : Prop where
  music : s.music = i.range
  play : s.play = some i.range
  setting : (s.players, s.camera, s.pastime, s.mode) = i.kind.setting

theorem Interval.plays_step (i : Interval) : i.Plays i.step := by
  obtain ⟨kind, range⟩ := i
  cases kind <;> exact ⟨rfl, rfl, rfl⟩

theorem Interval.mode_step_ne (i : Interval) : i.step.mode ≠ .normal := by
  obtain ⟨kind, range⟩ := i
  cases kind <;> simp [step]

theorem mode_bridge (start : UInt32) (range : MeasureRange) :
    (bridge start range).mode = .normal := by
  rw [bridge]
  split <;> rfl

/-- The steps of a compiled battle that are no bridges. -/
theorem filter_mode_ne_normal (start : UInt32) (ranges : List MeasureRange)
    (intervals : List Interval) :
    (ranges.map (bridge start) ++ intervals.map Interval.step).filter (·.mode ≠ .normal) =
      intervals.map Interval.step := by
  have hbridges : (ranges.map (bridge start)).filter (·.mode ≠ .normal) = [] := by
    simp [mode_bridge]
  have hsteps : (intervals.map Interval.step).filter (·.mode ≠ .normal) =
      intervals.map Interval.step := by
    simp [Interval.mode_step_ne]
  rw [List.filter_append, hbridges, hsteps, List.nil_append]

/-- **A battle compiles exactly if it is nested**, whatever the arrangement of its marks.  Its
solos and minigames come out as they were set, and the result depends on nothing but the marks. -/
theorem compile_accepts_nested (events : List Event) (total : UInt32) :
    ((∃ steps, compile events total = .ok steps) ↔
      1 ≤ total ∧ ∃ start intervals, Nested (total - 1) start intervals ∧
        events.Perm (script start intervals)) ∧
    (∀ steps start intervals, compile events total = .ok steps →
      Nested (total - 1) start intervals → events.Perm (script start intervals) →
        List.Forall₂ Interval.Plays intervals (steps.filter (·.mode ≠ .normal))) ∧
    ∀ events', events'.Perm events → ∀ steps,
      compile events' total = .ok steps ↔ compile events total = .ok steps := by
  refine ⟨⟨fun ⟨steps, h⟩ ↦ ?_, fun ⟨htotal, start, intervals, h⟩ ↦ ?_⟩,
    fun steps start intervals h hnested hperm ↦ ?_, fun events' hperm steps ↦ ?_⟩
  · obtain ⟨htotal, start, intervals, hnested, hperm, -⟩ := compile_eq_ok_iff.1 h
    exact ⟨by grind, start, intervals, hnested, hperm⟩
  · exact ⟨_, compile_eq_ok_iff.2 ⟨by grind, start, intervals, h.1, h.2, rfl⟩⟩
  · obtain ⟨-, start', intervals', hnested', hperm', rfl⟩ := compile_eq_ok_iff.1 h
    obtain ⟨rfl, rfl⟩ := script_inj
      ((mergeSort_eq_script hnested' hperm').symm.trans (mergeSort_eq_script hnested hperm))
    rw [filter_mode_ne_normal, List.forall₂_map_right_iff]
    exact List.forall₂_same.2 fun i _ ↦ i.plays_step
  · exact compile_eq_ok_iff_of_perm hperm

/-- A solo marked before the battle start of its measure, and one that ends where it starts. -/
theorem compile_accepts_nested_same_measure :
    ∃ steps, compile [⟨0, .opens .firstSolo⟩, ⟨4, .closes .secondSolo⟩, ⟨3, .closes .firstSolo⟩,
        ⟨0, .battleStart⟩, ⟨4, .opens .secondSolo⟩] 5 = .ok steps ∧
      List.Forall₂ Interval.Plays [⟨.firstSolo, ⟨0, 3⟩⟩, ⟨.secondSolo, ⟨4, 4⟩⟩]
        (steps.filter (·.mode ≠ .normal)) := by
  have hnested : Nested (5 - 1) 0 [⟨.firstSolo, ⟨0, 3⟩⟩, ⟨.secondSolo, ⟨4, 4⟩⟩] :=
    ⟨by decide, by decide, by decide, by decide, by decide, by decide⟩
  have hperm : [⟨0, .opens .firstSolo⟩, ⟨4, .closes .secondSolo⟩, ⟨3, .closes .firstSolo⟩,
      ⟨0, .battleStart⟩, ⟨4, .opens .secondSolo⟩].Perm
        (script 0 [⟨.firstSolo, ⟨0, 3⟩⟩, ⟨.secondSolo, ⟨4, 4⟩⟩]) := by decide
  obtain ⟨steps, h⟩ := (compile_accepts_nested _ 5).1.2 ⟨by decide, 0, _, hnested, hperm⟩
  exact ⟨steps, h, (compile_accepts_nested _ 5).2.1 steps 0 _ h hnested hperm⟩

end SongBundle.Battle
