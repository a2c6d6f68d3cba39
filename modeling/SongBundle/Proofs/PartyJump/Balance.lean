import Mathlib.Order.Bounds.Defs
import SongBundle.Proofs.PartyJump

/-!
# Where marks of party jumps break

The starts up to a measure less the ends up to there are the jumps that are under way behind it
(`balance`), and this has to be none or one.  A measure with marks is `Broken` if it is not so
there, or if the measure lies behind the song.

* `tells_of_advanceMeasure` is the step: the marks of one measure are refused only if the measure is
  broken, whatever was under way before it, and the fault says in which way.
* `verdict_foldlM` is the run: the first measure that is refused is the first one that is broken.
* `compile_points_at_first_broken` adds the jump that is still under way at the end.
-/

set_option autoImplicit false

namespace SongBundle.PartyJump

open Outcome

variable {total : UInt32} {p q : Progress} {e : Event} {group events : List Event} {fault : Fault}

/-! ## Counting marks -/

/-- How many more starts than ends there are. -/
def surplus (events : List Event) : Int :=
  (events.countP (·.mark = .start) : Int) - events.countP (·.mark = .stop)

/-- How many jumps are under way behind a measure. -/
def balance (events : List Event) (measure : UInt32) : Int :=
  surplus (events.filter (·.measure ≤ measure))

/-- A measure is fine if it lies in the song and one jump or none is under way behind it. -/
def Fine (total measure : UInt32) (level : Int) : Prop :=
  measure < total ∧ (level = 0 ∨ level = 1)

instance (total measure : UInt32) (level : Int) : Decidable (Fine total measure level) :=
  inferInstanceAs (Decidable (_ ∧ _))

/-- A measure has marks and is not fine. -/
def Broken (events : List Event) (total measure : UInt32) : Prop :=
  (∃ e ∈ events, e.measure = measure) ∧ ¬Fine total measure (balance events measure)

instance (events : List Event) (total measure : UInt32) :
    Decidable (Broken events total measure) :=
  inferInstanceAs (Decidable (_ ∧ _))

@[simp] theorem surplus_nil : surplus [] = 0 := rfl

theorem surplus_append (events events' : List Event) :
    surplus (events ++ events') = surplus events + surplus events' := by
  simp only [surplus, List.countP_append]
  omega

theorem surplus_cons (e : Event) (events : List Event) :
    surplus (e :: events) = surplus [e] + surplus events :=
  surplus_append [e] events

theorem surplus_of_perm {events events' : List Event} (h : events.Perm events') :
    surplus events = surplus events' := by
  rw [surplus, surplus, h.countP_eq, h.countP_eq]

theorem surplus_of_starts (h : ∀ e ∈ events, e.mark = .start) :
    surplus events = events.length := by
  have hstart : events.countP (·.mark = .start) = events.length :=
    List.countP_eq_length.2 fun e he ↦ decide_eq_true (h e he)
  have hstop : events.countP (·.mark = .stop) = 0 :=
    List.countP_eq_zero.2 fun e he ↦ by simp [h e he]
  rw [surplus, hstart, hstop]
  exact Int.sub_zero _

theorem surplus_of_stops (h : ∀ e ∈ events, e.mark = .stop) :
    surplus events = -events.length := by
  have hstart : events.countP (·.mark = .start) = 0 :=
    List.countP_eq_zero.2 fun e he ↦ by simp [h e he]
  have hstop : events.countP (·.mark = .stop) = events.length :=
    List.countP_eq_length.2 fun e he ↦ decide_eq_true (h e he)
  rw [surplus, hstart, hstop]
  exact Int.zero_sub _

theorem balance_append (events events' : List Event) (measure : UInt32) :
    balance (events ++ events') measure = balance events measure + balance events' measure := by
  rw [balance, List.filter_append, surplus_append, balance, balance]

theorem balance_of_le {measure : UInt32} (h : ∀ e ∈ events, e.measure ≤ measure) :
    balance events measure = surplus events := by
  rw [balance, List.filter_eq_self.2 fun e he ↦ decide_eq_true (h e he)]

theorem balance_of_lt {measure : UInt32} (h : ∀ e ∈ events, measure < e.measure) :
    balance events measure = 0 := by
  rw [balance, List.filter_eq_nil_iff.2 fun e he ↦ by simpa using h e he, surplus_nil]

theorem balance_of_perm {events events' : List Event} (h : events.Perm events')
    (measure : UInt32) : balance events measure = balance events' measure :=
  surplus_of_perm (h.filter _)

/-! ## One measure -/

/-- How many jumps are under way. -/
def Progress.level (p : Progress) : Int := if p.current.isSome then 1 else 0

theorem Progress.level_cases (p : Progress) : p.level = 0 ∨ p.level = 1 := by
  rw [level]
  split <;> simp

/-- A fault says what is wrong with its measure, behind which so many jumps are under way. -/
inductive Fault.Tells (total : UInt32) (level : Int) : Fault → Prop
  | pastEnd {measure : UInt32} (h : total ≤ measure) : Tells total level (.pastEnd measure total)
  | startedTwice {measure since : UInt32} (hlt : measure < total) (h : 1 < level) :
      Tells total level (.startedTwice measure since)
  | neverStarted {measure : UInt32} (hlt : measure < total) (h : level < 0) :
      Tells total level (.neverStarted measure)

theorem Fault.Tells.not_fine {level : Int} (h : fault.Tells total level) :
    ¬Fine total fault.measure level := by
  rintro ⟨hlt, hlevel⟩
  cases h with
  | pastEnd h => exact UInt32.not_lt.2 h hlt
  | startedTwice _ h => omega
  | neverStarted _ h => omega

/-- A mark that is taken changes what is under way by one. -/
theorem Progress.level_advance (h : p.advance total e = .ok q) :
    q.level = p.level + surplus [e] := by
  obtain ⟨measure, mark⟩ := e
  obtain ⟨current, ended⟩ := p
  rw [advance] at h
  split at h
  · cases h
  · cases mark <;> cases current <;> cases h <;> rfl

/-- A mark that is refused breaks its measure, if none of the marks that are left there could have
been taken in its place. -/
theorem tells_of_advance {es : List Event}
    (hmarks : e.mark ≠ p.wanted → ∀ a ∈ es, a.mark ≠ p.wanted)
    (h : p.advance total e = .error fault) :
    fault.measure = e.measure ∧ fault.Tells total (p.level + surplus (e :: es)) := by
  obtain ⟨measure, mark⟩ := e
  obtain ⟨current, ended⟩ := p
  rw [Progress.advance] at h
  split at h
  · rename_i hle
    cases h
    exact ⟨rfl, .pastEnd hle⟩
  · rename_i hlt
    have hlt := UInt32.not_le.1 hlt
    cases mark <;> cases current <;> cases h
    · -- a start while a jump is under way: there are only starts
      have hstarts : ∀ a ∈ (⟨measure, .start⟩ : Event) :: es, a.mark = .start := by
        refine List.forall_mem_cons.2 ⟨rfl, fun a ha ↦ ?_⟩
        have hne : a.mark ≠ .stop := hmarks (show Mark.start ≠ .stop by decide) a ha
        cases hmark : a.mark <;> simp_all
      refine ⟨rfl, .startedTwice hlt ?_⟩
      rw [surplus_of_starts hstarts, List.length_cons, Progress.level, Option.isSome_some,
        if_pos rfl]
      omega
    · -- an end while no jump is under way: there are only ends
      have hstops : ∀ a ∈ (⟨measure, .stop⟩ : Event) :: es, a.mark = .stop := by
        refine List.forall_mem_cons.2 ⟨rfl, fun a ha ↦ ?_⟩
        have hne : a.mark ≠ .start := hmarks (show Mark.stop ≠ .start by decide) a ha
        cases hmark : a.mark <;> simp_all
      refine ⟨rfl, .neverStarted hlt ?_⟩
      rw [surplus_of_stops hstops, List.length_cons, Progress.level, Option.isSome_none,
        if_neg Bool.false_ne_true]
      omega

/-- **The marks of a measure are refused only if it is not fine**, and the fault says why. -/
theorem tells_of_advanceMeasure {measure : UInt32} (hlevel : ∀ e ∈ group, e.measure = measure)
    (h : advanceMeasure total p group = .error fault) :
    fault.measure = measure ∧ fault.Tells total (p.level + surplus group) := by
  induction p, group using advanceMeasure.induct with
  | case1 p =>
    rw [advanceMeasure] at h
    cases h
  | case2 p e es _ =>
    rename_i ih
    have hpick := perm_pick p.wanted e es
    have hmarks : (pick p.wanted e es).1.mark ≠ p.wanted →
        ∀ a ∈ (pick p.wanted e es).2, a.mark ≠ p.wanted := fun hne a ha hmark ↦
      hne (mark_pick_eq_iff.2 ⟨a, hpick.mem_iff.2 (List.mem_cons_of_mem _ ha), hmark⟩)
    obtain ⟨rfl, hrest⟩ := List.forall_mem_cons.1 fun a ha ↦ hlevel a (hpick.mem_iff.2 ha)
    rw [advanceMeasure, bind_eq_error_iff] at h
    rw [surplus_of_perm hpick]
    rcases h with h | ⟨mid, hmid, h⟩
    · exact tells_of_advance hmarks h
    · rw [surplus_cons, ← Int.add_assoc, ← Progress.level_advance hmid]
      exact ih mid hrest h

/-- Marks that are taken change what is under way by their surplus. -/
theorem level_of_advanceMeasure (h : advanceMeasure total p group = .ok q) :
    q.level = p.level + surplus group := by
  obtain ⟨taken, hperm, htaken⟩ := exists_foldlM_of_advanceMeasure h
  rw [← surplus_of_perm hperm]
  clear h hperm
  induction taken generalizing p with
  | nil =>
    obtain rfl := pure_eq_ok_iff.1 htaken
    exact (Int.add_zero _).symm
  | cons e taken ih =>
    obtain ⟨mid, hmid, hrest⟩ := foldlM_cons_eq_ok_iff.1 htaken
    rw [ih hrest, Progress.level_advance hmid, surplus_cons e taken, Int.add_assoc]

/-- Marks that are taken lie in the song. -/
theorem measure_lt_of_advanceMeasure (h : advanceMeasure total p group = .ok q) :
    ∀ e ∈ group, e.measure < total := by
  obtain ⟨taken, hperm, htaken⟩ := exists_foldlM_of_advanceMeasure h
  exact fun e he ↦ (Progress.marks_foldlM htaken).2 e (hperm.mem_iff.2 he)

/-! ## All measures -/

/-- What a run over ascending marks tells of their measures: all are fine, or it stops at the first
one that is not. -/
def Verdict (total : UInt32) (p : Progress) (events : List Event) : Except Fault Progress → Prop
  | .ok q => q.level = p.level + surplus events ∧
      ∀ e ∈ events, Fine total e.measure (p.level + balance events e.measure)
  | .error fault => fault.Tells total (p.level + balance events fault.measure) ∧
      (∃ e ∈ events, e.measure = fault.measure) ∧
      ∀ e ∈ events, e.measure < fault.measure →
        Fine total e.measure (p.level + balance events e.measure)

/-- The verdict on marks of later measures, after those of one measure were taken. -/
theorem Verdict.append {mid : Progress} {measure : UInt32} {result : Except Fault Progress}
    (hgroup : ∀ e ∈ group, e.measure = measure) (hevents : ∀ e ∈ events, measure < e.measure)
    (hmid : advanceMeasure total p group = .ok mid) (h : Verdict total mid events result) :
    Verdict total p (group ++ events) result := by
  have hlevel := level_of_advanceMeasure hmid
  have hbehind {m : UInt32} (hm : measure ≤ m) :
      p.level + balance (group ++ events) m = mid.level + balance events m := by
    rw [balance_append, balance_of_le fun e he ↦ hgroup e he ▸ hm, hlevel, Int.add_assoc]
  have hlater {e : Event} (he : e ∈ events) :
      p.level + balance (group ++ events) e.measure = mid.level + balance events e.measure :=
    hbehind (UInt32.le_of_lt (hevents e he))
  have hfine : ∀ e ∈ group, Fine total e.measure
      (p.level + balance (group ++ events) e.measure) := by
    intro e he
    refine ⟨measure_lt_of_advanceMeasure hmid e he, ?_⟩
    rw [hgroup e he, hbehind (UInt32.le_refl _), balance_of_lt hevents, Int.add_zero]
    exact mid.level_cases
  cases result with
  | ok q =>
    obtain ⟨hq, hall⟩ := h
    refine ⟨?_, List.forall_mem_append.2 ⟨hfine, fun e he ↦ ?_⟩⟩
    · rw [hq, hlevel, surplus_append, Int.add_assoc]
    · exact hlater he ▸ hall e he
  | error fault =>
    obtain ⟨htells, ⟨e, he, hmeasure⟩, hall⟩ := h
    refine ⟨?_, ⟨e, List.mem_append_right _ he, hmeasure⟩, ?_⟩
    · rwa [← hmeasure, hlater he, hmeasure]
    · refine List.forall_mem_append.2 ⟨fun e he _ ↦ hfine e he, fun e he hlt ↦ ?_⟩
      exact hlater he ▸ hall e he hlt

/-- **A run stops at the first measure that is not fine.** -/
theorem verdict_foldlM (n : ℕ) {events : List Event} (hlength : events.length ≤ n)
    (h : Ascending events) (p : Progress) :
    Verdict total p events ((events.splitBy Event.beside).foldlM (advanceMeasure total) p) := by
  induction n generalizing events p with
  | zero =>
    obtain rfl := List.length_eq_zero_iff.1 (Nat.le_zero.1 hlength)
    exact ⟨(Int.add_zero _).symm, nofun⟩
  | succ n ih =>
    cases events with
    | nil => exact ⟨(Int.add_zero _).symm, nofun⟩
    | cons e es =>
      have hle : ∀ a ∈ e :: es, e.measure ≤ a.measure :=
        List.forall_mem_cons.2 ⟨UInt32.le_refl _, (List.pairwise_cons.1 h).1⟩
      have hgroup : ∀ a ∈ (e :: es).filter (·.measure = e.measure), a.measure = e.measure := by
        simp
      have hlater : ∀ a ∈ (e :: es).filter (·.measure ≠ e.measure), e.measure < a.measure := by
        intro a ha
        obtain ⟨hmem, hne⟩ := List.mem_filter.1 ha
        exact UInt32.lt_of_le_of_ne (hle a hmem) (Ne.symm (by simpa using hne))
      have hshorter : ((e :: es).filter (·.measure ≠ e.measure)).length ≤ n := by
        rw [List.filter_cons_of_neg (by simp)]
        exact Nat.le_trans (List.length_filter_le _ _) (Nat.le_of_succ_le_succ hlength)
      have hrest := ih hshorter (h.filter _)
      have hsplit := h.eq_filter_append hle
      rw [h.splitBy_cons, List.foldlM_cons]
      generalize (e :: es).filter (·.measure = e.measure) = group at *
      generalize (e :: es).filter (·.measure ≠ e.measure) = later at *
      cases hmid : advanceMeasure total p group with
      | ok mid => exact hsplit ▸ (hrest mid).append hgroup hlater hmid
      | error fault =>
        obtain ⟨hmeasure, htells⟩ := tells_of_advanceMeasure hgroup hmid
        refine ⟨?_, ⟨e, List.mem_cons_self, hmeasure.symm⟩, fun a ha hlt ↦ ?_⟩
        · rwa [hmeasure, hsplit, balance_append, balance_of_lt hlater, Int.add_zero,
            balance_of_le fun a ha ↦ UInt32.le_of_eq (hgroup a ha)]
        · exact absurd (hle a ha) (UInt32.not_le.2 (hmeasure ▸ hlt))

theorem Verdict.of_perm {events' : List Event} {result : Except Fault Progress}
    (hperm : events.Perm events') (h : Verdict total p events result) :
    Verdict total p events' result := by
  cases result with
  | ok q =>
    simpa only [Verdict, surplus_of_perm hperm, balance_of_perm hperm, hperm.mem_iff] using h
  | error fault => simpa only [Verdict, balance_of_perm hperm, hperm.mem_iff] using h

/-! ## Compiled jumps -/

/-- What becomes of the marks of a song is what a run over them tells, and a jump that is still
under way then was started by the last mark. -/
theorem exists_verdict (events : List Event) (total : UInt32) :
    ∃ result : Except Fault Progress, compile events total = result >>= Progress.finish ∧
      Verdict total .initial events result ∧
      ∀ q first, result = .ok q → q.current = some first →
        IsGreatest {measure | ⟨measure, .start⟩ ∈ events} first := by
  have hsorted := ascending_mergeSort events
  have hperm := List.mergeSort_perm events fun a b ↦ a.measure ≤ b.measure
  refine ⟨_, rfl, (verdict_foldlM _ le_rfl hsorted .initial).of_perm hperm, ?_⟩
  intro q first hrun hcurrent
  obtain ⟨taken, htaken, hmeasures, hrun⟩ :=
    exists_foldlM_of_groups (fun _ ↦ level_of_mem_splitBy) hrun
  rw [List.flatten_splitBy] at htaken hmeasures
  have hmarks : taken = script q.ended.reverse ++ [⟨first, .start⟩] := by
    have hall := (Progress.marks_foldlM hrun).1
    rw [Progress.marks, hcurrent] at hall
    exact hall.symm
  have hascending : (taken.map Event.measure).Pairwise (· ≤ ·) :=
    hmeasures ▸ hsorted.map_measure_pairwise
  rw [List.pairwise_map, hmarks, List.pairwise_append] at hascending
  have hmem (e : Event) : e ∈ events ↔ e ∈ taken := (htaken.trans hperm).mem_iff.symm
  refine ⟨(hmem _).2 (by simp [hmarks]), fun measure hmeasure ↦ ?_⟩
  have hmeasure := (hmem _).1 hmeasure
  rw [hmarks, List.mem_append, List.mem_singleton] at hmeasure
  rcases hmeasure with hbefore | hlast
  · exact hascending.2.2 _ hbefore _ List.mem_cons_self
  · cases hlast
    exact UInt32.le_refl _

theorem Verdict.isLeast (h : Verdict total .initial events (.error fault)) :
    IsLeast {measure | Broken events total measure} fault.measure ∧
      fault.Tells total (balance events fault.measure) := by
  obtain ⟨htells, hmem, hbefore⟩ := h
  have hlevel (level : Int) : Progress.initial.level + level = level := Int.zero_add level
  simp only [hlevel] at htells hbefore
  refine ⟨⟨⟨hmem, htells.not_fine⟩, ?_⟩, htells⟩
  rintro _ ⟨⟨e, he, rfl⟩, hbroken⟩
  exact UInt32.not_lt.1 fun hlt ↦ hbroken (hbefore e he hlt)

theorem Verdict.not_broken (h : Verdict total .initial events (.ok q)) :
    q.level = surplus events ∧ ∀ measure, ¬Broken events total measure := by
  obtain ⟨hlevel, hall⟩ := h
  refine ⟨hlevel.trans (Int.zero_add _), ?_⟩
  rintro _ ⟨⟨e, he, rfl⟩, hbroken⟩
  exact hbroken (Int.zero_add (balance events e.measure) ▸ hall e he)

/-- Marks make no jumps, and the report on that points at a measure. -/
def FailsAt (events : List Event) (total measure : UInt32) (fault : Fault) : Prop :=
  compile events total = .error fault ∧
    fault.report = .validation .partyJump (some (.measure measure)) fault.message

/-- **Faults point at the first broken measure**, and tell what is wrong there.  If no measure is
broken but a jump is still under way behind all marks, the fault points at the last start; otherwise
there are jumps.  None of this depends on the order of the marks, not even the words of a fault. -/
theorem compile_points_at_first_broken (events : List Event) (total : UInt32) :
    ((∃ measure, Broken events total measure) →
      ∃ measure fault, IsLeast {measure | Broken events total measure} measure ∧
        FailsAt events total measure fault ∧ fault.Tells total (balance events measure)) ∧
    ((∀ measure, ¬Broken events total measure) → surplus events = 1 →
      ∃ measure, IsGreatest {measure | ⟨measure, .start⟩ ∈ events} measure ∧
        FailsAt events total measure (.neverClosed measure)) ∧
    ((∀ measure, ¬Broken events total measure) → surplus events ≠ 1 →
      ∃ jumps, compile events total = .ok jumps) ∧
    ∀ events', events'.Perm events →
      (compile events' total).mapError Fault.report =
        (compile events total).mapError Fault.report := by
  obtain ⟨result, hcompile, hverdict, hlast⟩ := exists_verdict events total
  refine and_assoc.1 (and_assoc.1 ⟨?_, fun events' hperm ↦ by rw [compile_congr hperm]⟩)
  cases result with
  | error fault =>
    obtain ⟨hleast, htells⟩ := hverdict.isLeast
    have hnone : ¬∀ measure, ¬Broken events total measure := fun h ↦ h _ hleast.1
    exact ⟨⟨fun _ ↦ ⟨fault.measure, fault, hleast, ⟨hcompile, rfl⟩, htells⟩,
      fun h ↦ absurd h hnone⟩, fun h ↦ absurd h hnone⟩
  | ok q =>
    obtain ⟨hlevel, hnone⟩ := hverdict.not_broken
    have hfine : ¬∃ measure, Broken events total measure := not_exists.2 hnone
    replace hcompile : compile events total = q.finish := hcompile
    rw [Progress.finish] at hcompile
    cases hcurrent : q.current with
    | none =>
      rw [hcurrent] at hcompile
      have hzero : surplus events ≠ 1 := by simp [← hlevel, Progress.level, hcurrent]
      exact ⟨⟨fun h ↦ absurd h hfine, fun _ h ↦ absurd h hzero⟩, fun _ _ ↦ ⟨_, hcompile⟩⟩
    | some first =>
      rw [hcurrent] at hcompile
      have hone : surplus events = 1 := by simp [← hlevel, Progress.level, hcurrent]
      exact ⟨⟨fun h ↦ absurd h hfine,
        fun _ _ ↦ ⟨first, hlast q first rfl hcurrent, hcompile, rfl⟩⟩, fun _ h ↦ absurd hone h⟩

/-- More jumps end on a measure than can be under way there, and a mark stands behind the song. -/
def endedTwice : List Event :=
  [⟨9, .start⟩, ⟨4, .stop⟩, ⟨2, .start⟩, ⟨4, .start⟩, ⟨4, .stop⟩, ⟨4, .stop⟩]

theorem compile_points_at_first_broken_endedTwice :
    Broken endedTwice 8 4 ∧ Broken endedTwice 8 9 ∧
      FailsAt endedTwice 8 4 (.neverStarted 4) := by
  have hbroken : Broken endedTwice 8 4 := by decide
  obtain ⟨measure, fault, hleast, hfails, htells⟩ :=
    (compile_points_at_first_broken endedTwice 8).1 ⟨4, hbroken⟩
  have honly : ∀ e ∈ endedTwice, e.measure ≤ 4 → Broken endedTwice 8 e.measure → e.measure = 4 := by
    decide
  obtain rfl : measure = 4 := by
    obtain ⟨e, he, rfl⟩ := hleast.1.1
    exact honly e he (hleast.2 hbroken) hleast.1
  refine ⟨hbroken, by decide, ?_⟩
  cases htells with
  | pastEnd h => cases hfails.2; exact absurd h (by decide)
  | startedTwice _ h => exact absurd h (by decide)
  | neverStarted _ h => cases hfails.2; exact hfails

end SongBundle.PartyJump
