import Mathlib.Data.List.SplitBy
import SongBundle.PartyJump
import SongBundle.Proofs.Outcome
import SongBundle.Proofs.Sorting

/-!
# Which marks make party jumps

`script` lists the marks that set the given jumps, the start and the end of one jump after the
other.  `PartyJump.compile` accepts the marks of an ascending script in any order and nothing else,
although it takes the marks of one measure in turns.

* `pick_congr` is the step of the independence of order: what is taken next from the marks of one
  measure does not depend on how they are arranged.  `advanceMeasure_congr` is the measure and
  `compile_congr` the run.
* `Progress.marks` are the marks some progress stands for.  `Progress.marks_advance` is the step and
  `Progress.marks_foldlM` the run, for marks that are taken one by one.
* `exists_foldlM_of_groups` and `foldlM_groups` tie the two together: taking measure by measure is
  taking the same marks one by one in some order, and an order in which all are accepted is kept.
* `compile_eq_ok_iff` puts these together, and `compile_eq_zip` is the closed form.
-/

set_option autoImplicit false

namespace SongBundle.PartyJump

open Outcome

variable {total : UInt32} {p q : Progress} {wanted : Mark} {e e' : Event} {es es' : List Event}

/-! ## The mark that is taken next -/

theorem pick_of_mark_eq (h : e.mark = wanted) : pick wanted e es = (e, es) := by
  simp [pick, h]

/-- Nothing is lost and nothing added when a mark is taken. -/
theorem perm_pick (wanted : Mark) (e : Event) (es : List Event) :
    (e :: es).Perm ((pick wanted e es).1 :: (pick wanted e es).2) := by
  rw [pick]
  split
  · rename_i chosen h
    exact List.perm_cons_erase (List.mem_of_find?_eq_some h)
  · exact .refl _

theorem mark_pick_eq_iff : (pick wanted e es).1.mark = wanted ↔ ∃ a ∈ e :: es, a.mark = wanted := by
  rw [pick]
  split
  · rename_i chosen h
    exact iff_of_true (by simpa using List.find?_some h)
      ⟨chosen, List.mem_of_find?_eq_some h, by simpa using List.find?_some h⟩
  · rename_i h
    have hnone : ∀ a ∈ e :: es, a.mark ≠ wanted := by simpa using h
    refine iff_of_false (hnone e (by simp)) ?_
    rintro ⟨a, ha, hmark⟩
    exact hnone a ha hmark

/-- All marks of a group stand at one measure. -/
def Level (group : List Event) : Prop :=
  ∃ measure, ∀ e ∈ group, e.measure = measure

theorem Level.of_perm {group group' : List Event} (h : Level group) (hperm : group.Perm group') :
    Level group' := by
  obtain ⟨measure, h⟩ := h
  exact ⟨measure, fun e he ↦ h e (hperm.mem_iff.2 he)⟩

theorem Level.tail {group : List Event} (h : Level (e :: group)) : Level group := by
  obtain ⟨measure, h⟩ := h
  exact ⟨measure, fun a ha ↦ h a (List.mem_cons_of_mem e ha)⟩

/-- From the marks of one measure the same one is taken, however they are arranged. -/
theorem pick_congr (wanted : Mark) (hlevel : Level (e :: es)) (hperm : (e :: es).Perm (e' :: es')) :
    (pick wanted e es).1 = (pick wanted e' es').1 ∧
      (pick wanted e es).2.Perm (pick wanted e' es').2 := by
  have hpick := perm_pick wanted e es
  have hpick' := perm_pick wanted e' es'
  have hmark : (pick wanted e es).1.mark = (pick wanted e' es').1.mark := by
    have hiff : (pick wanted e es).1.mark = wanted ↔ (pick wanted e' es').1.mark = wanted := by
      rw [mark_pick_eq_iff, mark_pick_eq_iff]
      simp only [hperm.mem_iff]
    -- there are only two marks, so two that are not the wanted one agree
    revert hiff
    cases (pick wanted e es).1.mark <;> cases (pick wanted e' es').1.mark <;> cases wanted <;> simp
  obtain ⟨measure, hmeasure⟩ := hlevel
  have hfst : (pick wanted e es).1 = (pick wanted e' es').1 := by
    have hleft := hmeasure (pick wanted e es).1 (hpick.mem_iff.2 (by simp))
    have hright := hmeasure (pick wanted e' es').1
      (hperm.mem_iff.2 (hpick'.mem_iff.2 (by simp)))
    have hboth := hleft.trans hright.symm
    revert hboth hmark
    generalize (pick wanted e es).1 = a, (pick wanted e' es').1 = b
    intro hmark hboth
    cases a
    cases b
    simp_all
  refine ⟨hfst, ?_⟩
  have hall := (hpick.symm.trans hperm).trans hpick'
  rw [← hfst] at hall
  exact hall.cons_inv

/-- Whatever the arrangement, the marks of one measure have the same outcome. -/
theorem advanceMeasure_congr {group group' : List Event} (hlevel : Level group)
    (hperm : group.Perm group') (p : Progress) :
    advanceMeasure total p group = advanceMeasure total p group' := by
  induction p, group using advanceMeasure.induct generalizing group' with
  | case1 p => rw [hperm.nil_eq]
  | case2 p e es _ =>
    rename_i ih
    cases group' with
    | nil => exact absurd hperm.eq_nil (List.cons_ne_nil e es)
    | cons e' es' =>
      obtain ⟨hfst, hsnd⟩ := pick_congr p.wanted hlevel hperm
      have hrest := (hlevel.of_perm (perm_pick p.wanted e es)).tail
      rw [advanceMeasure, advanceMeasure, ← hfst]
      exact bind_congr fun q ↦ ih q hrest hsnd

/-! ## Measure by measure -/

/-- Two marks stand at one measure. -/
abbrev Event.beside (a b : Event) : Bool := a.measure == b.measure

/-- The marks are listed from the first measure to the last. -/
abbrev Ascending (events : List Event) : Prop :=
  events.Pairwise fun a b ↦ a.measure ≤ b.measure

theorem ascending_mergeSort (events : List Event) :
    Ascending (events.mergeSort fun a b ↦ a.measure ≤ b.measure) :=
  pairwise_mergeSort_by Event.measure events

theorem Ascending.map_measure_pairwise {events : List Event} (h : Ascending events) :
    (events.map Event.measure).Pairwise (· ≤ ·) :=
  List.pairwise_map.2 h

/-- In an ascending list the marks of the least measure come first. -/
theorem Ascending.eq_filter_append {events : List Event} {measure : UInt32}
    (h : Ascending events) (hle : ∀ e ∈ events, measure ≤ e.measure) :
    events = events.filter (·.measure = measure) ++ events.filter (·.measure ≠ measure) := by
  induction events with
  | nil => rfl
  | cons e es ih =>
    obtain ⟨hhead, htail⟩ := List.pairwise_cons.1 h
    by_cases he : e.measure = measure
    · have hrest := ih htail fun a ha ↦ hle a (List.mem_cons_of_mem e ha)
      rw [List.filter_cons_of_pos (by simpa using he), List.filter_cons_of_neg (by simpa using he),
        List.cons_append, ← hrest]
    · have hlt : ∀ a ∈ e :: es, a.measure ≠ measure := by
        have hfirst := hle e (by simp)
        intro a ha
        rcases List.mem_cons.1 ha with rfl | ha
        · exact he
        · have hafter := hhead a ha
          grind
      rw [List.filter_eq_nil_iff.2 (by simpa using hlt), List.nil_append,
        List.filter_eq_self.2 (by simpa using hlt)]

/-- The first group of an ascending list has all marks of its measure. -/
theorem Ascending.splitBy_cons (h : Ascending (e :: es)) :
    (e :: es).splitBy Event.beside =
      (e :: es).filter (·.measure = e.measure) ::
        ((e :: es).filter (·.measure ≠ e.measure)).splitBy Event.beside := by
  have hle : ∀ a ∈ e :: es, e.measure ≤ a.measure := by
    rw [List.forall_mem_cons]
    exact ⟨UInt32.le_refl _, (List.pairwise_cons.1 h).1⟩
  have hgroup : (e :: es).filter (·.measure = e.measure) ≠ [] := by
    rw [List.filter_cons_of_pos (by simp)]
    exact List.cons_ne_nil _ _
  have hbeside : ∀ a ∈ (e :: es).filter (·.measure = e.measure), a.measure = e.measure := by
    simp
  have hchain : ((e :: es).filter (·.measure = e.measure)).IsChain fun a b ↦ a.beside b = true := by
    refine List.Pairwise.isChain (List.pairwise_of_forall_mem_list fun a ha b hb ↦ ?_)
    rw [Event.beside, hbeside a ha, hbeside b hb, beq_self_eq_true]
  conv_lhs => rw [h.eq_filter_append hle]
  rw [List.splitBy_append, List.splitBy_of_isChain hgroup hchain, List.singleton_append]
  intro a ha b hb
  have ha := hbeside a (List.mem_of_mem_getLast? ha)
  have hb : b.measure ≠ e.measure := by
    simpa using (List.mem_filter.1 (List.mem_of_mem_head? hb)).2
  rw [Event.beside, ha]
  exact beq_false_of_ne hb.symm

/-- Two ascending arrangements of the same marks have the same outcome. -/
theorem foldlM_splitBy_congr (n : ℕ) {events events' : List Event} (hlength : events.length ≤ n)
    (h : Ascending events) (h' : Ascending events') (hperm : events.Perm events') (p : Progress) :
    (events.splitBy Event.beside).foldlM (advanceMeasure total) p =
      (events'.splitBy Event.beside).foldlM (advanceMeasure total) p := by
  induction n generalizing events events' p with
  | zero =>
    rw [List.length_eq_zero_iff.1 (Nat.le_zero.1 hlength)] at hperm ⊢
    rw [hperm.nil_eq]
  | succ n ih =>
    match events, events', hperm with
    | [], events', hperm => rw [hperm.nil_eq]
    | e :: es, [], hperm => exact absurd hperm.eq_nil (List.cons_ne_nil e es)
    | e :: es, e' :: es', hperm =>
      have hmeasure : e'.measure = e.measure := by
        have hle : ∀ a ∈ e :: es, e.measure ≤ a.measure :=
          List.forall_mem_cons.2 ⟨UInt32.le_refl _, (List.pairwise_cons.1 h).1⟩
        have hle' : ∀ a ∈ e' :: es', e'.measure ≤ a.measure :=
          List.forall_mem_cons.2 ⟨UInt32.le_refl _, (List.pairwise_cons.1 h').1⟩
        exact UInt32.le_antisymm (hle' e (hperm.mem_iff.1 (by simp)))
          (hle e' (hperm.mem_iff.2 (by simp)))
      rw [h.splitBy_cons, h'.splitBy_cons, hmeasure, List.foldlM_cons, List.foldlM_cons,
        ← advanceMeasure_congr ⟨e.measure, by simp⟩ (hperm.filter _)]
      refine bind_congr fun q ↦ ih ?_ (h.filter _) (h'.filter _) (hperm.filter _) q
      rw [List.filter_cons_of_neg (by simp)]
      exact Nat.le_trans (List.length_filter_le _ _) (Nat.le_of_succ_le_succ hlength)

/-- What marks compile to does not depend on their order, nor does the fault if there is one. -/
theorem compile_congr {events events' : List Event} (hperm : events.Perm events') (total : UInt32) :
    compile events total = compile events' total := by
  have hsorted : (events.mergeSort fun a b ↦ a.measure ≤ b.measure).Perm
      (events'.mergeSort fun a b ↦ a.measure ≤ b.measure) :=
    ((List.mergeSort_perm _ _).trans hperm).trans (List.mergeSort_perm _ _).symm
  rw [compile, compile]
  exact congrArg (· >>= Progress.finish) (foldlM_splitBy_congr _ le_rfl (ascending_mergeSort events)
    (ascending_mergeSort events') hsorted .initial)

/-! ## Mark by mark -/

/-- The marks of a jump. -/
def Interval.events (i : Interval) : List Event :=
  [⟨i.first, .start⟩, ⟨i.last, .stop⟩]

/-- The marks of some jumps, one jump after the other. -/
def script (jumps : List Interval) : List Event :=
  jumps.flatMap Interval.events

theorem script_concat (jumps : List Interval) (i : Interval) :
    script (jumps ++ [i]) = script jumps ++ [⟨i.first, .start⟩, ⟨i.last, .stop⟩] := by
  simp [script, Interval.events]

/-- The marks some progress stands for. -/
def Progress.marks (p : Progress) : List Event :=
  script p.ended.reverse ++ (p.current.map fun first ↦ ⟨first, .start⟩).toList

/-- A mark that is taken lies in the song, is of the wanted kind and comes after all before it. -/
theorem Progress.marks_advance (h : p.advance total e = .ok q) :
    e.measure < total ∧ e.mark = p.wanted ∧ q.marks = p.marks ++ [e] := by
  obtain ⟨measure, mark⟩ := e
  obtain ⟨current, ended⟩ := p
  rw [advance] at h
  split at h
  · exact nomatch h
  · rename_i hlt
    refine ⟨UInt32.not_le.1 hlt, ?_⟩
    cases mark <;> cases current <;> cases h
    · exact ⟨rfl, by simp [marks]⟩
    · exact ⟨rfl, by simp [marks, script_concat]⟩

theorem Progress.marks_foldlM {taken : List Event}
    (h : taken.foldlM (Progress.advance total) p = .ok q) :
    q.marks = p.marks ++ taken ∧ ∀ e ∈ taken, e.measure < total := by
  induction taken generalizing p with
  | nil =>
    rw [pure_eq_ok_iff.1 h]
    simp
  | cons e taken ih =>
    obtain ⟨mid, hmid, hrest⟩ := foldlM_cons_eq_ok_iff.1 h
    obtain ⟨hlt, -, hmarks⟩ := Progress.marks_advance hmid
    obtain ⟨hall, hbelow⟩ := ih hrest
    refine ⟨?_, List.forall_mem_cons.2 ⟨hlt, hbelow⟩⟩
    rw [hall, hmarks, List.append_assoc, List.singleton_append]

/-- The marks of jumps inside the song are accepted one after the other. -/
theorem foldlM_script {jumps : List Interval} (ended : List Interval)
    (hlt : ∀ e ∈ script jumps, e.measure < total) :
    (script jumps).foldlM (Progress.advance total) ⟨none, ended⟩ =
      .ok ⟨none, jumps.reverse ++ ended⟩ := by
  induction jumps generalizing ended with
  | nil => rfl
  | cons i jumps ih =>
    rw [script, List.flatMap_cons, List.forall_mem_append] at hlt
    obtain ⟨hi, hjumps⟩ := hlt
    have hfirst : i.first < total := hi ⟨i.first, .start⟩ (by simp [Interval.events])
    have hlast : i.last < total := hi ⟨i.last, .stop⟩ (by simp [Interval.events])
    have hstart : Progress.advance total ⟨none, ended⟩ ⟨i.first, .start⟩ =
        .ok ⟨some i.first, ended⟩ := if_neg (UInt32.not_le.2 hfirst)
    have hstop : Progress.advance total ⟨some i.first, ended⟩ ⟨i.last, .stop⟩ =
        .ok ⟨none, i :: ended⟩ := if_neg (UInt32.not_le.2 hlast)
    rw [script, List.flatMap_cons, List.reverse_cons, List.append_assoc]
    exact foldlM_cons_eq_ok_iff.2 ⟨_, hstart, foldlM_cons_eq_ok_iff.2 ⟨_, hstop, ih _ hjumps⟩⟩

/-! ## Both ways to take marks -/

/-- Taking the marks of a measure in turns is taking them one by one in some order. -/
theorem exists_foldlM_of_advanceMeasure {group : List Event}
    (h : advanceMeasure total p group = .ok q) :
    ∃ taken : List Event, taken.Perm group ∧ taken.foldlM (Progress.advance total) p = .ok q := by
  induction p, group using advanceMeasure.induct with
  | case1 p =>
    rw [advanceMeasure] at h
    exact ⟨[], .refl _, h⟩
  | case2 p e es _ =>
    rename_i ih
    rw [advanceMeasure] at h
    obtain ⟨mid, hmid, hrest⟩ := bind_eq_ok_iff.1 h
    obtain ⟨taken, hperm, htaken⟩ := ih mid hrest
    exact ⟨_ :: taken, (hperm.cons _).trans (perm_pick p.wanted e es).symm,
      foldlM_cons_eq_ok_iff.2 ⟨mid, hmid, htaken⟩⟩

theorem Level.map_measure_eq {group group' : List Event} (h : Level group)
    (hperm : group'.Perm group) : group'.map Event.measure = group.map Event.measure := by
  obtain ⟨measure, h⟩ := h
  have hgroup : group.map Event.measure = List.replicate group.length measure :=
    List.eq_replicate_iff.2 ⟨List.length_map _, by simpa using h⟩
  rw [hgroup]
  exact List.perm_replicate.1 (hgroup ▸ hperm.map Event.measure)

/-- Taking marks measure by measure is taking them one by one in an order that keeps the
measures. -/
theorem exists_foldlM_of_groups {groups : List (List Event)} (hlevel : ∀ g ∈ groups, Level g)
    (h : groups.foldlM (advanceMeasure total) p = .ok q) :
    ∃ taken : List Event, taken.Perm groups.flatten ∧
      taken.map Event.measure = groups.flatten.map Event.measure ∧
      taken.foldlM (Progress.advance total) p = .ok q := by
  induction groups generalizing p with
  | nil => exact ⟨[], .refl _, rfl, h⟩
  | cons group groups ih =>
    obtain ⟨hgroup, hgroups⟩ := List.forall_mem_cons.1 hlevel
    obtain ⟨mid, hmid, hrest⟩ := foldlM_cons_eq_ok_iff.1 h
    obtain ⟨front, hfront, hrun⟩ := exists_foldlM_of_advanceMeasure hmid
    obtain ⟨back, hback, hmeasures, hrun'⟩ := ih hgroups hrest
    refine ⟨front ++ back, hfront.append hback, ?_, ?_⟩
    · rw [List.flatten_cons, List.map_append, List.map_append, hgroup.map_measure_eq hfront,
        hmeasures]
    · rw [List.foldlM_append, hrun]
      exact hrun'

/-- Marks that are accepted one by one are what is taken next in turns. -/
theorem advanceMeasure_of_foldlM {group : List Event}
    (h : group.foldlM (Progress.advance total) p = .ok q) :
    advanceMeasure total p group = .ok q := by
  induction group generalizing p with
  | nil =>
    rw [advanceMeasure]
    exact h
  | cons e es ih =>
    obtain ⟨mid, hmid, hrest⟩ := foldlM_cons_eq_ok_iff.1 h
    rw [advanceMeasure, pick_of_mark_eq (Progress.marks_advance hmid).2.1]
    exact bind_eq_ok_iff.2 ⟨mid, hmid, ih hrest⟩

theorem foldlM_groups {groups : List (List Event)}
    (h : groups.flatten.foldlM (Progress.advance total) p = .ok q) :
    groups.foldlM (advanceMeasure total) p = .ok q := by
  induction groups generalizing p with
  | nil => exact h
  | cons group groups ih =>
    rw [List.flatten_cons, List.foldlM_append] at h
    obtain ⟨mid, hmid, hrest⟩ := bind_eq_ok_iff.1 h
    exact foldlM_cons_eq_ok_iff.2 ⟨mid, advanceMeasure_of_foldlM hmid, ih hrest⟩

/-! ## Compiled jumps -/

theorem level_of_mem_splitBy {events group : List Event} (h : group ∈ events.splitBy Event.beside) :
    Level group := by
  have hchain : (group.map Event.measure).IsChain (· = ·) := by
    rw [List.isChain_map]
    exact (List.isChain_of_mem_splitBy h).imp fun _ _ hab ↦ eq_of_beq hab
  cases group with
  | nil => exact ⟨0, by simp⟩
  | cons e es =>
    have hhead := (List.pairwise_cons.1 hchain.pairwise).1
    exact ⟨e.measure, List.forall_mem_cons.2
      ⟨rfl, fun a ha ↦ (hhead _ (List.mem_map_of_mem ha)).symm⟩⟩

/-- Marks compile exactly if they are those of an ascending script inside the song, to the jumps of
that script. -/
theorem compile_eq_ok_iff {events : List Event} {jumps : List Interval} :
    compile events total = .ok jumps ↔
      events.Perm (script jumps) ∧ Ascending (script jumps) ∧ ∀ e ∈ events, e.measure < total := by
  constructor
  · intro h
    obtain ⟨p, hrun, hfinish⟩ := bind_eq_ok_iff.1 h
    obtain ⟨taken, hperm, hmeasures, htaken⟩ :=
      exists_foldlM_of_groups (fun _ ↦ level_of_mem_splitBy) hrun
    rw [List.flatten_splitBy] at hperm hmeasures
    obtain ⟨hmarks, hlt⟩ := Progress.marks_foldlM htaken
    have hscript : taken = script jumps := by
      obtain ⟨current, ended⟩ := p
      cases current with
      | some first => exact nomatch hfinish
      | none =>
        rw [← Except.ok.inj hfinish]
        simpa [Progress.marks, Progress.initial, script] using hmarks.symm
    subst hscript
    have hevents := hperm.trans (List.mergeSort_perm events _)
    refine ⟨hevents.symm, ?_, fun e he ↦ hlt e (hevents.mem_iff.2 he)⟩
    rw [Ascending, ← List.pairwise_map (f := Event.measure) (R := (· ≤ ·)), hmeasures]
    exact (ascending_mergeSort events).map_measure_pairwise
  · rintro ⟨hperm, hascending, hlt⟩
    have hsorted : ((script jumps).mergeSort fun a b ↦ a.measure ≤ b.measure) = script jumps :=
      List.mergeSort_of_pairwise (hascending.imp fun h ↦ decide_eq_true h)
    have hrun := foldlM_script [] fun e he ↦ hlt e (hperm.mem_iff.2 he)
    rw [compile_congr hperm, compile, hsorted]
    refine bind_eq_ok_iff.2 ⟨⟨none, jumps.reverse ++ []⟩, foldlM_groups ?_, ?_⟩
    · rw [List.flatten_splitBy]
      exact hrun
    · simp [Progress.finish]

/-! ## The closed form -/

/-- The measures at which marks of a kind stand, in ascending order and with repetitions. -/
def measuresOf (mark : Mark) (events : List Event) : List UInt32 :=
  ((events.filter (·.mark = mark)).map Event.measure).mergeSort (· ≤ ·)

theorem perm_measuresOf (mark : Mark) (events : List Event) :
    (measuresOf mark events).Perm ((events.filter (·.mark = mark)).map Event.measure) :=
  List.mergeSort_perm _ _

/-- The measures of a kind are any ascending list of them. -/
theorem measuresOf_eq {mark : Mark} {events : List Event} {measures : List UInt32}
    (hsorted : measures.Pairwise (· ≤ ·))
    (hperm : ((events.filter (·.mark = mark)).map Event.measure).Perm measures) :
    measuresOf mark events = measures := by
  exact List.Perm.eq_of_pairwise (fun _ _ _ _ ↦ UInt32.le_antisymm) (pairwise_mergeSort_by id _)
    hsorted ((perm_measuresOf mark events).trans hperm)

/-- Marks are the starts and the ends among them. -/
theorem perm_starts_stops (events : List Event) :
    events.Perm ((measuresOf .start events).map (⟨·, .start⟩) ++
      (measuresOf .stop events).map (⟨·, .stop⟩)) := by
  have hkind (mark : Mark) : (events.filter (·.mark = mark)).Perm
      ((measuresOf mark events).map (⟨·, mark⟩)) := by
    have hself : ((events.filter (·.mark = mark)).map Event.measure).map (⟨·, mark⟩) =
        events.filter (·.mark = mark) := by
      rw [List.map_map, List.map_congr_left (g := id), List.map_id]
      intro e he
      rw [← of_decide_eq_true (List.mem_filter.1 he).2]
      rfl
    rw [← hself]
    exact ((perm_measuresOf mark events).map _).symm
  have hstop : events.filter (fun e ↦ !decide (e.mark = .start)) =
      events.filter (·.mark = .stop) := by
    refine List.filter_congr fun e _ ↦ ?_
    cases e.mark <;> rfl
  have hsplit := (List.filter_append_perm (·.mark = .start) events).symm
  rw [hstop] at hsplit
  exact hsplit.trans ((hkind .start).append (hkind .stop))

theorem perm_script (jumps : List Interval) :
    (script jumps).Perm
      (jumps.map (⟨·.first, .start⟩) ++ jumps.map (⟨·.last, .stop⟩)) := by
  induction jumps with
  | nil => exact .refl _
  | cons i jumps ih =>
    refine .cons _ ((ih.cons _).trans ?_)
    exact List.perm_middle.symm

/-- Jumps that follow one another have an ascending script. -/
theorem ascending_script {jumps : List Interval} (hle : ∀ i ∈ jumps, i.first ≤ i.last)
    (hnext : jumps.IsChain fun i j ↦ i.last ≤ j.first) : Ascending (script jumps) := by
  suffices h : ((script jumps).map Event.measure).IsChain (· ≤ ·) from
    List.pairwise_map.1 h.pairwise
  induction jumps with
  | nil => exact .nil
  | cons i jumps ih =>
    obtain ⟨hi, hjumps⟩ := List.forall_mem_cons.1 hle
    cases jumps with
    | nil => exact .cons_cons hi (.singleton _)
    | cons j jumps =>
      obtain ⟨hij, hrest⟩ := List.isChain_cons_cons.1 hnext
      exact .cons_cons hi (.cons_cons hij (ih hjumps hrest))

/-- The jumps of an ascending script follow one another. -/
theorem Ascending.jumps {jumps : List Interval} (h : Ascending (script jumps)) :
    (∀ i ∈ jumps, i.first ≤ i.last) ∧ jumps.Pairwise fun i j ↦ i.last ≤ j.first := by
  obtain ⟨hself, hpair⟩ := List.pairwise_flatMap.1 h
  refine ⟨fun i hi ↦ ?_, hpair.imp fun {i j} hij ↦ ?_⟩
  · exact (List.pairwise_cons.1 (hself i hi)).1 ⟨i.last, .stop⟩ (by simp)
  · exact hij ⟨i.last, .stop⟩ (by simp [Interval.events]) ⟨j.first, .start⟩
      (by simp [Interval.events])

/-- The marks are as many starts as ends, all inside the song, and in ascending order each end lies
between the start at its position and the next one. -/
structure Pairable (events : List Event) (total : UInt32) : Prop where
  length_eq : (measuresOf .start events).length = (measuresOf .stop events).length
  lt_total : ∀ e ∈ events, e.measure < total
  start_le_stop : ∀ (i : ℕ) (first last : UInt32), (measuresOf .start events)[i]? = some first →
    (measuresOf .stop events)[i]? = some last → first ≤ last
  stop_le_start : ∀ (i : ℕ) (last first : UInt32), (measuresOf .stop events)[i]? = some last →
    (measuresOf .start events)[i + 1]? = some first → last ≤ first

/-- The jumps from the start at each position to the end at that position. -/
def pairs (events : List Event) : List Interval :=
  List.zipWith Interval.mk (measuresOf .start events) (measuresOf .stop events)

theorem map_pairs {events : List Event} (measure : UInt32 × UInt32 → UInt32)
    (f : Interval → UInt32) (h : ∀ first last, f ⟨first, last⟩ = measure (first, last)) :
    (pairs events).map f =
      ((measuresOf .start events).zip (measuresOf .stop events)).map measure := by
  rw [pairs, ← List.map_uncurry_zip_eq_zipWith, List.map_map]
  exact List.map_congr_left fun e _ ↦ h e.1 e.2

/-- Marks that can be paired are those of the script of their pairs. -/
theorem Pairable.perm_script {events : List Event} (h : Pairable events total) :
    events.Perm (script (pairs events)) := by
  have hfirst : (pairs events).map Interval.first = measuresOf .start events :=
    (map_pairs Prod.fst _ fun _ _ ↦ rfl).trans (List.map_fst_zip (Nat.le_of_eq h.length_eq))
  have hlast : (pairs events).map Interval.last = measuresOf .stop events :=
    (map_pairs Prod.snd _ fun _ _ ↦ rfl).trans (List.map_snd_zip (Nat.le_of_eq h.length_eq.symm))
  refine (perm_starts_stops events).trans (.trans (.of_eq ?_) (PartyJump.perm_script _).symm)
  rw [← hfirst, ← hlast, List.map_map, List.map_map]
  rfl

theorem Pairable.ascending_script {events : List Event} (h : Pairable events total) :
    Ascending (script (pairs events)) := by
  refine PartyJump.ascending_script (fun i hi ↦ ?_) (List.isChain_iff_getElem.2 fun n hn ↦ ?_)
  · obtain ⟨n, hn⟩ := List.mem_iff_getElem?.1 hi
    obtain ⟨first, last, hfirst, hlast, rfl⟩ := List.getElem?_zipWith_eq_some.1 hn
    exact h.start_le_stop n first last hfirst hlast
  · obtain ⟨first, last, -, hlast, hi⟩ :=
      List.getElem?_zipWith_eq_some.1 (List.getElem?_eq_getElem (Nat.lt_of_succ_lt hn))
    obtain ⟨first', last', hfirst', -, hj⟩ :=
      List.getElem?_zipWith_eq_some.1 (List.getElem?_eq_getElem hn)
    rw [pairs] at *
    rw [← hi, ← hj]
    exact h.stop_le_start n last first' hlast hfirst'

/-- The end of a jump that a mark sets. -/
def Interval.at (i : Interval) : Mark → UInt32
  | .start => i.first
  | .stop => i.last

/-- In an ascending script the marks of a kind are those of the jumps, in their order. -/
theorem measuresOf_of_perm_script {events : List Event} {jumps : List Interval}
    (hperm : events.Perm (script jumps)) (h : Ascending (script jumps)) (mark : Mark) :
    measuresOf mark events = jumps.map (·.at mark) := by
  have hkind : (script jumps).filter (·.mark = mark) = jumps.map fun i ↦ ⟨i.at mark, mark⟩ := by
    rw [script, List.filter_flatMap, ← List.flatMap_pure_eq_map]
    cases mark <;> rfl
  have hmeasures : ((script jumps).filter (·.mark = mark)).map Event.measure =
      jumps.map (·.at mark) := by
    rw [hkind, List.map_map]
    rfl
  rw [← hmeasures]
  exact measuresOf_eq (List.pairwise_map.2 (h.filter _)) ((hperm.filter _).map _)

/-- Marks that compile can be paired. -/
theorem pairable_of_compile {events : List Event} {jumps : List Interval}
    (h : compile events total = .ok jumps) : Pairable events total := by
  obtain ⟨hperm, hascending, hlt⟩ := compile_eq_ok_iff.1 h
  have hmeasures := measuresOf_of_perm_script hperm hascending
  obtain ⟨hle, hnext⟩ := hascending.jumps
  refine ⟨by simp [hmeasures], hlt, fun n first last hfirst hlast ↦ ?_,
    fun n last first hlast hfirst ↦ ?_⟩
  · rw [hmeasures, List.getElem?_map, Option.map_eq_some_iff] at hfirst hlast
    obtain ⟨i, hi, rfl⟩ := hfirst
    obtain ⟨j, hj, rfl⟩ := hlast
    obtain rfl := Option.some.inj (hi.symm.trans hj)
    exact hle i (List.mem_of_getElem? hi)
  · rw [hmeasures, List.getElem?_map, Option.map_eq_some_iff] at hfirst hlast
    obtain ⟨i, hi, rfl⟩ := hfirst
    obtain ⟨j, hj, rfl⟩ := hlast
    obtain ⟨hn, rfl⟩ := List.getElem?_eq_some_iff.1 hi
    obtain ⟨hn', rfl⟩ := List.getElem?_eq_some_iff.1 hj
    exact List.pairwise_iff_getElem.1 hnext n (n + 1) hn' hn (Nat.lt_succ_self n)

theorem Pairable.compile {events : List Event} (h : Pairable events total) :
    compile events total = .ok (pairs events) :=
  compile_eq_ok_iff.2 ⟨h.perm_script, h.ascending_script, h.lt_total⟩

/-- **Party jumps pair the starts with the ends in ascending order.**  Where that gives jumps inside
the song that follow one another it is the result, and anywhere else there is a fault.  So every
mark is used once, jumps share at most an end, and the order of the marks does not matter. -/
theorem compile_eq_zip (events : List Event) (total : UInt32) :
    (Pairable events total →
      compile events total =
        .ok (List.zipWith Interval.mk (measuresOf .start events) (measuresOf .stop events))) ∧
    (¬Pairable events total → ∃ fault, compile events total = .error fault) ∧
    (∀ jumps, compile events total = .ok jumps →
      events.Perm (script jumps) ∧ (∀ i ∈ jumps, i.first ≤ i.last) ∧
        jumps.Pairwise fun i j ↦ i.last ≤ j.first) ∧
    ∀ events', events'.Perm events →
      compile events' total = compile events total := by
  refine ⟨fun h ↦ h.compile, fun h ↦ ?_, fun jumps hjumps ↦ ?_,
    fun events' hperm ↦ compile_congr hperm total⟩
  · cases hresult : compile events total with
    | error fault => exact ⟨fault, rfl⟩
    | ok jumps => exact absurd (pairable_of_compile hresult) h
  · obtain ⟨hperm, hascending, -⟩ := compile_eq_ok_iff.1 hjumps
    exact ⟨hperm, hascending.jumps⟩

/-- A jump that ends where the next one starts, and one that starts and ends on that measure too. -/
theorem compile_eq_zip_shared :
    Pairable [⟨4, .stop⟩, ⟨7, .stop⟩, ⟨4, .start⟩, ⟨4, .stop⟩, ⟨4, .start⟩, ⟨2, .start⟩] 8 ∧
      compile
        [⟨4, .stop⟩, ⟨7, .stop⟩, ⟨4, .start⟩, ⟨4, .stop⟩, ⟨4, .start⟩, ⟨2, .start⟩] 8 =
          .ok [⟨2, 4⟩, ⟨4, 4⟩, ⟨4, 7⟩] := by
  have hstart : measuresOf .start
      [⟨4, .stop⟩, ⟨7, .stop⟩, ⟨4, .start⟩, ⟨4, .stop⟩, ⟨4, .start⟩, ⟨2, .start⟩] = [2, 4, 4] :=
    measuresOf_eq (by decide) (by decide)
  have hstop : measuresOf .stop
      [⟨4, .stop⟩, ⟨7, .stop⟩, ⟨4, .start⟩, ⟨4, .stop⟩, ⟨4, .start⟩, ⟨2, .start⟩] = [4, 4, 7] :=
    measuresOf_eq (by decide) (by decide)
  have hpairable : Pairable
      [⟨4, .stop⟩, ⟨7, .stop⟩, ⟨4, .start⟩, ⟨4, .stop⟩, ⟨4, .start⟩, ⟨2, .start⟩] 8 := by
    refine ⟨by rw [hstart, hstop]; rfl, by decide, fun i ↦ ?_, fun i ↦ ?_⟩ <;>
      rw [hstart, hstop] <;> rcases i with _ | _ | _ | i <;> simp
  have hcompile := (compile_eq_zip _ 8).1 hpairable
  rw [hstart, hstop] at hcompile
  exact ⟨hpairable, hcompile⟩

end SongBundle.PartyJump
