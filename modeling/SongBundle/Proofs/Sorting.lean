import Mathlib.Data.List.Basic

/-!
# What sorting depends on

Sorting is stable, so its result depends only on how the elements that could stand in either order
are listed: `mergeSort_congr` says so, and `mergeSort_eq_of_perm` is the case in which only
equal elements could.  `mergeSort_by_eq_of_perm` is that case for lists that are sorted by a key.
-/

set_option autoImplicit false

namespace SongBundle

variable {α : Type} {le : α → α → Bool}

/-- Two elements could stand in either order. -/
def tied (le : α → α → Bool) (a b : α) : Bool := le a b && le b a

theorem tied_iff {a b : α} : tied le a b = true ↔ le a b = true ∧ le b a = true :=
  Bool.and_eq_true_iff

section

variable (htotal : ∀ a b, (le a b || le b a) = true)

include htotal

theorem tied_self (a : α) : tied le a a = true := by
  have hle : le a a = true := by simpa using htotal a a
  exact tied_iff.2 ⟨hle, hle⟩

theorem mem_of_filter_tied_eq {l l' : List α}
    (h : ∀ a, l.filter (tied le a) = l'.filter (tied le a)) : ∀ a ∈ l, a ∈ l' := by
  intro a ha
  have hfilter := List.mem_filter.2 ⟨ha, tied_self htotal a⟩
  rw [h a] at hfilter
  exact (List.mem_filter.1 hfilter).1

/-- The head of a list comes before all its members if the list is sorted. -/
theorem le_of_mem_of_pairwise {a b : α} {l : List α}
    (h : (a :: l).Pairwise fun a b ↦ le a b = true) (hb : b ∈ a :: l) : le a b = true := by
  rcases List.mem_cons.1 hb with rfl | hb
  · exact (tied_iff.1 (tied_self htotal b)).1
  · exact (List.pairwise_cons.1 h).1 b hb

/-- Sorted lists that list tied elements alike are equal. -/
theorem eq_of_filter_tied_eq {l l' : List α} (hl : l.Pairwise fun a b ↦ le a b = true)
    (hl' : l'.Pairwise fun a b ↦ le a b = true)
    (h : ∀ a, l.filter (tied le a) = l'.filter (tied le a)) : l = l' := by
  induction l generalizing l' with
  | nil =>
    cases l' with
    | nil => rfl
    | cons b l' =>
      have hb := mem_of_filter_tied_eq htotal (fun a ↦ (h a).symm) b (by simp)
      exact absurd hb List.not_mem_nil
  | cons a l ih =>
    have hmem := mem_of_filter_tied_eq htotal h a (by simp)
    cases l' with
    | nil => exact absurd hmem List.not_mem_nil
    | cons b l' =>
      have hmem' := mem_of_filter_tied_eq htotal (fun a ↦ (h a).symm) b (by simp)
      -- both heads are least, so they are tied, and they are the first of their ties
      have hab : tied le a b = true :=
        tied_iff.2 ⟨le_of_mem_of_pairwise htotal hl hmem', le_of_mem_of_pairwise htotal hl' hmem⟩
      obtain rfl : a = b := by
        have hfirst := h a
        rw [List.filter_cons_of_pos (tied_self htotal a), List.filter_cons_of_pos hab] at hfirst
        exact (List.cons.inj hfirst).1
      refine congrArg (a :: ·) (ih hl.of_cons hl'.of_cons fun c ↦ ?_)
      have hc := h c
      by_cases hca : tied le c a = true
      · rw [List.filter_cons_of_pos hca, List.filter_cons_of_pos hca] at hc
        exact (List.cons.inj hc).2
      · rwa [List.filter_cons_of_neg hca, List.filter_cons_of_neg hca] at hc

end

section

variable (htrans : ∀ a b c, le a b = true → le b c = true → le a c = true)
  (htotal : ∀ a b, (le a b || le b a) = true)

include htrans htotal

/-- Sorting keeps the order of the elements that are tied with a given one. -/
theorem filter_tied_mergeSort (a : α) (l : List α) :
    (l.mergeSort le).filter (tied le a) = l.filter (tied le a) := by
  have hsorted : (l.filter (tied le a)).Pairwise fun b c ↦ le b c = true := by
    refine List.pairwise_of_forall_mem_list fun b hb c hc ↦ ?_
    have hb := tied_iff.1 (List.mem_filter.1 hb).2
    have hc := tied_iff.1 (List.mem_filter.1 hc).2
    exact htrans b a c hb.2 hc.1
  have hsub := (List.sublist_mergeSort htrans htotal hsorted List.filter_sublist).filter (tied le a)
  simp only [List.filter_filter, Bool.and_self] at hsub
  refine (hsub.eq_of_length ?_).symm
  exact ((List.mergeSort_perm l le).filter _).length_eq.symm

/-- Lists that list tied elements alike are sorted into the same list. -/
theorem mergeSort_congr {l l' : List α} (h : ∀ a, l.filter (tied le a) = l'.filter (tied le a)) :
    l.mergeSort le = l'.mergeSort le := by
  refine eq_of_filter_tied_eq htotal (List.pairwise_mergeSort htrans htotal l)
    (List.pairwise_mergeSort htrans htotal l') fun a ↦ ?_
  rw [filter_tied_mergeSort htrans htotal, filter_tied_mergeSort htrans htotal, h]

/-- Where tied elements are equal, the order of a list does not matter. -/
theorem mergeSort_eq_of_perm {l l' : List α} (hperm : l.Perm l')
    (h : ∀ a ∈ l, ∀ b ∈ l, tied le a b = true → a = b) : l.mergeSort le = l'.mergeSort le := by
  have hsorted := List.mergeSort_perm l le
  have hsorted' := (List.mergeSort_perm l' le).trans hperm.symm
  refine List.Perm.eq_of_pairwise (fun a b ha hb hab hba ↦ ?_)
    (List.pairwise_mergeSort htrans htotal l) (List.pairwise_mergeSort htrans htotal l')
    (hsorted.trans hsorted'.symm)
  exact h a (hsorted.mem_iff.1 ha) b (hsorted'.mem_iff.1 hb) (tied_iff.2 ⟨hab, hba⟩)

end

/-! ## Sorting by a key -/

section

variable {κ : Type} [LE κ] [DecidableLE κ] [Std.IsLinearOrder κ] (key : α → κ)

theorem trans_by (a b c : α) (hab : decide (key a ≤ key b) = true)
    (hbc : decide (key b ≤ key c) = true) : decide (key a ≤ key c) = true :=
  decide_eq_true (Std.le_trans (of_decide_eq_true hab) (of_decide_eq_true hbc))

theorem total_by (a b : α) : (decide (key a ≤ key b) || decide (key b ≤ key a)) = true := by
  simpa using Std.le_total (a := key a) (b := key b)

theorem pairwise_mergeSort_by (l : List α) :
    (l.mergeSort fun a b ↦ key a ≤ key b).Pairwise fun a b ↦ key a ≤ key b :=
  (List.pairwise_mergeSort (trans_by key) (total_by key) l).imp of_decide_eq_true

/-- Where the key determines the element, the order of a list does not matter. -/
theorem mergeSort_by_eq_of_perm {l l' : List α} (hperm : l.Perm l')
    (h : ∀ a ∈ l, ∀ b ∈ l, key a = key b → a = b) :
    (l.mergeSort fun a b ↦ key a ≤ key b) = l'.mergeSort fun a b ↦ key a ≤ key b := by
  refine mergeSort_eq_of_perm (trans_by key) (total_by key) hperm fun a ha b hb hab ↦ ?_
  obtain ⟨hle, hge⟩ := tied_iff.1 hab
  exact h a ha b hb (Std.le_antisymm (of_decide_eq_true hle) (of_decide_eq_true hge))

end

end SongBundle
