import Mathlib.Data.List.Defs
import Mathlib.Data.List.Forall2

/-!
# Numbers and lists

* `foldl_iff` is how a fold over insertions is read: what holds after it held before, or one of the
  steps brought it.
* `consecutivePairs_append`, `getElem?_consecutivePairs` and their like are about the pairs of
  neighbours in a list.
* `pairwise_of_countP_le_one` reads off a count that elements of a list share nothing.
* `forall₂_comp`, `exists_forall₂_of_forall₂` and `forall₂_filter_zip` put relations between the
  elements of lists together.
-/

set_option autoImplicit false

namespace SongBundle

theorem toNat_pred {n : UInt32} (h : n ≠ 0) : (n - 1).toNat + 1 = n.toNat := by
  have hle : 1 ≤ n := by grind
  rw [UInt32.toNat_sub_of_le _ _ hle]
  exact Nat.sub_add_cancel (UInt32.le_iff_toNat_le.1 hle)

/-- A word up to one that is not the greatest is not the greatest either. -/
theorem succ_lt_size_of_le {n last : UInt32} (h : n ≤ last)
    (hlast : last.toNat + 1 < UInt32.size) : n.toNat + 1 < UInt32.size :=
  Nat.lt_of_le_of_lt (Nat.succ_le_succ (UInt32.le_iff_toNat_le.1 h)) hlast

variable {α β γ : Type}

/-! ## Folds -/

/-- A property that each step of a fold keeps, and that a step brings about exactly if it satisfies
`Q`, holds after the fold if it held before or a step satisfies `Q`. -/
theorem foldl_iff {P : β → Prop} {Q : α → Prop} {f : β → α → β}
    (hstep : ∀ b a, P (f b a) ↔ P b ∨ Q a) (l : List α) (b : β) :
    P (l.foldl f b) ↔ P b ∨ ∃ a ∈ l, Q a := by
  induction l generalizing b with
  | nil => simp
  | cons a rest ih =>
    rw [List.foldl_cons, ih, hstep]
    simp [or_assoc]

/-! ## Neighbours in a list -/

/-- Where two lists meet, the last element of the first is followed by the head of the second. -/
theorem consecutivePairs_append (l r : List α) :
    (l ++ r).consecutivePairs = l.zip (l.tail ++ r.head?.toList) ++ r.consecutivePairs := by
  induction l with
  | nil => rfl
  | cons a l ih =>
    cases l with
    | nil => cases r <;> rfl
    | cons b l => exact congrArg ((a, b) :: ·) ih

theorem consecutivePairs_map (f : α → β) (l : List α) :
    (l.map f).consecutivePairs = l.consecutivePairs.map (Prod.map f f) := by
  rw [List.consecutivePairs, ← List.map_tail, List.zip_map]

theorem map_fst_consecutivePairs (l : List α) : l.consecutivePairs.map Prod.fst = l.dropLast := by
  induction l with
  | nil => rfl
  | cons a l ih =>
    cases l with
    | nil => rfl
    | cons b l => exact congrArg (a :: ·) ih

theorem length_consecutivePairs (l : List α) : l.consecutivePairs.length = l.length - 1 := by
  rw [List.length_zip, List.length_tail]
  exact Nat.min_eq_right (Nat.sub_le _ _)

theorem getElem?_consecutivePairs {l : List α} {i : Nat} {a b : α} (ha : l[i]? = some a)
    (hb : l[i + 1]? = some b) : l.consecutivePairs[i]? = some (a, b) := by
  rw [List.getElem?_zip_eq_some, List.getElem?_tail]
  exact ⟨ha, hb⟩

/-- Where every point belongs to one element of a list at most, no two elements share a point. -/
theorem pairwise_of_countP_le_one {R : α → β → Prop} [∀ a b, Decidable (R a b)] {l : List α}
    (h : ∀ b, l.countP (R · b) ≤ 1) : l.Pairwise fun a a' ↦ ∀ b, ¬(R a b ∧ R a' b) := by
  induction l with
  | nil => exact .nil
  | cons a l ih =>
    simp only [List.countP_cons] at h
    refine List.pairwise_cons.2 ⟨fun a' ha' b hboth ↦ ?_, ih fun b ↦ ?_⟩
    · have hpos : 0 < l.countP (R · b) :=
        List.countP_pos_iff.2 ⟨a', ha', decide_eq_true hboth.2⟩
      have hle := h b
      rw [if_pos (decide_eq_true hboth.1)] at hle
      omega
    · exact Nat.le_of_add_right_le (h b)

/-! ## Lists side by side -/

theorem forall₂_comp {R : α → β → Prop} {S : β → γ → Prop} {as : List α} {bs : List β}
    {cs : List γ} (hR : List.Forall₂ R as bs) (hS : List.Forall₂ S bs cs) :
    List.Forall₂ (fun a c ↦ ∃ b, R a b ∧ S b c) as cs := by
  induction hR generalizing cs with
  | nil =>
    cases hS
    exact .nil
  | cons hab _ ih =>
    cases hS with
    | cons hbc htail => exact .cons ⟨_, hab, hbc⟩ (ih htail)

/-- Lists whose elements share something one by one share a list. -/
theorem exists_forall₂_of_forall₂ {R : α → γ → Prop} {S : β → γ → Prop} {as : List α}
    {bs : List β} (h : List.Forall₂ (fun a b ↦ ∃ c, R a c ∧ S b c) as bs) :
    ∃ cs, List.Forall₂ R as cs ∧ List.Forall₂ S bs cs := by
  induction h with
  | nil => exact ⟨[], .nil, .nil⟩
  | cons hab _ ih =>
    obtain ⟨c, hR, hS⟩ := hab
    obtain ⟨cs, hRs, hSs⟩ := ih
    exact ⟨c :: cs, .cons hR hRs, .cons hS hSs⟩

/-- What is related to some element of a list by a relation that says `P` has `P`. -/
theorem forall_mem_of_forall₂ {P : β → Prop} {as : List α} {bs : List β}
    (h : List.Forall₂ (fun _ b ↦ P b) as bs) : ∀ b ∈ bs, P b := by
  induction h with
  | nil => simp
  | cons hb _ ih => exact List.forall_mem_cons.2 ⟨hb, ih⟩

/-- A relation that holds where `p` does is kept by the pairs that satisfy `p`. -/
theorem forall₂_filter_zip {R : α → β → Prop} {p : α → Bool} {as : List α} {bs : List β}
    (h : List.Forall₂ (fun a b ↦ p a = true → R a b) as bs) :
    List.Forall₂ R (as.filter p) (((as.zip bs).filter fun e ↦ p e.1).map Prod.snd) := by
  induction h with
  | nil => exact .nil
  | @cons a b as bs hab _ ih =>
    rw [List.zip_cons_cons]
    by_cases ha : p a = true
    · rw [List.filter_cons_of_pos ha, List.filter_cons_of_pos (p := fun e : α × β ↦ p e.1) ha]
      exact .cons (hab ha) ih
    · rw [List.filter_cons_of_neg ha, List.filter_cons_of_neg (p := fun e : α × β ↦ p e.1) ha]
      exact ih

end SongBundle
