import Mathlib.Data.List.Forall2
import SongBundle.Error
import SongBundle.Proofs.Basic

/-!
# Computations that may fail

What is known of the parts of a computation in `Except` once the whole has succeeded, and how it
follows from the parts that the whole does not fail with an error.
-/

set_option autoImplicit false

namespace SongBundle.Outcome

variable {ε ε' α β : Type}

theorem exists_of_isOk {x : Except ε α} (h : x.isOk = true) : ∃ a, x = .ok a := by
  cases x with
  | error e => cases h
  | ok a => exact ⟨a, rfl⟩

theorem bind_eq_ok_iff {x : Except ε α} {f : α → Except ε β} {b : β} :
    x >>= f = .ok b ↔ ∃ a, x = .ok a ∧ f a = .ok b := by
  cases x with
  | error e => exact ⟨fun h ↦ (nomatch h), fun ⟨_, h, _⟩ ↦ (nomatch h)⟩
  | ok a => exact ⟨fun h ↦ ⟨a, rfl, h⟩, fun ⟨_, h, hf⟩ ↦ Except.ok.inj h ▸ hf⟩

theorem pure_eq_ok_iff {a b : α} : (pure a : Except ε α) = .ok b ↔ a = b :=
  ⟨Except.ok.inj, congrArg Except.ok⟩

/-- A guard that throws lets a computation succeed only where it does not apply. -/
theorem guard_bind_eq_ok_iff {c : Prop} [Decidable c] {e : ε} {x : Except ε β} {b : β} :
    (do if c then throw e
        x) = .ok b ↔ ¬c ∧ x = .ok b := by
  by_cases hc : c
  · rw [if_pos hc]
    exact ⟨fun h ↦ (nomatch h), fun h ↦ absurd hc h.1⟩
  · rw [if_neg hc]
    exact ⟨fun h ↦ ⟨hc, h⟩, fun h ↦ h.2⟩

theorem mapError_eq_ok_iff {x : Except ε α} {f : ε → ε'} {a : α} :
    x.mapError f = .ok a ↔ x = .ok a := by
  cases x with
  | error e => exact ⟨fun h ↦ (nomatch h), fun h ↦ (nomatch h)⟩
  | ok b => exact ⟨fun h ↦ congrArg _ (Except.ok.inj h), fun h ↦ congrArg _ (Except.ok.inj h)⟩

theorem checked_eq_ok_iff {x : Option α} {a : α} : BuildError.checked x = .ok a ↔ x = some a := by
  cases x with
  | none => exact ⟨fun h ↦ (nomatch h), fun h ↦ (nomatch h)⟩
  | some b => exact ⟨fun h ↦ congrArg _ (Except.ok.inj h), fun h ↦ congrArg _ (Option.some.inj h)⟩

theorem foldlM_cons_eq_ok_iff {step : β → α → Except ε β} {a : α} {as : List α} {x y : β} :
    (a :: as).foldlM step x = .ok y ↔ ∃ z, step x a = .ok z ∧ as.foldlM step z = .ok y := by
  rw [List.foldlM_cons, bind_eq_ok_iff]

/-- Checked steps that succeed on certain elements lead where plain steps lead. -/
theorem foldlM_eq_some_iff {f : β → α → Option β} {step : β → α → β} {P : α → Prop}
    (h : ∀ x a y, f x a = some y ↔ P a ∧ step x a = y) (as : List α) (x y : β) :
    as.foldlM f x = some y ↔ (∀ a ∈ as, P a) ∧ as.foldl step x = y := by
  induction as generalizing x with
  | nil => simp
  | cons a as ih =>
    rw [List.foldlM_cons, Option.bind_eq_bind, Option.bind_eq_some_iff]
    simp only [h, ih, and_assoc, exists_and_left, exists_eq_left', List.forall_mem_cons,
      List.foldl_cons]

theorem map_eq_ok_iff {x : Except ε α} {f : α → β} {b : β} :
    f <$> x = .ok b ↔ ∃ a, x = .ok a ∧ f a = b := by
  rw [map_eq_pure_bind, bind_eq_ok_iff]
  simp only [pure_eq_ok_iff]

/-- An action succeeds on a list if it succeeds on every element. -/
theorem mapM_eq_ok_iff {f : α → Except ε β} {as : List α} {bs : List β} :
    as.mapM f = .ok bs ↔ List.Forall₂ (fun a b ↦ f a = .ok b) as bs := by
  induction as generalizing bs with
  | nil =>
    rw [List.mapM_nil, pure_eq_ok_iff, List.forall₂_nil_left_iff]
    exact eq_comm
  | cons a as ih =>
    rw [List.mapM_cons, bind_eq_ok_iff, List.forall₂_cons_left_iff]
    simp only [bind_eq_ok_iff, pure_eq_ok_iff, ih]
    exact ⟨fun ⟨b, hb, bs', hbs, h⟩ ↦ ⟨b, bs', hb, hbs, h.symm⟩,
      fun ⟨b, bs', hb, hbs, h⟩ ↦ ⟨b, hb, bs', hbs, h.symm⟩⟩

/-- An action that succeeds on some elements and gives an image of each succeeds on lists of these. -/
theorem mapM_eq_ok_iff_map {f : α → Except ε β} {P : α → Prop} {g : α → β}
    (hf : ∀ a b, f a = .ok b ↔ P a ∧ g a = b) {as : List α} {bs : List β} :
    as.mapM f = .ok bs ↔ (∀ a ∈ as, P a) ∧ as.map g = bs := by
  simp only [mapM_eq_ok_iff, hf, List.forall₂_and_left]
  rw [← List.forall₂_map_left_iff (R := Eq), List.forall₂_eq_eq_eq]

/-- An action that fails on a list fails on the first element on which it fails at all. -/
theorem exists_first_of_mapM_eq_error {f : α → Except ε β} {as : List α} {e : ε}
    (h : as.mapM f = .error e) :
    ∃ before a after, as = before ++ a :: after ∧ f a = .error e ∧
      ∀ a' ∈ before, ∃ b, f a' = .ok b := by
  induction as with
  | nil => cases h
  | cons a as ih =>
    rw [List.mapM_cons] at h
    cases ha : f a with
    | error e' =>
      rw [ha] at h
      obtain rfl : e' = e := Except.error.inj h
      exact ⟨[], a, as, rfl, ha, by simp⟩
    | ok b =>
      cases has : as.mapM f with
      | ok bs =>
        rw [ha, has] at h
        cases h
      | error e' =>
        rw [ha, has] at h
        obtain rfl : e' = e := Except.error.inj h
        obtain ⟨before, a', after, rfl, ha', hbefore⟩ := ih has
        exact ⟨a :: before, a', after, rfl, ha', List.forall_mem_cons.2 ⟨⟨b, ha⟩, hbefore⟩⟩

theorem bind_eq_error_iff {x : Except ε α} {f : α → Except ε β} {e : ε} :
    x >>= f = .error e ↔ x = .error e ∨ ∃ a, x = .ok a ∧ f a = .error e := by
  cases x with
  | error e' =>
    refine ⟨fun h ↦ .inl (congrArg _ (Except.error.inj h)), ?_⟩
    rintro (h | ⟨a, h, -⟩)
    · exact congrArg _ (Except.error.inj h)
    · cases h
  | ok a =>
    refine ⟨fun h ↦ .inr ⟨a, rfl, h⟩, ?_⟩
    rintro (h | ⟨b, h, hf⟩)
    · cases h
    · exact Except.ok.inj h ▸ hf

theorem bind_pure_eq_error_iff {x : Except ε α} {f : α → β} {e : ε} :
    (x >>= fun a ↦ pure (f a)) = .error e ↔ x = .error e :=
  bind_eq_error_iff.trans (or_iff_left fun ⟨_, _, h⟩ ↦ (nomatch h))

/-! ## Errors that do not occur -/

theorem bind_ne_error {x : Except ε α} {f : α → Except ε β} {e : ε} (hx : x ≠ .error e)
    (hf : ∀ a, x = .ok a → f a ≠ .error e) : x >>= f ≠ .error e := by
  intro h
  rcases bind_eq_error_iff.1 h with h | ⟨a, ha, h⟩
  · exact hx h
  · exact hf a ha h

theorem map_ne_error {x : Except ε α} {f : α → β} {e : ε} (hx : x ≠ .error e) :
    f <$> x ≠ .error e := by
  rw [map_eq_pure_bind]
  exact bind_ne_error hx fun _ _ ↦ nofun

theorem mapM_ne_error {f : α → Except ε β} {as : List α} {e : ε}
    (hf : ∀ a ∈ as, f a ≠ .error e) : as.mapM f ≠ .error e := by
  intro h
  obtain ⟨before, a, after, rfl, ha, -⟩ := exists_first_of_mapM_eq_error h
  exact hf a (by simp) ha

/-- An action that takes one order to another does so along a list. -/
theorem pairwise_of_mapM_eq_ok {f : α → Except ε β} {R : α → α → Prop} {S : β → β → Prop}
    {as : List α} {bs : List β} (h : as.mapM f = .ok bs) (has : as.Pairwise R)
    (hf : ∀ a a' b b', R a a' → f a = .ok b → f a' = .ok b' → S b b') : bs.Pairwise S := by
  rw [mapM_eq_ok_iff] at h
  induction h with
  | nil => exact .nil
  | cons hab htail ih =>
    obtain ⟨hR, has⟩ := List.pairwise_cons.1 has
    have hS := ((List.forall₂_and_left _ _).2 ⟨hR, htail⟩).imp
      fun _ _ ⟨hR, hab'⟩ ↦ hf _ _ _ _ hR hab hab'
    exact List.pairwise_cons.2 ⟨forall_mem_of_forall₂ hS, ih has⟩

end SongBundle.Outcome
