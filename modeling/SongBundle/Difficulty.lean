import SongBundle.Named

/-!
# Difficulties

The four levels at which a song can be danced, from the easiest to the hardest.
-/

set_option autoImplicit false

namespace SongBundle

open Std

/-- A level of play. -/
inductive Difficulty where
  | beginner
  | easy
  | medium
  | expert
deriving DecidableEq, Repr

namespace Difficulty

/-- The place among the levels. -/
def rank : Difficulty → Nat
  | beginner => 0
  | easy => 1
  | medium => 2
  | expert => 3

/-- The name of a level. -/
def text : Difficulty → String
  | beginner => "beginner"
  | easy => "easy"
  | medium => "medium"
  | expert => "expert"

theorem rank_inj {a b : Difficulty} (h : a.rank = b.rank) : a = b := by
  cases a <;> cases b <;> first | rfl | simp [rank] at h

instance : Named Difficulty where
  what := "difficulty"
  all := [beginner, easy, medium, expert]
  name := text

instance : Ord Difficulty := ⟨compareOn rank⟩

instance : TransOrd Difficulty := inferInstanceAs (TransCmp (compareOn rank))

instance : LawfulEqOrd Difficulty where
  eq_of_compare h := rank_inj (LawfulEqOrd.eq_of_compare h)

end Difficulty

end SongBundle
