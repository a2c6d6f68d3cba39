/-!
# Checked arithmetic

Words of a machine are added and subtracted modulo their number.  Where a result is no word, though,
the program ends.  Checked arithmetic gives nothing there, so a computation that does all its
arithmetic that way gives a result exactly if the program comes to one.
-/

set_option autoImplicit false

namespace SongBundle

/-- The sum of two words, unless it is too great for one. -/
def plus? (a b : UInt32) : Option UInt32 :=
  if a.toNat + b.toNat < UInt32.size then some (a + b) else none

/-- The difference of two words, unless it is negative. -/
def minus? (a b : UInt32) : Option UInt32 :=
  if b.toNat ≤ a.toNat then some (a - b) else none

/-- A number as a signed word of 64 bits, if it is one. -/
def signed? (n : Int) : Option Int64 :=
  if Int64.minValue.toInt ≤ n ∧ n ≤ Int64.maxValue.toInt then some (Int64.ofInt n) else none

end SongBundle
