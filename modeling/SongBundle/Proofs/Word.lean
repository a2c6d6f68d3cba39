import SongBundle.Word

/-!
# When checked arithmetic gives up

`plus?` and `minus?` do what the numbers do, and they are the plain operations as long as the results
are words.  The greatest word is the only one that has no successor (`toNat_succ_lt_size_iff`).
-/

set_option autoImplicit false

namespace SongBundle

variable {a b c : UInt32}

theorem plus?_of_lt (h : a.toNat + b.toNat < UInt32.size) : plus? a b = some (a + b) := if_pos h

theorem minus?_of_le (h : b ≤ a) : minus? a b = some (a - b) :=
  if_pos (UInt32.le_iff_toNat_le.1 h)

/-- A checked sum is the sum of the numbers. -/
theorem plus?_eq_some_iff : plus? a b = some c ↔ a.toNat + b.toNat = c.toNat := by
  rw [plus?]
  split
  · rename_i h
    rw [Option.some.injEq, ← UInt32.toNat_inj, UInt32.toNat_add, Nat.mod_eq_of_lt h]
  · rename_i h
    exact iff_of_false nofun fun heq ↦ h (heq ▸ c.toNat_lt)

/-- Every word but the greatest one is followed by a word. -/
theorem toNat_succ_lt_size_iff : a.toNat + 1 < UInt32.size ↔ a ≠ 4294967295 := by
  have hlt : a.toNat < 4294967296 := a.toNat_lt
  have hsize : UInt32.size = 4294967296 := rfl
  have hmax : (4294967295 : UInt32).toNat = 4294967295 := rfl
  rw [ne_eq, ← UInt32.toNat_inj]
  omega

/-- A checked number is the number. -/
theorem signed?_eq_some_iff {n : Int} {w : Int64} : signed? n = some w ↔ w.toInt = n := by
  rw [signed?]
  split
  · rename_i h
    rw [Option.some.injEq, ← Int64.toInt_inj, Int64.toInt_ofInt_of_le h.1 (Int.lt_add_one_of_le h.2),
      eq_comm]
  · rename_i h
    exact iff_of_false nofun fun heq ↦ h (heq ▸ ⟨w.minValue_le_toInt, w.toInt_le⟩)

end SongBundle
