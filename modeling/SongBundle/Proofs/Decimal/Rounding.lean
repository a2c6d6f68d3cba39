import Mathlib.Algebra.Order.Ring.Int
import Mathlib.Order.Compare
import SongBundle.Decimal.Binary

/-!
# Rounding keeps the order of numbers

Fractions are rounded to whole numbers, and magnitudes to the numbers of a format.  Both keep the
order, and neither depends on how a fraction or a magnitude is written.

* `roundHalfEven_mono` and `roundHalfUp_mono` are about fractions over one denominator,
  `roundHalfEven_mul_mul`, `roundHalfUp_mul_mul` and `roundHalfEven_anti` about the denominator.
* `Layout.encodeMagnitude_mono` is about magnitudes in units of the least positive number of a
  format, and `Layout.encodeMagnitude_eq_units` says that every magnitude can be counted in these.
* `unitsOf` counts the units of a double-precision number, in the order of the bits
  (`unitsOf_mono`), and `nearest?_decode` is the whole number nearest to it, in the same order
  (`nearest?_decode_mono`).
-/

set_option autoImplicit false

namespace SongBundle

/-- A number is determined by its bits. -/
theorem toBits_injective {x y : Float} (h : x.toBits = y.toBits) : x = y := by
  obtain ⟨⟨_, _⟩⟩ := x
  obtain ⟨⟨_, _⟩⟩ := y
  obtain rfl := h
  rfl

/-! ## Fractions -/

theorem roundHalfEven_eq (n d : Nat) :
    roundHalfEven n d = n / d +
      if 2 * (n % d) < d then 0 else if 2 * (n % d) = d then n / d % 2 else 1 := by
  rw [roundHalfEven]
  cases hcompare : compare (2 * (n % d)) d with
  | lt => rw [if_pos (compare_lt_iff_lt.1 hcompare)]; rfl
  | eq =>
    have heq := compare_eq_iff_eq.1 hcompare
    rw [if_neg heq.not_lt, if_pos heq]
  | gt =>
    have hgt := compare_gt_iff_gt.1 hcompare
    rw [if_neg hgt.not_gt, if_neg (Nat.ne_of_gt hgt)]

theorem roundHalfEven_bounds (n d : Nat) :
    n / d ≤ roundHalfEven n d ∧ roundHalfEven n d ≤ n / d + 1 := by
  rw [roundHalfEven_eq]
  split_ifs <;> omega

/-- Rounding keeps the order of fractions. -/
theorem roundHalfEven_mono {n n' : Nat} (d : Nat) (h : n ≤ n') :
    roundHalfEven n d ≤ roundHalfEven n' d := by
  have hdiv : n / d ≤ n' / d := Nat.div_le_div_right h
  rcases Nat.eq_or_lt_of_le hdiv with heq | hlt
  · have hmod : n % d ≤ n' % d := by
      have hn := Nat.div_add_mod n d
      have hn' := Nat.div_add_mod n' d
      rw [heq] at hn
      omega
    rw [roundHalfEven_eq, roundHalfEven_eq, heq]
    split_ifs <;> omega
  · exact (roundHalfEven_bounds n d).2.trans (Nat.le_trans hlt (roundHalfEven_bounds n' d).1)

/-- What a fraction rounds to does not depend on how it is written. -/
theorem roundHalfEven_mul_mul (n d : Nat) {c : Nat} (hc : 0 < c) :
    roundHalfEven (n * c) (d * c) = roundHalfEven n d := by
  rw [roundHalfEven_eq, roundHalfEven_eq, Nat.mul_div_mul_right _ _ hc, Nat.mul_mod_mul_right,
    ← Nat.mul_assoc]
  simp only [Nat.mul_lt_mul_right hc, Nat.mul_left_inj hc.ne']

theorem roundHalfEven_one (n : Nat) : roundHalfEven n 1 = n := by
  simp [roundHalfEven_eq, Nat.mod_one]

/-- Fractions with a greater denominator are less, also when they are rounded. -/
theorem roundHalfEven_anti (n : Nat) {d d' : Nat} (hd : 0 < d) (h : d ≤ d') :
    roundHalfEven n d' ≤ roundHalfEven n d := by
  calc roundHalfEven n d' = roundHalfEven (n * d) (d' * d) :=
        (roundHalfEven_mul_mul n d' hd).symm
    _ ≤ roundHalfEven (n * d') (d' * d) := roundHalfEven_mono _ (Nat.mul_le_mul_left n h)
    _ = roundHalfEven (n * d') (d * d') := by rw [Nat.mul_comm d']
    _ = roundHalfEven n d := roundHalfEven_mul_mul n d (hd.trans_le h)

theorem div_two_pow_lt_of_log2_le {m k s : Nat} (h : m.log2 ≤ k + s) : m / 2 ^ s < 2 ^ (k + 1) := by
  rw [Nat.div_lt_iff_lt_mul (Nat.two_pow_pos s), ← Nat.pow_add]
  exact Nat.lt_log2_self.trans_le (Nat.pow_le_pow_right Nat.two_pos (by omega))

theorem le_div_two_pow_of_le_log2 {m k s : Nat} (hm : m ≠ 0) (h : k + s ≤ m.log2) :
    2 ^ k ≤ m / 2 ^ s := by
  rw [Nat.le_div_iff_mul_le (Nat.two_pow_pos s), ← Nat.pow_add]
  exact (Nat.pow_le_pow_right Nat.two_pos h).trans (Nat.log2_self_le hm)

/-- Rounding off `s` bits leaves a significand of `k + 1` bits at most, or the next power of two. -/
theorem roundHalfEven_le_of_log2_le {m k s : Nat} (h : m.log2 ≤ k + s) :
    roundHalfEven m (2 ^ s) ≤ 2 ^ (k + 1) :=
  (roundHalfEven_bounds m _).2.trans (div_two_pow_lt_of_log2_le h)

/-- Rounding off `s` bits leaves a significand of `k + 1` bits at least. -/
theorem le_roundHalfEven_of_le_log2 {m k s : Nat} (hm : m ≠ 0) (h : k + s ≤ m.log2) :
    2 ^ k ≤ roundHalfEven m (2 ^ s) :=
  (le_div_two_pow_of_le_log2 hm h).trans (roundHalfEven_bounds m _).1

theorem roundHalfUp_mono {n n' : Nat} (d : Nat) (h : n ≤ n') :
    roundHalfUp n d ≤ roundHalfUp n' d :=
  Nat.div_le_div_right (by omega)

theorem roundHalfUp_mul_mul (n d : Nat) {c : Nat} (hc : 0 < c) :
    roundHalfUp (n * c) (d * c) = roundHalfUp n d := by
  rw [roundHalfUp, roundHalfUp, ← Nat.mul_assoc, ← Nat.mul_assoc, ← Nat.add_mul,
    Nat.mul_div_mul_right _ _ hc]

/-! ## Magnitudes -/

namespace Layout

variable (f : Layout)

/-- The rounding of a number of units that is not zero. -/
theorem encodeMagnitude_units {units : Nat} (h : units ≠ 0) :
    f.encodeMagnitude units f.leastExponent =
      min ((units.log2 - f.fractionBits) * 2 ^ f.fractionBits +
        roundHalfEven units (2 ^ (units.log2 - f.fractionBits)))
        (f.reserved * 2 ^ f.fractionBits) := by
  have htarget : max (f.leastExponent + (units.log2 - f.fractionBits : Int)) f.leastExponent =
      f.leastExponent + (units.log2 - f.fractionBits : Nat) := by omega
  rw [encodeMagnitude, if_neg h]
  simp only [htarget, add_sub_cancel_left, Int.toNat_natCast, Nat.shiftLeft_eq, Nat.one_mul]
  by_cases hlog : units.log2 ≤ f.fractionBits
  · have hzero : units.log2 - f.fractionBits = 0 := Nat.sub_eq_zero_of_le hlog
    simp [hzero, roundHalfEven_one]
  · rw [if_neg (by omega)]

/-- How a magnitude is written does not matter to its rounding. -/
theorem encodeMagnitude_mul_pow (m j : Nat) (e : Int) :
    f.encodeMagnitude (m * 2 ^ j) (e - j) = f.encodeMagnitude m e := by
  rw [encodeMagnitude, encodeMagnitude]
  by_cases hm : m = 0
  · simp [hm]
  have hlog : (m * 2 ^ j).log2 = m.log2 + j := by
    rw [Nat.log2_eq_iff (by simp [hm]), Nat.pow_add, Nat.add_right_comm, Nat.pow_add]
    exact ⟨Nat.mul_le_mul_right _ (Nat.log2_self_le hm),
      Nat.mul_lt_mul_of_pos_right Nat.lt_log2_self (Nat.two_pow_pos j)⟩
  have hwanted : e - j + (((m * 2 ^ j).log2 : Nat) - f.fractionBits : Int) =
      e + (m.log2 - f.fractionBits : Int) := by omega
  rw [if_neg hm, if_neg (by simp [hm])]
  simp only [hwanted]
  generalize max (e + (m.log2 - f.fractionBits : Int)) f.leastExponent = target
  have hscaled : (if target ≤ e - j then (m * 2 ^ j) <<< (e - j - target).toNat
      else roundHalfEven (m * 2 ^ j) (1 <<< (target - (e - j)).toNat)) =
      if target ≤ e then m <<< (e - target).toNat
      else roundHalfEven m (1 <<< (target - e).toNat) := by
    simp only [Nat.shiftLeft_eq, Nat.one_mul]
    by_cases hfar : target ≤ e - j
    · have he : (e - target).toNat = j + (e - j - target).toNat := by omega
      rw [if_pos hfar, if_pos (by omega), he, Nat.pow_add, Nat.mul_assoc]
    · rw [if_neg hfar]
      by_cases hnear : target ≤ e
      · obtain ⟨i, hi⟩ : ∃ i, i = (target - (e - j)).toNat := ⟨_, rfl⟩
        have hj : j = (e - target).toNat + i := by omega
        have hone := roundHalfEven_mul_mul (m * 2 ^ (e - target).toNat) 1 (Nat.two_pow_pos i)
        rw [roundHalfEven_one, Nat.one_mul, Nat.mul_assoc, ← Nat.pow_add, ← hj] at hone
        rw [if_pos hnear, ← hi, hone]
      · have he : (target - (e - j)).toNat = (target - e).toNat + j := by omega
        rw [if_neg hnear, he, Nat.pow_add, roundHalfEven_mul_mul _ _ (Nat.two_pow_pos j)]
  rw [hscaled]

/-- Rounding keeps the order of whole numbers of units. -/
theorem encodeMagnitude_mono {units units' : Nat} (h : units ≤ units') :
    f.encodeMagnitude units f.leastExponent ≤ f.encodeMagnitude units' f.leastExponent := by
  rcases Nat.eq_zero_or_pos units with rfl | hpos
  · simp [encodeMagnitude]
  have hne : units ≠ 0 := hpos.ne'
  have hne' : units' ≠ 0 := (hpos.trans_le h).ne'
  rw [f.encodeMagnitude_units hne, f.encodeMagnitude_units hne']
  refine min_le_min_right _ ?_
  have hlog : units.log2 ≤ units'.log2 :=
    (Nat.le_log2 hne').2 ((Nat.log2_self_le hne).trans h)
  rcases Nat.eq_or_lt_of_le (Nat.sub_le_sub_right hlog f.fractionBits) with heq | hlt
  · rw [heq]
    exact Nat.add_le_add_left (roundHalfEven_mono _ h) _
  · -- the greater number has a greater exponent, which makes up for any significand
    generalize hs : units.log2 - f.fractionBits = s at hlt ⊢
    generalize hs' : units'.log2 - f.fractionBits = s' at hlt ⊢
    have hupper : roundHalfEven units (2 ^ s) ≤ 2 * 2 ^ f.fractionBits :=
      Nat.pow_succ' ▸ roundHalfEven_le_of_log2_le (by omega)
    have hlower : 2 ^ f.fractionBits ≤ roundHalfEven units' (2 ^ s') :=
      le_roundHalfEven_of_le_log2 hne' (by omega)
    calc s * 2 ^ f.fractionBits + roundHalfEven units (2 ^ s)
        ≤ s * 2 ^ f.fractionBits + 2 * 2 ^ f.fractionBits := Nat.add_le_add_left hupper _
      _ = (s + 1) * 2 ^ f.fractionBits + 2 ^ f.fractionBits := by rw [Nat.add_mul]; omega
      _ ≤ s' * 2 ^ f.fractionBits + roundHalfEven units' (2 ^ s') :=
        Nat.add_le_add (Nat.mul_le_mul_right _ hlt) hlower

theorem encodeMagnitude_le (m : Nat) (e : Int) :
    f.encodeMagnitude m e ≤ f.reserved <<< f.fractionBits := by
  rw [encodeMagnitude]
  split
  · exact Nat.zero_le _
  · exact Nat.min_le_right _ _

/-- A magnitude that is no finer than the least positive number consists of whole units of it. -/
theorem encodeMagnitude_eq_units (m : Nat) {e : Int} (h : f.leastExponent ≤ e) :
    f.encodeMagnitude m e =
      f.encodeMagnitude (m * 2 ^ (e - f.leastExponent).toNat) f.leastExponent := by
  rw [← f.encodeMagnitude_mul_pow m (e - f.leastExponent).toNat e]
  congr 1
  omega

end Layout

/-! ## Numbers in units of the least positive one -/

/-- The number with certain bits, counted in units of the least positive number. -/
def unitsOf (bits : Nat) : Nat :=
  if bits < 2 ^ 52 then bits else (2 ^ 52 + bits % 2 ^ 52) * 2 ^ (bits / 2 ^ 52 - 1)

/-- Greater bits stand for a greater number. -/
theorem unitsOf_mono {bits bits' : Nat} (h : bits ≤ bits') : unitsOf bits ≤ unitsOf bits' := by
  have hlt : bits % 2 ^ 52 < 2 ^ 52 := Nat.mod_lt _ (by decide)
  rw [unitsOf, unitsOf]
  split_ifs with hsmall hsmall'
  · exact h
  · have hpos : 1 ≤ 2 ^ (bits' / 2 ^ 52 - 1) := Nat.one_le_two_pow
    calc bits ≤ 2 ^ 52 * 1 := by omega
      _ ≤ (2 ^ 52 + bits' % 2 ^ 52) * 2 ^ (bits' / 2 ^ 52 - 1) :=
        Nat.mul_le_mul (Nat.le_add_right _ _) hpos
  · omega
  · rcases Nat.eq_or_lt_of_le (Nat.div_le_div_right (c := 2 ^ 52) h) with heq | hless
    · rw [heq]
      exact Nat.mul_le_mul_right _ (by omega)
    · calc (2 ^ 52 + bits % 2 ^ 52) * 2 ^ (bits / 2 ^ 52 - 1)
          ≤ 2 ^ 52 * 2 * 2 ^ (bits / 2 ^ 52 - 1) := Nat.mul_le_mul_right _ (by omega)
        _ = 2 ^ 52 * 2 ^ (bits / 2 ^ 52 - 1 + 1) := by rw [Nat.mul_assoc, ← Nat.pow_succ']
        _ ≤ (2 ^ 52 + bits' % 2 ^ 52) * 2 ^ (bits' / 2 ^ 52 - 1) :=
          Nat.mul_le_mul (Nat.le_add_right _ _) (Nat.pow_le_pow_right Nat.two_pos (by omega))

/-- A magnitude rounds like the units of any kind that it has. -/
theorem roundHalfUp_magnitude (m k : Nat) {e : Int} (he : -k ≤ e) :
    roundHalfUp (FloatValue.magnitude m e).1 (FloatValue.magnitude m e).2 =
      roundHalfUp (m * 2 ^ (e + k).toNat) (2 ^ k) := by
  have hexponent : e.toNat + k = (e + k).toNat + (-e).toNat := by omega
  have hleft := roundHalfUp_mul_mul (m * 2 ^ e.toNat) (2 ^ (-e).toNat) (Nat.two_pow_pos k)
  have hright := roundHalfUp_mul_mul (m * 2 ^ (e + k).toNat) (2 ^ k) (Nat.two_pow_pos (-e).toNat)
  rw [Nat.mul_assoc, ← Nat.pow_add, hexponent] at hleft
  rw [Nat.mul_assoc, ← Nat.pow_add, Nat.mul_comm (2 ^ k)] at hright
  rw [FloatValue.magnitude, Nat.shiftLeft_eq, Nat.shiftLeft_eq, Nat.one_mul, ← hleft, hright]

/-- A finite number that is not negative is decoded to the units that it has. -/
theorem exists_decode_eq {bits : Nat} (h : bits < 2047 * 2 ^ 52) :
    ∃ m e, Layout.double.decode bits = .finite false m e ∧ -1074 ≤ e ∧
      m * 2 ^ (e + 1074).toNat = unitsOf bits := by
  have hfraction : Layout.double.fractionBits = 52 := rfl
  have hexponent : Layout.double.exponentBits = 11 := rfl
  have hleast : Layout.double.leastExponent = -1074 := rfl
  have hreserved : Layout.double.reserved = 2047 := rfl
  rw [Layout.decode, hfraction, hexponent, hleast, hreserved, Nat.shiftRight_eq_div_pow,
    Nat.shiftRight_eq_div_pow]
  have hbiased : bits / 2 ^ 52 % (1 <<< 11) = bits / 2 ^ 52 := Nat.mod_eq_of_lt (by omega)
  have hsign : bits / 2 ^ (52 + 11) % 2 = 0 := by omega
  simp only [hbiased, hsign]
  rw [if_neg (by omega)]
  by_cases hsmall : bits < 2 ^ 52
  · have hmod : bits % (1 <<< 52) = bits := Nat.mod_eq_of_lt hsmall
    rw [if_pos (Nat.div_eq_of_lt hsmall), unitsOf, if_pos hsmall, hmod]
    exact ⟨bits, -1074, rfl, le_rfl, Nat.mul_one bits⟩
  · have hunits : (-1074 + ((bits / 2 ^ 52 : Nat) - 1 : Int) + 1074).toNat = bits / 2 ^ 52 - 1 := by
      omega
    rw [if_neg (by omega), unitsOf, if_neg hsmall]
    exact ⟨_, _, rfl, by omega, congrArg (_ * 2 ^ ·) hunits⟩

theorem nearest?_decode {bits : Nat} (h : bits < 2047 * 2 ^ 52) :
    (Layout.double.decode bits).nearest? = some (roundHalfUp (unitsOf bits) (2 ^ 1074)) := by
  obtain ⟨m, e, hdecode, he, hunits⟩ := exists_decode_eq h
  rw [hdecode, FloatValue.nearest?, roundHalfUp_magnitude m 1074 he, ← hunits]
  rfl

/-- Greater bits stand for a number that is nearest to a greater whole number.  Infinity, which has
the greatest bits here, is nearest to none. -/
theorem nearest?_decode_mono {bits bits' : Nat} (h : bits ≤ bits') (h' : bits' ≤ 2047 * 2 ^ 52)
    {i j : Nat} (hi : (Layout.double.decode bits).nearest? = some i)
    (hj : (Layout.double.decode bits').nearest? = some j) : i ≤ j := by
  rcases Nat.eq_or_lt_of_le h' with rfl | hlt
  · cases hj
  · rw [nearest?_decode (h.trans_lt hlt)] at hi
    rw [nearest?_decode hlt] at hj
    obtain rfl := Option.some.inj hi
    obtain rfl := Option.some.inj hj
    exact roundHalfUp_mono _ (unitsOf_mono h)

/-- The infinities and the undefined value come after all finite numbers. -/
theorem lt_of_isFinite_decode {bits : Nat} (hfinite : (Layout.double.decode bits).isFinite = true)
    (hlt : bits < 2 ^ 63) : bits < 2047 * 2 ^ 52 := by
  refine Nat.lt_of_not_le fun hge ↦ ?_
  have hreserved :
      bits >>> Layout.double.fractionBits % (1 <<< Layout.double.exponentBits) =
        Layout.double.reserved := by
    change bits >>> 52 % 2048 = 2047
    rw [Nat.shiftRight_eq_div_pow]
    omega
  rw [Layout.decode, if_pos hreserved] at hfinite
  split at hfinite <;> cases hfinite

end SongBundle
