import SongBundle.Proofs.Decimal.Product

/-!
# Dividing by a number

The length of a beat is a quotient of double-precision numbers, which is rounded.  The significand
of the dividend is made longer until the whole part of the quotient is long enough, and what is left
over is kept as the rest of a fraction; the bits of the result are those of the number nearest to
the exact quotient (`toBits_div`).  So a greater divisor never gets a greater quotient
(`nearest?_div_anti`).

* `Placed` is about the significand and the exponent of a positive number, and
  `exists_unpack_of_pos` about the numbers that have them.
* `le_iff_of_unpack` compares two such numbers.
* `quotient` is the significand of a quotient.  It depends on the significand of the divisor only,
  and `scale` accounts for the exponents.
-/

set_option autoImplicit false

namespace SongBundle

open Float.Model Float.Model.UnpackedFloat

/-! ## Positive numbers -/

/-- A significand and an exponent as positive numbers have them. -/
structure Placed (m : Nat) (e : Int) : Prop where
  pos : 0 < m
  lt : m < 2 ^ 53
  least_le : -1074 ≤ e
  le_greatest : e ≤ 971
  /-- Only the numbers of the least exponent have a shorter significand. -/
  long : 2 ^ 52 ≤ m ∨ e = -1074

theorem Placed.log2_le {m : Nat} {e : Int} (h : Placed m e) : m.log2 ≤ 52 :=
  Nat.le_of_lt_succ ((Nat.log2_lt h.pos.ne').2 h.lt)

theorem exists_unpack_placed {x : Float} (hpos : 0 < x.toBits.toNat)
    (hlt : x.toBits.toNat < 2047 * 2 ^ 52) :
    ∃ m e hm, x.toModel.unpack = .finite .positive m e hm ∧ Placed m e := by
  change 0 < x.toModel.toBits.toBitVec.toNat at hpos
  change x.toModel.toBits.toBitVec.toNat < _ at hlt
  rw [Float.Model.unpack]
  generalize x.toModel.toBits.toBitVec = b at hpos hlt
  rcases Nat.lt_or_ge b.toNat (2 ^ 52) with hsmall | hlarge
  · obtain ⟨m, e, hm, hunpack, rfl, rfl⟩ := exists_unpack_of_lt hpos hsmall
    exact ⟨_, _, hm, hunpack, hpos, by omega, le_rfl, by omega, .inr rfl⟩
  · obtain ⟨m, e, hm, hunpack, rfl, rfl⟩ := exists_unpack_of_ge hlarge hlt
    exact ⟨_, _, hm, hunpack, hm, by omega, by omega, by omega, .inl (Nat.le_add_right _ _)⟩

theorem float_le_of_lt {x y : Float} (h : x < y) : x ≤ y := by
  have hlt : UnpackedFloat.lt x.toModel.unpack y.toModel.unpack = true := of_decide_eq_true h
  rw [UnpackedFloat.lt, beq_iff_eq] at hlt
  have hle : UnpackedFloat.le x.toModel.unpack y.toModel.unpack = true := by
    rw [UnpackedFloat.le, hlt]
    rfl
  exact decide_eq_true hle

/-- A finite number above zero has a significand and an exponent. -/
theorem exists_unpack_of_pos {x : Float} (hfinite : (FloatValue.ofDouble x).isFinite = true)
    (hpos : 0 < x) : ∃ m e hm, x.toModel.unpack = .finite .positive m e hm ∧ Placed m e := by
  rcases toBits_of_nonneg (float_le_of_lt hpos) with hbits | hbits
  · refine exists_unpack_placed (Nat.pos_of_ne_zero fun hzero ↦ ?_)
      (lt_of_isFinite_decode hfinite hbits)
    obtain rfl : x = 0 := toBits_injective (UInt64.toNat.inj hzero)
    exact absurd hpos (by decide)
  · obtain rfl : x = -0.0 := toBits_injective (UInt64.toNat.inj hbits)
    exact absurd hpos (by decide)

/-- Positive numbers are compared by exponent first. -/
theorem le_iff_of_unpack {x y : Float} {m m' : Nat} {e e' : Int} {hm : 0 < m} {hm' : 0 < m'}
    (hx : x.toModel.unpack = .finite .positive m e hm)
    (hy : y.toModel.unpack = .finite .positive m' e' hm') :
    x ≤ y ↔ e < e' ∨ e = e' ∧ m ≤ m' := by
  have hle : x ≤ y ↔ UnpackedFloat.le x.toModel.unpack y.toModel.unpack = true :=
    ⟨of_decide_eq_true, decide_eq_true⟩
  rw [hle, hx, hy]
  change ((compare e e').then (compare m m')).isLE = true ↔ _
  rcases lt_trichotomy e e' with h | rfl | h
  · rw [compare_lt_iff_lt.2 h]
    exact iff_of_true rfl (.inl h)
  · rw [compare_eq_iff_eq.2 rfl, Ordering.eq_then, ← Nat.isLE_compare]
    simp
  · rw [compare_gt_iff_gt.2 h]
    exact iff_of_false Bool.false_ne_true (by omega)

/-! ## Quotients -/

/-- The significand of 60000000, which has the exponent -27. -/
def dividend : Nat := 60000000 * 2 ^ 27

/-- The dividend, with as many bits more as a divisor has. -/
def longDividend (m : Nat) : Nat := dividend * 2 ^ (m.log2 + 1)

/-- The power of two that a number is below. -/
def scale (m : Nat) (e : Int) : Int := m.log2 + 1 + e

theorem Placed.scale_le {m : Nat} {e : Int} (h : Placed m e) : scale m e ≤ 1024 := by
  have hlog := h.log2_le
  have hgreatest := h.le_greatest
  rw [scale]
  omega

/-- A greater number has a greater scale, or as many bits in its significand. -/
theorem scale_lt_or_log2_eq {m m' : Nat} {e e' : Int} (h : Placed m e) (h' : Placed m' e')
    (horder : e < e' ∨ e = e' ∧ m ≤ m') :
    scale m e < scale m' e' ∨ scale m e = scale m' e' ∧ m.log2 = m'.log2 ∧ m ≤ m' := by
  have hlog := h.log2_le
  rw [scale, scale]
  rcases horder with hlt | ⟨rfl, hle⟩
  · -- the number is not among those of the least exponent, so its significand is a long one
    have hleast := h.least_le
    have hlong : 2 ^ 52 ≤ m' := h'.long.resolve_right (by omega)
    have hlog' : 52 ≤ m'.log2 := (Nat.le_log2 h'.pos.ne').2 hlong
    omega
  · have hmono : m.log2 ≤ m'.log2 :=
      (Nat.le_log2 h'.pos.ne').2 ((Nat.log2_self_le h.pos.ne').trans hle)
    omega

theorem divCore_eq {m : Nat} {e : Int} (h : Placed m e) :
    divCore .binary64 dividend (-27) m e =
      (longDividend m / m, -27 - scale m e, accuracyOfFraction (longDividend m % m) m) := by
  have hlog := h.log2_le
  have hdividend : dividend.log2 = 52 := by decide
  have hbits : Format.binary64.mantissaBits = 53 := rfl
  have hleast : Format.binary64.minExponent = -1074 := rfl
  have hgreatest := h.le_greatest
  have htarget : min (-27 - e) (Format.binary64.targetExponent
      (totalExponent dividend (-27) - totalExponent m e)) = -27 - scale m e := by
    rw [Format.targetExponent, totalExponent, totalExponent, hdividend, hbits, hleast, scale]
    omega
  have hshift : (-27 - e - (-27 - scale m e)).toNat = m.log2 + 1 := by
    rw [scale]
    omega
  simp only [divCore, htarget, hshift, Nat.shiftLeft_eq, longDividend]

/-- The whole part of a quotient is as long as the dividend or has one bit more. -/
theorem longDividend_bounds {m : Nat} (hm : 0 < m) :
    dividend * m ≤ longDividend m ∧ longDividend m ≤ 2 * dividend * m := by
  have hlt : m < 2 ^ (m.log2 + 1) := Nat.lt_log2_self
  have hle : 2 ^ m.log2 ≤ m := Nat.log2_self_le hm.ne'
  refine ⟨Nat.mul_le_mul_left _ hlt.le, ?_⟩
  calc longDividend m = 2 * dividend * 2 ^ m.log2 := by rw [longDividend, Nat.pow_succ]; ring
    _ ≤ 2 * dividend * m := Nat.mul_le_mul_left _ hle

/-- The bit by which the whole part of a quotient is too long. -/
def excess (m : Nat) : Nat := if longDividend m / m < 2 ^ 53 then 0 else 1

/-- The significand of a quotient. -/
def quotient (m : Nat) : Nat := roundHalfEven (longDividend m) (m * 2 ^ excess m)

theorem surplus_longDividend {m : Nat} {e : Int} (h : Placed m e) :
    surplus (longDividend m / m) (-27 - scale m e) = excess m := by
  obtain ⟨hlower, hupper⟩ := longDividend_bounds h.pos
  have hscale := h.scale_le
  have hge : dividend ≤ longDividend m / m := (Nat.le_div_iff_mul_le h.pos).2 hlower
  have hle : longDividend m / m ≤ 2 * dividend := Nat.div_le_of_le_mul (Nat.mul_comm m _ ▸ hupper)
  have hdividend : 2 ^ 52 ≤ dividend ∧ 2 * dividend < 2 ^ 54 := by decide
  rw [excess, surplus]
  generalize longDividend m / m = q at hge hle
  have hne : q ≠ 0 := by omega
  split_ifs with hshort
  · have hq : q.log2 = 52 := (Nat.log2_eq_iff hne).2 ⟨by omega, hshort⟩
    omega
  · have hq : q.log2 = 53 := (Nat.log2_eq_iff hne).2 ⟨by omega, by omega⟩
    omega

/-- The bits of a quotient are those of the number nearest to it. -/
theorem toBits_div {x : Float} {m : Nat} {e : Int} {hm : 0 < m}
    (hx : x.toModel.unpack = .finite .positive m e hm) (h : Placed m e) :
    (60000000 / x).toBits.toNat =
      min ((1047 - scale m e + excess m).toNat * 2 ^ 52 + quotient m) (2047 * 2 ^ 52) := by
  have hdividend : (60000000 : Float).toModel.unpack =
      .finite .positive dividend (-27) (by decide) := rfl
  have hquotient : (60000000 / x).toBits.toNat =
      (UnpackedFloat.pack .binary64 (UnpackedFloat.div .binary64
        (60000000 : Float).toModel.unpack x.toModel.unpack)).toNat := rfl
  have hlong : 2 ^ 52 ≤ longDividend m / m :=
    (Nat.le_div_iff_mul_le hm).2 (le_trans (Nat.mul_le_mul_right m (by decide))
      (longDividend_bounds hm).1)
  have hscale : -27 - scale m e + excess m + 1074 = 1047 - scale m e + excess m := by omega
  rw [hquotient, hdividend, hx, UnpackedFloat.div]
  simp only [divCore_eq h]
  refine (toNat_pack_fraction hm hlong).trans ?_
  rw [surplus_longDividend h, hscale, quotient]

/-- The significand of a quotient is no less than the dividend's, unless a bit of it had to go; then
it is no greater. -/
theorem quotient_bounds {m : Nat} (hm : 0 < m) :
    excess m = 0 ∧ dividend ≤ quotient m ∧ quotient m ≤ 2 ^ 53 ∨
      excess m = 1 ∧ 2 ^ 52 ≤ quotient m ∧ quotient m ≤ dividend := by
  obtain ⟨hlower, hupper⟩ := longDividend_bounds hm
  have hbounds := roundHalfEven_bounds (longDividend m) (m * 2 ^ excess m)
  rw [← Nat.div_div_eq_div_mul] at hbounds
  rw [quotient]
  by_cases hshort : longDividend m / m < 2 ^ 53
  · have hexcess : excess m = 0 := if_pos hshort
    have hge : dividend ≤ longDividend m / m := (Nat.le_div_iff_mul_le hm).2 hlower
    rw [hexcess, Nat.pow_zero, Nat.div_one] at hbounds
    rw [hexcess, Nat.pow_zero]
    exact .inl ⟨rfl, hge.trans hbounds.1, hbounds.2.trans hshort⟩
  · have hexcess : excess m = 1 := if_neg hshort
    rw [hexcess, Nat.pow_one] at hbounds ⊢
    refine .inr ⟨rfl, by omega, ?_⟩
    calc roundHalfEven (longDividend m) (m * 2)
        ≤ roundHalfEven (dividend * (m * 2)) (1 * (m * 2)) := by
          rw [Nat.one_mul]
          exact roundHalfEven_mono _ (hupper.trans_eq (by ring))
      _ = dividend := by rw [roundHalfEven_mul_mul _ _ (by omega), roundHalfEven_one]

/-- Of two divisors with as many bits, the greater one has the less quotient. -/
theorem quotient_anti {m m' : Nat} (hm : 0 < m) (hlog : m.log2 = m'.log2) (h : m ≤ m') :
    excess m' ≤ excess m ∧ (excess m' = excess m → quotient m' ≤ quotient m) := by
  have hlong : longDividend m' = longDividend m := by rw [longDividend, longDividend, hlog]
  have hdiv : longDividend m / m' ≤ longDividend m / m := Nat.div_le_div_left h hm
  refine ⟨?_, fun hexcess ↦ ?_⟩
  · rw [excess, excess, hlong]
    split_ifs <;> omega
  · rw [quotient, quotient, hlong, hexcess]
    exact roundHalfEven_anti _ (Nat.mul_pos hm (Nat.two_pow_pos _)) (Nat.mul_le_mul_right _ h)

/-- A greater divisor never gets a greater quotient. -/
theorem toBits_div_anti {x y : Float} (hx : (FloatValue.ofDouble x).isFinite = true) (hpos : 0 < x)
    (hy : (FloatValue.ofDouble y).isFinite = true) (hpos' : 0 < y) (hxy : x ≤ y) :
    (60000000 / y).toBits.toNat ≤ (60000000 / x).toBits.toNat := by
  obtain ⟨m, e, hm, hunpack, hplaced⟩ := exists_unpack_of_pos hx hpos
  obtain ⟨m', e', hm', hunpack', hplaced'⟩ := exists_unpack_of_pos hy hpos'
  have horder := (le_iff_of_unpack hunpack hunpack').1 hxy
  rw [toBits_div hunpack hplaced, toBits_div hunpack' hplaced']
  refine min_le_min_right _ ?_
  have hscale := hplaced.scale_le
  have hscale' := hplaced'.scale_le
  have hdividend : 2 ^ 52 ≤ dividend ∧ dividend < 2 ^ 53 := by decide
  have hbounds := quotient_bounds hm
  have hbounds' := quotient_bounds hm'
  rcases scale_lt_or_log2_eq hplaced hplaced' horder with hlt | ⟨heq, hlog, hle⟩
  · -- the exponents of the quotients differ already, or else both are next to the dividend's
    omega
  · obtain ⟨hexcess, hquotient⟩ := quotient_anti hm hlog hle
    omega

/-- A greater divisor has a less quotient, also when both quotients are rounded to whole numbers. -/
theorem nearest?_div_anti {x y : Float} (hx : (FloatValue.ofDouble x).isFinite = true)
    (hpos : 0 < x) (hy : (FloatValue.ofDouble y).isFinite = true) (hpos' : 0 < y) (hxy : x ≤ y)
    {i j : Nat}
    (hi : (FloatValue.ofDouble (60000000 / x)).nearest? = some i)
    (hj : (FloatValue.ofDouble (60000000 / y)).nearest? = some j) : j ≤ i := by
  obtain ⟨m, e, hm, hunpack, hplaced⟩ := exists_unpack_of_pos hx hpos
  have hle : (60000000 / x).toBits.toNat ≤ 2047 * 2 ^ 52 :=
    toBits_div hunpack hplaced ▸ min_le_right _ _
  exact nearest?_decode_mono (toBits_div_anti hx hpos hy hpos' hxy) hle hj hi

end SongBundle
