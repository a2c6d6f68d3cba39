import Mathlib
import SongBundle.Proofs.Decimal.Rounding

/-!
# Multiplying a number by 480

The ticks of a beat are a product of double-precision numbers, which is rounded.  Numbers are
multiplied on their significands and exponents, and the product is shifted until it has a place in
the format; the bits of the result are those of the number nearest to the exact product
(`toBits_mul_480`).  So a greater number never gets a smaller product (`nearest?_mul_480_mono`).

* `cut` is what is kept of a fraction that is no whole number.  `shiftRight_cut` says what is left
  of it when bits are shifted out, and `toNat_pack_fraction` that this rounds to the nearest number.
* `exists_unpack_eq` takes a number apart into a magnitude with its units.
* `toBits_of_nonneg` is about zero, which comes with and without a sign.
-/

set_option autoImplicit false

namespace SongBundle

open Float.Model Float.Model.UnpackedFloat

/-! ## Shifting and rounding -/

/-- A fraction that is cut off to a whole number.  The two bits that are kept of the rest tell on
which side of a half it was. -/
def cut (n d : Nat) : ExtendedMantissa :=
  ⟨n / d, decide (d ≤ 2 * (n % d)), decide (2 * (n % d) % d ≠ 0)⟩

theorem ofMantissaAndAccuracy_fraction (n : Nat) {d : Nat} (hd : 0 < d) :
    ExtendedMantissa.ofMantissaAndAccuracy (n / d) (accuracyOfFraction (n % d) d) = cut n d := by
  rw [cut, accuracyOfFraction]
  have hlt : n % d < d := Nat.mod_lt _ hd
  generalize n % d = r at hlt
  by_cases hr : r = 0
  · subst hr
    rw [if_pos rfl, Nat.mul_zero, Nat.zero_mod, decide_eq_false hd.not_ge]
    rfl
  rw [if_neg hr]
  rcases Nat.lt_trichotomy (2 * r) d with hlow | rfl | hhigh
  · rw [compare_lt_iff_lt.2 hlow, Nat.mod_eq_of_lt hlow, decide_eq_false hlow.not_ge,
      decide_eq_true (by omega)]
    rfl
  · rw [compare_eq_iff_eq.2 rfl, Nat.mod_self, decide_eq_true le_rfl]
    rfl
  · have hmod : 2 * r % d ≠ 0 := by
      rw [Nat.mod_eq_sub_mod hhigh.le, Nat.mod_eq_of_lt (by omega)]
      omega
    rw [compare_gt_iff_gt.2 hhigh, decide_eq_true hhigh.le, decide_eq_true hmod]
    rfl

theorem shiftRightOne_cut (n : Nat) {d : Nat} (hd : 0 < d) :
    (cut n d).shiftRightOne = cut n (d * 2) := by
  have hmod : n % (d * 2) = n % d + d * (n / d % 2) := Nat.mod_mul
  have hlt : n % d < d := Nat.mod_lt _ hd
  rw [cut, cut, ExtendedMantissa.shiftRightOne, hmod, Nat.div_div_eq_div_mul]
  have hround : d * 2 ≤ 2 * (n % d + d * (n / d % 2)) ↔ n / d % 2 ≠ 0 := by
    rcases Nat.mod_two_eq_zero_or_one (n / d) with hbit | hbit <;> rw [hbit] <;> omega
  have hsticky : 2 * (n % d + d * (n / d % 2)) % (d * 2) ≠ 0 ↔
      d ≤ 2 * (n % d) ∨ 2 * (n % d) % d ≠ 0 := by
    rw [Nat.mul_comm d 2, Nat.mul_mod_mul_left, Nat.add_mul_mod_self_left, Nat.mod_eq_of_lt hlt]
    rcases Nat.lt_or_ge (2 * (n % d)) d with hhalf | hhalf
    · rw [Nat.mod_eq_of_lt hhalf]
      omega
    · omega
  simp only [hround, hsticky, Bool.decide_or]
  rcases Nat.mod_two_eq_zero_or_one (n / d) with hbit | hbit <;> rw [hbit] <;> rfl

/-- Bits that are shifted out go to the rest. -/
theorem shiftRight_cut (n : Nat) {d : Nat} (hd : 0 < d) (k : Nat) :
    cut n d >>> k = cut n (d * 2 ^ k) := by
  induction k with
  | zero => rw [Nat.pow_zero, Nat.mul_one]; rfl
  | succ k ih =>
    have hstep : cut n d >>> (k + 1) = (cut n d >>> k).shiftRightOne := rfl
    rw [hstep, ih, shiftRightOne_cut n (Nat.mul_pos hd (Nat.two_pow_pos k)), Nat.mul_assoc,
      Nat.pow_succ]

theorem roundedMantissa_cut (n : Nat) {d : Nat} (hd : 0 < d) :
    (cut n d).roundedMantissa = roundHalfEven n d := by
  rw [cut, roundHalfEven_eq]
  have hlt : n % d < d := Nat.mod_lt _ hd
  generalize n % d = r at hlt
  generalize n / d = q
  rcases Nat.lt_trichotomy (2 * r) d with hr | rfl | hr
  · rw [if_pos hr, decide_eq_false hr.not_ge]
    cases decide (2 * r % d ≠ 0) <;> rfl
  · rw [if_neg (lt_irrefl _), if_pos rfl, Nat.mod_self, decide_eq_true le_rfl]
    rfl
  · have hmod : 2 * r % d ≠ 0 := by
      rw [Nat.mod_eq_sub_mod hr.le, Nat.mod_eq_of_lt (by omega)]
      omega
    rw [if_neg hr.not_gt, if_neg hr.ne', decide_eq_true hr.le, decide_eq_true hmod]
    rfl

theorem toNat_packComponents (exponent : BitVec 11) (mantissa : BitVec 52) :
    (packComponents .binary64 .positive exponent mantissa).toNat =
      exponent.toNat * 2 ^ 52 + mantissa.toNat := by
  rw [packComponents]
  simp only [BitVec.toNat_append]
  rw [← Nat.shiftLeft_add_eq_or_of_lt mantissa.isLt, ← Nat.shiftLeft_add_eq_or_of_lt exponent.isLt]
  simp [Sign.toBitVec, Nat.shiftLeft_eq]

/-- The bits of a number whose significand is in its place. -/
theorem toNat_pack {m : Nat} {e : Int} (hm : 0 < m) (hlt : m < 2 ^ 53) (he : -1074 ≤ e)
    (hplace : 2 ^ 52 ≤ m ∨ e = -1074) :
    (UnpackedFloat.pack .binary64 (.finite .positive m e hm)).toNat =
      min ((e + 1074).toNat * 2 ^ 52 + m) (2047 * 2 ^ 52) := by
  have hbiased :
      (e + (Format.binary64.exponentBias : Int) + (52 : Nat)).toNat = (e + 1075).toNat := by
    have hbias : Format.binary64.exponentBias = 1023 := rfl
    rw [hbias]
    omega
  have hlog : m.log2 + 1 = Format.binary64.mantissaBits ↔ 2 ^ 52 ≤ m := by
    have hbits : Format.binary64.mantissaBits = 53 := rfl
    rw [hbits, ← Nat.le_log2 hm.ne']
    have := (Nat.log2_lt hm.ne').2 hlt
    omega
  simp only [UnpackedFloat.pack, hbiased, hlog]
  split_ifs with hinfinite hnormal
  · have hones : (-1#11).toNat = 2047 := rfl
    have hfull : 2047 * 2 ^ 52 ≤ (e + 1074).toNat * 2 ^ 52 + m := by omega
    rw [packedInfinity, toNat_packComponents, min_eq_right hfull]
    exact congrArg (· * 2 ^ 52 + 0) hones
  · simp only [toNat_packComponents, BitVec.toNat_ofNat]
    omega
  · simp only [toNat_packComponents, BitVec.toNat_ofNat]
    omega

/-- How many bits of a significand have no place in a number. -/
def surplus (m : Nat) (e : Int) : Nat := (max (e + (m.log2 - 52 : Int)) (-1074) - e).toNat

theorem shiftToTargetExponent_eq (n : Nat) {d : Nat} (hd : 0 < d) (e : Int) :
    shiftToTargetExponent .binary64 (n / d) e (accuracyOfFraction (n % d) d) =
      (cut n (d * 2 ^ surplus (n / d) e), e + surplus (n / d) e) := by
  have hbits : Format.binary64.mantissaBits = 53 := rfl
  have hleast : Format.binary64.minExponent = -1074 := rfl
  have htarget : (Format.binary64.targetExponent (totalExponent (n / d) e) - e).toNat =
      surplus (n / d) e := by
    rw [Format.targetExponent, totalExponent, hbits, hleast, surplus]
    omega
  rw [shiftToTargetExponent, shiftToExponent]
  simp only [htarget, ofMantissaAndAccuracy_fraction n hd, shiftRight_cut n hd]

/-- A whole number has no rest. -/
theorem accuracyOfFraction_one (m : Nat) : accuracyOfFraction (m % 1) 1 = .exact := by
  rw [Nat.mod_one]
  rfl

theorem cut_one (m : Nat) : cut m 1 = ⟨m, false, false⟩ := by
  rw [cut, Nat.div_one, Nat.mod_one]
  rfl

/-- A rounded significand is in its place already, unless it has grown by a bit. -/
theorem shiftToTargetExponent_of_le {r : Nat} {e : Int} (hupper : r ≤ 2 ^ 53) (he : -1074 ≤ e)
    (hlower : 2 ^ 52 ≤ r ∨ e = -1074) :
    shiftToTargetExponent .binary64 r e .exact =
      if r = 2 ^ 53 then (⟨2 ^ 52, false, false⟩, e + 1) else (⟨r, false, false⟩, e) := by
  have hshift := shiftToTargetExponent_eq r Nat.one_pos e
  rw [accuracyOfFraction_one, Nat.div_one, Nat.one_mul] at hshift
  rw [hshift]
  rcases Nat.eq_or_lt_of_le hupper with rfl | hlt
  · have hsurplus : surplus (2 ^ 53) e = 1 := by
      rw [surplus, Nat.log2_two_pow]
      omega
    rw [hsurplus]
    rfl
  · have hlog : r.log2 ≤ 52 := by
      rcases Nat.eq_zero_or_pos r with rfl | hr
      · decide
      · exact Nat.le_of_lt_succ ((Nat.log2_lt hr.ne').2 hlt)
    have hsurplus : surplus r e = 0 := by
      rw [surplus]
      omega
    rw [hsurplus, if_neg hlt.ne, Nat.pow_zero, cut_one]
    exact congrArg (Prod.mk _) (Int.add_zero e)

/-- The bits of a rounded significand, which may have grown by a bit. -/
theorem toNat_pack_rounded {r : Nat} {e : Int} (hupper : r ≤ 2 ^ 53) (he : -1074 ≤ e)
    (hlower : 2 ^ 52 ≤ r ∨ e = -1074) :
    (UnpackedFloat.pack .binary64
      (let placed := shiftToTargetExponent .binary64 r e .exact
      if h : placed.1.mantissa = 0 then .zero .positive
      else .finite .positive placed.1.mantissa placed.2 (Nat.pos_of_ne_zero h))).toNat =
      min ((e + 1074).toNat * 2 ^ 52 + r) (2047 * 2 ^ 52) := by
  rw [shiftToTargetExponent_of_le hupper he hlower]
  rcases Nat.eq_or_lt_of_le hupper with rfl | hlt
  · rw [if_pos rfl]
    refine (toNat_pack (by decide) (by decide) (by omega) (.inl le_rfl)).trans ?_
    omega
  · rw [if_neg hlt.ne]
    by_cases hr : r = 0
    · subst hr
      obtain rfl : e = -1074 := by omega
      rfl
    · rw [dif_neg hr]
      exact toNat_pack (Nat.pos_of_ne_zero hr) hlt he hlower

/-- A magnitude is rounded by the bits of its significand that have no place. -/
theorem encodeMagnitude_surplus {m : Nat} {e : Int} (hm : 2 ^ 52 ≤ m) :
    Layout.double.encodeMagnitude m e =
      min ((e + surplus m e + 1074).toNat * 2 ^ 52 + roundHalfEven m (2 ^ surplus m e))
        (2047 * 2 ^ 52) := by
  have hne : m ≠ 0 := by omega
  have hlog : 52 ≤ m.log2 := (Nat.le_log2 hne).2 hm
  have htarget : max (e + (m.log2 - 52 : Int)) (-1074) = e + surplus m e := by
    rw [surplus]
    omega
  have hbits : Layout.double.fractionBits = 52 := rfl
  have hleast : Layout.double.leastExponent = -1074 := rfl
  have hreserved : Layout.double.reserved = 2047 := rfl
  rw [Layout.encodeMagnitude, if_neg hne, hbits, hleast, hreserved]
  generalize surplus m e = s at htarget ⊢
  have hshift : (e + s - e).toNat = s := by omega
  simp only [Nat.cast_ofNat, htarget, Nat.shiftLeft_eq, Nat.one_mul, hshift, sub_neg_eq_add]
  rcases Nat.eq_zero_or_pos s with rfl | hpos
  · simp [roundHalfEven_one]
  · rw [if_neg (by omega)]

/-- The number nearest to a fraction whose whole part is long enough. -/
theorem toNat_pack_fraction {n d : Nat} {e : Int} (hd : 0 < d) (hlong : 2 ^ 52 ≤ n / d) :
    (UnpackedFloat.pack .binary64 (roundWithAccuracy .binary64 .positive (n / d) e
      (accuracyOfFraction (n % d) d))).toNat =
      min ((e + surplus (n / d) e + 1074).toNat * 2 ^ 52 +
        roundHalfEven n (d * 2 ^ surplus (n / d) e)) (2047 * 2 ^ 52) := by
  have hne : n / d ≠ 0 := by omega
  have hlog : 52 ≤ (n / d).log2 := (Nat.le_log2 hne).2 hlong
  have hsurplus : surplus (n / d) e = (max (e + ((n / d).log2 - 52 : Int)) (-1074) - e).toNat := rfl
  rw [roundWithAccuracy, shiftToTargetExponent_eq n hd]
  generalize surplus (n / d) e = s at hsurplus ⊢
  have hdiv : n / d / 2 ^ s = n / (d * 2 ^ s) := Nat.div_div_eq_div_mul n d (2 ^ s)
  have hbounds := hdiv ▸ roundHalfEven_bounds n (d * 2 ^ s)
  have hupper : roundHalfEven n (d * 2 ^ s) ≤ 2 ^ 53 :=
    hbounds.2.trans (div_two_pow_lt_of_log2_le (by omega))
  have hlower : 2 ^ 52 ≤ roundHalfEven n (d * 2 ^ s) ∨ e + s = -1074 := by
    refine or_iff_not_imp_right.2 fun hnormal ↦ ?_
    exact (le_div_two_pow_of_le_log2 hne (by omega)).trans hbounds.1
  rw [← toNat_pack_rounded hupper (by omega) hlower]
  simp only [roundedMantissa_cut n (Nat.mul_pos hd (Nat.two_pow_pos s))]

/-- The number nearest to a magnitude whose significand is long enough. -/
theorem toNat_pack_magnitude {m : Nat} {e : Int} (hm : 2 ^ 52 ≤ m) :
    (UnpackedFloat.pack .binary64 (roundWithAccuracy .binary64 .positive m e .exact)).toNat =
      Layout.double.encodeMagnitude m e := by
  have hwhole := toNat_pack_fraction (e := e) Nat.one_pos (hm.trans_eq (Nat.div_one m).symm)
  rwa [accuracyOfFraction_one, Nat.div_one, Nat.one_mul, ← encodeMagnitude_surplus hm] at hwhole

/-! ## Taking a number apart -/

theorem toNat_unpackMantissa (b : BitVec 64) :
    (@unpackMantissa .binary64 b).toNat = b.toNat % 2 ^ 52 := by
  simp [unpackMantissa]

theorem toNat_unpackExponent (b : BitVec 64) :
    (@unpackExponent .binary64 b).toNat = b.toNat / 2 ^ 52 % 2 ^ 11 := by
  simp [unpackExponent, Nat.shiftRight_eq_div_pow]

theorem toNat_unpackSign (b : BitVec 64) :
    (@unpackSign .binary64 b).toNat = b.toNat / 2 ^ 63 := by
  have hlt := b.isLt
  have hmod : b.toNat / 2 ^ 63 % 2 = b.toNat / 2 ^ 63 := Nat.mod_eq_of_lt (by omega)
  simpa [unpackSign, Nat.shiftRight_eq_div_pow] using hmod

theorem unpackSign_eq (b : BitVec 64) :
    Sign.ofBitVec (@unpackSign .binary64 b) =
      if b.toNat < 2 ^ 63 then .positive else .negative := by
  rw [Sign.ofBitVec]
  refine if_congr ?_ rfl rfl
  rw [← BitVec.toNat_inj, toNat_unpackSign]
  simp

/-- A number without an exponent is its significand in units of the least positive number. -/
theorem exists_unpack_of_lt {b : BitVec 64} (hpos : 0 < b.toNat) (hlt : b.toNat < 2 ^ 52) :
    ∃ m e hm, @UnpackedFloat.unpack .binary64 b = .finite .positive m e hm ∧ m = b.toNat ∧
      e = -1074 := by
  have hmantissa := toNat_unpackMantissa b
  have hexponent := toNat_unpackExponent b
  rw [Nat.mod_eq_of_lt hlt] at hmantissa
  rw [Nat.div_eq_of_lt hlt] at hexponent
  have hfinite : @unpackExponent .binary64 b ≠ -1#_ := by
    intro h
    have hones : (-BitVec.ofNat Format.binary64.exponentBits 1).toNat = 2047 := rfl
    rw [h, hones] at hexponent
    omega
  have hzero : @unpackExponent .binary64 b = 0#_ := BitVec.eq_of_toNat_eq hexponent
  have hnonzero : @unpackMantissa .binary64 b ≠ 0#_ := by
    intro h
    have hzeros : (BitVec.ofNat Format.binary64.mantissaBitsWithoutImplicit 0).toNat = 0 := rfl
    rw [h, hzeros] at hmantissa
    omega
  have hsign : Sign.ofBitVec (@unpackSign .binary64 b) = .positive := by
    rw [unpackSign_eq, if_pos (by omega)]
  rw [UnpackedFloat.unpack]
  dsimp only
  rw [if_neg hfinite, if_pos hzero, dif_neg hnonzero, hsign, hzero]
  exact ⟨_, _, _, rfl, hmantissa, rfl⟩

/-- A finite number with an exponent has a significand with a leading bit that is not written. -/
theorem exists_unpack_of_ge {b : BitVec 64} (hge : 2 ^ 52 ≤ b.toNat)
    (hlt : b.toNat < 2047 * 2 ^ 52) :
    ∃ m e hm, @UnpackedFloat.unpack .binary64 b = .finite .positive m e hm ∧
      m = 2 ^ 52 + b.toNat % 2 ^ 52 ∧ e = (b.toNat / 2 ^ 52 : Nat) - 1075 := by
  have hexponent := toNat_unpackExponent b
  have hbiased : (@unpackExponent .binary64 b).toNat = b.toNat / 2 ^ 52 := by
    rw [hexponent]
    exact Nat.mod_eq_of_lt (by omega)
  have hfinite : @unpackExponent .binary64 b ≠ -1#_ := by
    intro h
    have hones : (-BitVec.ofNat Format.binary64.exponentBits 1).toNat = 2047 := rfl
    rw [h, hones] at hbiased
    omega
  have hzero : @unpackExponent .binary64 b ≠ 0#_ := by
    intro h
    have hzeros : (BitVec.ofNat Format.binary64.exponentBits 0).toNat = 0 := rfl
    rw [h, hzeros] at hbiased
    omega
  have hsign : Sign.ofBitVec (@unpackSign .binary64 b) = .positive := by
    rw [unpackSign_eq, if_pos (by omega)]
  have hlong : (1#1 ++ @unpackMantissa .binary64 b).toNat = 2 ^ 52 + b.toNat % 2 ^ 52 := by
    rw [BitVec.toNat_append, ← Nat.shiftLeft_add_eq_or_of_lt (BitVec.isLt _),
      toNat_unpackMantissa]
    rfl
  have hbias : (Format.binary64.exponentBias : Int) = 1023 := rfl
  rw [UnpackedFloat.unpack]
  dsimp only
  rw [if_neg hfinite, if_neg hzero, hsign, hbias, hbiased]
  exact ⟨_, _, _, rfl, hlong, by omega⟩

/-- A finite number above zero is taken apart into a magnitude with its units. -/
theorem exists_unpack_eq {x : Float} (hpos : 0 < x.toBits.toNat)
    (hlt : x.toBits.toNat < 2047 * 2 ^ 52) :
    ∃ m e hm, x.toModel.unpack = .finite .positive m e hm ∧ -1074 ≤ e ∧
      m * 2 ^ (e + 1074).toNat = unitsOf x.toBits.toNat := by
  change 0 < x.toModel.toBits.toBitVec.toNat at hpos
  change x.toModel.toBits.toBitVec.toNat < _ at hlt
  change ∃ m e hm, _ ∧ _ ∧ _ = unitsOf x.toModel.toBits.toBitVec.toNat
  rw [Float.Model.unpack]
  generalize x.toModel.toBits.toBitVec = b at hpos hlt
  rcases Nat.lt_or_ge b.toNat (2 ^ 52) with hsmall | hlarge
  · obtain ⟨m, e, hm, hunpack, rfl, rfl⟩ := exists_unpack_of_lt hpos hsmall
    rw [unitsOf, if_pos hsmall]
    exact ⟨_, _, hm, hunpack, le_rfl, Nat.mul_one _⟩
  · obtain ⟨m, e, hm, hunpack, rfl, rfl⟩ := exists_unpack_of_ge hlarge hlt
    have hunits : ((b.toNat / 2 ^ 52 : Nat) - 1075 + 1074 : Int).toNat =
        b.toNat / 2 ^ 52 - 1 := by omega
    rw [unitsOf, if_neg hlarge.not_gt]
    exact ⟨_, _, hm, hunpack, by omega, congrArg (_ * 2 ^ ·) hunits⟩

/-- The only number with a sign that is not below zero is zero. -/
theorem toBits_of_nonneg {x : Float} (h : 0 ≤ x) :
    x.toBits.toNat < 2 ^ 63 ∨ x.toBits.toNat = 2 ^ 63 := by
  refine or_iff_not_imp_left.2 fun hge ↦ ?_
  have hle : UnpackedFloat.le (0 : Float).toModel.unpack x.toModel.unpack = true :=
    of_decide_eq_true h
  have hzero : (0 : Float).toModel.unpack = .zero .positive := rfl
  change ¬x.toModel.toBits.toBitVec.toNat < _ at hge
  change x.toModel.toBits.toBitVec.toNat = _
  rw [hzero, Float.Model.unpack] at hle
  generalize x.toModel.toBits.toBitVec = b at hge hle
  have hsign : Sign.ofBitVec (@unpackSign .binary64 b) = .negative := by
    rw [unpackSign_eq, if_neg hge]
  rw [UnpackedFloat.unpack, hsign] at hle
  dsimp only at hle
  split_ifs at hle with hones hmantissa hexponent hmantissa
  · cases hle
  · cases hle
  · have hmantissa := congrArg BitVec.toNat hmantissa
    have hexponent := congrArg BitVec.toNat hexponent
    rw [toNat_unpackMantissa, BitVec.toNat_zero] at hmantissa
    rw [toNat_unpackExponent, BitVec.toNat_zero] at hexponent
    have hlt := b.isLt
    omega
  · cases hle
  · cases hle

/-! ## Products -/

/-- The bits of a product are those of the number nearest to it. -/
theorem toBits_mul_480 {x : Float} (h : x.toBits.toNat < 2047 * 2 ^ 52) :
    (x * 480).toBits.toNat =
      Layout.double.encodeMagnitude (unitsOf x.toBits.toNat * 480) Layout.double.leastExponent := by
  have hfactor : (480 : Float).toModel.unpack =
      .finite .positive (480 * 2 ^ 44) (-44) (by decide) := rfl
  have hproduct : (x * 480).toBits.toNat =
      (UnpackedFloat.pack .binary64 (UnpackedFloat.mul .binary64 x.toModel.unpack
        (.finite .positive (480 * 2 ^ 44) (-44) (by decide)))).toNat := by
    rw [← hfactor]
    rfl
  rw [hproduct]
  rcases Nat.eq_zero_or_pos x.toBits.toNat with hzero | hpos
  · obtain rfl : x = 0 := toBits_injective (UInt64.toNat.inj hzero)
    decide
  · obtain ⟨m, e, hm, hunpack, he, hunits⟩ := exists_unpack_eq hpos h
    have hleast : Layout.double.leastExponent = -1074 := rfl
    have hexact : Layout.double.encodeMagnitude (m * (480 * 2 ^ 44)) (e + -44) =
        Layout.double.encodeMagnitude (unitsOf x.toBits.toNat * 480)
          Layout.double.leastExponent := by
      have hshift := Layout.double.encodeMagnitude_mul_pow (m * 480) 44 e
      rw [Nat.mul_assoc] at hshift
      rw [← hunits, Nat.mul_right_comm]
      exact hshift.trans (Layout.double.encodeMagnitude_eq_units _ (hleast ▸ he))
    rw [hunpack, ← hexact]
    exact toNat_pack_magnitude (by omega)

/-- A greater number has a greater product, also when both products are rounded to whole numbers. -/
theorem nearest?_mul_480_mono {x y : Float} (hxy : x.toBits.toNat ≤ y.toBits.toNat)
    (hy : y.toBits.toNat < 2047 * 2 ^ 52) {i j : Nat}
    (hi : (FloatValue.ofDouble (x * 480)).nearest? = some i)
    (hj : (FloatValue.ofDouble (y * 480)).nearest? = some j) : i ≤ j := by
  have hx : x.toBits.toNat < 2047 * 2 ^ 52 := Nat.lt_of_le_of_lt hxy hy
  have hbits : (x * 480).toBits.toNat ≤ (y * 480).toBits.toNat := by
    rw [toBits_mul_480 hx, toBits_mul_480 hy]
    exact Layout.double.encodeMagnitude_mono (Nat.mul_le_mul_right _ (unitsOf_mono hxy))
  exact nearest?_decode_mono hbits (toBits_mul_480 hy ▸ Layout.double.encodeMagnitude_le _ _) hi hj

end SongBundle
