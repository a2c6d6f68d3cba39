/-!
# Floating-point numbers as exact fractions

A finite floating-point number is a significand times a power of two.  This file takes the bits of
a `Float` or `Float32` apart into that fraction and puts a fraction back together, rounding it to
the nearest number of a format, a tie going to the even significand.

* `Layout.decode` and `Layout.encode` work on the bits of any format, `Layout.double` and
  `Layout.single` are the two formats in use.
* `FloatValue.ofDouble` and `FloatValue.ofSingle` read the built-in types, `FloatValue.toSingle`
  rounds a value to single precision.
* `FloatValue.nearest?` is the nearest whole number, halves going away from zero.
* `floatRank` orders all numbers, the infinities and the undefined value included.
-/

set_option autoImplicit false

namespace SongBundle

/-- What a floating-point number stands for: a finite one is
`± significand * 2 ^ exponent`. -/
inductive FloatValue where
  | undefined
  | infinite (negative : Bool)
  | finite (negative : Bool) (significand : Nat) (exponent : Int)
deriving DecidableEq, Repr

/-- How the bits of a floating-point format are divided. -/
structure Layout where
  /-- Bits below the leading one of the significand. -/
  fractionBits : Nat
  /-- Bits of the exponent. -/
  exponentBits : Nat

namespace Layout

/-- Sixty-four bits. -/
def double : Layout := ⟨52, 11⟩

/-- Thirty-two bits. -/
def single : Layout := ⟨23, 8⟩

/-- The exponent of the smallest positive number. -/
def leastExponent (f : Layout) : Int :=
  2 - (1 <<< (f.exponentBits - 1) : Nat) - f.fractionBits

/-- The exponent bits of the infinities and of the undefined value. -/
def reserved (f : Layout) : Nat := (1 <<< f.exponentBits) - 1

/-- Reads the number that a bit pattern stands for. -/
def decode (f : Layout) (bits : Nat) : FloatValue :=
  let fraction := bits % (1 <<< f.fractionBits)
  let biased := (bits >>> f.fractionBits) % (1 <<< f.exponentBits)
  let negative := (bits >>> (f.fractionBits + f.exponentBits)) % 2 == 1
  if biased = f.reserved then
    if fraction = 0 then .infinite negative else .undefined
  else if biased = 0 then .finite negative fraction f.leastExponent
  else .finite negative ((1 <<< f.fractionBits) + fraction) (f.leastExponent + (biased - 1))

end Layout

/-- Rounds a fraction to the nearest whole number, a tie going to the even one. -/
def roundHalfEven (numerator denominator : Nat) : Nat :=
  let floor := numerator / denominator
  match compare (2 * (numerator % denominator)) denominator with
  | .lt => floor
  | .eq => floor + floor % 2
  | .gt => floor + 1

/-- Rounds a fraction to the nearest whole number, a tie going up. -/
def roundHalfUp (numerator denominator : Nat) : Nat :=
  (2 * numerator + denominator) / (2 * denominator)

namespace Layout

/-- The bits of the magnitude nearest to `significand * 2 ^ exponent`, a tie going to the even
significand; magnitudes beyond the greatest number become infinite. -/
def encodeMagnitude (f : Layout) (significand : Nat) (exponent : Int) : Nat :=
  if significand = 0 then 0
  else
    let wanted := exponent + (significand.log2 - f.fractionBits : Int)
    let target := max wanted f.leastExponent
    let scaled :=
      if target ≤ exponent then significand <<< (exponent - target).toNat
      else roundHalfEven significand (1 <<< (target - exponent).toNat)
    let bits := ((target - f.leastExponent).toNat <<< f.fractionBits) + scaled
    min bits (f.reserved <<< f.fractionBits)

/-- The bit pattern of the number of the format that is nearest to a value. -/
def encode (f : Layout) : FloatValue → Nat
  | .undefined => (f.reserved <<< f.fractionBits) + (1 <<< (f.fractionBits - 1))
  | .infinite negative => sign negative + (f.reserved <<< f.fractionBits)
  | .finite negative m e => sign negative + f.encodeMagnitude m e
where
  /-- The bit that marks negative numbers. -/
  sign (negative : Bool) : Nat :=
    if negative then 1 <<< (f.fractionBits + f.exponentBits) else 0

end Layout

namespace FloatValue

/-- Whether the value is a real number. -/
def isFinite : FloatValue → Bool
  | .finite .. => true
  | _ => false

/-- The magnitude of a finite value as a numerator over a denominator. -/
def magnitude (significand : Nat) (exponent : Int) : Nat × Nat :=
  (significand <<< exponent.toNat, 1 <<< (-exponent).toNat)

/-- The whole number nearest to the magnitude of a finite value, halves going up. -/
def nearest? : FloatValue → Option Nat
  | .finite _ m e => some (roundHalfUp (magnitude m e).1 (magnitude m e).2)
  | _ => none

/-- The exact reading of a double-precision number. -/
def ofDouble (x : Float) : FloatValue := Layout.double.decode x.toBits.toNat

/-- The exact reading of a single-precision number. -/
def ofSingle (x : Float32) : FloatValue := Layout.single.decode x.toBits.toNat

/-- The single-precision number nearest to a value. -/
def toSingle (v : FloatValue) : Float32 := Float32.ofBits (UInt32.ofNat (Layout.single.encode v))

end FloatValue

/-- The place of a number in the order that runs from negative infinity over the negative numbers,
`-0`, `0` and the positive numbers to infinity, the undefined value coming last. -/
def floatRank (x : Float) : Int :=
  let signBit : Nat := 1 <<< 63
  if x.toBits.toNat < signBit then x.toBits.toNat else signBit - 1 - x.toBits.toNat

end SongBundle
