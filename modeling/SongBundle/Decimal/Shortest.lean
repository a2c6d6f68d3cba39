import SongBundle.Decimal.Binary

/-!
# The shortest decimal that reads back

Of the decimals that round to a given floating-point number, `shortestDigits` finds one with the
fewest digits, and among those the nearest to the number.

The decimals with `n` significant digits form a grid around the number.  If any point of a grid
rounds to the number, so does one of the number's two neighbours on that grid, so for every digit
count only those two have to be tested, which is exact arithmetic on whole numbers.
-/

set_option autoImplicit false

namespace SongBundle

/-- The decimal `coefficient * 10 ^ exponent`. -/
structure Decimal where
  coefficient : Nat
  exponent : Int
deriving DecidableEq, Repr

/-- The number of decimal digits of a positive number, none for zero. -/
def digitCount (n : Nat) : Nat :=
  if n = 0 then 0 else (Nat.toDigits 10 n).length

/-- Which of two equally near decimals is taken. -/
inductive Tie where
  /-- The one whose last digit is even. -/
  | even
  /-- The greater one. -/
  | up
deriving DecidableEq, Repr

/-- A positive number with the interval of the reals that round to it.  All three bounds are
multiples of `unitNumerator / unitDenominator`. -/
structure Neighbourhood where
  low : Nat
  value : Nat
  high : Nat
  /-- Whether the two ends belong to the interval. -/
  closed : Bool
  unitNumerator : Nat
  unitDenominator : Nat
deriving Repr

namespace Neighbourhood

/-- The neighbourhood of `significand * 2 ^ exponent`.  Below a power of two the numbers of a
format lie twice as dense, unless the exponent is the least one. -/
def of (f : Layout) (significand : Nat) (exponent : Int) : Neighbourhood :=
  let narrow := significand == 1 <<< f.fractionBits && f.leastExponent < exponent
  let unit := exponent - 2
  { low := if narrow then 4 * significand - 1 else 4 * significand - 2
    value := 4 * significand
    high := 4 * significand + 2
    closed := significand % 2 == 0
    unitNumerator := 1 <<< unit.toNat
    unitDenominator := 1 <<< (-unit).toNat }

/-- The exponent of the first decimal digit of the number. -/
def leadingExponent (h : Neighbourhood) : Int :=
  let numerator := h.value * h.unitNumerator
  if h.unitDenominator ≤ numerator then digitCount (numerator / h.unitDenominator) - 1
  else -digitCount ((h.unitDenominator - 1) / numerator)

/-- The number's numerator and denominator, measured in steps of `10 ^ step`. -/
def inSteps (h : Neighbourhood) (bound : Nat) (step : Int) : Nat × Nat :=
  (bound * h.unitNumerator * Nat.pow 10 (-step).toNat, h.unitDenominator * Nat.pow 10 step.toNat)

/-- Whether `c * 10 ^ step` lies in the interval. -/
def holds (h : Neighbourhood) (step : Int) (c : Nat) : Bool :=
  let low := h.inSteps h.low step
  let high := h.inSteps h.high step
  if h.closed then low.1 ≤ c * low.2 && c * high.2 ≤ high.1
  else low.1 < c * low.2 && c * high.2 < high.1

/-- Of the number's two neighbours on the grid of step `10 ^ step`, the nearest that lies in the
interval. -/
def onGrid? (h : Neighbourhood) (tie : Tie) (step : Int) : Option Nat :=
  let (numerator, denominator) := h.inSteps h.value step
  let below := numerator / denominator
  match h.holds step below, h.holds step (below + 1) with
  | false, false => none
  | true, false => some below
  | false, true => some (below + 1)
  | true, true =>
    match compare (2 * (numerator % denominator)) denominator, tie with
    | .lt, _ => some below
    | .gt, _ => some (below + 1)
    | .eq, .even => some (below + below % 2)
    | .eq, .up => some (below + 1)

end Neighbourhood

/-- Drops trailing zeros from a coefficient, at most `fuel` of them. -/
def Decimal.trim : Nat → Decimal → Decimal
  | 0, d => d
  | fuel + 1, d =>
    if d.coefficient ≠ 0 ∧ d.coefficient % 10 = 0 then
      Decimal.trim fuel ⟨d.coefficient / 10, d.exponent + 1⟩
    else d

/-- The digit counts that are tried: a double is determined by seventeen digits. -/
def digitLimit : Nat := 17

/-- A decimal of fewest digits that rounds to the positive number `significand * 2 ^ exponent` of a
format, and the nearest such decimal. -/
def shortestDigits (f : Layout) (tie : Tie) (significand : Nat) (exponent : Int) : Decimal :=
  let h := Neighbourhood.of f significand exponent
  let leading := h.leadingExponent
  let found := (List.range digitLimit).findSome? fun (n : Nat) ↦
    (h.onGrid? tie (leading - n)).map fun c ↦ Decimal.mk c (leading - n)
  (found.getD ⟨0, 0⟩).trim (digitLimit + 1)

end SongBundle
