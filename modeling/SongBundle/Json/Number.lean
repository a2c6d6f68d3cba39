import SongBundle.Json.Basic

/-!
# What a number means

`Json.Number.read?` gives the value of a number as written.  A number without point and exponent is
a whole number if 64 bits hold it; every other number, and `-0`, is a double-precision one.

A double-precision value is found in two rounded steps rather than by rounding the decimal once: the
leading digits that fit 64 bits are converted, and the result is multiplied or divided by a power
of ten.  A result beyond the greatest double is no value at all.
-/

set_option autoImplicit false

namespace SongBundle.Json

/-- The value of a number. -/
inductive Number where
  /-- A whole number below `2 ^ 64`. -/
  | natural (n : Nat)
  /-- The negative of a whole number from `1` to `2 ^ 63`. -/
  | negative (n : Nat)
  | real (x : Float)

namespace Number

/-- The parts of a number as written. -/
structure Parts where
  negative : Bool
  whole : List Nat
  /-- The digits after the point, if there is one. -/
  fraction : Option (List Nat)
  /-- The power of ten, if there is one. -/
  exponent : Option Int

/-- The value of a decimal digit. -/
def digitValue (c : Char) : Nat := c.toNat - 48

/-- The number that a list of digits stands for. -/
def digitsValue (ds : List Nat) : Nat := ds.foldl (fun n d ↦ 10 * n + d) 0

/-- Takes an exponent with its sign apart. -/
def exponentValue : List Char → Int
  | '-' :: cs => -digitsValue (cs.map digitValue)
  | '+' :: cs => digitsValue (cs.map digitValue)
  | cs => digitsValue (cs.map digitValue)

/-- Whether a character introduces an exponent. -/
def isExponentMark (c : Char) : Bool := c = 'e' || c = 'E'

/-- Takes a number as written apart. -/
def parts (lexeme : List Char) : Parts :=
  let negative := lexeme.head? = some '-'
  let unsigned := if negative then lexeme.tail else lexeme
  let mantissa := unsigned.takeWhile fun c ↦ !isExponentMark c
  let exponent := unsigned.dropWhile fun c ↦ !isExponentMark c
  let fraction := mantissa.dropWhile (· ≠ '.')
  { negative
    whole := (mantissa.takeWhile (· ≠ '.')).map digitValue
    fraction := if fraction.isEmpty then none else some (fraction.tail.map digitValue)
    exponent := if exponent.isEmpty then none else some (exponentValue exponent.tail) }

/-- Appends digits to a whole number for as long as 64 bits hold the result; also counts the digits
taken. -/
def absorb (n : Nat) : List Nat → Nat × Nat
  | [] => (n, 0)
  | d :: ds =>
    if 10 * n + d < UInt64.size then
      let (m, taken) := absorb (10 * n + d) ds
      (m, taken + 1)
    else (n, 0)

/-- The double-precision power of ten. -/
def powerOfTen (e : Nat) : Float := Float.ofScientific 1 false e

/-- The significand times `10 ^ exponent`, each step rounded.  No double lies beyond `10 ^ 308`, and
dividing a 64-bit significand by it twice leaves nothing. -/
def scale? (significand : Nat) (exponent : Int) : Option Float :=
  let x := (UInt64.ofNat significand).toFloat
  if significand = 0 then some x
  else if 308 < exponent then none
  else if 0 ≤ exponent then
    let scaled := x * powerOfTen exponent.toNat
    if scaled.isFinite then some scaled else none
  else if -308 ≤ exponent then some (x / powerOfTen (-exponent).toNat)
  else if -616 ≤ exponent then some (x / powerOfTen 308 / powerOfTen (-exponent - 308).toNat)
  else some 0

/-- The value of a number in parts. -/
def ofParts? (p : Parts) : Option Number :=
  let (n, taken) := absorb 0 p.whole
  let dropped := p.whole.length - taken
  let real (significand : Nat) (exponent : Int) : Option Number :=
    (scale? significand exponent).map fun x ↦ .real (if p.negative then -x else x)
  match p.fraction, p.exponent with
  | none, none =>
    if dropped ≠ 0 then real n dropped
    else if !p.negative then some (.natural n)
    else if n = 0 ∨ 1 <<< 63 < n then real n 0
    else some (.negative n)
  | fraction, exponent =>
    let (m, places) := absorb n (fraction.getD [])
    real m (dropped - places + exponent.getD 0)

/-- The value of a number as written; `none` if it is out of range. -/
def read? (lexeme : String) : Option Number := ofParts? (parts lexeme.toList)

end Number

end SongBundle.Json
