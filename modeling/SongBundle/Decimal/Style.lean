import SongBundle.Decimal.Shortest

/-!
# How numbers are written

`Style.write` gives the text of a floating-point number: its shortest digits, laid out as a
`Style` decides.  The module that owns an output format states its style once.
-/

set_option autoImplicit false

namespace SongBundle

/-- The decisions that turn the digits of a number into text. -/
structure Style where
  /-- Which of two equally near shortest decimals is written. -/
  tie : Tie
  /-- Whether a number whose first digit has this exponent is written without an exponent part. -/
  plain : Int → Bool
  /-- What is written after the digits of a whole number in plain form. -/
  wholeEnding : String
  undefined : String
  infinite : String

namespace Style

/-- The digits of a coefficient. -/
def digits (n : Nat) : List Char := Nat.toDigits 10 n

/-- Plain form: zeros fill the places between the digits and the point. -/
def writePlain (s : Style) (d : Decimal) : String :=
  let ds := digits d.coefficient
  if 0 ≤ d.exponent then
    String.ofList (ds ++ List.replicate d.exponent.toNat '0') ++ s.wholeEnding
  else
    let places := (-d.exponent).toNat
    if places < ds.length then
      String.ofList (ds.take (ds.length - places) ++ '.' :: ds.drop (ds.length - places))
    else
      String.ofList ('0' :: '.' :: List.replicate (places - ds.length) '0' ++ ds)

/-- Exponent form: one digit before the point, and the exponent always has a sign. -/
def writeScaled (d : Decimal) (leading : Int) : String :=
  let mantissa :=
    match digits d.coefficient with
    | [] => []
    | [c] => [c]
    | c :: cs => c :: '.' :: cs
  let sign := if leading < 0 then '-' else '+'
  String.ofList (mantissa ++ 'e' :: sign :: digits leading.natAbs)

/-- The text of a magnitude. -/
def writeMagnitude (s : Style) (f : Layout) (significand : Nat) (exponent : Int) : String :=
  if significand = 0 then "0" ++ s.wholeEnding
  else
    let d := shortestDigits f s.tie significand exponent
    let leading := d.exponent + (digits d.coefficient).length - 1
    if s.plain leading then s.writePlain d else writeScaled d leading

/-- The text of a number of a format. -/
def write (s : Style) (f : Layout) : FloatValue → String
  | .undefined => s.undefined
  | .infinite negative => sign negative ++ s.infinite
  | .finite negative m e => sign negative ++ s.writeMagnitude f m e
where
  /-- The sign, which only negative numbers show, negative zero included. -/
  sign (negative : Bool) : String := if negative then "-" else ""

end Style

end SongBundle
