import BoxBinning.Decimal.Shortest

/-!
# Doubles as text

Three ways a double is written: `plain`, the shortest digits that name it, never with an exponent;
`toPlaces`, its exact value rounded to a number of places; and `toDigits`, its exact value rounded
to a number of significant digits with a power of ten. Each keeps the sign of zero. Infinities are
`inf` and `-inf`, and what is not a number is `NaN` without a sign.
-/

namespace BoxBinning.Binary64

open Decimal

/-- The text of a double whose finite magnitude is written by `write`. -/
def signedText (write : Fields → String) (x : Float) : String :=
  let f := fields x
  if f.exponent = maxExponent && f.fraction ≠ 0 then "NaN"
  else
    let magnitude := if f.exponent = maxExponent then "inf" else write f
    if f.negative then "-" ++ magnitude else magnitude

/-- The shortest digits that name a magnitude, written with a point and without an exponent. -/
def plainMagnitude (f : Fields) : String :=
  if f.units = 0 then "0"
  else
    let d := shortest f
    positionalTrimmed (d.significand * tenPow d.exponent.toNat) (-d.exponent).toNat

/-- The shortest decimal that names the double, never with an exponent. -/
def plain (x : Float) : String := signedText plainMagnitude x

/-- The exact value rounded to `places` places, a half going to the even neighbour. -/
def toPlaces (places : Nat) (x : Float) : String :=
  signedText (fun f => positional (roundHalfEven (f.units * tenPow places) unitsPerOne) places) x

/-- A magnitude rounded to `count` significant digits, a half going to the even neighbour. Rounding
up to a power of ten gives one digit more, and the first `count` of them are the right ones. -/
def scientificMagnitude (count : Nat) (f : Fields) : String :=
  if f.units = 0 then scientific count 0 0
  else
    let top := magnitude f.units unitsPerOne
    let last := top - Int.ofNat count
    let n := roundHalfEven (f.units * tenPow (-last).toNat) (unitsPerOne * tenPow last.toNat)
    scientific count n (if n = tenPow count then top else top - 1)

/-- The exact value rounded to `count` significant digits, with a power of ten. -/
def toDigits (count : Nat) (x : Float) : String := signedText (scientificMagnitude count) x

end BoxBinning.Binary64
