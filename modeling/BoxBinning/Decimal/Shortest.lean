import BoxBinning.Binary64.Fields
import BoxBinning.Decimal.Digits
import BoxBinning.Decimal.Rounding

/-!
# The fewest digits that name a double

Every positive double is the nearest double to all numbers of an interval around it, its rounding
interval. `shortest` is the decimal with the fewest digits in that interval; of two with equally
few digits it is the nearer one, and of two equally near ones the larger.

All quantities are whole numbers of *quarter units*, that is of `2 ^ -1076`, in which the ends of
every rounding interval are whole.
-/

namespace BoxBinning

/-- The number `significand · 10 ^ exponent`. -/
structure Decimal where
  /-- The digits as a whole number. -/
  significand : Nat
  /-- The power of ten of the last digit. -/
  exponent : Int
deriving DecidableEq, Repr

namespace Decimal

open Binary64

/-- The numbers that round to a double, in quarter units. -/
structure RoundingInterval where
  /-- The lower end. -/
  low : Nat
  /-- The double itself. -/
  value : Nat
  /-- The upper end. -/
  high : Nat
  /-- Whether the ends belong to the interval. -/
  closed : Bool
deriving DecidableEq, Repr

/-- The number of quarter units in one. -/
def quartersPerOne : Nat := 4 * unitsPerOne

/-- The rounding interval of a positive finite double reaches half way to both neighbours, and its
ends belong to it when the significand is even. Below a power of two the neighbours are twice as
close as above it. -/
def RoundingInterval.ofFields (f : Fields) : RoundingInterval :=
  let gapBelow := if f.fraction = 0 && 1 < f.exponent then f.spacing else 2 * f.spacing
  { low := 4 * f.units - gapBelow
    value := 4 * f.units
    high := 4 * f.units + 2 * f.spacing
    closed := f.significand % 2 == 0 }

/-- Membership of `a / scale` quarter units. -/
def RoundingInterval.contains (r : RoundingInterval) (a scale : Nat) : Bool :=
  if r.closed then r.low * scale ≤ a && a ≤ r.high * scale
  else r.low * scale < a && a < r.high * scale

/-- The power of ten just above a positive number of `value / one`: the least `k` with
`value / one < 10 ^ k`, for numbers of at least `10 ^ -330`. -/
def magnitude (value one : Nat) : Int :=
  Int.ofNat (digitCount (value * tenPow 330 / one)) - 330

/-- The multiple of `10 ^ exponent` that lies in the interval and is nearest to its value, if the
interval holds one. -/
def RoundingInterval.onGrid (r : RoundingInterval) (exponent : Int) : Option Decimal :=
  let step := quartersPerOne * tenPow exponent.toNat
  let scale := tenPow (-exponent).toNat
  let below := r.value * scale / step
  let lower := below * step
  let upper := lower + step
  match r.contains lower scale, r.contains upper scale with
  | true, true =>
    if r.value * scale - lower < upper - r.value * scale then some ⟨below, exponent⟩
    else some ⟨below + 1, exponent⟩
  | true, false => some ⟨below, exponent⟩
  | false, true => some ⟨below + 1, exponent⟩
  | false, false => none

/-- Seventeen digits tell any two doubles apart. -/
def maxDigits : Nat := 17

/-- The decimal with the fewest digits that rounds to the double with these fields, nearest to it
among those. -/
def shortest (f : Fields) : Decimal :=
  let r := RoundingInterval.ofFields f
  let top := magnitude r.value quartersPerOne
  ((List.range maxDigits).findSome? fun n => r.onGrid (top - Int.ofNat (n + 1))).getD ⟨0, 0⟩

end Decimal

end BoxBinning
