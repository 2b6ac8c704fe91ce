/-!
# The fields of a double

A finite double is a whole number of *units* of `2 ^ -1074`, the smallest positive double.
`Binary64.Fields` splits the 64 bits into sign, exponent and fraction; `Fields.units` is the
magnitude as a natural number of units, so that decimal texts are computed in exact arithmetic.

`Binary64.IsBinnable` is the class of numbers a lookup accepts on an ordinary axis: zero and the
normal doubles.
-/

namespace BoxBinning.Binary64

/-- The powers of two. -/
def twoPow (n : Nat) : Nat := Nat.pow 2 n

theorem twoPow_pos (n : Nat) : 0 < twoPow n := Nat.two_pow_pos n

/-- The sign bit, the biased exponent and the fraction of a double. -/
structure Fields where
  /-- The sign bit is set. -/
  negative : Bool
  /-- The biased exponent, below `2 ^ 11`. -/
  exponent : Nat
  /-- The fraction bits, below `2 ^ 52`. -/
  fraction : Nat
deriving DecidableEq, Repr

/-- The three fields of a double's bit pattern. -/
def fields (x : Float) : Fields where
  negative := x.toBits.toNat / twoPow 63 == 1
  exponent := x.toBits.toNat / twoPow 52 % twoPow 11
  fraction := x.toBits.toNat % twoPow 52

/-- The exponent field of infinities and of what is not a number. -/
def maxExponent : Nat := 2047

/-- The distance from a finite double to the next larger magnitude, in units. -/
def Fields.spacing (f : Fields) : Nat := twoPow (f.exponent - 1)

/-- The significand: the fraction, with the hidden bit of a normal number. -/
def Fields.significand (f : Fields) : Nat :=
  if f.exponent = 0 then f.fraction else twoPow 52 + f.fraction

/-- The magnitude of a finite double in units of `2 ^ -1074`. -/
def Fields.units (f : Fields) : Nat := f.significand * f.spacing

/-- The number of units in one. -/
def unitsPerOne : Nat := twoPow 1074

/-- A normal double: finite, not zero and not subnormal. -/
def isNormal (x : Float) : Bool :=
  let e := (fields x).exponent
  e != 0 && e != maxExponent

/-- Zero and the normal doubles; subnormal, infinite and undefined numbers have no bin. -/
def isBinnable (x : Float) : Bool := x == 0.0 || isNormal x

/-- The order of two doubles; a number that is not one is incomparable with everything. -/
def compare? (x y : Float) : Option Ordering :=
  if x < y then some .lt
  else if y < x then some .gt
  else if x == y then some .eq
  else none

theorem fields_exponent_lt (x : Float) : (fields x).exponent < twoPow 11 :=
  Nat.mod_lt _ (twoPow_pos 11)

theorem fields_fraction_lt (x : Float) : (fields x).fraction < twoPow 52 :=
  Nat.mod_lt _ (twoPow_pos 52)

theorem Fields.spacing_pos (f : Fields) : 0 < f.spacing := twoPow_pos _

end BoxBinning.Binary64
