/-!
# Decimal digits in text

The two ways a number is written in digits: `positional n places` is `n · 10 ^ -places` with a
point, and `scientific count n exponent` puts the point after the first digit of `n` and names the
power of ten. `digitCount` is the number of digits of a whole number.
-/

namespace BoxBinning.Decimal

/-- The powers of ten. -/
def tenPow (n : Nat) : Nat := Nat.pow 10 n

/-- The digits of a whole number, without leading zeros; zero is the single digit `0`. -/
def digits (n : Nat) : List Char := Nat.toDigits 10 n

/-- How many digits a whole number has. -/
def digitCount (n : Nat) : Nat := (digits n).length

/-- The last `places` digits of `n`, padded with zeros on the left. -/
def fractionDigits (n places : Nat) : List Char :=
  let tail := digits (n % tenPow places)
  List.replicate (places - tail.length) '0' ++ (if places = 0 then [] else tail)

/-- The digits before the point and after it, with the point left out when nothing follows it. -/
def withPoint (whole fraction : List Char) : String :=
  String.ofList (if fraction.isEmpty then whole else whole ++ '.' :: fraction)

/-- The number `n · 10 ^ -places` with exactly `places` digits after the point. -/
def positional (n places : Nat) : String :=
  withPoint (digits (n / tenPow places)) (fractionDigits n places)

/-- A list of digits without the zeros at its end. -/
def dropTrailingZeros (ds : List Char) : List Char :=
  (ds.reverse.dropWhile (· == '0')).reverse

/-- The number `n · 10 ^ -places` without zeros at the end of its fraction. -/
def positionalTrimmed (n places : Nat) : String :=
  withPoint (digits (n / tenPow places)) (dropTrailingZeros (fractionDigits n places))

/-- The first `count` digits of `n`, filled up with zeros, with a point after the first of them, and
the power of ten of that first digit. -/
def scientific (count n : Nat) (exponent : Int) : String :=
  let ds := ((digits n).take count).rightpad count '0'
  withPoint (ds.take 1) (ds.drop 1) ++ "e" ++ toString exponent

end BoxBinning.Decimal
