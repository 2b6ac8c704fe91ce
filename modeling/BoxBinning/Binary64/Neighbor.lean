import BoxBinning.Binary64.Fields

/-!
# Neighbouring doubles

`nextUp` and `nextDown` are the representable numbers next to a given one; `stepBy n` takes `n`
such steps, upwards for a positive `n` and downwards for a negative one. Infinity has nothing
above it and stays, and so does what is not a number. From either zero the next number is the
smallest subnormal of the direction.
-/

namespace BoxBinning.Binary64

/-- The smallest positive double, `2 ^ -1074`. -/
def leastPositive : Float := Float.ofBits 1

/-- The least double above `x`. -/
def nextUp (x : Float) : Float :=
  if x.isNaN then x
  else if x == 0.0 then leastPositive
  else if (fields x).negative then Float.ofBits (x.toBits - 1)
  else if x.isInf then x
  else Float.ofBits (x.toBits + 1)

/-- The greatest double below `x`. -/
def nextDown (x : Float) : Float := -nextUp (-x)

/-- The double `n` steps above `x`, or below it for a negative `n`. -/
def stepBy (x : Float) : Int → Float
  | .ofNat n => n.repeat nextUp x
  | .negSucc n => (n + 1).repeat nextDown x

@[simp] theorem stepBy_zero (x : Float) : stepBy x 0 = x := rfl

end BoxBinning.Binary64
