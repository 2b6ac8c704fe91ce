import BoxBinning.Binary64.Text

/-!
# Extents

An `Extent` is the half-open interval `[low, high)` that a bin covers on one axis. Its ends are any
doubles: an extent whose ends do not increase contains nothing, and lists of bins are checked for
such extents only where a binning is built from them.

Equality of extents is the numeric equality of their ends, so it takes both zeros for one number and
an extent with an undefined end differs from itself. `compare?` orders extents by the lower end and
then by the upper one.
-/

namespace BoxBinning

/-- The half-open interval `[low, high)` on one axis. -/
structure Extent where
  /-- The lower end, which belongs to the extent. -/
  low : Float
  /-- The upper end, which does not. -/
  high : Float
deriving DecidableEq

namespace Extent

instance : BEq Extent where
  beq a b := a.low == b.low && a.high == b.high

/-- The distance between the ends. -/
def width (e : Extent) : Float := e.high - e.low

/-- The middle of the ends. -/
def center (e : Extent) : Float := (e.high + e.low) / 2.0

/-- The number lies in the extent. -/
def contains (e : Extent) (x : Float) : Bool := e.low ≤ x && x < e.high

/-- The ends increase, so that the extent has points. -/
def isIncreasing (e : Extent) : Bool := e.low < e.high

/-- The two extents share a point. Exact for increasing extents: the one that starts first has to
reach beyond the start of the other. -/
def overlaps (a b : Extent) : Bool :=
  if b.low < a.low then a.low < b.high
  else if a.high < b.high then b.low < a.high
  else true

/-- The order by lower end, and among equal lower ends by upper end. -/
def compare? (a b : Extent) : Option Ordering :=
  match Binary64.compare? a.low b.low with
  | some .eq => Binary64.compare? a.high b.high
  | order => order

/-- The ends with two places, as in `(0.00 - 1.50)`. -/
def text (e : Extent) : String :=
  "(" ++ Binary64.toPlaces 2 e.low ++ " - " ++ Binary64.toPlaces 2 e.high ++ ")"

theorem beq_iff {a b : Extent} :
    (a == b) = true ↔ (a.low == b.low) = true ∧ (a.high == b.high) = true :=
  Bool.and_eq_true_iff

theorem contains_iff {e : Extent} {x : Float} : e.contains x = true ↔ e.low ≤ x ∧ x < e.high := by
  simp [contains]

theorem isIncreasing_iff {e : Extent} : e.isIncreasing = true ↔ e.low < e.high := by
  simp [isIncreasing]

end Extent

end BoxBinning
