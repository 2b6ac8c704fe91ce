import BoxBinning.Bin.Basic

/-!
# What can go wrong

`BinningError` names every reason why edges, bins or binnings are refused and why a coordinate has
no answer, and `BinningError.message` is its wording. Numbers stand in the messages as the shortest
digits that name them.
-/

namespace BoxBinning

/-- Why an operation on bins has no result. -/
inductive BinningError where
  /-- The ends of a range do not increase. -/
  | rangeNotIncreasing (start stop : Float)
  /-- The edge at `index` is not above the one before it. -/
  | edgesNotIncreasing (index : Nat) (low high : Float)
  /-- Fewer than two edges delimit no bin. -/
  | tooFewEdges (found : Nat)
  /-- There are no bins, or the bins have no axes. -/
  | noBins
  /-- A product of nothing. -/
  | noParts
  /-- Some bins are listed more than once. -/
  | repeatedBins (unique total : Nat)
  /-- Two bins share a point. -/
  | overlappingBins (first second : Bin)
  /-- Bins or coordinates disagree in their number of axes. -/
  | axisCountMismatch (expected found : Nat)
  /-- A coordinate list is too short. -/
  | tooFewCoordinates (expected found : Nat)
  /-- A coordinate that no bin can hold. -/
  | unbinnable (value : Float) (axis : Nat)
  /-- The bins have no such axis. -/
  | noSuchAxis (axis axisCount : Nat)
  /-- An extent does not start where the one before it ends. -/
  | gap (low expected : Float)
  /-- An edge without a finite logarithm. -/
  | badLogarithmicEdge (edge : Float)
  /-- A base that no logarithm has. -/
  | badLogarithmicBase (base : Nat)
  /-- More bins than indices. -/
  | tooManyBins (count : Nat)
deriving DecidableEq

/-- The wording of an error. -/
def BinningError.message : BinningError → String
  | rangeNotIncreasing start stop =>
    s!"Bin range is not increasing: start={Binary64.plain start} >= stop={Binary64.plain stop}"
  | edgesNotIncreasing index low high =>
    s!"Bin edges are not strictly increasing: edge[{index}] = {Binary64.plain high}"
      ++ s!" <= preceding edge {Binary64.plain low}"
  | tooFewEdges found => s!"Too few bin edges: need at least two, found {found}"
  | noBins => "Cannot build a binning from zero bins"
  | noParts => "Cannot build a product of zero binnings"
  | repeatedBins unique total => s!"Bins must be unique: {unique} unique bins out of {total}"
  | overlappingBins first second =>
    s!"Bins must not overlap: bin {Bin.text first} overlaps bin {Bin.text second}"
  | axisCountMismatch expected found =>
    s!"Mismatched axis count: expected {expected}, found {found}"
  | tooFewCoordinates expected found =>
    s!"Too few projections for binning: expected {expected}, found {found}"
  | unbinnable value axis => s!"Unbinnable number {Binary64.plain value} on axis {axis}"
  | noSuchAxis axis axisCount =>
    s!"Axis {axis} requested from bins with only {axisCount} axes"
  | gap low expected =>
    s!"Bins are not contiguous: {Binary64.plain low} != {Binary64.plain expected}"
  | badLogarithmicEdge edge =>
    s!"Logarithmic binning requires positive edges, found {Binary64.plain edge}"
  | badLogarithmicBase base =>
    s!"Logarithmic binning requires a base of at least 2, found {base}"
  | tooManyBins count =>
    s!"Binning with {count} bins exceeds the addressable bin index range"

end BoxBinning
