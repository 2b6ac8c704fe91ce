import BoxBinning.Bins.Unique

/-!
# Contiguous bins

`Bins.edgesAlong` recovers the edges of a list of bins along one axis: its distinct extents there,
sorted, have to follow each other without a gap. Bins are contiguous when that succeeds on every
axis.
-/

namespace BoxBinning.Bins

/-- The edges of a row of extents, the first of which has to start at `expected`. -/
def chainEdges (expected : Float) : List Extent → Except BinningError (List Float)
  | [] => .ok [expected]
  | e :: rest =>
    if e.low == expected then (expected :: ·) <$> chainEdges e.high rest
    else .error (.gap e.low expected)

/-- The edges of the bins along one axis. -/
def edgesAlong (bins : List Bin) (axis : Nat) : Except BinningError (List Float) := do
  match (← project bins [axis]).flatMap Bin.extents with
  | [] => .error .noBins
  | e :: rest => chainEdges e.low (e :: rest)

/-- There are bins, and along every axis of the first one they follow each other without a gap. -/
def isContiguous (bins : List Bin) : Bool :=
  !bins.isEmpty && (List.range (axisCount bins)).all fun axis => (edgesAlong bins axis).isOk

/-- The edges along the first two axes. -/
def rectilinearGrid (bins : List Bin) : Except BinningError (List Float × List Float) := do
  return (← edgesAlong bins 0, ← edgesAlong bins 1)

/-- The middle of every bin. -/
def centers (bins : List Bin) : List (List Float) := bins.map Bin.center

/-- The middle of every bin on its first axis, for the bins that have one. -/
def firstCenters (bins : List Bin) : List Float := bins.filterMap fun b => b.center.head?

end BoxBinning.Bins
