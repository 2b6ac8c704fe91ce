import BoxBinning.LogBase

/-!
# Edges

A list of strictly increasing numbers delimits a row of bins, each reaching from one edge to the
next. `Edges.uniform`, `Edges.linear` and `Edges.logarithmic` lay edges out at regular distances,
`Edges.joined` strings several series together, and `Edges.toBins` checks that a list increases and
turns it into bins with one axis.

The first and the last edge of `linear` and `logarithmic` are the given ends themselves as far as
rounding could move them, so that a binning covers exactly the range that was asked for.
-/

namespace BoxBinning.Edges

/-- A range is refused unless it increases. -/
def requireIncreasingRange (start stop : Float) : Except BinningError Unit :=
  if start < stop then .ok () else .error (.rangeNotIncreasing start stop)

/-- The `count + 1` edges of `count` bins of one width. -/
def uniform (start width : Float) (count : Nat) : Except BinningError (List Float) :=
  if width > 0.0 then
    .ok ((List.range (count + 1)).map fun i => start + Binary64.ofCount i * width)
  else .error (.rangeNotIncreasing start (start + width))

/-- The edges of `count` equally wide bins between two ends. -/
def linear (start stop : Float) (count : Nat) : Except BinningError (List Float) := do
  requireIncreasingRange start stop
  let edges ← uniform start ((stop - start) / Binary64.ofCount count) count
  return edges.set count stop

/-- An edge has to be positive and finite to have a logarithm. -/
def requireLoggable (edge : Float) : Except BinningError Unit :=
  if edge > 0.0 && edge.isFinite then .ok () else .error (.badLogarithmicEdge edge)

/-- The ends of a logarithmic range are positive, finite and increasing. -/
def requireLogarithmicRange (start stop : Float) : Except BinningError Unit := do
  requireLoggable start
  requireLoggable stop
  requireIncreasingRange start stop

/-- The edges of `count` bins between two ends whose logarithms are equally far apart. -/
def logarithmic (base : LogBase) (start stop : Float) (count : Nat) :
    Except BinningError (List Float) := do
  let base ← base.checked
  requireLogarithmicRange start stop
  let first := base.log start
  let width := (base.log stop - first) / Binary64.ofCount count
  return (List.range (count + 1)).map fun i =>
    if i = 0 then start
    else if i = count then stop
    else base.exp (first + Binary64.ofCount i * width)

/-- The extents between successive edges. -/
def cells (edges : List Float) : List Extent := List.zipWith Extent.mk edges edges.tail

/-- The first edge that is not above the one before it is refused. -/
def requireIncreasing (edges : List Float) : Except BinningError Unit :=
  match (cells edges).zipIdx.find? fun (cell, _) => !cell.isIncreasing with
  | some (cell, i) => .error (.edgesNotIncreasing (i + 1) cell.low cell.high)
  | none => .ok ()

/-- Fewer than two edges are refused. -/
def requireTwo (edges : List Float) : Except BinningError Unit :=
  if edges.length < 2 then .error (.tooFewEdges edges.length) else .ok ()

/-- Several series of edges as one, in which an edge that repeats the one before it is dropped. -/
def joined (series : List (List Float)) : Except BinningError (List Float) := do
  let edges := series.flatten.eraseReps
  requireTwo edges
  requireIncreasing edges
  return edges

/-- The bins between successive edges, on one axis. -/
def toBins (edges : List Float) : Except BinningError (List Bin) := do
  requireTwo edges
  requireIncreasing edges
  return (cells edges).map fun cell => ⟨[cell]⟩

end BoxBinning.Edges
