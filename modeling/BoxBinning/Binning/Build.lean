import BoxBinning.Binning.Basic
import BoxBinning.Bins.Overlap
import BoxBinning.Edges

/-!
# Building binnings

One function for each way to lay out bins. `linear`, `logarithmic` and `contiguous` make a row of
bins on one axis, `grid` all combinations of the bins of several linear axes, `columns` and `scan`
take any list of boxes that do not overlap, and `product` combines the bins of binnings that exist.

In a grid and in a product the bins of the first axis or part vary fastest, so that the index of a
bin is the mixed-radix number of the indices it is combined from.
-/

namespace BoxBinning.Binning

/-- A row of `count` equally wide bins between two ends. -/
def ofLinear (policy : InputPolicy) (start stop : Float) (count : Nat) (label : String) :
    Except BinningError Binning := do
  Edges.requireIncreasingRange start stop
  requireBinCount count
  let edges ← Edges.linear start stop count
  let bins ← Edges.toBins edges
  let layout ← Layout.ofBins [label] bins policy
  return linear layout (UniformAxis.ofEdges start stop edges)

/-- The range of one axis of a grid and its number of bins. -/
structure AxisRange where
  /-- The lower end. -/
  start : Float
  /-- The upper end. -/
  stop : Float
  /-- The number of bins. -/
  count : Nat

/-- The axis of a grid on a range. -/
def AxisRange.axis (range : AxisRange) : Except BinningError UniformAxis := do
  Edges.requireIncreasingRange range.start range.stop
  requireBinCount range.count
  let edges ← Edges.linear range.start range.stop range.count
  return UniformAxis.ofEdges range.start range.stop edges

/-- The bin of a grid with the given digits. -/
def gridBin (axes : List UniformAxis) (digits : List Nat) : Bin :=
  ⟨(axes.zip digits).filterMap fun (axis, k) => axis.cell? k⟩

/-- A grid of equally wide bins on several axes. -/
def ofGrid (policy : InputPolicy) (ranges : List AxisRange) (labels : List String) :
    Except BinningError Binning := do
  if ranges.isEmpty then .error .noBins
  let axes ← ranges.mapM AxisRange.axis
  let counts := ranges.map AxisRange.count
  let (strides, cells) ← MixedRadix.strides counts
  let bins := (List.range cells).map fun i => gridBin axes (MixedRadix.decode counts strides i)
  let layout ← Layout.ofBins labels bins policy
  return grid layout axes strides

/-- A row of `count` bins between two ends whose logarithms are equally far apart. -/
def ofLogarithmic (policy : InputPolicy) (base : LogBase) (start stop : Float) (count : Nat)
    (label : String) : Except BinningError Binning := do
  let base ← base.checked
  Edges.requireLogarithmicRange start stop
  requireBinCount count
  let edges ← Edges.logarithmic base start stop count
  let bins ← Edges.toBins edges
  let layout ← Layout.ofBins [label] bins policy
  return logarithmic layout base (UniformAxis.ofEdges (base.log start) (base.log stop) edges)

/-- The bins between successive edges. -/
def ofEdges (policy : InputPolicy) (edges : List Float) (label : String) :
    Except BinningError Binning := do
  let bins ← Edges.toBins edges
  let layout ← Layout.ofBins [label] bins policy
  return contiguous layout (Edges.cells edges).toArray

/-- Any boxes that do not overlap, found through their columns. -/
def ofBins (policy : InputPolicy) (bins : List Bin) (labels : List String) :
    Except BinningError Binning := do
  Bins.requirePartition bins
  let layout ← Layout.ofBins labels bins policy
  return columns layout (ColumnIndex.ofBins bins)

/-- Any boxes that do not overlap, found by trying one after the other. -/
def ofBinsByScan (policy : InputPolicy) (bins : List Bin) (labels : List String) :
    Except BinningError Binning := do
  Bins.requirePartition bins
  let layout ← Layout.ofBins labels bins policy
  return scan layout

/-- All combinations of one bin from each list, those of the first list varying fastest. -/
def combinations (parts : List (List Bin)) : List Bin :=
  parts.foldr (fun part rest => rest.flatMap fun outer => part.map (·.concat outer)) [⟨[]⟩]

/-- All combinations of the bins of several binnings. -/
def ofParts (policy : InputPolicy) (parts : List Binning) : Except BinningError Binning := do
  if parts.isEmpty then .error .noParts
  if parts.any fun part => part.binCount = 0 then .error .noBins
  let (strides, _) ← MixedRadix.strides (parts.map Binning.binCount)
  let bins := combinations (parts.map Binning.bins)
  let layout ← Layout.ofBins (parts.flatMap Binning.labels) bins policy
  return product layout parts strides

end BoxBinning.Binning
