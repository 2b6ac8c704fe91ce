import BoxBinning.Columns
import BoxBinning.Text.Quoted
import BoxBinning.UniformAxis

/-!
# Binnings

A `Binning` is a list of bins with a way to find the bin that holds a point. Its constructors are
the ways of finding: a formula on one axis, a formula on each axis of a grid, a formula in the
logarithm, a search among successive cells, an index of columns, a scan of all bins, and the
lookups of several binnings side by side.

All of them carry the same `Layout`: the labels of the axes, the bins, and whether points that no
bin can hold are errors.
-/

namespace BoxBinning

/-- What a lookup makes of a coordinate that no bin can hold. -/
inductive InputPolicy where
  /-- Such a point has no bin. -/
  | permissive
  /-- Such a point is an error. -/
  | strict
deriving DecidableEq, Repr

/-- The bins of a binning with the labels of their axes. -/
structure Layout where
  /-- One label for each axis, and possibly more. -/
  labels : List String
  /-- The bins in the order of their indices. -/
  bins : List Bin
  /-- What to make of a coordinate that no bin can hold. -/
  policy : InputPolicy

namespace Layout

/-- Labels filled up with empty ones to the number of axes. -/
def padLabels (labels : List String) (axisCount : Nat) : List String :=
  labels.rightpad axisCount ""

/-- The number of axes. -/
def axisCount (layout : Layout) : Nat := Bins.axisCount layout.bins

/-- The bins with labels, unless there are more bins than indices. -/
def ofBins (labels : List String) (bins : List Bin) (policy : InputPolicy) :
    Except BinningError Layout :=
  if bins.length < binLimit then .ok ⟨padLabels labels (Bins.axisCount bins), bins, policy⟩
  else .error (.tooManyBins bins.length)

/-- The same bins with other labels. -/
def withLabels (layout : Layout) (labels : List String) : Layout :=
  { layout with labels := padLabels labels layout.axisCount }

end Layout

/-- A list of bins with a way to find the bin of a point. -/
inductive Binning where
  /-- One axis, with a formula for the index. -/
  | linear (layout : Layout) (axis : UniformAxis)
  /-- A grid with a formula for the index on each axis. -/
  | grid (layout : Layout) (axes : List UniformAxis) (strides : List BinIndex)
  /-- One axis, with a formula for the index in the logarithm. -/
  | logarithmic (layout : Layout) (base : LogBase) (axis : UniformAxis)
  /-- One axis, with successive cells that are searched by halving. -/
  | contiguous (layout : Layout) (cells : Array Extent)
  /-- Any boxes, arranged in columns. -/
  | columns (layout : Layout) (index : ColumnIndex)
  /-- Any boxes, tried one after the other. -/
  | scan (layout : Layout)
  /-- All combinations of the bins of several binnings. -/
  | product (layout : Layout) (parts : List Binning) (strides : List BinIndex)

/-- The kinds of binning, one for each way of finding a bin. -/
inductive BinningKind where
  /-- A formula on one axis. -/
  | linear
  /-- A formula on each axis of a grid. -/
  | grid
  /-- A formula in the logarithm. -/
  | logarithmic
  /-- A search among successive cells. -/
  | contiguous
  /-- An index of columns. -/
  | columns
  /-- A scan of all bins. -/
  | scan
  /-- The lookups of several binnings side by side. -/
  | product
deriving DecidableEq, Repr

namespace Binning

/-- The kind of a binning. -/
def kind : Binning → BinningKind
  | linear .. => .linear
  | grid .. => .grid
  | logarithmic .. => .logarithmic
  | contiguous .. => .contiguous
  | columns .. => .columns
  | scan .. => .scan
  | product .. => .product

/-- The labels, the bins and the policy. -/
def layout : Binning → Layout
  | linear layout _ => layout
  | grid layout _ _ => layout
  | logarithmic layout _ _ => layout
  | contiguous layout _ => layout
  | columns layout _ => layout
  | scan layout => layout
  | product layout _ _ => layout

/-- The same way of finding with another layout. -/
def setLayout : Binning → Layout → Binning
  | linear _ axis, layout => linear layout axis
  | grid _ axes strides, layout => grid layout axes strides
  | logarithmic _ base axis, layout => logarithmic layout base axis
  | contiguous _ cells, layout => contiguous layout cells
  | columns _ index, layout => columns layout index
  | scan _, layout => scan layout
  | product _ parts strides, layout => product layout parts strides

/-- The labels of the axes. -/
def labels (b : Binning) : List String := b.layout.labels

/-- The bins in the order of their indices. -/
def bins (b : Binning) : List Bin := b.layout.bins

/-- What a lookup makes of a coordinate that no bin can hold. -/
def policy (b : Binning) : InputPolicy := b.layout.policy

/-- The number of bins. -/
def binCount (b : Binning) : Nat := b.bins.length

/-- The number of axes. -/
def axisCount (b : Binning) : Nat := b.layout.axisCount

/-- The same binning with other labels. -/
def withLabels (b : Binning) (labels : List String) : Binning :=
  b.setLayout (b.layout.withLabels labels)

/-- The volumes of the bins, the whole list repeated `times` times. -/
def binSizes (b : Binning) (times : Nat) : List Float :=
  (List.replicate times (b.bins.map Bin.size)).flatten

/-- The labels, and then a line for each bin. -/
def text (b : Binning) : String :=
  let line := fun (cell, i) => s!"  {i}: {Bin.text cell}\n"
  s!"Axis labels: {Text.quoteList b.labels}\nBins: [\n"
    ++ String.join (b.bins.zipIdx.map line) ++ "]"

@[simp] theorem layout_setLayout (b : Binning) (layout : Layout) :
    (b.setLayout layout).layout = layout := by
  cases b <;> rfl

/-- Relabelling keeps the bins. -/
@[simp] theorem bins_withLabels (b : Binning) (labels : List String) :
    (b.withLabels labels).bins = b.bins := by
  simp [withLabels, bins, Layout.withLabels]

end Binning

end BoxBinning
