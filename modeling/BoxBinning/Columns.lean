import BoxBinning.Bins.Unique
import BoxBinning.MixedRadix

/-!
# Columns of bins

Bins with the same extent on one axis form a column. `Columns.ofBins?` groups bins into columns
along the axis that gives the most of them, the lowest of several such axes; there are no columns if
some bin has fewer axes than the first.

A `ColumnIndex` is that grouping prepared for lookup. Its columns ascend by their lower ends, so the
search for a point ends at the first column that starts above it.
-/

namespace BoxBinning

/-- The extents of the bins on one axis with the positions of the bins, if every bin has that
axis. -/
def Bins.cellsOn? (bins : List Bin) (axis : Nat) : Option (List (Extent × Nat)) :=
  List.zipIdx <$> bins.mapM fun b => b.extents[axis]?

/-- The cells ordered by extent, and among equal extents by position. -/
def Bins.orderCells (cells : List (Extent × Nat)) : List (Extent × Nat) :=
  cells.mergeSort fun a b => a.1.compare? b.1 != some .gt

/-- For every axis of the first bin, the cells of the bins on it in order, if every bin has those
axes. -/
def Bins.orderedCells? (bins : List Bin) : Option (List (List (Extent × Nat))) :=
  (List.range (Bins.axisCount bins)).mapM fun axis => Bins.orderCells <$> Bins.cellsOn? bins axis

/-- For every axis of the first bin, the positions of the bins ordered by their extents on it. -/
def Bins.axisOrders? (bins : List Bin) : Option (List (List Nat)) :=
  List.map (List.map Prod.snd) <$> Bins.orderedCells? bins

/-- Bins grouped by their extent on one axis. -/
structure Columns where
  /-- The axis. -/
  axis : Nat
  /-- The extent and the position of every bin, one list for each distinct extent. -/
  groups : List (List (Extent × Nat))

namespace Columns

/-- The grouping of no bins. -/
def empty : Columns := ⟨0, []⟩

/-- The better of two groupings: the one with more columns, and of two with equally many the
first. -/
def better (best next : Columns) : Columns :=
  if best.groups.length < next.groups.length then next else best

/-- The columns on one axis, from its cells in order. -/
def onAxis (cells : List (Extent × Nat)) (axis : Nat) : Columns :=
  ⟨axis, cells.splitBy fun a b => a.1 == b.1⟩

/-- The columns along the axis that has the most of them. -/
def ofBins? (bins : List Bin) : Option Columns := do
  let orders ← Bins.orderedCells? bins
  return (orders.zipIdx.map fun (cells, axis) => onAxis cells axis).foldl better empty

/-- The positions of the bins, one list for each column. -/
def positions (columns : Columns) : List (List Nat) := columns.groups.map (List.map Prod.snd)

end Columns

/-- The bins that share one extent, each with its index. -/
structure Column where
  /-- The common extent. -/
  extent : Extent
  /-- The bins and their indices. -/
  members : List (Bin × BinIndex)
deriving DecidableEq

/-- Bins arranged in columns for lookup. -/
structure ColumnIndex where
  /-- The axis of the columns. -/
  axis : Nat
  /-- The columns, ascending by lower end. -/
  columns : List Column
deriving DecidableEq

namespace ColumnIndex

/-- The column of a group of cells. -/
def column (bins : Array Bin) : List (Extent × Nat) → Option Column
  | [] => none
  | group@((extent, _) :: _) =>
    some ⟨extent, group.filterMap fun (_, i) => bins[i]?.map fun b => (b, UInt32.ofNat i)⟩

/-- The index of a list of bins with equally many axes. -/
def ofBins (bins : List Bin) : ColumnIndex :=
  let columns := (Columns.ofBins? bins).getD Columns.empty
  ⟨columns.axis, columns.groups.filterMap (column bins.toArray)⟩

/-- The first bin that contains `x`, in the columns that contain its coordinate `v` on their
axis. -/
def search (x : List Float) (v : Float) : List Column → Option BinIndex
  | [] => none
  | c :: rest =>
    if v < c.extent.low then none
    else if c.extent.contains v then
      match c.members.find? fun member => member.1.contains x with
      | some member => some member.2
      | none => search x v rest
    else search x v rest

/-- The index of the bin that contains `x`. -/
def find (index : ColumnIndex) (x : List Float) : Option BinIndex :=
  x[index.axis]?.bind fun v => search x v index.columns

end ColumnIndex

end BoxBinning
