import BoxBinning.Bin.Axes

/-!
# Sorted lists of distinct bins

`Bins.unique` sorts a list of bins from the last axis to the first and drops repeated bins. Sorting
is stable, so of several equal bins the one listed first stays. `Bins.project` chooses some of the
axes of every bin and makes the result unique again.
-/

namespace BoxBinning.Bins

/-- The number of axes of the first bin, and zero without bins. -/
def axisCount (bins : List Bin) : Nat := (bins.head?.map Bin.axisCount).getD 0

/-- A list is refused if some bin has another number of axes than the first. -/
def requireSameAxes (bins : List Bin) : Except BinningError Unit :=
  match bins.find? fun b => b.axisCount != axisCount bins with
  | some b => .error (.axisCountMismatch (axisCount bins) b.axisCount)
  | none => .ok ()

/-- The bins in the order from the last axis to the first. -/
def sorted (bins : List Bin) : List Bin := bins.mergeSort fun a b => a.order b != .gt

/-- The sorted list of the distinct bins. -/
def unique (bins : List Bin) : Except BinningError (List Bin) := do
  requireSameAxes bins
  return (sorted bins).eraseReps

/-- The distinct projections of the bins on the listed axes, sorted; no listed axis means all. -/
def project (bins : List Bin) (axes : List Nat) : Except BinningError (List Bin) :=
  if axes.isEmpty then unique bins else bins.mapM (·.project axes) >>= unique

end BoxBinning.Bins
