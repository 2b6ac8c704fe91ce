import BoxBinning.Error

/-!
# Axes of bins

The operations on bins that depend on how many axes they have: comparing two bins, testing them for
overlap, and choosing some of the axes. Each is refused when the axes do not fit.
-/

namespace BoxBinning.Bin

/-- Two bins with different numbers of axes are refused. -/
def requireSameAxes (a b : Bin) : Except BinningError Unit :=
  if a.axisCount = b.axisCount then .ok () else .error (.axisCountMismatch a.axisCount b.axisCount)

/-- The order of two bins with equally many axes. -/
def compare (a b : Bin) : Except BinningError Ordering := do
  a.requireSameAxes b
  return a.order b

/-- Whether two bins with equally many axes overlap on all of them. -/
def overlap (a b : Bin) : Except BinningError Bool := do
  a.requireSameAxes b
  return a.overlaps b

/-- The extent on one axis. -/
def axis (b : Bin) (i : Nat) : Except BinningError Extent :=
  match b.extents[i]? with
  | some e => .ok e
  | none => .error (.noSuchAxis i b.axisCount)

/-- The extents on the listed axes, in the order of the list. -/
def project (b : Bin) (axes : List Nat) : Except BinningError Bin :=
  Bin.mk <$> axes.mapM b.axis

end BoxBinning.Bin
