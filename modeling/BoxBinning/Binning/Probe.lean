import BoxBinning.Binary64.Neighbor
import BoxBinning.Binning.Find

/-!
# Probing the corners of bins

Whether a lookup places points next to an edge in the right bin shows at the corners of the bins.
`Binning.probe` looks up one corner of every bin, moved by some representable numbers along every
axis.
-/

namespace BoxBinning

/-- A distinguished point of a bin. -/
inductive Corner where
  /-- The lower ends of the extents. -/
  | low
  /-- The upper ends. -/
  | high
  /-- The middles. -/
  | center
deriving DecidableEq, Repr

/-- The coordinate of a corner on one axis. -/
def Extent.corner (e : Extent) : Corner → Float
  | .low => e.low
  | .high => e.high
  | .center => e.center

/-- The corner of a bin. -/
def Bin.corner (b : Bin) (corner : Corner) : List Float := b.extents.map (·.corner corner)

/-- For every bin, the lookup of the point `steps` representable numbers above its corner. -/
def Binning.probe (b : Binning) (corner : Corner) (steps : Int) :
    List (Except BinningError (Option BinIndex)) :=
  b.bins.map fun cell => b.find ((cell.corner corner).map fun v => Binary64.stepBy v steps)

end BoxBinning
