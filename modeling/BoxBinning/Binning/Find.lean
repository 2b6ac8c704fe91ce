import BoxBinning.Binning.Basic
import BoxBinning.Cells

/-!
# Finding the bin of a point

`Binning.find` answers with the index of the bin that holds a point, with `none` for a point outside
all bins, or with an error.

A point is *malformed* for a formula or a search if it has too few coordinates or one that is
subnormal, infinite or undefined, and on a logarithmic axis also if it is not positive. Malformed
points have no bin in a permissive binning and are errors in a strict one. Arbitrary boxes and
products take any coordinates, but too few of them are always an error. A product hands every part
its own coordinates in turn and stops at the first part without a bin or with an error.
-/

namespace BoxBinning.Binning

/-- A malformed point: an error if the policy is strict, and otherwise no bin. -/
def reject {α : Type} (policy : InputPolicy) (e : BinningError) : Except BinningError (Option α) :=
  match policy with
  | .strict => .error e
  | .permissive => .ok none

/-- Too few coordinates for boxes are always an error. -/
def requireCoordinates (axisCount : Nat) (x : List Float) : Except BinningError Unit :=
  if x.length < axisCount then .error (.axisCountMismatch axisCount x.length) else .ok ()

/-- The lookup on one axis: the first coordinate has to be there and be `accepted`. -/
def findOnAxis (policy : InputPolicy) (accepted : Float → Bool) (locate : Float → Option Nat)
    (x : List Float) : Except BinningError (Option BinIndex) :=
  match x with
  | [] => reject policy (.tooFewCoordinates 1 0)
  | v :: _ =>
    if accepted v then .ok ((locate v).map UInt32.ofNat) else reject policy (.unbinnable v 0)

/-- The digits of a point on the axes of a grid, of which the first is number `axisNumber`. -/
def gridDigits (policy : InputPolicy) (axisNumber : Nat) :
    List UniformAxis → List Float → Except BinningError (Option (List BinIndex))
  | axis :: axes, v :: x =>
    if Binary64.isBinnable v then
      match axis.binOf v with
      | some k => do
        let digits ← gridDigits policy (axisNumber + 1) axes x
        return digits.map (UInt32.ofNat k :: ·)
      | none => .ok none
    else reject policy (.unbinnable v axisNumber)
  | _, _ => .ok (some [])

/-- The lookup in a grid. -/
def findInGrid (policy : InputPolicy) (axes : List UniformAxis) (strides : List BinIndex)
    (x : List Float) : Except BinningError (Option BinIndex) :=
  if x.length < axes.length then reject policy (.tooFewCoordinates axes.length x.length)
  else do
    let digits ← gridDigits policy 0 axes x
    return digits.map (MixedRadix.encode strides)

/-- The numbers that a logarithmic axis accepts: the positive normal ones. -/
def isLoggable (v : Float) : Bool := Binary64.isNormal v && !(v < 0.0)

/-- The index of the first bin that contains the point. -/
def findByScan (bins : List Bin) (x : List Float) : Option BinIndex :=
  (bins.findIdx? (·.contains x)).map UInt32.ofNat

mutual

/-- The index of the bin that holds a point. -/
def find : Binning → List Float → Except BinningError (Option BinIndex)
  | linear layout axis, x => findOnAxis layout.policy Binary64.isBinnable axis.binOf x
  | grid layout axes strides, x => findInGrid layout.policy axes strides x
  | logarithmic layout base axis, x =>
    findOnAxis layout.policy isLoggable (fun v => axis.locate (base.log v) v) x
  | contiguous layout cells, x =>
    findOnAxis layout.policy Binary64.isBinnable (Cells.search cells) x
  | columns layout index, x => do
    requireCoordinates layout.axisCount x
    return index.find x
  | scan layout, x => do
    requireCoordinates layout.axisCount x
    return findByScan layout.bins x
  | product _ parts strides, x => do
    requireCoordinates (parts.map axisCount).sum x
    let digits ← partDigits parts x
    return digits.map (MixedRadix.encode strides)

/-- The indices of the bins of the parts that hold the coordinates of a point, which the parts take
one after the other. -/
def partDigits : List Binning → List Float → Except BinningError (Option (List BinIndex))
  | [], _ => .ok (some [])
  | part :: parts, x => do
    match ← find part (x.take part.axisCount) with
    | some i =>
      let digits ← partDigits parts (x.drop part.axisCount)
      return digits.map (i :: ·)
    | none => return none

end

/-- The bin of a single coordinate. -/
def find1d (b : Binning) (x : Float) : Except BinningError (Option BinIndex) := b.find [x]

/-- The index of the bin that holds a point, or `noBinIndex`. -/
def findOrNone (b : Binning) (x : List Float) : Except BinningError BinIndex :=
  (·.getD noBinIndex) <$> b.find x

/-- The bins of several points, unless one of them is an error. -/
def findAll (b : Binning) (rows : List (List Float)) :
    Except BinningError (List (Option BinIndex)) :=
  rows.mapM b.find

end BoxBinning.Binning
