import BoxBinning.Bins.Unique

/-!
# Overlapping bins

`Bins.findOverlap` projects bins on some axes and finds the first two distinct projections that
overlap. `Bins.requirePartition` accepts the lists of bins a binning can be built from: not empty,
with equally many axes and at least one, every extent increasing, no bin repeated and no two bins
overlapping. It names the first of these that fails.
-/

namespace BoxBinning.Bins

/-- The first two bins of a list that overlap, the earlier one deciding. -/
def firstOverlap : List Bin → Option (Bin × Bin)
  | [] => none
  | a :: rest =>
    match rest.find? a.overlaps with
    | some b => some (a, b)
    | none => firstOverlap rest

/-- The first two distinct projections on the listed axes that overlap; no listed axis means all. -/
def findOverlap (bins : List Bin) (axes : List Nat) : Except BinningError (Option (Bin × Bin)) :=
  firstOverlap <$> project bins axes

/-- Two distinct projections on the listed axes overlap. -/
def hasOverlaps (bins : List Bin) (axes : List Nat) : Except BinningError Bool :=
  Option.isSome <$> findOverlap bins axes

/-- A list without bins, or whose first bin has no axes, is refused. -/
def requireSomeAxes (bins : List Bin) : Except BinningError Unit :=
  if axisCount bins = 0 then .error .noBins else .ok ()

/-- The first extent whose ends do not increase is refused. -/
def requireIncreasing (bins : List Bin) : Except BinningError Unit :=
  match (bins.flatMap Bin.extents).find? fun e => !e.isIncreasing with
  | some e => .error (.rangeNotIncreasing e.low e.high)
  | none => .ok ()

/-- A list with repeated bins is refused. -/
def requireDistinct (bins : List Bin) : Except BinningError Unit := do
  let distinct ← unique bins
  if distinct.length = bins.length then .ok ()
  else .error (.repeatedBins distinct.length bins.length)

/-- A list with overlapping bins is refused. -/
def requireDisjoint (bins : List Bin) : Except BinningError Unit := do
  match ← findOverlap bins [] with
  | some (a, b) => .error (.overlappingBins a b)
  | none => .ok ()

/-- The conditions under which a list of bins divides a region of space. -/
def requirePartition (bins : List Bin) : Except BinningError Unit := do
  requireSomeAxes bins
  requireSameAxes bins
  requireIncreasing bins
  requireDistinct bins
  requireDisjoint bins

end BoxBinning.Bins
