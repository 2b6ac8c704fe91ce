import BoxBinning.Extent

/-!
# Bins

A `Bin` is a box: one `Extent` for each axis, in the order of the axes. It contains the points whose
coordinates lie in the extents.

Bins are ordered from the last axis to the first (`Bin.order`), so that sorting the cells of a grid
puts neighbours along the first axis next to each other. Bins with different numbers of axes are
incomparable (`Bin.compare?`).
-/

namespace BoxBinning

/-- A box with one extent for each axis. -/
structure Bin where
  /-- The extents in the order of the axes. -/
  extents : List Extent
deriving DecidableEq

namespace Bin

instance : BEq Bin where
  beq a b := a.extents == b.extents

/-- The number of axes. -/
def axisCount (b : Bin) : Nat := b.extents.length

/-- The volume: the product of the widths. -/
def size (b : Bin) : Float := b.extents.foldl (fun volume e => volume * e.width) 1.0

/-- Every coordinate lies in the extent of its axis. Coordinates without an axis are ignored, and so
are axes without a coordinate. -/
def contains (b : Bin) (x : List Float) : Bool :=
  (b.extents.zip x).all fun (e, v) => e.contains v

/-- The two bins overlap on every axis. -/
def overlaps (a b : Bin) : Bool :=
  (a.extents.zip b.extents).all fun (e, f) => e.overlaps f

/-- The axes of one bin followed by the axes of another. -/
def concat (a b : Bin) : Bin := ⟨a.extents ++ b.extents⟩

/-- The middle of the bin on every axis. -/
def center (b : Bin) : List Float := b.extents.map Extent.center

/-- The order of the first pair of different extents; a pair that cannot be compared counts as
equal. -/
def firstDifference : List (Extent × Extent) → Ordering
  | [] => .eq
  | (e, f) :: rest => if e == f then firstDifference rest else (e.compare? f).getD .eq

/-- The order of two bins with equally many axes, decided by the last axis on which they differ. -/
def order (a b : Bin) : Ordering := firstDifference (a.extents.zip b.extents).reverse

/-- The order of two bins, when they have equally many axes. -/
def compare? (a b : Bin) : Option Ordering :=
  if a.axisCount = b.axisCount then some (a.order b) else none

/-- The extents between brackets. -/
def text (b : Bin) : String := "[" ++ String.intercalate ", " (b.extents.map Extent.text) ++ "]"

@[simp] theorem axisCount_concat (a b : Bin) : (a.concat b).axisCount = a.axisCount + b.axisCount :=
  List.length_append

@[simp] theorem contains_nil (x : List Float) : (Bin.mk []).contains x = true := rfl

/-- A bin contains a point if and only if its first extent contains the first coordinate and the
rest of it the rest. -/
@[simp] theorem contains_cons (e : Extent) (es : List Extent) (v : Float) (x : List Float) :
    (Bin.mk (e :: es)).contains (v :: x) = (e.contains v && (Bin.mk es).contains x) := rfl

end Bin

end BoxBinning
