import BoxBinning.Edges

/-!
# Axes with a formula for the bin

A `UniformAxis` stores the edges of one axis together with a start and a width, such that
`(u - start) / width` is close to the index of the bin of a number. `UniformAxis.locate` takes that
quotient as a first guess and walks along the stored edges to the bin that holds the number, so the
edges alone decide. On a logarithmic axis the guess is made from the logarithm `u` of the number `v`
that is looked up; on a linear axis the two are the same.
-/

namespace BoxBinning

/-- Edges with the start and the width of a formula for the index of a bin. -/
structure UniformAxis where
  /-- Where the formula puts the first edge. -/
  start : Float
  /-- The width of a bin in the formula. -/
  width : Float
  /-- The edges themselves. -/
  edges : Array Float
deriving DecidableEq

namespace UniformAxis

/-- The axis with these edges whose formula divides `[start, stop)` evenly. -/
def ofEdges (start stop : Float) (edges : List Float) : UniformAxis where
  start := start
  width := (stop - start) / Binary64.ofCount (max (edges.length - 1) 1)
  edges := edges.toArray

/-- The extent between an edge and the next. -/
def cell? (axis : UniformAxis) (k : Nat) : Option Extent := do
  return ⟨← axis.edges[k]?, ← axis.edges[k + 1]?⟩

/-- The number lies between the first and the last edge. -/
def covers (axis : UniformAxis) (v : Float) : Bool :=
  match axis.edges[0]?, axis.edges.back? with
  | some low, some high => low ≤ v && v < high
  | _, _ => false

/-- The index that the formula suggests, cut off at the first and the last bin. -/
def guess (axis : UniformAxis) (u : Float) : Nat :=
  min ((u - axis.start) / axis.width).toUInt64.toNat (axis.edges.size - 2)

/-- From the edge at `k` down to the first one that is not above `v`. There is none when the walk
leaves the edges. -/
def walkDown (edges : Array Float) (v : Float) : Nat → Option Nat
  | 0 =>
    match edges[0]? with
    | some edge => if v < edge then none else some 0
    | none => none
  | k + 1 =>
    match edges[k + 1]? with
    | some edge => if v < edge then walkDown edges v k else some (k + 1)
    | none => none

/-- From the bin at `k` up to the first one that ends above `v`. There is none when the walk leaves
the edges. -/
def walkUp (edges : Array Float) (v : Float) (k : Nat) : Option Nat :=
  match _h : edges[k + 1]? with
  | some edge => if edge ≤ v then walkUp edges v (k + 1) else some k
  | none => none
termination_by edges.size - k
decreasing_by
  have : k + 1 < edges.size := (Array.getElem?_eq_some_iff.mp _h).1
  omega

/-- The bin that holds `v`, found from the guess for `u`. -/
def locate (axis : UniformAxis) (u v : Float) : Option Nat :=
  if axis.covers v then walkDown axis.edges v (axis.guess u) >>= walkUp axis.edges v else none

/-- The bin that holds `v`, found from the guess for `v` itself. -/
def binOf (axis : UniformAxis) (v : Float) : Option Nat := axis.locate v v

end UniformAxis

end BoxBinning
