import BoxBinning.Bins.Contiguity
import BoxBinning.Proofs.Projection

/-!
# Edges of equal bins

The edges along an axis depend on the distinct projections only up to equality
(`Bins.edgesAlong_congr`): with equal projections there are equal edges, or a gap between equal
numbers. Neither the two zeros nor the list that the projections come from make a difference.
-/

namespace BoxBinning

namespace Bins

variable {bins others s t : List Bin} {axis other : Nat}

theorem isContiguous_iff : isContiguous bins = true ↔
    bins ≠ [] ∧ ∀ axis < axisCount bins, (edgesAlong bins axis).isOk = true := by
  simp [isContiguous]

/-- Equal edges, or a gap between equal numbers. -/
inductive SameEdges : Except BinningError (List Float) → Except BinningError (List Float) → Prop
  /-- The edges are equal. -/
  | ok {vs ws : List Float} (equal : List.Forall₂ (fun v w => (v == w) = true) vs ws) :
    SameEdges (.ok vs) (.ok ws)
  /-- The first extent out of place starts at the same number and should start at the same. -/
  | gap {low low' expected expected' : Float} (lows : (low == low') = true)
    (expecteds : (expected == expected') = true) :
    SameEdges (.error (.gap low expected)) (.error (.gap low' expected'))

variable {r r' : Except BinningError (List Float)}

theorem SameEdges.cons {v w : Float} (h : SameEdges r r') (hvw : (v == w) = true) :
    SameEdges ((v :: ·) <$> r) ((w :: ·) <$> r') := by
  cases h with
  | ok equal => exact .ok (.cons hvw equal)
  | gap lows expecteds => exact .gap lows expecteds

theorem SameEdges.isOk_eq (h : SameEdges r r') : r.isOk = r'.isOk := by
  cases h with
  | ok equal => rfl
  | gap lows expecteds => rfl

/-- Equal extents in a row have equal edges, if the row has to start at the same number. -/
theorem sameEdges_chainEdges {es fs : List Extent} {v w : Float}
    (h : List.Forall₂ (fun e f => (e == f) = true) es fs) (hvw : (v == w) = true) :
    SameEdges (chainEdges v es) (chainEdges w fs) := by
  induction h generalizing v w with
  | nil => exact .ok (.cons hvw .nil)
  | @cons e f es fs hef _ ih =>
    obtain ⟨hlow, hhigh⟩ := Extent.beq_iff.mp hef
    have hstart : (e.low == v) = true ↔ (f.low == w) = true := by
      constructor
      · intro hev
        exact Binary64.beq_trans (Binary64.beq_symm hlow) (Binary64.beq_trans hev hvw)
      · intro hfw
        exact Binary64.beq_trans hlow (Binary64.beq_trans hfw (Binary64.beq_symm hvw))
    rw [chainEdges, chainEdges]
    by_cases hev : (e.low == v) = true
    · rw [if_pos hev, if_pos (hstart.mp hev)]
      exact (ih hhigh).cons hvw
    · rw [if_neg hev, if_neg fun hfw => hev (hstart.mpr hfw)]
      exact .gap hlow hvw

theorem edgesAlong_eq {e : Extent} {rest : List Extent} (hs : project bins [axis] = .ok s)
    (h : s.flatMap Bin.extents = e :: rest) :
    edgesAlong bins axis = chainEdges e.low (e :: rest) := by
  rw [edgesAlong, hs]
  simp only [bind, Except.bind, h]

/-- Lists of bins with equal projections on an axis have the same edges along it. -/
theorem edgesAlong_congr (hs : project bins [axis] = .ok s) (ht : project others [other] = .ok t)
    (h : List.Forall₂ (fun p q => (p == q) = true) s t) (hne : s ≠ [])
    (hcount : ∀ p ∈ s, p.axisCount = 1) :
    SameEdges (edgesAlong bins axis) (edgesAlong others other) := by
  have hextents : List.Forall₂ (fun e f => (e == f) = true) (s.flatMap Bin.extents)
      (t.flatMap Bin.extents) :=
    List.rel_flatMap h fun _ _ => Bin.forall₂_extents_of_beq
  obtain ⟨p, rest, rfl⟩ := List.exists_cons_of_ne_nil hne
  obtain ⟨e, he⟩ := List.length_eq_one_iff.mp (hcount p List.mem_cons_self)
  have hfirst : (p :: rest).flatMap Bin.extents = e :: rest.flatMap Bin.extents := by
    rw [List.flatMap_cons, he, List.singleton_append]
  rw [hfirst] at hextents
  obtain ⟨f, others, hef, hrest, hsecond⟩ := List.forall₂_cons_left_iff.mp hextents
  rw [edgesAlong_eq hs hfirst, edgesAlong_eq ht hsecond]
  exact sameEdges_chainEdges (.cons hef hrest) (Extent.beq_iff.mp hef).1

end Bins

end BoxBinning
