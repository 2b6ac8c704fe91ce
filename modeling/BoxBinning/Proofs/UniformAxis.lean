import BoxBinning.UniformAxis
import BoxBinning.Proofs.Row

/-!
# Lookup on an axis with a formula

Whatever the formula suggests, the two walks along the edges correct it. `locateFrom` is the lookup
from any first guess. On any edges, a number between the first and the last one gets a bin
(`locateFrom_eq_some_of_covers`); on strictly increasing edges it gets the bin that holds it
(`locateFrom_eq_some_iff`), so the first guess does not matter (`locateFrom_eq_locate`).
-/

namespace BoxBinning.UniformAxis

open Binary64

variable {axis : UniformAxis} {edges : Array Float} {c : Extent} {g j k : Nat} {u v : Float}

theorem cell?_eq_cells : axis.cell? k = (Edges.cells axis.edges.toList)[k]? := by
  ext ⟨low, high⟩
  rw [Edges.getElem?_cells, Array.getElem?_toList, Array.getElem?_toList, cell?]
  cases axis.edges[k]? <;> cases axis.edges[k + 1]? <;> simp

/-! ### The walks -/

/-- The walk down ends at an edge that is not above the number. -/
theorem walkDown_eq_some (h0 : ∀ e, edges[0]? = some e → ¬v < e) (hk : k < edges.size) :
    ∃ j, walkDown edges v k = some j ∧ j ≤ k ∧ ∀ e, edges[j]? = some e → ¬v < e := by
  induction k with
  | zero =>
    have he := Array.getElem?_eq_getElem hk
    refine ⟨0, ?_, le_rfl, h0⟩
    rw [walkDown, he]
    exact if_neg (h0 _ he)
  | succ k ih =>
    have he := Array.getElem?_eq_getElem hk
    rw [walkDown, he]
    dsimp only
    split_ifs with hlt
    · obtain ⟨j, hj, hjk, hje⟩ := ih (by omega)
      exact ⟨j, hj, by omega, hje⟩
    · refine ⟨k + 1, rfl, le_rfl, fun e hek => ?_⟩
      rwa [← Option.some.inj (he.symm.trans hek)]

/-- The walk up ends at a bin that ends above the number and does not start above it. -/
theorem walkUp_eq_some (hlast : ∀ e, edges.back? = some e → v < e) (hk : k + 1 < edges.size)
    (hke : ∀ e, edges[k]? = some e → ¬v < e) :
    ∃ j, walkUp edges v k = some j ∧ j + 1 < edges.size ∧
      (∀ e, edges[j]? = some e → ¬v < e) ∧ ∀ e, edges[j + 1]? = some e → ¬e ≤ v := by
  fun_induction walkUp edges v k with
  | case1 k edge hedge hle ih =>
    -- the last edge is above the number, so it is not the one just passed
    have hnext : k + 1 ≠ edges.size - 1 := fun heq => by
      have hlt := hlast edge (by rw [Array.back?, ← heq, hedge])
      rw [lt_iff] at hlt
      rw [le_iff] at hle
      omega
    refine ih (by omega) fun e he hlt => ?_
    obtain rfl := Option.some.inj (hedge.symm.trans he)
    rw [lt_iff] at hlt
    rw [le_iff] at hle
    omega
  | case2 k edge hedge hle =>
    refine ⟨k, rfl, hk, hke, fun e he => ?_⟩
    rwa [← Option.some.inj (hedge.symm.trans he)]
  | case3 k hnone =>
    rw [Array.getElem?_eq_none_iff] at hnone
    omega

/-! ### The bin of a number -/

/-- The bin that holds `v`, found from the first guess `g`. -/
def locateFrom (axis : UniformAxis) (g : Nat) (v : Float) : Option Nat :=
  if axis.covers v then
    walkDown axis.edges v (min g (axis.edges.size - 2)) >>= walkUp axis.edges v
  else none

/-- The formula is of no other use than for a first guess. -/
theorem locate_eq_locateFrom (axis : UniformAxis) (u v : Float) :
    axis.locate u v = axis.locateFrom ((u - axis.start) / axis.width).toUInt64.toNat v := rfl

theorem covers_iff : axis.covers v = true ↔
    ∃ low high, axis.edges[0]? = some low ∧ axis.edges.back? = some high ∧ low ≤ v ∧ v < high := by
  unfold covers
  split
  · rename_i low high hlow hhigh
    simp [hlow, hhigh]
  · rename_i h
    simp only [Bool.false_eq_true, false_iff, not_exists]
    rintro low high ⟨hlow, hhigh, -⟩
    exact h low high hlow hhigh

/-- A number between the first and the last edge gets a bin, whatever the edges in between. -/
theorem locateFrom_eq_some_of_covers (h : axis.covers v = true) :
    ∃ k, axis.locateFrom g v = some k ∧ k + 1 < axis.edges.size ∧
      (∀ e, axis.edges[k]? = some e → ¬v < e) ∧ ∀ e, axis.edges[k + 1]? = some e → ¬e ≤ v := by
  obtain ⟨low, high, hlow, hhigh, hle, hlt⟩ := covers_iff.mp h
  have hsize : 2 ≤ axis.edges.size := by
    -- a single edge would be both ends
    have hpos : 0 < axis.edges.size := (Array.getElem?_eq_some_iff.mp hlow).1
    by_contra hone
    rw [Array.back?, show axis.edges.size - 1 = 0 by omega, hlow] at hhigh
    obtain rfl := Option.some.inj hhigh
    rw [le_iff] at hle
    rw [lt_iff] at hlt
    omega
  -- the guess is cut off, so it has a bin
  have hguess : min g (axis.edges.size - 2) + 1 < axis.edges.size := by omega
  have hfirst : ∀ e, axis.edges[0]? = some e → ¬v < e := fun e he hve => by
    obtain rfl := Option.some.inj (hlow.symm.trans he)
    rw [le_iff] at hle
    rw [lt_iff] at hve
    omega
  have hlast : ∀ e, axis.edges.back? = some e → v < e := fun e he => by
    rwa [← Option.some.inj (hhigh.symm.trans he)]
  obtain ⟨i, hi, hig, hie⟩ := walkDown_eq_some hfirst (Nat.lt_of_succ_lt hguess)
  obtain ⟨k, hk, hspec⟩ := walkUp_eq_some hlast (k := i) (by omega) hie
  refine ⟨k, ?_, hspec⟩
  rw [locateFrom, if_pos h, hi]
  exact hk

/-- A number has a bin if and only if it lies between the first and the last edge. -/
theorem locateFrom_eq_none_iff : axis.locateFrom g v = none ↔ axis.covers v = false := by
  constructor
  · intro hnone
    by_contra h
    obtain ⟨k, hk, -⟩ := locateFrom_eq_some_of_covers (g := g) (Bool.eq_true_of_not_eq_false h)
    rw [hk] at hnone
    cases hnone
  · intro h
    rw [locateFrom, h]
    rfl

theorem covers_of_locateFrom (h : axis.locateFrom g v = some k) : axis.covers v = true := by
  by_contra hno
  rw [locateFrom_eq_none_iff.mpr (Bool.eq_false_of_not_eq_true hno)] at h
  cases h

theorem lt_size_of_locate (h : axis.locate u v = some k) : k + 1 < axis.edges.size := by
  rw [locate_eq_locateFrom] at h
  obtain ⟨j, hj, hlt, -⟩ := locateFrom_eq_some_of_covers (covers_of_locateFrom h)
  rwa [Option.some.inj (h.symm.trans hj)]

theorem covers_of_contains (hinc : axis.edges.toList.Pairwise (· < ·))
    (hc : axis.cell? k = some c) (hcv : c.contains v = true) : axis.covers v = true := by
  rw [cell?_eq_cells] at hc
  obtain ⟨hlow, hhigh⟩ := Edges.getElem?_cells.mp hc
  have hlen : k + 1 < axis.edges.toList.length := (List.getElem?_eq_some_iff.mp hhigh).1
  have hfirst := List.getElem?_eq_getElem (l := axis.edges.toList) (i := 0) (by omega)
  have hlast := List.getElem?_eq_getElem (l := axis.edges.toList)
    (i := axis.edges.toList.length - 1) (by omega)
  have h1 := Edges.ordinal_le_of_getElem? hinc hfirst hlow (Nat.zero_le k)
  have h2 := Edges.ordinal_le_of_getElem? hinc hhigh hlast (by omega)
  have h3 := lt_iff.mp (Edges.lt_of_getElem? hinc hfirst hlast (by omega))
  rw [Extent.contains_iff, le_iff, lt_iff] at hcv
  rw [covers_iff]
  refine ⟨_, _, Array.getElem?_toList ▸ hfirst, ?_, le_iff.mpr ⟨h3.1, hcv.2.1, by omega⟩,
    lt_iff.mpr ⟨hcv.2.1, h3.2.1, by omega⟩⟩
  rw [Array.back?, ← Array.getElem?_toList, ← Array.length_toList, hlast]

theorem exists_cell_of_locateFrom (hinc : axis.edges.toList.Pairwise (· < ·))
    (h : axis.locateFrom g v = some k) : ∃ c, axis.cell? k = some c ∧ c.contains v = true := by
  have hcovers := covers_of_locateFrom h
  obtain ⟨j, hj, hlt, hlow, hhigh⟩ := locateFrom_eq_some_of_covers (g := g) hcovers
  obtain rfl := Option.some.inj (h.symm.trans hj)
  obtain ⟨_, _, _, _, hle, _⟩ := covers_iff.mp hcovers
  have hk : k < axis.edges.size := by omega
  have he := Array.getElem?_eq_getElem hk
  have he' := Array.getElem?_eq_getElem hlt
  have hc : (Edges.cells axis.edges.toList)[k]? = some ⟨axis.edges[k], axis.edges[k + 1]⟩ := by
    rw [Edges.getElem?_cells, Array.getElem?_toList, Array.getElem?_toList]
    exact ⟨he, he'⟩
  exact ⟨_, cell?_eq_cells.trans hc, Edges.contains_of_not hinc hc (le_iff.mp hle).2.1
    (hhigh _ he') (hlow _ he)⟩

/-- On strictly increasing edges the bin found is the one that holds the number, whatever the
first guess. -/
theorem locateFrom_eq_some_iff (hinc : axis.edges.toList.Pairwise (· < ·)) :
    axis.locateFrom g v = some k ↔ ∃ c, axis.cell? k = some c ∧ c.contains v = true := by
  refine ⟨exists_cell_of_locateFrom hinc, ?_⟩
  rintro ⟨c, hc, hcv⟩
  -- some bin is found, and no other bin holds the number
  obtain ⟨j, hj, -⟩ := locateFrom_eq_some_of_covers (g := g) (covers_of_contains hinc hc hcv)
  obtain ⟨d, hd, hdv⟩ := exists_cell_of_locateFrom hinc hj
  rw [cell?_eq_cells] at hc hd
  rw [hj, Edges.eq_of_contains hinc hd hc hdv hcv]

theorem locate_eq_some_iff (hinc : axis.edges.toList.Pairwise (· < ·)) :
    axis.locate u v = some k ↔ ∃ c, axis.cell? k = some c ∧ c.contains v = true :=
  locateFrom_eq_some_iff hinc

/-- On strictly increasing edges all first guesses lead to the same bin. -/
theorem locateFrom_eq_locate (hinc : axis.edges.toList.Pairwise (· < ·)) (g : Nat) (u v : Float) :
    axis.locateFrom g v = axis.locate u v := by
  ext k
  rw [locateFrom_eq_some_iff hinc, locate_eq_some_iff hinc]

end BoxBinning.UniformAxis
