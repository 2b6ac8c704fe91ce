import BoxBinning.Proofs.Binary64.Special
import BoxBinning.Proofs.Binning.Formula
import BoxBinning.Proofs.Selection

/-!
# Rejected coordinates

A strict lookup that meets a coordinate no bin can hold names the coordinate and its axis. The axis
is counted from the first one of the part that rejects the coordinate, which is one of
`Binning.leaves`: after the axes of the leaves before it stands the coordinate that is named
(`Recipe.unbinnable_names_leaf_axis`). Outside products that is its axis in the point, and in a
product it need not be (`Binning.product_misnames_axis`).
-/

namespace BoxBinning

open Binary64 MixedRadix Lookup

/-- The numbers that no bin can hold in a binning of the given kind. -/
def BinningKind.Rejects (v : Float) : BinningKind → Prop
  | .linear | .grid | .contiguous => IsSubnormal v ∨ v.isInf = true ∨ v.isNaN = true
  | .logarithmic => IsSubnormal v ∨ v.isInf = true ∨ v.isNaN = true ∨ Binning.IsNonpositive v
  | .columns | .scan | .product => False

namespace Binning

/-- A strict binning rejects the coordinate that a point has on one of its axes. -/
structure RejectsAt (b : Binning) (x : List Float) (v : Float) (a : Nat) : Prop where
  /-- The binning is strict. -/
  policy_eq : b.policy = .strict
  /-- No bin can hold the number. -/
  rejects : b.kind.Rejects v
  /-- The binning has the axis. -/
  lt_axisCount : a < b.axisCount
  /-- The number is the coordinate on the axis. -/
  getElem?_eq : x[a]? = some v

variable {layout : Layout} {policy : InputPolicy} {axes : List UniformAxis} {parts : List Binning}
  {strides : List BinIndex} {edges : List Float} {b : Binning} {x : List Float} {v : Float}
  {a n : Nat}

/-! ### Rows and grids -/

/-- The numbers without a bin in the logarithm. -/
theorem isLoggable_eq_false_iff : isLoggable v = false ↔
    IsSubnormal v ∨ v.isInf = true ∨ v.isNaN = true ∨ IsNonpositive v := by
  rw [← or_assoc (b := v.isNaN = true), ← or_assoc, ← isBinnable_eq_false_iff, isNonpositive_iff]
  cases hbinnable : isBinnable v with
  | false =>
    rw [isBinnable, Bool.or_eq_false_iff] at hbinnable
    simp [isLoggable, hbinnable.2]
  | true => simp

theorem reject_eq_unbinnable {α : Type} {e : BinningError}
    (h : (reject policy e : Except BinningError (Option α)) = .error (.unbinnable v a)) :
    policy = .strict ∧ e = .unbinnable v a := by
  cases policy with
  | permissive => cases h
  | strict => exact ⟨rfl, Except.error.inj h⟩

theorem findOnAxis_eq_unbinnable {accepted : Float → Bool} {locate : Float → Option Nat}
    (h : findOnAxis policy accepted locate x = .error (.unbinnable v a)) :
    policy = .strict ∧ accepted v = false ∧ a = 0 ∧ x[0]? = some v := by
  unfold findOnAxis at h
  cases x with
  | nil => cases (reject_eq_unbinnable h).2
  | cons u rest =>
    dsimp only at h
    split_ifs at h with hu
    obtain ⟨hpolicy, he⟩ := reject_eq_unbinnable h
    cases he
    exact ⟨hpolicy, Bool.eq_false_of_not_eq_true hu, rfl, rfl⟩

/-- The axes of a grid have the numbers from `n` on. -/
theorem gridDigits_eq_unbinnable (h : gridDigits policy n axes x = .error (.unbinnable v a)) :
    policy = .strict ∧ isBinnable v = false ∧ ∃ k < axes.length, a = n + k ∧ x[k]? = some v := by
  induction axes generalizing n x with
  | nil => cases x <;> cases h
  | cons axis axes ih =>
    cases x with
    | nil => cases h
    | cons u x =>
      rw [gridDigits] at h
      -- the axes are tested one after the other, up to the first one that has no cell
      split_ifs at h with hu
      · cases hlocate : axis.binOf u with
        | none =>
          rw [hlocate] at h
          cases h
        | some k =>
          rw [hlocate] at h
          rcases bind_eq_error.mp h with h | ⟨digits, -, h⟩
          · obtain ⟨hpolicy, hv, k, hk, rfl, hx⟩ := ih h
            exact ⟨hpolicy, hv, k + 1, Nat.succ_lt_succ hk, by omega, hx⟩
          · cases h
      · obtain ⟨hpolicy, he⟩ := reject_eq_unbinnable h
        cases he
        exact ⟨hpolicy, Bool.eq_false_of_not_eq_true hu, 0, Nat.succ_pos _, rfl, rfl⟩

theorem findInGrid_eq_unbinnable
    (h : findInGrid policy axes strides x = .error (.unbinnable v a)) :
    policy = .strict ∧ isBinnable v = false ∧ a < axes.length ∧ x[a]? = some v := by
  unfold findInGrid at h
  split_ifs at h
  · cases (reject_eq_unbinnable h).2
  · rcases bind_eq_error.mp h with h | ⟨digits, -, h⟩
    · obtain ⟨hpolicy, hv, k, hk, rfl, hx⟩ := gridDigits_eq_unbinnable h
      rw [Nat.zero_add]
      exact ⟨hpolicy, hv, hk, hx⟩
    · cases h

/-- Boxes are never asked whether they accept a coordinate. -/
theorem requireCoordinates_ne_unbinnable {answer : Option BinIndex} :
    (do requireCoordinates n x; return answer) ≠ Except.error (.unbinnable v a) := by
  unfold requireCoordinates
  intro h
  split_ifs at h
  · cases h
  · cases h

theorem rejectsAt_row (row : b.layout.IsRow edges) {accepted : Float → Bool}
    {locate : Float → Option Nat} (hrejects : accepted v = false → b.kind.Rejects v)
    (h : findOnAxis b.policy accepted locate x = .error (.unbinnable v a)) :
    b.RejectsAt x v a := by
  obtain ⟨hpolicy, hv, rfl, hx⟩ := findOnAxis_eq_unbinnable h
  have hlt : 0 < b.axisCount := Nat.one_pos.trans_eq (axisCount_row row).symm
  exact ⟨hpolicy, hrejects hv, hlt, hx⟩

/-- Outside products the axis that is named is that of the coordinate. -/
theorem WellFormed.rejectsAt (h : b.WellFormed) (hkind : b.kind ≠ .product)
    (hfind : b.find x = .error (.unbinnable v a)) : b.RejectsAt x v a := by
  cases h with
  | linear row => exact rejectsAt_row row isBinnable_eq_false_iff.mp hfind
  | logarithmic row => exact rejectsAt_row row isLoggable_eq_false_iff.mp hfind
  | contiguous row => exact rejectsAt_row row isBinnable_eq_false_iff.mp hfind
  | columns => exact absurd hfind requireCoordinates_ne_unbinnable
  | scan => exact absurd hfind requireCoordinates_ne_unbinnable
  | product => exact absurd rfl hkind
  | @grid layout axes strides ne_nil numbering bins_eq =>
    have hcount : (Binning.grid layout axes strides).axisCount = axes.length :=
      axisCount_grid (.grid ne_nil numbering bins_eq)
    obtain ⟨hpolicy, hv, ha, hx⟩ := findInGrid_eq_unbinnable hfind
    exact ⟨hpolicy, isBinnable_eq_false_iff.mp hv, hcount.symm ▸ ha, hx⟩

/-! ### Parts of parts -/

theorem leaves_of_kind_ne (h : b.kind ≠ .product) : b.leaves = [b] := by
  cases b with
  | product => exact absurd rfl h
  | _ => rfl

theorem sum_axisCount_leavesOfParts
    (h : ∀ part ∈ parts, (part.leaves.map axisCount).sum = part.axisCount) :
    ((leavesOfParts parts).map axisCount).sum = (parts.map axisCount).sum := by
  induction parts with
  | nil => rfl
  | cons part parts ih =>
    obtain ⟨hpart, hparts⟩ := List.forall_mem_cons.mp h
    rw [leavesOfParts, List.map_append, List.sum_append, hpart, ih hparts, List.map_cons,
      List.sum_cons]

/-- The leaves have the axes of the binning. -/
theorem WellFormed.sum_axisCount_leaves (h : b.WellFormed) :
    (b.leaves.map axisCount).sum = b.axisCount := by
  induction h with
  | product ne_nil forall_parts numbering bins_eq ih =>
    rw [axisCount_product (.product ne_nil forall_parts numbering bins_eq)]
    exact sum_axisCount_leavesOfParts ih
  | _ => exact Nat.add_zero _

/-- Among several binnings, one leaf rejects the coordinate that it has on the axis. -/
def LeafRejectsAt (leaves : List Binning) (x : List Float) (v : Float) (a : Nat) : Prop :=
  ∃ (k : Nat) (leaf : Binning), leaves[k]? = some leaf ∧
    leaf.RejectsAt (x.drop (offset (leaves.map axisCount) k)) v a

theorem LeafRejectsAt.append_left {leaves leaves' : List Binning}
    (h : LeafRejectsAt leaves (x.take n) v a) : LeafRejectsAt (leaves ++ leaves') x v a := by
  obtain ⟨k, leaf, hleaf, hpolicy, hrejects, ha, hx⟩ := h
  have hk := (List.getElem?_eq_some_iff.mp hleaf).1
  have hcounts : k ≤ (leaves.map axisCount).length := by
    rw [List.length_map]
    exact hk.le
  refine ⟨k, leaf, (List.getElem?_append_left hk).trans hleaf, hpolicy, hrejects, ha, ?_⟩
  rw [List.map_append, offset_append_left hcounts]
  rw [List.getElem?_drop] at hx ⊢
  rw [List.getElem?_take] at hx
  split_ifs at hx
  exact hx

theorem LeafRejectsAt.append_right {leaves leaves' : List Binning}
    (h : LeafRejectsAt leaves' (x.drop (leaves.map axisCount).sum) v a) :
    LeafRejectsAt (leaves ++ leaves') x v a := by
  obtain ⟨k, leaf, hleaf, hrejects⟩ := h
  refine ⟨leaves.length + k, leaf, ?_, ?_⟩
  · rw [List.getElem?_append_right (Nat.le_add_right _ _), Nat.add_sub_cancel_left]
    exact hleaf
  · rw [List.drop_drop] at hrejects
    have hoffset := offset_append_right (leaves.map axisCount) (leaves'.map axisCount) k
    rw [List.length_map] at hoffset
    rwa [List.map_append, hoffset]

theorem leafRejectsAt_of_partDigits (hwf : ∀ part ∈ parts, part.WellFormed)
    (hparts : ∀ part ∈ parts, ∀ x, part.find x = .error (.unbinnable v a) →
      LeafRejectsAt part.leaves x v a)
    (h : partDigits parts x = .error (.unbinnable v a)) :
    LeafRejectsAt (leavesOfParts parts) x v a := by
  induction parts generalizing x with
  | nil => cases h
  | cons part parts ih =>
    obtain ⟨hwf, hwfs⟩ := List.forall_mem_cons.mp hwf
    obtain ⟨hpart, hparts⟩ := List.forall_mem_cons.mp hparts
    rw [partDigits] at h
    rw [leavesOfParts]
    -- the part itself rejects its coordinates, or a later one does
    rcases bind_eq_error.mp h with h | ⟨_ | i, -, h⟩
    · exact (hpart _ h).append_left
    · cases h
    · rcases bind_eq_error.mp h with h | ⟨digits, -, h⟩
      · apply LeafRejectsAt.append_right
        rw [hwf.sum_axisCount_leaves]
        exact ih hwfs hparts h
      · cases h

theorem leafRejectsAt_self (h : b.WellFormed) (hkind : b.kind ≠ .product)
    (hfind : b.find x = .error (.unbinnable v a)) : LeafRejectsAt b.leaves x v a := by
  rw [leaves_of_kind_ne hkind]
  exact ⟨0, b, rfl, h.rejectsAt hkind hfind⟩

/-- A coordinate is rejected by a leaf, among the coordinates that the leaf has in the point. -/
theorem WellFormed.leafRejectsAt (h : b.WellFormed)
    (hfind : b.find x = .error (.unbinnable v a)) : LeafRejectsAt b.leaves x v a := by
  induction h generalizing x with
  | linear row => exact leafRejectsAt_self (.linear row) nofun hfind
  | logarithmic row positive => exact leafRejectsAt_self (.logarithmic row positive) nofun hfind
  | contiguous row => exact leafRejectsAt_self (.contiguous row) nofun hfind
  | columns partition length_lt =>
    exact leafRejectsAt_self (.columns partition length_lt) nofun hfind
  | scan partition length_lt => exact leafRejectsAt_self (.scan partition length_lt) nofun hfind
  | grid ne_nil numbering bins_eq =>
    exact leafRejectsAt_self (.grid ne_nil numbering bins_eq) nofun hfind
  | product _ forall_parts _ _ ih =>
    rcases bind_eq_error.mp hfind with h | ⟨⟨⟩, -, h⟩
    · unfold requireCoordinates at h
      split_ifs at h
      cases h
    · rcases bind_eq_error.mp h with h | ⟨digits, -, h⟩
      · exact leafRejectsAt_of_partDigits forall_parts (fun part hpart x => ih part hpart) h
      · cases h

end Binning

namespace Recipe

variable {recipe : Recipe} {b : Binning} {x : List Float} {v : Float} {a : Nat}

/-- An error for a coordinate that no bin can hold comes from a strict leaf that does not accept the
coordinate. It names the coordinate and, counted from the first axis of the leaf, its axis. Unless
the binning is a product, this is the axis in the point. -/
theorem unbinnable_names_leaf_axis (hbuild : recipe.build = .ok b)
    (hfind : b.find x = .error (.unbinnable v a)) :
    (∃ (k : Nat) (leaf : Binning), b.leaves[k]? = some leaf ∧ leaf.policy = .strict ∧
      leaf.kind.Rejects v ∧ a < leaf.axisCount ∧
      offset (b.leaves.map Binning.axisCount) k + a < b.axisCount ∧
      x[offset (b.leaves.map Binning.axisCount) k + a]? = some v) ∧
    (b.kind ≠ .product → a < b.axisCount ∧ x[a]? = some v ∧ b.kind.Rejects v) := by
  have hwf := wellFormed_of_build recipe hbuild
  constructor
  · obtain ⟨k, leaf, hleaf, hpolicy, hrejects, ha, hx⟩ := hwf.leafRejectsAt hfind
    rw [List.getElem?_drop] at hx
    have hcount : (b.leaves.map Binning.axisCount)[k]? = some leaf.axisCount := by
      rw [List.getElem?_map, hleaf]
      rfl
    have hlt := offset_add_lt_sum hcount ha
    rw [hwf.sum_axisCount_leaves] at hlt
    exact ⟨k, leaf, hleaf, hpolicy, hrejects, ha, hlt, hx⟩
  · intro hkind
    have h := hwf.rejectsAt hkind hfind
    exact ⟨h.lt_axisCount, h.getElem?_eq, h.rejects⟩

/-- A permissive row beside a strict grid, which rejects its second coordinate and the third one of
the point. -/
theorem unbinnable_names_leaf_axis_grid :
    ∃ b, (Recipe.product .permissive [.edges .permissive [0.0, 1.0, 3.0] "x",
        .grid .strict [⟨0.0, 2.0, 2⟩, ⟨0.0, 2.0, 2⟩] ["y", "z"]]).build = .ok b ∧
      b.find [0.5, 1.5, 1.0 / 0.0] = .error (.unbinnable (1.0 / 0.0) 1) ∧
      ∃ (k : Nat) (leaf : Binning), b.leaves[k]? = some leaf ∧ leaf.policy = .strict ∧
        leaf.kind.Rejects (1.0 / 0.0) ∧ 1 < leaf.axisCount ∧
        offset (b.leaves.map Binning.axisCount) k + 1 < b.axisCount ∧
        [0.5, 1.5, 1.0 / 0.0][offset (b.leaves.map Binning.axisCount) k + 1]? =
          some (1.0 / 0.0) := by
  obtain ⟨b, hb⟩ : ∃ b, (Recipe.product .permissive [.edges .permissive [0.0, 1.0, 3.0] "x",
      .grid .strict [⟨0.0, 2.0, 2⟩, ⟨0.0, 2.0, 2⟩] ["y", "z"]]).build = .ok b := ⟨_, rfl⟩
  have hfind : b.find [0.5, 1.5, 1.0 / 0.0] = .error (.unbinnable (1.0 / 0.0) 1) := by
    obtain rfl := Except.ok.inj hb
    decide +kernel
  exact ⟨b, hb, hfind, (unbinnable_names_leaf_axis hb hfind).1⟩

end Recipe

namespace Binning

/-- A product reports a coordinate of its second row on axis zero, where the point has another
one. -/
theorem product_misnames_axis :
    ∃ row column p, ofLinear .permissive 0.0 1.0 2 "x" = .ok row ∧
      ofLinear .strict 0.0 1.0 2 "y" = .ok column ∧
      ofParts .permissive [row, column] = .ok p ∧ p.axisCount = 2 ∧
      p.find [0.5, 1.0 / 0.0] = .error (.unbinnable (1.0 / 0.0) 0) ∧
      [0.5, 1.0 / 0.0][0]? ≠ some (1.0 / 0.0 : Float) := by
  obtain ⟨row, hrow⟩ : ∃ row, ofLinear .permissive 0.0 1.0 2 "x" = .ok row := ⟨_, rfl⟩
  obtain ⟨column, hcolumn⟩ : ∃ column, ofLinear .strict 0.0 1.0 2 "y" = .ok column := ⟨_, rfl⟩
  obtain ⟨p, hp⟩ : ∃ p, ofParts .permissive [row, column] = .ok p := by
    obtain rfl := Except.ok.inj hrow
    obtain rfl := Except.ok.inj hcolumn
    exact ⟨_, rfl⟩
  refine ⟨row, column, p, hrow, hcolumn, hp, ?_⟩
  obtain rfl := Except.ok.inj hrow
  obtain rfl := Except.ok.inj hcolumn
  obtain rfl := Except.ok.inj hp
  decide +kernel

end Binning

end BoxBinning
