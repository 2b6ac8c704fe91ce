import BoxBinning.Proofs.Ascending
import BoxBinning.Proofs.Binning.Containment

/-!
# The order of grids and products

The bins of a grid and of a product are listed in ascending order, the last axis first
(`Binning.bins_ascend`), so that the index of a bin is its place in the canonical list. The two are
laid out by different digits of an index, but both have the combinations of ascending lists as
bins, and those ascend (`Binning.pairwise_key_combinations`): the lists that vary slowest stand last
in a bin, and the last axes decide first.
-/

namespace BoxBinning

/-- Lists of one length are compared without what follows them. -/
theorem append_lt_append {κ : Type} [LinearOrder κ] {l m : List κ} (h : l < m)
    (hlen : l.length = m.length) (s t : List κ) : l ++ s < m ++ t := by
  induction l generalizing m with
  | nil =>
    obtain rfl := List.length_eq_zero_iff.mp hlen.symm
    exact absurd h (lt_irrefl _)
  | cons a l ih =>
    obtain ⟨b, m, rfl⟩ := List.exists_cons_of_length_eq_add_one hlen.symm
    rw [List.cons_append, List.cons_append, List.cons_lt_cons_iff]
    rcases List.cons_lt_cons_iff.mp h with hab | ⟨rfl, hlm⟩
    · exact .inl hab
    · exact .inr ⟨rfl, ih hlm (Nat.succ.inj hlen)⟩

namespace Binning

variable {policy : InputPolicy} {ranges : List AxisRange} {labels : List String} {b : Binning}
  {part : List Bin} {lists : List (List Bin)} {parts : List Binning}

/-! ### Combinations of ascending lists -/

theorem exists_axisCount_combinations (h : ∀ part ∈ lists, ∃ n, ∀ b ∈ part, b.axisCount = n) :
    ∃ n, ∀ b ∈ combinations lists, b.axisCount = n := by
  have hcount : ∀ b ∈ combinations (lists.map id),
      b.axisCount = (lists.map Bins.axisCount).sum := by
    refine axisCount_of_mem_combinations fun part hpart b hb => ?_
    obtain ⟨n, hn⟩ := h part hpart
    exact Bins.forall_axisCount_eq (List.length_pos_of_mem hb) hn b hb
  rw [List.map_id] at hcount
  exact ⟨_, hcount⟩

theorem pairwise_key_combinations (hcount : ∀ part ∈ lists, ∃ n, ∀ b ∈ part, b.axisCount = n)
    (h : ∀ part ∈ lists, part.Pairwise fun a b => a.key < b.key) :
    (combinations lists).Pairwise fun a b => a.key < b.key := by
  induction lists with
  | nil => exact List.pairwise_singleton _ _
  | cons part lists ih =>
    obtain ⟨-, hcounts⟩ := List.forall_mem_cons.mp hcount
    obtain ⟨hpart, hlists⟩ := List.forall_mem_cons.mp h
    obtain ⟨n, hn⟩ := exists_axisCount_combinations hcounts
    refine List.pairwise_flatMap.mpr ⟨fun outer _ => ?_, ?_⟩
    · -- after the same combination the bins of the first list decide
      refine List.pairwise_map.mpr (hpart.imp fun {a b} hab => ?_)
      rw [Bin.key_concat, Bin.key_concat]
      exact List.append_left_lt hab
    · refine (ih hcounts hlists).imp_of_mem fun {c d} hc hd hcd => ?_
      refine List.forall_mem_map.mpr fun a _ => List.forall_mem_map.mpr fun b _ => ?_
      rw [Bin.key_concat, Bin.key_concat]
      refine append_lt_append hcd ?_ _ _
      rw [Bin.length_key, Bin.length_key, hn c hc, hn d hd]

/-- The combinations of ascending lists are in order. -/
theorem isInOrder_combinations (hnum : ∀ part ∈ lists, ∀ b ∈ part, b.IsNumeric)
    (h : ∀ part ∈ lists, part.Pairwise fun a b => a.compare? b = some .lt) :
    Bins.IsInOrder (combinations lists) := by
  have hkeys := fun part hpart => (Bins.pairwise_compare?_iff (hnum part hpart)).mp (h part hpart)
  have hnum' := forall_extents_of_mem_combinations hnum
  refine Bins.isInOrder_of_pairwise hnum' ((Bins.pairwise_compare?_iff hnum').mpr ⟨?_, ?_⟩)
  · exact exists_axisCount_combinations fun part hpart => (hkeys part hpart).1
  · exact pairwise_key_combinations (fun part hpart => (hkeys part hpart).1)
      fun part hpart => (hkeys part hpart).2

/-! ### Grids and products -/

theorem pairwise_axisBins {axis : UniformAxis} (h : axis.edges.toList.Pairwise (· < ·)) :
    (axisBins axis).Pairwise fun a b => a.compare? b = some .lt :=
  (Bins.pairwise_compare?_iff (Edges.isNumeric_of_mem_bins h)).mpr
    ⟨⟨1, Edges.axisCount_of_mem_bins⟩, Edges.pairwise_key_bins h⟩

/-- Grids with increasing edges, and products of ascending parts without undefined ends, list their
bins in canonical order, so that the index of a bin is its place in the canonical list. -/
theorem bins_ascend :
    (∀ policy ranges labels b, ofGrid policy ranges labels = .ok b →
      (∀ axis ∈ b.gridAxes, axis.edges.toList.Pairwise (· < ·)) → Bins.IsInOrder b.bins) ∧
    (∀ policy parts b, ofParts policy parts = .ok b →
      (∀ part ∈ parts, ∀ c ∈ part.bins, ∀ e ∈ c.extents,
        e.low.isNaN = false ∧ e.high.isNaN = false) →
      (∀ part ∈ parts, part.bins.Pairwise fun c d => c.compare? d = some .lt) →
      Bins.IsInOrder b.bins) := by
  constructor
  · intro policy ranges labels b h hinc
    obtain ⟨-, axes, strides, -, -, rfl⟩ := ofGrid_eq_ok h
    refine isInOrder_combinations (List.forall_mem_map.mpr fun axis haxis => ?_)
      (List.forall_mem_map.mpr fun axis haxis => pairwise_axisBins (hinc axis haxis))
    exact Edges.isNumeric_of_mem_bins (hinc axis haxis)
  · intro policy parts b h hnum hasc
    rw [bins_ofParts h]
    exact isInOrder_combinations (List.forall_mem_map.mpr hnum) (List.forall_mem_map.mpr hasc)

/-- A grid between two copies of a row. -/
theorem bins_ascend_nested :
    ∃ g row b, ofGrid .strict [⟨0.0, 2.0, 2⟩, ⟨-1.0, 1.0, 2⟩] ["x", "y"] = .ok g ∧
      (Recipe.edges .strict [0.0, 1.0, 3.0] "z").build = .ok row ∧
      ofParts .permissive [row, g, row] = .ok b ∧
      Bins.IsInOrder g.bins ∧ Bins.IsInOrder b.bins := by
  obtain ⟨g, hg⟩ :
      ∃ g, ofGrid .strict [⟨0.0, 2.0, 2⟩, ⟨-1.0, 1.0, 2⟩] ["x", "y"] = .ok g := ⟨_, rfl⟩
  obtain ⟨row, hrow⟩ : ∃ row, (Recipe.edges .strict [0.0, 1.0, 3.0] "z").build = .ok row :=
    ⟨_, rfl⟩
  obtain ⟨b, hb⟩ : ∃ b, ofParts .permissive [row, g, row] = .ok b := by
    obtain rfl := Except.ok.inj hg
    obtain rfl := Except.ok.inj hrow
    exact ⟨_, rfl⟩
  have hinc : ∀ axis ∈ g.gridAxes, axis.edges.toList.Pairwise (· < ·) := by
    obtain rfl := Except.ok.inj hg
    decide
  have hnum : ∀ part ∈ [row, g, row], ∀ c ∈ part.bins, ∀ e ∈ c.extents,
      e.low.isNaN = false ∧ e.high.isNaN = false := by
    obtain rfl := Except.ok.inj hg
    obtain rfl := Except.ok.inj hrow
    decide
  have hrows : row.bins.Pairwise fun c d => c.compare? d = some .lt := by
    obtain rfl := Except.ok.inj hrow
    decide
  have hgrid := bins_ascend.1 _ _ _ _ hg hinc
  have hparts : ∀ part ∈ [row, g, row],
      part.bins.Pairwise fun c d => c.compare? d = some .lt := by
    simpa using ⟨hrows, hgrid.ascending, hrows⟩
  exact ⟨g, row, b, hg, hrow, hb, hgrid, bins_ascend.2 _ _ _ hb hnum hparts⟩

end Binning

end BoxBinning
