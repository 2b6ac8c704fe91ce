import BoxBinning.Binning.Recipe
import BoxBinning.Proofs.Binning.Build
import BoxBinning.Proofs.Columns

/-!
# Binnings that can be built

`Binning.WellFormed` collects what the ways of building establish, one constructor for each kind of
binning: successive cells between strictly increasing edges, a grid or a product with the strides of
its counts, a partition of boxes. Every recipe that can be carried out gives a well-formed binning
(`Recipe.wellFormed_of_build`), so what is proved by induction on `WellFormed` holds of all of them.
-/

namespace BoxBinning

open Binary64 MixedRadix

/-- The bins are the cells between strictly increasing edges. -/
structure Layout.IsRow (layout : Layout) (edges : List Float) : Prop where
  /-- There is a cell. -/
  two_le : 2 ≤ edges.length
  /-- The edges strictly increase. -/
  increasing : edges.Pairwise (· < ·)
  /-- Each bin is a cell. -/
  bins_eq : layout.bins = Edges.bins edges
  /-- Every bin has an index. -/
  length_lt : layout.bins.length < binLimit

namespace Binning

/-- What holds of a binning that was built. -/
inductive WellFormed : Binning → Prop
  | linear {layout : Layout} {axis : UniformAxis} (row : layout.IsRow axis.edges.toList) :
    WellFormed (.linear layout axis)
  | grid {layout : Layout} {axes : List UniformAxis} {strides : List BinIndex}
    (ne_nil : axes ≠ [])
    (numbering : IsNumbering strides (axes.map fun axis => (axisBins axis).length))
    (bins_eq : layout.bins = combinations (axes.map axisBins)) :
    WellFormed (.grid layout axes strides)
  | logarithmic {layout : Layout} {base : LogBase} {axis : UniformAxis}
    (row : layout.IsRow axis.edges.toList) (positive : ∀ e, axis.edges[0]? = some e → 0.0 < e) :
    WellFormed (.logarithmic layout base axis)
  | contiguous {layout : Layout} {edges : List Float} (row : layout.IsRow edges) :
    WellFormed (.contiguous layout (Edges.cells edges).toArray)
  | columns {layout : Layout} (partition : Bins.IsPartition layout.bins)
    (length_lt : layout.bins.length < binLimit) :
    WellFormed (.columns layout (ColumnIndex.ofBins layout.bins))
  | scan {layout : Layout} (partition : Bins.IsPartition layout.bins)
    (length_lt : layout.bins.length < binLimit) : WellFormed (.scan layout)
  | product {layout : Layout} {parts : List Binning} {strides : List BinIndex}
    (ne_nil : parts ≠ []) (forall_parts : ∀ part ∈ parts, WellFormed part)
    (numbering : IsNumbering strides (parts.map binCount))
    (bins_eq : layout.bins = combinations (parts.map bins)) :
    WellFormed (.product layout parts strides)

/-! ### Ways of building -/

variable {policy : InputPolicy} {start stop : Float} {count : Nat} {label : String}
  {labels : List String} {edges : List Float} {bins : List Bin} {layout : Layout} {b : Binning}

theorem isRow_of_toBins (hbins : Edges.toBins edges = .ok bins)
    (hlayout : Layout.ofBins labels bins policy = .ok layout) : layout.IsRow edges := by
  obtain ⟨hlt, rfl⟩ := layout_ofBins_eq_ok.mp hlayout
  obtain ⟨htwo, hinc, heq⟩ := Edges.toBins_eq_ok.mp hbins
  exact ⟨htwo, hinc, heq, hlt⟩

theorem zero_lt_of_logarithmic {base : LogBase} {e : Float}
    (h : Edges.logarithmic base start stop count = .ok edges) (he : edges[0]? = some e) :
    0.0 < e := by
  obtain ⟨_, -, h⟩ := bind_eq_ok.mp h
  obtain ⟨⟨⟩, hrange, h⟩ := bind_eq_ok.mp h
  obtain ⟨⟨⟩, hstart, -⟩ := bind_eq_ok.mp hrange
  unfold Edges.requireLoggable at hstart
  split_ifs at hstart with hpos
  rw [Bool.and_eq_true, decide_eq_true_iff] at hpos
  obtain rfl := Except.ok.inj h
  simp at he
  exact he ▸ hpos.1

theorem wellFormed_ofLinear (h : ofLinear policy start stop count label = .ok b) :
    b.WellFormed := by
  obtain ⟨⟨⟩, -, h⟩ := bind_eq_ok.mp h
  obtain ⟨⟨⟩, -, h⟩ := bind_eq_ok.mp h
  obtain ⟨edges, hedges, h⟩ := bind_eq_ok.mp h
  obtain ⟨bins, hbins, h⟩ := bind_eq_ok.mp h
  obtain ⟨layout, hlayout, h⟩ := bind_eq_ok.mp h
  obtain rfl := Except.ok.inj h
  exact .linear (isRow_of_toBins hbins hlayout)

theorem wellFormed_ofLogarithmic {base : LogBase}
    (h : ofLogarithmic policy base start stop count label = .ok b) : b.WellFormed := by
  obtain ⟨base, -, h⟩ := bind_eq_ok.mp h
  obtain ⟨⟨⟩, -, h⟩ := bind_eq_ok.mp h
  obtain ⟨⟨⟩, -, h⟩ := bind_eq_ok.mp h
  obtain ⟨edges, hedges, h⟩ := bind_eq_ok.mp h
  obtain ⟨bins, hbins, h⟩ := bind_eq_ok.mp h
  obtain ⟨layout, hlayout, h⟩ := bind_eq_ok.mp h
  obtain rfl := Except.ok.inj h
  exact .logarithmic (isRow_of_toBins hbins hlayout) fun e he =>
    zero_lt_of_logarithmic hedges (by simpa [UniformAxis.ofEdges] using he)

theorem wellFormed_ofEdges (h : ofEdges policy edges label = .ok b) : b.WellFormed := by
  obtain ⟨bins, hbins, h⟩ := bind_eq_ok.mp h
  obtain ⟨layout, hlayout, h⟩ := bind_eq_ok.mp h
  obtain rfl := Except.ok.inj h
  exact .contiguous (isRow_of_toBins hbins hlayout)

theorem wellFormed_ofBins (h : ofBins policy bins labels = .ok b) : b.WellFormed := by
  obtain ⟨⟨⟩, hpart, h⟩ := bind_eq_ok.mp h
  obtain ⟨layout, hlayout, h⟩ := bind_eq_ok.mp h
  obtain rfl := Except.ok.inj h
  obtain ⟨hlt, rfl⟩ := layout_ofBins_eq_ok.mp hlayout
  exact .columns (Bins.isPartition_of_requirePartition hpart) hlt

theorem wellFormed_ofBinsByScan (h : ofBinsByScan policy bins labels = .ok b) :
    b.WellFormed := by
  obtain ⟨⟨⟩, hpart, h⟩ := bind_eq_ok.mp h
  obtain ⟨layout, hlayout, h⟩ := bind_eq_ok.mp h
  obtain rfl := Except.ok.inj h
  obtain ⟨hlt, rfl⟩ := layout_ofBins_eq_ok.mp hlayout
  exact .scan (Bins.isPartition_of_requirePartition hpart) hlt

theorem wellFormed_ofGrid {ranges : List AxisRange} (h : ofGrid policy ranges labels = .ok b) :
    b.WellFormed := by
  obtain ⟨hne, axes, strides, haxes, hnum, rfl⟩ := ofGrid_eq_ok h
  refine .grid ?_ (map_length_axisBins haxes ▸ hnum) rfl
  rintro rfl
  exact hne (List.forall₂_nil_right_iff.mp haxes)

theorem wellFormed_ofParts {parts : List Binning} (hparts : ∀ part ∈ parts, part.WellFormed)
    (h : ofParts policy parts = .ok b) : b.WellFormed := by
  obtain ⟨hne, strides, hnum, rfl⟩ := ofParts_eq_ok h
  exact .product hne hparts hnum rfl

/-- Relabelling changes nothing that matters. -/
theorem WellFormed.withLabels (h : b.WellFormed) (labels : List String) :
    (b.withLabels labels).WellFormed := by
  cases h with
  | linear row => exact .linear ⟨row.two_le, row.increasing, row.bins_eq, row.length_lt⟩
  | grid ne_nil numbering bins_eq => exact .grid ne_nil numbering bins_eq
  | logarithmic row positive =>
    exact .logarithmic ⟨row.two_le, row.increasing, row.bins_eq, row.length_lt⟩ positive
  | contiguous row => exact .contiguous ⟨row.two_le, row.increasing, row.bins_eq, row.length_lt⟩
  | @columns layout partition length_lt =>
    show WellFormed (.columns (layout.withLabels labels) (ColumnIndex.ofBins layout.bins))
    exact .columns partition length_lt
  | scan partition length_lt => exact .scan partition length_lt
  | product ne_nil forall_parts numbering bins_eq =>
    exact .product ne_nil forall_parts numbering bins_eq

/-! ### Counts -/

theorem length_pos_of_isRow (h : layout.IsRow edges) : 0 < layout.bins.length := by
  have htwo := h.two_le
  rw [h.bins_eq, Edges.length_bins]
  omega

theorem length_combinations_lt {α : Type} {bins : α → List Bin} {parts : List α}
    {strides : List BinIndex} (h : IsNumbering strides (parts.map fun part => (bins part).length)) :
    0 < (combinations (parts.map bins)).length ∧
      (combinations (parts.map bins)).length < binLimit := by
  rw [length_combinations, List.map_map]
  exact ⟨prod_pos h.pos, h.prod_lt⟩

/-- There is a bin, and every bin has an index. -/
theorem WellFormed.binCount_lt (h : b.WellFormed) : 0 < b.binCount ∧ b.binCount < binLimit := by
  cases h with
  | linear row => exact ⟨length_pos_of_isRow row, row.length_lt⟩
  | logarithmic row => exact ⟨length_pos_of_isRow row, row.length_lt⟩
  | contiguous row => exact ⟨length_pos_of_isRow row, row.length_lt⟩
  | columns partition length_lt =>
    exact ⟨Bins.length_pos_of_axisCount_pos partition.axisCount_pos, length_lt⟩
  | scan partition length_lt =>
    exact ⟨Bins.length_pos_of_axisCount_pos partition.axisCount_pos, length_lt⟩
  | @grid layout axes strides _ numbering bins_eq =>
    show 0 < layout.bins.length ∧ layout.bins.length < binLimit
    rw [bins_eq]
    exact length_combinations_lt numbering
  | @product layout parts strides _ _ numbering bins_eq =>
    show 0 < layout.bins.length ∧ layout.bins.length < binLimit
    rw [bins_eq]
    exact length_combinations_lt numbering

theorem WellFormed.bins_ne_nil (h : b.WellFormed) : b.bins ≠ [] :=
  List.length_pos_iff.mp h.binCount_lt.1

theorem axisCount_of_mem_grid {axes : List UniformAxis} :
    ∀ c ∈ combinations (axes.map axisBins), c.axisCount = axes.length := by
  have hsum : (axes.map fun _ => 1).sum = axes.length := by simp
  rw [← hsum]
  exact axisCount_of_mem_combinations fun _ _ => Edges.axisCount_of_mem_bins

theorem axisCount_of_mem_row (h : layout.IsRow edges) :
    ∀ c ∈ layout.bins, c.axisCount = layout.axisCount :=
  Bins.forall_axisCount_eq (length_pos_of_isRow h) (h.bins_eq ▸ Edges.axisCount_of_mem_bins)

theorem WellFormed.axisCount_of_mem (h : b.WellFormed) :
    ∀ c ∈ b.bins, c.axisCount = b.axisCount := by
  have hpos := h.binCount_lt.1
  induction h with
  | linear row => exact axisCount_of_mem_row row
  | logarithmic row => exact axisCount_of_mem_row row
  | contiguous row => exact axisCount_of_mem_row row
  | columns partition => exact partition.axisCount_eq
  | scan partition => exact partition.axisCount_eq
  | grid _ _ bins_eq => exact Bins.forall_axisCount_eq hpos (bins_eq ▸ axisCount_of_mem_grid)
  | product _ forall_parts _ bins_eq ih =>
    have hparts := axisCount_of_mem_combinations fun part hpart =>
      ih part hpart (forall_parts part hpart).binCount_lt.1
    exact Bins.forall_axisCount_eq hpos (bins_eq ▸ hparts)

theorem axisCount_row (row : layout.IsRow edges) : layout.axisCount = 1 :=
  Bins.axisCount_eq_of_forall (length_pos_of_isRow row)
    (row.bins_eq ▸ Edges.axisCount_of_mem_bins)

theorem axisCount_grid {axes : List UniformAxis} {strides : List BinIndex}
    (h : (grid layout axes strides).WellFormed) :
    (grid layout axes strides).axisCount = axes.length := by
  have hpos := h.binCount_lt.1
  cases h with
  | grid _ _ bins_eq =>
    exact Bins.axisCount_eq_of_forall hpos (bins_eq ▸ axisCount_of_mem_grid)

theorem axisCount_product {parts : List Binning} {strides : List BinIndex}
    (h : (product layout parts strides).WellFormed) :
    (product layout parts strides).axisCount = (parts.map axisCount).sum := by
  have hpos := h.binCount_lt.1
  cases h with
  | product _ forall_parts _ bins_eq =>
    have hparts := axisCount_of_mem_combinations fun part hpart =>
      (forall_parts part hpart).axisCount_of_mem
    exact Bins.axisCount_eq_of_forall hpos (bins_eq ▸ hparts)

theorem axisCount_ofParts {parts : List Binning} (hparts : ∀ part ∈ parts, part.WellFormed)
    (h : ofParts policy parts = .ok b) : b.axisCount = (parts.map axisCount).sum := by
  have hproduct := wellFormed_ofParts hparts h
  obtain ⟨-, strides, -, rfl⟩ := ofParts_eq_ok h
  exact axisCount_product hproduct

/-- There is an axis. -/
theorem WellFormed.axisCount_pos (h : b.WellFormed) : 0 < b.axisCount := by
  induction h with
  | linear row => exact Nat.one_pos.trans_eq (axisCount_row row).symm
  | logarithmic row => exact Nat.one_pos.trans_eq (axisCount_row row).symm
  | contiguous row => exact Nat.one_pos.trans_eq (axisCount_row row).symm
  | columns partition => exact partition.axisCount_pos
  | scan partition => exact partition.axisCount_pos
  | grid ne_nil numbering bins_eq =>
    rw [axisCount_grid (.grid ne_nil numbering bins_eq)]
    exact List.length_pos_iff.mpr ne_nil
  | @product layout parts strides ne_nil forall_parts numbering bins_eq ih =>
    obtain ⟨part, hpart⟩ := List.exists_mem_of_ne_nil parts ne_nil
    rw [axisCount_product (.product ne_nil forall_parts numbering bins_eq)]
    exact (ih part hpart).trans_le
      (List.le_sum_of_mem (List.mem_map.mpr ⟨part, hpart, rfl⟩))

end Binning

namespace Recipe

open Binning

mutual

/-- What a recipe describes is well-formed. -/
theorem wellFormed_of_build : ∀ (recipe : Recipe) {b : Binning}, recipe.build = .ok b →
    b.WellFormed
  | linear .., _, h => wellFormed_ofLinear h
  | grid .., _, h => wellFormed_ofGrid h
  | logarithmic .., _, h => wellFormed_ofLogarithmic h
  | edges .., _, h => wellFormed_ofEdges h
  | bins .., _, h => wellFormed_ofBins h
  | scan .., _, h => wellFormed_ofBinsByScan h
  | product _ parts, _, h => by
    obtain ⟨bs, hparts, h⟩ := bind_eq_ok.mp h
    exact wellFormed_ofParts (wellFormed_of_buildAll parts hparts) h
  | labelled recipe labels, _, h => by
    obtain ⟨b, hb, h⟩ := bind_eq_ok.mp h
    obtain rfl := Except.ok.inj h
    exact (wellFormed_of_build recipe hb).withLabels labels

theorem wellFormed_of_buildAll : ∀ (recipes : List Recipe) {bs : List Binning},
    buildAll recipes = .ok bs → ∀ b ∈ bs, b.WellFormed
  | [], _, h => by
    obtain rfl := Except.ok.inj h
    exact List.forall_mem_nil _
  | recipe :: rest, _, h => by
    obtain ⟨b, hb, h⟩ := bind_eq_ok.mp h
    obtain ⟨bs, hbs, h⟩ := bind_eq_ok.mp h
    obtain rfl := Except.ok.inj h
    exact List.forall_mem_cons.mpr
      ⟨wellFormed_of_build recipe hb, wellFormed_of_buildAll rest hbs⟩

end

end Recipe

end BoxBinning
