import BoxBinning.Proofs.Binning.Containment

/-!
# Grids, products and rows

A grid and the product of the rows on its ranges are the same, as far as there are such rows
(`Binning.grid_product`): they are built from the same counts, have the same combinations of cells
as bins and combine the same answers with the same strides. Only the errors differ, as every row
calls its axis the first one (`Binning.SameButAxis`), and combining keeps that
(`Lookup.rel_combine`).

A grid does not insist that its edges increase. `Binning.grid_increasing` says what is lost without
it, and `Binning.grid_not_increasing` that it can happen.
-/

namespace BoxBinning.Binning

open Binary64 MixedRadix Lookup

/-! ### Answers that differ in the axis they name -/

/-- The same result, or errors for the same coordinate, which may be on different axes. -/
inductive SameButAxis {α : Type} : Except BinningError α → Except BinningError α → Prop
  /-- Both give the same. -/
  | ok (a : α) : SameButAxis (.ok a) (.ok a)
  /-- Both reject the same number. -/
  | unbinnable (v : Float) (m n : Nat) :
    SameButAxis (.error (.unbinnable v m)) (.error (.unbinnable v n))

theorem SameButAxis.found_iff {r s : Answer} (i : BinIndex) (h : SameButAxis r s) :
    r = found i ↔ s = found i := by
  cases h with
  | ok answer => rfl
  | unbinnable v m n => simp [found]

theorem sameButAxis_reject {α : Type} (policy : InputPolicy) (v : Float) (m n : Nat) :
    SameButAxis (reject policy (.unbinnable v m) : Except BinningError (Option α))
      (reject policy (.unbinnable v n)) := by
  cases policy with
  | permissive => exact .ok none
  | strict => exact .unbinnable v m n

/-! ### Rows on the axes of a grid -/

/-- A row whose bins are the cells of an axis. -/
inductive IsRowOn : UniformAxis → Binning → Prop
  | linear {layout : Layout} {axis : UniformAxis} (bins_eq : layout.bins = axisBins axis)
    (length_pos : 0 < (axisBins axis).length) : IsRowOn axis (linear layout axis)

variable {policy policy' : InputPolicy} {ranges : List AxisRange} {axes : List UniformAxis}
  {rows : List Binning} {labels : List String} {x : List Float} {n : Nat}

/-- Rows on ranges are rows on the axes that a grid has on these ranges. -/
theorem exists_axes_of_rows
    (h : List.Forall₂ (fun range row => ∃ policy label,
      ofLinear policy range.start range.stop range.count label = .ok row) ranges rows) :
    ∃ axes, List.Forall₂ (fun range axis => range.axis = .ok axis) ranges axes ∧
      List.Forall₂ IsRowOn axes rows := by
  induction h with
  | nil => exact ⟨[], .nil, .nil⟩
  | cons hrow _ ih =>
    obtain ⟨axes, hranges, hrows⟩ := ih
    obtain ⟨policy, label, hrow⟩ := hrow
    obtain ⟨axis, haxis, -, rfl⟩ := ofLinear_eq_ok.mp hrow
    have hpos := (AxisRange.axis_eq_ok.mp haxis).2.1.1
    rw [← AxisRange.length_axisBins haxis] at hpos
    exact ⟨axis :: axes, .cons haxis hranges, .cons (.linear rfl hpos) hrows⟩

theorem wellFormed_of_rows
    (h : List.Forall₂ (fun range row => ∃ policy label,
      ofLinear policy range.start range.stop range.count label = .ok row) ranges rows) :
    ∀ row ∈ rows, row.WellFormed := by
  intro row hmem
  obtain ⟨range, -, policy, label, hrow⟩ := exists_mem_of_forall₂ h.flip hmem
  exact wellFormed_ofLinear hrow

theorem map_bins_of_rows (h : List.Forall₂ IsRowOn axes rows) :
    rows.map bins = axes.map axisBins := by
  induction h with
  | nil => rfl
  | cons hrow _ ih =>
    cases hrow with
    | linear bins_eq _ => exact congrArg₂ List.cons bins_eq ih

theorem axisCount_of_isRowOn {axis : UniformAxis} {row : Binning} (h : IsRowOn axis row) :
    row.axisCount = 1 := by
  cases h with
  | @linear layout _ bins_eq length_pos =>
    show Bins.axisCount layout.bins = 1
    rw [bins_eq, axisCount_axisBins length_pos]

theorem sum_axisCount_of_rows (h : List.Forall₂ IsRowOn axes rows) :
    (rows.map axisCount).sum = axes.length := by
  induction h with
  | nil => rfl
  | cons hrow _ ih =>
    rw [List.map_cons, List.sum_cons, ih, axisCount_of_isRowOn hrow, List.length_cons,
      Nat.add_comm]

/-- The rows answer like the axes, one after the other. -/
theorem sameButAxis_results (h : List.Forall₂ IsRowOn axes rows)
    (hpolicy : ∀ row ∈ rows, row.policy = policy) (hlen : axes.length ≤ x.length) :
    List.Forall₂ SameButAxis (results (axisLookups policy n axes) x)
      (results (rows.map lookup) x) := by
  induction h generalizing n x with
  | nil => exact .nil
  | @cons axis row axes rows hrow _ ih =>
    obtain ⟨v, x, rfl⟩ := List.exists_cons_of_length_pos (Nat.zero_lt_of_lt hlen)
    obtain ⟨hfirst, hrest⟩ := List.forall_mem_cons.mp hpolicy
    have hcount : (lookup row).axisCount = 1 := axisCount_of_isRowOn hrow
    rw [results_axisLookups_cons, List.map_cons, results_cons, hcount]
    refine .cons ?_ (ih hrest (Nat.le_of_succ_le_succ hlen))
    cases hrow with
    | @linear layout _ _ _ =>
      show SameButAxis _ (find (linear layout axis) [v])
      obtain rfl : layout.policy = policy := hfirst
      rw [find_linear, findOnAxis]
      dsimp only [axisLookup]
      split_ifs
      · exact .ok _
      · exact sameButAxis_reject layout.policy v n 0

/-- A grid is the product of rows on its ranges. -/
theorem grid_product (hrows : List.Forall₂ (fun range row => ∃ policy label,
      ofLinear policy range.start range.stop range.count label = .ok row) ranges rows) :
    ((∃ g, ofGrid policy ranges labels = .ok g) ↔ ∃ p, ofParts policy' rows = .ok p) ∧
    ∀ g p, ofGrid policy ranges labels = .ok g → ofParts policy' rows = .ok p →
      g.bins = p.bins ∧
      ((∀ row ∈ rows, row.policy = policy) → ∀ x : List Float, ranges.length ≤ x.length →
        SameButAxis (g.find x) (p.find x)) := by
  obtain ⟨axes, haxes, hrowsOn⟩ := exists_axes_of_rows hrows
  have hbins := map_bins_of_rows hrowsOn
  have hcounts : rows.map binCount = ranges.map AxisRange.count := by
    have hlengths := congrArg (List.map List.length) hbins
    rw [List.map_map, List.map_map] at hlengths
    exact hlengths.trans (map_length_axisBins haxes)
  constructor
  · rw [exists_ofGrid_iff, exists_ofParts_iff, hcounts]
    have hpos := count_pos_of_forall₂ haxes
    have hne : ranges ≠ [] ↔ rows ≠ [] := by
      rw [← List.length_pos_iff, ← List.length_pos_iff, hrows.length_eq]
    constructor
    · rintro ⟨hranges, -, hlt⟩
      exact ⟨hne.mp hranges, hpos, hlt⟩
    · rintro ⟨hrows, -, hlt⟩
      exact ⟨hne.mpr hrows, ⟨axes, haxes⟩, hlt⟩
  · intro g p hg hp
    have hgrid := wellFormed_ofGrid hg
    have hproduct := wellFormed_ofParts (wellFormed_of_rows hrows) hp
    obtain ⟨-, axes', strides, haxes', hnum, rfl⟩ := ofGrid_eq_ok hg
    obtain ⟨-, strides', hnum', rfl⟩ := ofParts_eq_ok hp
    -- axes and strides are those that the rows have
    obtain rfl : axes = axes' := Except.ok.inj
      ((mapM_eq_ok_iff.mpr haxes).symm.trans (mapM_eq_ok_iff.mpr haxes'))
    obtain rfl : strides = strides' := hnum.unique (hcounts ▸ hnum')
    refine ⟨congrArg combinations hbins.symm, fun hpolicy x hlen => ?_⟩
    rw [haxes.length_eq] at hlen
    rw [find_grid_eq_combine hgrid, if_neg (not_lt.mpr hlen), find_product hproduct,
      sum_axisCount_of_rows hrowsOn, if_neg (not_lt.mpr hlen), ← results_lookup]
    exact rel_combine (fun i => .ok (some i)) (fun _ _ => SameButAxis.found_iff) strides
      (sameButAxis_results hrowsOn hpolicy hlen)

/-- The product of two rows on the ranges of a grid. Both reject the second coordinate of a point,
the grid on its second axis and the product on the only one of the second row. -/
theorem grid_product_rejected :
    ∃ row column g p, ofLinear .strict 0.0 2.0 2 "x" = .ok row ∧
      ofLinear .strict 1.0 2.0 1 "y" = .ok column ∧
      ofGrid .strict [⟨0.0, 2.0, 2⟩, ⟨1.0, 2.0, 1⟩] ["x", "y"] = .ok g ∧
      ofParts .permissive [row, column] = .ok p ∧ g.bins = p.bins ∧
      SameButAxis (g.find [0.5, 1.0 / 0.0]) (p.find [0.5, 1.0 / 0.0]) := by
  obtain ⟨row, hrow⟩ : ∃ row, ofLinear .strict 0.0 2.0 2 "x" = .ok row := ⟨_, rfl⟩
  obtain ⟨column, hcolumn⟩ : ∃ column, ofLinear .strict 1.0 2.0 1 "y" = .ok column := ⟨_, rfl⟩
  have hrows : List.Forall₂ (fun (range : AxisRange) row => ∃ policy label,
      ofLinear policy range.start range.stop range.count label = .ok row)
      [⟨0.0, 2.0, 2⟩, ⟨1.0, 2.0, 1⟩] [row, column] :=
    .cons ⟨_, _, hrow⟩ (.cons ⟨_, _, hcolumn⟩ .nil)
  obtain ⟨g, hg⟩ : ∃ g, ofGrid .strict [⟨0.0, 2.0, 2⟩, ⟨1.0, 2.0, 1⟩] ["x", "y"] = .ok g :=
    ⟨_, rfl⟩
  obtain ⟨hiff, hequal⟩ := grid_product hrows
  obtain ⟨p, hp⟩ := hiff.mp ⟨g, hg⟩
  obtain ⟨hbins, hfind⟩ := hequal g p hg hp
  have hpolicy : ∀ part ∈ [row, column], part.policy = .strict := by
    obtain rfl := Except.ok.inj hrow
    obtain rfl := Except.ok.inj hcolumn
    decide
  exact ⟨row, column, g, p, hrow, hcolumn, hg, hp, hbins, hfind hpolicy _ (by decide)⟩

/-! ### Edges that do not increase -/

theorem forall_axisBins_iff {axis : UniformAxis} :
    (∀ c ∈ axisBins axis, ∀ e ∈ c.extents, e.low < e.high) ↔
      axis.edges.toList.Pairwise (· < ·) :=
  Edges.forall_bins_iff

/-- The extents of the bins of a grid are the cells on its axes, so they increase if the edges
do. -/
theorem forall_extents_grid_iff
    (h : List.Forall₂ (fun range axis => range.axis = .ok axis) ranges axes) :
    (∀ c ∈ combinations (axes.map axisBins), ∀ e ∈ c.extents, e.low < e.high) ↔
      ∀ axis ∈ axes, axis.edges.toList.Pairwise (· < ·) := by
  have hne : ∀ part ∈ axes.map axisBins, part ≠ [] := by
    intro part hpart
    have hcount : part.length ∈ ranges.map AxisRange.count := by
      rw [← map_length_axisBins h, ← Function.comp_def, ← List.map_map]
      exact List.mem_map.mpr ⟨part, hpart, rfl⟩
    exact List.length_pos_iff.mp (count_pos_of_forall₂ h _ hcount)
  rw [forall_extents_combinations hne, List.forall_mem_map]
  exact forall₂_congr fun axis _ => forall_axisBins_iff

/-- There are rows on all ranges of a grid if and only if the edges of all its axes increase. -/
theorem forall_exists_ofLinear_iff {label : String}
    (h : List.Forall₂ (fun range axis => range.axis = .ok axis) ranges axes) :
    (∀ range ∈ ranges, ∃ row,
        ofLinear policy range.start range.stop range.count label = .ok row) ↔
      ∀ axis ∈ axes, axis.edges.toList.Pairwise (· < ·) := by
  induction h with
  | nil => simp
  | cons haxis _ ih =>
    rw [List.forall_mem_cons, List.forall_mem_cons, ih, exists_ofLinear_iff haxis]

theorem hasIncreasingGrids_grid {layout : Layout} {strides : List BinIndex}
    (h : ∀ axis ∈ axes, axis.edges.toList.Pairwise (· < ·)) :
    (grid layout axes strides).HasIncreasingGrids := by
  intro leaf hleaf
  obtain rfl := List.mem_singleton.mp hleaf
  exact h

/-- If all extents of the bins increase, the edges of all grids do, also of those in parts. -/
theorem WellFormed.hasIncreasingGrids {b : Binning} (h : b.WellFormed)
    (hinc : ∀ c ∈ b.bins, ∀ e ∈ c.extents, e.low < e.high) : b.HasIncreasingGrids := by
  have hleaf : ∀ b : Binning, b.gridAxes = [] → ∀ leaf ∈ [b], ∀ axis ∈ leaf.gridAxes,
      axis.edges.toList.Pairwise (· < ·) := by
    intro b hb leaf hleaf axis haxis
    rw [List.mem_singleton.mp hleaf, hb] at haxis
    cases haxis
  induction h with
  | linear => exact hleaf _ rfl
  | logarithmic => exact hleaf _ rfl
  | contiguous => exact hleaf _ rfl
  | columns => exact hleaf _ rfl
  | scan => exact hleaf _ rfl
  | @grid layout axes strides ne_nil numbering bins_eq =>
    have hne : ∀ part ∈ axes.map axisBins, part ≠ [] := List.forall_mem_map.mpr fun axis haxis =>
      List.length_pos_iff.mp (numbering.pos _ (List.mem_map.mpr ⟨axis, haxis, rfl⟩))
    have hbins : (Binning.grid layout axes strides).bins = combinations (axes.map axisBins) :=
      bins_eq
    have hall := (forall_extents_combinations hne).mp (hbins ▸ hinc)
    refine hasIncreasingGrids_grid fun axis haxis => forall_axisBins_iff.mp ?_
    exact hall _ (List.mem_map.mpr ⟨axis, haxis, rfl⟩)
  | @product layout parts strides ne_nil forall_parts numbering bins_eq ih =>
    have hne : ∀ part ∈ parts.map bins, part ≠ [] :=
      List.forall_mem_map.mpr fun part hpart => (forall_parts part hpart).bins_ne_nil
    have hbins : (Binning.product layout parts strides).bins = combinations (parts.map bins) :=
      bins_eq
    have hall := (forall_extents_combinations hne).mp (hbins ▸ hinc)
    intro leaf hleaf
    obtain ⟨part, hpart, hleaf⟩ := mem_leavesOfParts.mp hleaf
    exact ih part hpart (hall _ (List.mem_map.mpr ⟨part, hpart, rfl⟩)) leaf hleaf

/-- Equal bins share a point, so a lookup that agrees with containment has distinct bins. -/
theorem distinct_of_agrees {p : Lookup} (h : p.Agrees)
    (hinc : ∀ c ∈ p.bins, ∀ e ∈ c.extents, e.isIncreasing = true) :
    p.bins.Pairwise fun c d => (c == d) = false := by
  rw [List.pairwise_iff_getElem]
  intro i j hi hj hij
  by_contra hbeq
  have hmem := List.getElem_mem hi
  obtain ⟨x, hlen, hcx, hdx⟩ :=
    Bin.meets_of_beq (hinc _ hmem) (Bool.eq_true_of_not_eq_false hbeq)
  have hlen : p.axisCount ≤ x.length := (hlen.trans (h.axisCount_eq _ hmem)).ge
  exact hij.ne (h.eq_of_contains x i j _ _ hlen (List.getElem?_eq_getElem hi)
    (List.getElem?_eq_getElem hj) hcx hdx)

/-- The edges on an axis of a grid are not checked: there is a row on the range of the axis if and
only if they increase. The extents of the bins increase if and only if there are rows on all ranges,
and then the bins are distinct and no point lies in two of them. -/
theorem grid_increasing {b : Binning} (h : ofGrid policy ranges labels = .ok b)
    (rowPolicy : InputPolicy) (label : String) :
    (∀ range ∈ ranges, (∃ row,
        ofLinear rowPolicy range.start range.stop range.count label = .ok row) ↔
      ∃ edges, Edges.linear range.start range.stop range.count = .ok edges ∧
        edges.Pairwise (· < ·)) ∧
    ((∀ range ∈ ranges, ∃ row,
        ofLinear rowPolicy range.start range.stop range.count label = .ok row) ↔
      ∀ c ∈ b.bins, ∀ e ∈ c.extents, e.low < e.high) ∧
    ((∀ c ∈ b.bins, ∀ e ∈ c.extents, e.low < e.high) →
      (b.bins.Pairwise fun c d => (c == d) = false) ∧
      ∀ (x : List Float) (i j : Nat) (c d : Bin), b.axisCount ≤ x.length →
        b.bins[i]? = some c → b.bins[j]? = some d → c.contains x = true → d.contains x = true →
        i = j) := by
  have hwf := wellFormed_ofGrid h
  obtain ⟨-, axes, strides, haxes, hnum, rfl⟩ := ofGrid_eq_ok h
  have hextents := forall_extents_grid_iff haxes
  refine ⟨fun range hrange => ?_, ?_, fun hinc => ?_⟩
  · obtain ⟨axis, -, haxis⟩ := exists_mem_of_forall₂ haxes hrange
    rw [exists_ofLinear_iff haxis]
    obtain ⟨-, -, edges, hedges, rfl⟩ := AxisRange.axis_eq_ok.mp haxis
    constructor
    · intro hpairwise
      exact ⟨edges, hedges, hpairwise⟩
    · rintro ⟨edges', hedges', hpairwise⟩
      obtain rfl := Except.ok.inj (hedges.symm.trans hedges')
      exact hpairwise
  · rw [forall_exists_ofLinear_iff haxes]
    exact hextents.symm
  · have hagrees := hwf.agrees (hasIncreasingGrids_grid (hextents.mp hinc))
    exact ⟨distinct_of_agrees hagrees fun c hc e he => Extent.isIncreasing_iff.mpr (hinc c hc e he),
      hagrees.eq_of_contains⟩

/-- A grid with increasing edges: its bins are distinct. -/
theorem grid_increasing_pair :
    ∃ b, ofGrid .strict [⟨0.0, 2.0, 2⟩] ["x"] = .ok b ∧
      b.bins.Pairwise fun c d => (c == d) = false := by
  obtain ⟨b, hb⟩ : ∃ b, ofGrid .strict [⟨0.0, 2.0, 2⟩] ["x"] = .ok b := ⟨_, rfl⟩
  obtain ⟨-, -, hdistinct⟩ := grid_increasing hb .strict "x"
  have hinc : ∀ c ∈ b.bins, ∀ e ∈ c.extents, e.low < e.high := by
    obtain rfl := Except.ok.inj hb
    decide
  exact ⟨b, hb, (hdistinct hinc).1⟩

/-- Between two neighbouring numbers there are no edges for four bins. The row is refused, but the
grid is built, with two equal bins that are empty. -/
theorem grid_not_increasing :
    ofLinear .strict 1.0 1.0000000000000002 4 "x" = .error (.edgesNotIncreasing 1 1.0 1.0) ∧
    ∃ b, ofGrid .strict [⟨1.0, 1.0000000000000002, 4⟩] ["x"] = .ok b ∧
      (∃ c ∈ b.bins, ∃ e ∈ c.extents, ¬e.low < e.high) ∧
      ¬b.bins.Pairwise fun c d => (c == d) = false := by
  refine ⟨rfl, ?_⟩
  obtain ⟨b, hb⟩ : ∃ b, ofGrid .strict [⟨1.0, 1.0000000000000002, 4⟩] ["x"] = .ok b := ⟨_, rfl⟩
  refine ⟨b, hb, ?_⟩
  obtain rfl := Except.ok.inj hb
  decide

end BoxBinning.Binning
