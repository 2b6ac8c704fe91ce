import BoxBinning.Binning.Build
import BoxBinning.Proofs.Combinations
import BoxBinning.Proofs.Partition

/-!
# What can be built

A row and an axis of a grid on the same range have the same edges
(`Binning.AxisRange.axis_eq_ok`), but only a row insists that they increase
(`Binning.ofLinear_eq_ok`). Whether axes or parts can be combined depends on their counts alone: a
grid (`Binning.exists_ofGrid_iff`) and a product (`Binning.exists_ofParts_iff`) are refused if there
are no cells or too many of them.
-/

namespace BoxBinning.Binning

open MixedRadix

variable {policy : InputPolicy} {start stop : Float} {count : Nat} {range : AxisRange}
  {ranges : List AxisRange} {axis : UniformAxis} {axes : List UniformAxis} {label : String}
  {labels : List String} {edges : List Float} {bins : List Bin} {layout : Layout}
  {parts : List Binning} {b : Binning}

/-! ### Checks and layouts -/

theorem layout_ofBins_eq_ok : Layout.ofBins labels bins policy = .ok layout ↔
    bins.length < binLimit ∧
      layout = ⟨Layout.padLabels labels (Bins.axisCount bins), bins, policy⟩ := by
  unfold Layout.ofBins
  split_ifs with hlt
  · rw [and_iff_right hlt, Except.ok.injEq, eq_comm]
  · exact iff_of_false nofun fun h => hlt h.1

theorem requireIncreasingRange_eq_ok :
    Edges.requireIncreasingRange start stop = .ok () ↔ start < stop := by
  unfold Edges.requireIncreasingRange
  split_ifs with h
  · simp [h]
  · simp [h]

theorem requireBinCount_eq_ok : requireBinCount count = .ok () ↔ 0 < count ∧ count < binLimit := by
  unfold requireBinCount
  split_ifs with h1 h2
  · simp [h1]
  · simp [h2, Nat.pos_of_ne_zero h1]
  · simp [h2]

/-! ### Rows and axes -/

/-- All edges between two ends are computed, and then the last one is replaced by the upper end. -/
theorem linear_of_ok (h : Edges.linear start stop count = .ok edges) :
    start < stop ∧ edges = ((List.range (count + 1)).map fun i =>
      start + Binary64.ofCount i * ((stop - start) / Binary64.ofCount count)).set count stop := by
  obtain ⟨⟨⟩, hrange, h⟩ := bind_eq_ok.mp h
  obtain ⟨es, hes, h⟩ := bind_eq_ok.mp h
  unfold Edges.uniform at hes
  split_ifs at hes
  obtain rfl := Except.ok.inj hes
  exact ⟨requireIncreasingRange_eq_ok.mp hrange, (Except.ok.inj h).symm⟩

theorem length_linear (h : Edges.linear start stop count = .ok edges) :
    edges.length = count + 1 := by
  obtain ⟨-, rfl⟩ := linear_of_ok h
  simp

theorem AxisRange.axis_eq_ok : range.axis = .ok axis ↔
    range.start < range.stop ∧ (0 < range.count ∧ range.count < binLimit) ∧
      ∃ edges, Edges.linear range.start range.stop range.count = .ok edges ∧
        axis = UniformAxis.ofEdges range.start range.stop edges := by
  unfold AxisRange.axis
  constructor
  · intro h
    obtain ⟨⟨⟩, hincreasing, h⟩ := bind_eq_ok.mp h
    obtain ⟨⟨⟩, hcount, h⟩ := bind_eq_ok.mp h
    obtain ⟨edges, hedges, h⟩ := bind_eq_ok.mp h
    have haxis := Except.ok.inj h
    exact ⟨requireIncreasingRange_eq_ok.mp hincreasing, requireBinCount_eq_ok.mp hcount, edges,
      hedges, haxis.symm⟩
  · rintro ⟨hincreasing, hcount, edges, hedges, rfl⟩
    rw [requireIncreasingRange_eq_ok.mpr hincreasing, requireBinCount_eq_ok.mpr hcount, hedges]
    rfl

/-- An axis has as many cells as were asked for. -/
theorem AxisRange.length_axisBins (h : range.axis = .ok axis) :
    (axisBins axis).length = range.count := by
  obtain ⟨-, -, edges, hedges, rfl⟩ := axis_eq_ok.mp h
  have hlen := length_linear hedges
  simp [axisBins, UniformAxis.ofEdges, hlen]

theorem axisCount_axisBins (h : 0 < (axisBins axis).length) :
    Bins.axisCount (axisBins axis) = 1 :=
  Bins.axisCount_eq_of_forall h Edges.axisCount_of_mem_bins

/-- A row is an axis whose edges strictly increase. -/
theorem ofLinear_eq_ok :
    ofLinear policy range.start range.stop range.count label = .ok b ↔
      ∃ axis, range.axis = .ok axis ∧ axis.edges.toList.Pairwise (· < ·) ∧
        b = linear ⟨[label], axisBins axis, policy⟩ axis := by
  have hlinear : ofLinear policy range.start range.stop range.count label = (do
      let axis ← range.axis
      let bins ← Edges.toBins axis.edges.toList
      let layout ← Layout.ofBins [label] bins policy
      return linear layout axis) := by
    simp [ofLinear, AxisRange.axis, UniformAxis.ofEdges]
  have hlabel : ∀ axis : UniformAxis, 0 < (axisBins axis).length →
      Layout.padLabels [label] (Bins.axisCount (axisBins axis)) = [label] := by
    intro axis hpos
    rw [axisCount_axisBins hpos]
    rfl
  rw [hlinear]
  simp only [bind_eq_ok, Edges.toBins_eq_ok, layout_ofBins_eq_ok]
  constructor
  · rintro ⟨axis, haxis, bins, ⟨htwo, hinc, rfl⟩, layout, ⟨hlt, rfl⟩, h⟩
    have hpos : 0 < (axisBins axis).length := by
      rw [axisBins, Edges.length_bins]
      omega
    refine ⟨axis, haxis, hinc, ?_⟩
    rw [← Except.ok.inj h, ← axisBins, hlabel axis hpos]
  · rintro ⟨axis, haxis, hinc, rfl⟩
    have hcount := (AxisRange.axis_eq_ok.mp haxis).2.1
    have hlen := AxisRange.length_axisBins haxis
    have htwo : 2 ≤ axis.edges.toList.length := by
      rw [axisBins, Edges.length_bins] at hlen
      omega
    refine ⟨axis, haxis, axisBins axis, ⟨htwo, hinc, rfl⟩, _, ⟨by omega, rfl⟩, ?_⟩
    rw [hlabel axis (by omega)]
    rfl

/-- A row is refused for its edges only if they do not increase. -/
theorem exists_ofLinear_iff (h : range.axis = .ok axis) :
    (∃ row, ofLinear policy range.start range.stop range.count label = .ok row) ↔
      axis.edges.toList.Pairwise (· < ·) := by
  constructor
  · rintro ⟨row, hrow⟩
    obtain ⟨axis', haxis, hinc, -⟩ := ofLinear_eq_ok.mp hrow
    obtain rfl := Except.ok.inj (h.symm.trans haxis)
    exact hinc
  · intro hinc
    exact ⟨_, ofLinear_eq_ok.mpr ⟨axis, h, hinc, rfl⟩⟩

/-! ### Grids and products -/

theorem map_length_axisBins
    (h : List.Forall₂ (fun range axis => range.axis = .ok axis) ranges axes) :
    (axes.map fun axis => (axisBins axis).length) = ranges.map AxisRange.count := by
  induction h with
  | nil => rfl
  | cons haxis _ ih => rw [List.map_cons, List.map_cons, ih, AxisRange.length_axisBins haxis]

theorem count_pos_of_forall₂
    (h : List.Forall₂ (fun range axis => range.axis = .ok axis) ranges axes) :
    ∀ n ∈ ranges.map AxisRange.count, 0 < n := by
  refine List.forall_mem_map.mpr fun range hrange => ?_
  obtain ⟨axis, -, haxis⟩ := exists_mem_of_forall₂ h hrange
  exact (AxisRange.axis_eq_ok.mp haxis).2.1.1

/-- A grid has the strides of its counts and the combinations of the cells on its axes. -/
theorem ofGrid_eq_ok (h : ofGrid policy ranges labels = .ok b) :
    ranges ≠ [] ∧ ∃ axes strides,
      List.Forall₂ (fun range axis => range.axis = .ok axis) ranges axes ∧
      IsNumbering strides (ranges.map AxisRange.count) ∧
      b = grid ⟨Layout.padLabels labels (Bins.axisCount (combinations (axes.map axisBins))),
        combinations (axes.map axisBins), policy⟩ axes strides := by
  by_cases hranges : ranges.isEmpty = true
  · rw [ofGrid, if_pos hranges] at h
    cases h
  · rw [ofGrid, if_neg hranges] at h
    obtain ⟨axes, haxes, h⟩ := bind_eq_ok.mp h
    obtain ⟨⟨strides, cells⟩, hstrides, h⟩ := bind_eq_ok.mp h
    obtain ⟨layout, hlayout, h⟩ := bind_eq_ok.mp h
    have haxes := mapM_eq_ok_iff.mp haxes
    have hpos := count_pos_of_forall₂ haxes
    obtain ⟨hnum, rfl⟩ := isNumbering_of_strides hpos hstrides
    simp only [hnum.decode_eq_digits] at hlayout
    rw [map_gridBin_eq_combinations hpos (List.map_map.trans (map_length_axisBins haxes))]
      at hlayout
    obtain ⟨-, rfl⟩ := layout_ofBins_eq_ok.mp hlayout
    exact ⟨by simpa using hranges, axes, strides, haxes, hnum, (Except.ok.inj h).symm⟩

/-- Axes are combined unless there are none or too many cells. -/
theorem exists_ofGrid_iff : (∃ b, ofGrid policy ranges labels = .ok b) ↔
    ranges ≠ [] ∧ (∃ axes, List.Forall₂ (fun range axis => range.axis = .ok axis) ranges axes) ∧
      (ranges.map AxisRange.count).prod < binLimit := by
  constructor
  · rintro ⟨b, h⟩
    obtain ⟨hne, axes, strides, haxes, hnum, -⟩ := ofGrid_eq_ok h
    exact ⟨hne, ⟨axes, haxes⟩, hnum.prod_lt⟩
  · rintro ⟨hne, ⟨axes, haxes⟩, hlt⟩
    obtain ⟨strides, hnum⟩ := exists_isNumbering_iff.mpr ⟨count_pos_of_forall₂ haxes, hlt⟩
    have hranges : ¬ranges.isEmpty = true := by simpa using hne
    rw [ofGrid, if_neg hranges]
    refine exists_bind_eq_ok.mpr ⟨axes, mapM_eq_ok_iff.mpr haxes, ?_⟩
    refine exists_bind_eq_ok.mpr ⟨_, hnum.strides_eq, ?_⟩
    exact exists_bind_eq_ok.mpr ⟨_, layout_ofBins_eq_ok.mpr ⟨by simpa using hlt, rfl⟩, _, rfl⟩

/-- A product has the strides of its counts and the combinations of the bins of its parts. -/
theorem ofParts_eq_ok {parts : List Binning} (h : ofParts policy parts = .ok b) :
    parts ≠ [] ∧ ∃ strides, IsNumbering strides (parts.map binCount) ∧
      b = product ⟨Layout.padLabels (parts.flatMap Binning.labels)
        (Bins.axisCount (combinations (parts.map Binning.bins))),
        combinations (parts.map Binning.bins), policy⟩ parts strides := by
  by_cases hne : parts.isEmpty = true
  · rw [ofParts, if_pos hne] at h
    cases h
  by_cases hzero : (parts.any fun part => part.binCount = 0) = true
  · rw [ofParts, if_neg hne, if_pos hzero] at h
    cases h
  · rw [ofParts, if_neg hne, if_neg hzero] at h
    obtain ⟨⟨strides, cells⟩, hstrides, h⟩ := bind_eq_ok.mp h
    obtain ⟨layout, hlayout, h⟩ := bind_eq_ok.mp h
    obtain ⟨-, rfl⟩ := layout_ofBins_eq_ok.mp hlayout
    have hpos : ∀ n ∈ parts.map binCount, 0 < n := by
      simpa [Nat.pos_iff_ne_zero] using hzero
    exact ⟨by simpa using hne, strides, (isNumbering_of_strides hpos hstrides).1,
      (Except.ok.inj h).symm⟩

theorem bins_ofParts {parts : List Binning} (h : ofParts policy parts = .ok b) :
    b.bins = combinations (parts.map Binning.bins) := by
  obtain ⟨-, strides, -, rfl⟩ := ofParts_eq_ok h
  rfl

theorem binCount_ofParts {parts : List Binning} (h : ofParts policy parts = .ok b) :
    b.binCount = (parts.map binCount).prod := by
  rw [binCount, bins_ofParts h, length_combinations, List.map_map]
  rfl

/-- Parts are combined unless there are none, an empty one or too many bins. -/
theorem exists_ofParts_iff : (∃ b, ofParts policy parts = .ok b) ↔
    parts ≠ [] ∧ (∀ n ∈ parts.map binCount, 0 < n) ∧ (parts.map binCount).prod < binLimit := by
  constructor
  · rintro ⟨b, h⟩
    obtain ⟨hne, strides, hnum, -⟩ := ofParts_eq_ok h
    exact ⟨hne, hnum.pos, hnum.prod_lt⟩
  · rintro ⟨hne, hpos, hlt⟩
    obtain ⟨strides, hnum⟩ := exists_isNumbering_iff.mpr ⟨hpos, hlt⟩
    have hparts : ¬parts.isEmpty = true := by simpa using hne
    have hany : ¬(parts.any fun part => part.binCount = 0) = true := by
      simpa [Nat.pos_iff_ne_zero] using hpos
    have hlen : (combinations (parts.map bins)).length < binLimit := by
      rw [length_combinations, List.map_map]
      exact hlt
    rw [ofParts, if_neg hparts, if_neg hany]
    refine exists_bind_eq_ok.mpr ⟨_, hnum.strides_eq, ?_⟩
    exact exists_bind_eq_ok.mpr ⟨_, layout_ofBins_eq_ok.mpr ⟨hlen, rfl⟩, _, rfl⟩

end BoxBinning.Binning
