import BoxBinning.Proofs.Binary64.Special
import BoxBinning.Proofs.Binning.Lookups

/-!
# The range of a row

A row that is laid out between two ends covers exactly the numbers between them
(`Binning.range_complete`). Its last edge is the upper end itself. The first edge of a linear row is
computed: it equals the lower end, as zero times a finite width is zero, and with an infinite width
it is not a number and the edges are refused (`Binning.isSpan_linear`). A lookup tests a number
against the outer edges before anything else, so that the edges in between have no influence on
whether there is a bin for it (`Binning.covers_eq_contains`).
-/

namespace BoxBinning

open Binary64

/-- The outer ones of `count + 1` edges equal the ends of a range. -/
structure Edges.IsSpan (start stop : Float) (count : Nat) (edges : List Float) : Prop where
  /-- Every cell has an edge, and the last one another. -/
  length_eq : edges.length = count + 1
  /-- From the first edge to the last one it is the whole range. -/
  exists_ends : ∃ low high, edges[0]? = some low ∧ edges[count]? = some high ∧
    (Extent.mk low high == ⟨start, stop⟩) = true

/-- Bins with one axis that follow each other without a gap from one number to another. -/
structure Bins.Tiles (start stop : Float) (count : Nat) (bins : List Bin) : Prop where
  /-- There are as many bins as were asked for. -/
  length_eq : bins.length = count
  /-- Each bin has one extent. -/
  exists_extent : ∀ b ∈ bins, ∃ e, b = ⟨[e]⟩
  /-- A bin ends where the next one starts. -/
  high_eq_low : ∀ (i : Nat) (c d : Extent), bins[i]? = some ⟨[c]⟩ → bins[i + 1]? = some ⟨[d]⟩ →
    c.high = d.low
  /-- The first bin starts at the lower end. -/
  low_beq_start : ∃ e, bins[0]? = some ⟨[e]⟩ ∧ (e.low == start) = true
  /-- The last bin ends at the upper end. -/
  high_beq_stop : ∃ e, bins[count - 1]? = some ⟨[e]⟩ ∧ (e.high == stop) = true

namespace Binning

variable {policy : InputPolicy} {base : LogBase} {start stop : Float} {count : Nat}
  {edges : List Float} {label : String} {b : Binning} {v : Float}

/-! ### Edges between two ends -/

/-- The first of the edges that are laid out with a width is where they start, if it is a number. -/
theorem add_mul_beq_start {width : Float} (hstart : start.isNaN = false)
    (h : (start + ofCount 0 * width).isNaN = false) :
    (start + ofCount 0 * width == start) = true := by
  have hzero : (ofCount 0 == 0.0) = true := rfl
  exact add_beq_self hstart (mul_beq_zero hzero (isNaN_of_isNaN_add h))

theorem isSpan_linear (h : Edges.linear start stop count = .ok edges) (hcount : 0 < count)
    (hinc : edges.Pairwise (· < ·)) : Edges.IsSpan start stop count edges := by
  have hlength := length_linear h
  obtain ⟨hlt, hedges⟩ := linear_of_ok h
  obtain ⟨hstart, hstop⟩ := isNaN_of_lt hlt
  have hfirst : edges[0]? = some (start + ofCount 0 * ((stop - start) / ofCount count)) := by
    rw [hedges, List.getElem?_set_ne hcount.ne', List.getElem?_map]
    simp
  have hlast : edges[count]? = some stop := by
    rw [hedges, List.getElem?_set_self (by simp)]
  -- the first edge is below the last one, so it is a number
  have hnumber := (isNaN_of_lt (Edges.lt_of_getElem? hinc hfirst hlast hcount)).1
  refine ⟨hlength, _, stop, hfirst, hlast, Extent.beq_iff.mpr ⟨?_, beq_iff.mpr ⟨hstop, hstop, rfl⟩⟩⟩
  exact add_mul_beq_start hstart hnumber

theorem isSpan_logarithmic (h : Edges.logarithmic base start stop count = .ok edges)
    (hcount : 0 < count) : Edges.IsSpan start stop count edges := by
  obtain ⟨base, -, h⟩ := bind_eq_ok.mp h
  obtain ⟨⟨⟩, hrange, h⟩ := bind_eq_ok.mp h
  obtain ⟨⟨⟩, -, hrange⟩ := bind_eq_ok.mp hrange
  obtain ⟨⟨⟩, -, hrange⟩ := bind_eq_ok.mp hrange
  obtain ⟨hstart, hstop⟩ := isNaN_of_lt (requireIncreasingRange_eq_ok.mp hrange)
  obtain rfl := Except.ok.inj h
  refine ⟨by simp, start, stop, by simp, by simp [hcount.ne'], Extent.beq_iff.mpr ?_⟩
  exact ⟨beq_iff.mpr ⟨hstart, hstart, rfl⟩, beq_iff.mpr ⟨hstop, hstop, rfl⟩⟩

/-! ### Bins between two ends -/

theorem getElem?_bins {k : Nat} {c : Extent} : (Edges.bins edges)[k]? = some ⟨[c]⟩ ↔
    edges[k]? = some c.low ∧ edges[k + 1]? = some c.high := by
  rw [← Edges.getElem?_cells, Edges.bins, List.getElem?_map, Option.map_eq_some_iff]
  simp

/-- The bins between the edges of a range tile it. -/
theorem tiles_bins (h : Edges.IsSpan start stop count edges) (hcount : 0 < count) :
    Bins.Tiles start stop count (Edges.bins edges) := by
  have hlength := h.length_eq
  obtain ⟨low, high, hlow, hhigh, hends⟩ := h.exists_ends
  obtain ⟨hstart, hstop⟩ := Extent.beq_iff.mp hends
  constructor
  · rw [Edges.length_bins, hlength, Nat.add_sub_cancel]
  · intro b hb
    obtain ⟨c, -, rfl⟩ := List.mem_map.mp hb
    exact ⟨c, rfl⟩
  · intro i c d hc hd
    have hend := (getElem?_bins.mp hc).2
    have hnext := (getElem?_bins.mp hd).1
    exact Option.some.inj (hend.symm.trans hnext)
  · have hone := List.getElem?_eq_getElem (l := edges) (i := 1) (by omega)
    exact ⟨⟨low, edges[1]⟩, getElem?_bins.mpr ⟨hlow, hone⟩, hstart⟩
  · have hbefore := List.getElem?_eq_getElem (l := edges) (i := count - 1) (by omega)
    refine ⟨⟨edges[count - 1], high⟩, getElem?_bins.mpr ⟨hbefore, ?_⟩, hstop⟩
    rw [Nat.sub_add_cancel hcount]
    exact hhigh

/-! ### Lookups between two ends -/

/-- What lies between the outer edges lies in the range. -/
theorem covers_eq_contains {axis : UniformAxis}
    (h : Edges.IsSpan start stop count axis.edges.toList) :
    axis.covers v = (Extent.mk start stop).contains v := by
  obtain ⟨low, high, hlow, hhigh, hends⟩ := h.exists_ends
  have hlength := h.length_eq
  rw [Array.getElem?_toList] at hlow hhigh
  rw [Array.length_toList] at hlength
  have hback : axis.edges.back? = some high := by
    rw [Array.back?, hlength, Nat.add_sub_cancel, hhigh]
  rw [← Extent.contains_congr hends, UniformAxis.covers, hlow, hback]
  rfl

theorem locate_eq_none_iff {axis : UniformAxis}
    (h : Edges.IsSpan start stop count axis.edges.toList) (u : Float) :
    axis.locate u v = none ↔ ¬(start ≤ v ∧ v < stop) := by
  rw [UniformAxis.locate_eq_locateFrom, UniformAxis.locateFrom_eq_none_iff, covers_eq_contains h,
    ← Bool.not_eq_true, Extent.contains_iff]

/-- A number that is accepted has a bin in the range and none outside. -/
def FindsRange (b : Binning) (accepted : Float → Bool) (start stop : Float) : Prop :=
  ∀ v, accepted v = true →
    ((∃ i, b.find1d v = .ok (some i)) ↔ start ≤ v ∧ v < stop) ∧
    (b.find1d v = .ok none ↔ ¬(start ≤ v ∧ v < stop))

theorem findsRange_of_locate {accepted : Float → Bool} {locate : Float → Option Nat}
    (hfind : ∀ x, b.find x = findOnAxis policy accepted locate x)
    (hlocate : ∀ v, locate v = none ↔ ¬(start ≤ v ∧ v < stop)) :
    b.FindsRange accepted start stop := by
  intro v hv
  have hanswer : b.find1d v = .ok ((locate v).map UInt32.ofNat) := by
    rw [find1d, hfind, findOnAxis, if_pos hv]
  cases hlocated : locate v with
  | none =>
    rw [hlocated] at hanswer
    have hout := (hlocate v).mp hlocated
    refine ⟨iff_of_false ?_ hout, iff_of_true hanswer hout⟩
    rintro ⟨i, hi⟩
    cases hanswer.symm.trans hi
  | some k =>
    rw [hlocated] at hanswer
    have hin : start ≤ v ∧ v < stop := by
      by_contra hout
      cases ((hlocate v).mpr hout).symm.trans hlocated
    refine ⟨iff_of_true ⟨_, hanswer⟩ hin, iff_of_false ?_ (not_not.mpr hin)⟩
    intro hnone
    cases hanswer.symm.trans hnone

/-! ### Rows between two ends -/

theorem range_of_ofLinear (h : ofLinear policy start stop count label = .ok b) :
    Bins.Tiles start stop count b.bins ∧ b.FindsRange isBinnable start stop := by
  obtain ⟨axis, haxis, hinc, rfl⟩ : ∃ axis, AxisRange.axis ⟨start, stop, count⟩ = .ok axis ∧
      axis.edges.toList.Pairwise (· < ·) ∧ b = linear ⟨[label], axisBins axis, policy⟩ axis :=
    ofLinear_eq_ok.mp h
  obtain ⟨-, ⟨hcount, -⟩, edges, hedges, rfl⟩ := AxisRange.axis_eq_ok.mp haxis
  have hspan := isSpan_linear hedges hcount hinc
  exact ⟨tiles_bins hspan hcount,
    findsRange_of_locate (find_linear _ _) fun v => locate_eq_none_iff hspan v⟩

theorem range_of_ofLogarithmic
    (h : ofLogarithmic policy base start stop count label = .ok b) :
    Bins.Tiles start stop count b.bins ∧ b.FindsRange isLoggable start stop := by
  obtain ⟨base, -, h⟩ := bind_eq_ok.mp h
  obtain ⟨⟨⟩, -, h⟩ := bind_eq_ok.mp h
  obtain ⟨⟨⟩, hcount, h⟩ := bind_eq_ok.mp h
  obtain ⟨edges, hedges, h⟩ := bind_eq_ok.mp h
  obtain ⟨bins, hbins, h⟩ := bind_eq_ok.mp h
  obtain ⟨layout, hlayout, h⟩ := bind_eq_ok.mp h
  obtain rfl := Except.ok.inj h
  obtain ⟨hcount, -⟩ := requireBinCount_eq_ok.mp hcount
  have hspan := isSpan_logarithmic hedges hcount
  have row := isRow_of_toBins hbins hlayout
  constructor
  · show Bins.Tiles start stop count layout.bins
    rw [row.bins_eq]
    exact tiles_bins hspan hcount
  · exact findsRange_of_locate (find_logarithmic _ _ _) fun v => locate_eq_none_iff hspan _

/-- A row that is laid out between two ends, evenly or evenly in the logarithm, has the bins that
were asked for and no gap between them, and covers the whole range: under either policy an ordinary
number, which has to be positive for a logarithm, has a bin if and only if it lies in the range. -/
theorem range_complete (policy : InputPolicy) (start stop : Float) (count : Nat) (label : String) :
    (∀ b, ofLinear policy start stop count label = .ok b →
      Bins.Tiles start stop count b.bins ∧ b.FindsRange isBinnable start stop) ∧
    (∀ base b, ofLogarithmic policy base start stop count label = .ok b →
      Bins.Tiles start stop count b.bins ∧ b.FindsRange isLoggable start stop) :=
  ⟨fun _ => range_of_ofLinear, fun _ _ => range_of_ofLogarithmic⟩

/-- Three strict bins: the number before the upper end has a bin, and the end itself has none. -/
theorem range_complete_thirds :
    ∃ b, ofLinear .strict 0.0 1.0 3 "x" = .ok b ∧ b.binCount = 3 ∧
      (∃ i, b.find1d 0.9999999999999999 = .ok (some i)) ∧ b.find1d 1.0 = .ok none := by
  obtain ⟨b, hb⟩ : ∃ b, ofLinear .strict 0.0 1.0 3 "x" = .ok b := ⟨_, rfl⟩
  obtain ⟨htiles, hfind⟩ := (range_complete .strict 0.0 1.0 3 "x").1 b hb
  obtain ⟨hbelow, -⟩ := hfind 0.9999999999999999 (by decide)
  obtain ⟨-, hend⟩ := hfind 1.0 (by decide)
  exact ⟨b, hb, htiles.length_eq, hbelow.mpr (by decide), hend.mpr (by decide)⟩

end Binning

end BoxBinning
