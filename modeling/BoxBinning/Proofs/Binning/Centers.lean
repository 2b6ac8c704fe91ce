import BoxBinning.Bins.Contiguity
import BoxBinning.Proofs.Binary64.Middle
import BoxBinning.Proofs.Binning.Grid

/-!
# Centers of bins

The center of an extent lies in it unless the sum of the ends is too large for a double, or the ends
are neighbours and their middle is rounded to the upper one (`Extent.contains_center_iff`). A
binning of boxes or of contiguous bins finds a bin at its center under the same condition
(`Binning.centers_exact`).
-/

namespace BoxBinning

open Binary64 Lookup

namespace Extent

variable {e : Extent}

/-- The sum of the ends does not overflow, and there is a number between them or the lower one is at
an even place, to which the middle of two neighbours is rounded. -/
def HasInnerCenter (e : Extent) : Prop :=
  (e.high + e.low).isFinite = true ∧
    ¬(ordinal e.high = ordinal e.low + 1 ∧ Even (ordinal e.high))

instance decidableHasInnerCenter (e : Extent) : Decidable e.HasInnerCenter :=
  inferInstanceAs (Decidable (_ ∧ ¬(_ ∧ _)))

section Center

variable (hfinite : e.IsFinite) (hinc : e.low < e.high)

include hfinite

/-- Without overflow the center is half the sum of the ends. -/
theorem amount_center (hsum : (e.high + e.low).isFinite = true) : e.center.isNaN = false ∧
    amount e.center = middle (amountAt (ordinal e.low) + amountAt (ordinal e.high)) := by
  obtain ⟨hcenter, hamount⟩ := half_add hfinite.2 hfinite.1 hsum
  refine ⟨(isFinite_iff.mp hcenter).1, ?_⟩
  rw [← amount_eq, ← amount_eq, add_comm]
  exact hamount

/-- An infinite number lies in no extent with finite ends. -/
theorem contains_eq_false_of_isInf {v : Float} (hv : v.isInf = true) : e.contains v = false := by
  rw [Bool.eq_false_iff, ne_eq, contains_iff, le_iff_amount, lt_iff_amount]
  rintro ⟨⟨-, -, hlow⟩, -, -, hhigh⟩
  have hlimit := abs_amount_of_isInf hv
  have hbelow := (abs_lt.mp (isFinite_iff_amount.mp hfinite.1).2).1
  have habove := (abs_lt.mp (isFinite_iff_amount.mp hfinite.2).2).2
  rcases abs_cases (amount v) with ⟨habs, -⟩ | ⟨habs, -⟩
  · omega
  · omega

include hinc

/-- Without overflow the center lies between the ends. -/
theorem low_le_center_le_high (hsum : (e.high + e.low).isFinite = true) :
    e.low ≤ e.center ∧ e.center ≤ e.high := by
  obtain ⟨hlow, hhigh, hlt⟩ := lt_iff.mp hinc
  obtain ⟨hcenter, hamount⟩ := amount_center hfinite hsum
  rw [le_iff_amount, le_iff_amount, hamount, amount_eq, amount_eq]
  exact ⟨⟨hlow, hcenter, le_middle hlt⟩, hcenter, hhigh, middle_le hlt⟩

/-- When the center lies in the extent. -/
theorem contains_center_iff : e.contains e.center = true ↔ e.HasInnerCenter := by
  by_cases hsum : (e.high + e.low).isFinite = true
  · obtain ⟨-, hhigh, hlt⟩ := lt_iff.mp hinc
    obtain ⟨hcenter, hamount⟩ := amount_center hfinite hsum
    have hbelow : e.center < e.high ↔
        ¬(ordinal e.high = ordinal e.low + 1 ∧ Even (ordinal e.high)) := by
      rw [← middle_lt_iff hlt, lt_iff_amount, hamount, amount_eq e.high]
      exact ⟨fun h => h.2.2, fun h => ⟨hcenter, hhigh, h⟩⟩
    rw [contains_iff, hbelow, HasInnerCenter]
    exact and_congr_left fun _ =>
      iff_of_true (low_le_center_le_high hfinite hinc hsum).1 hsum
  · have hcenter : e.center.isInf = true := isInf_half_add hfinite.2 hfinite.1 hsum
    rw [contains_eq_false_of_isInf hfinite hcenter]
    exact iff_of_false Bool.false_ne_true fun h => hsum h.1

end Center

end Extent

/-! ### Bins -/

namespace Bin

variable {c : Bin}

/-- The center of a bin lies in it if and only if this is so on every axis. -/
theorem contains_center_iff :
    c.contains c.center = true ↔ ∀ e ∈ c.extents, e.contains e.center = true := by
  rw [contains_iff]
  constructor
  · intro h e he
    obtain ⟨k, hk⟩ := List.mem_iff_getElem?.mp he
    exact h k e e.center hk (by rw [center, List.getElem?_map, hk, Option.map_some])
  · intro h k e v he hv
    rw [center, List.getElem?_map, he, Option.map_some] at hv
    obtain rfl := Option.some.inj hv
    exact h e (List.mem_of_getElem? he)

theorem length_center : c.center.length = c.axisCount := List.length_map _

end Bin

namespace Binning

variable {policy : InputPolicy} {edges : List Float} {label : String} {bins : List Bin}
  {labels : List String} {b : Binning} {c : Bin} {i : Nat}

/-- A binning of bins with points that answers for all ordinary numbers. -/
structure IsSearchable (b : Binning) : Prop where
  /-- The parts of the binning fit together. -/
  wellFormed : b.WellFormed
  /-- All extents have points. -/
  increasing : ∀ c ∈ b.bins, ∀ e ∈ c.extents, e.low < e.high
  /-- Ordinary coordinates are no error. -/
  exists_answer : ∀ x : List Float, b.axisCount ≤ x.length → (∀ v ∈ x, isBinnable v = true) →
    ∃ r, b.find x = .ok r

theorem isSearchable_ofEdges (h : ofEdges policy edges label = .ok b) : b.IsSearchable := by
  have hwf := wellFormed_ofEdges h
  obtain ⟨bins, hbins, h⟩ := bind_eq_ok.mp h
  obtain ⟨layout, hlayout, h⟩ := bind_eq_ok.mp h
  obtain rfl := Except.ok.inj h
  have row := isRow_of_toBins hbins hlayout
  refine ⟨hwf, fun c hc => ?_, fun x hlen hx => ?_⟩
  · exact Edges.forall_bins_iff.mpr row.increasing c (row.bins_eq ▸ hc)
  · have hone : 1 ≤ x.length := (axisCount_row row).symm.trans_le hlen
    obtain ⟨v, rest, rfl⟩ := List.exists_cons_of_length_pos hone
    refine ⟨(Cells.search (Edges.cells edges).toArray v).map UInt32.ofNat, ?_⟩
    rw [find_contiguous, findOnAxis, if_pos (hx v List.mem_cons_self)]

theorem isSearchable_ofBins (h : ofBins policy bins labels = .ok b) : b.IsSearchable := by
  have hwf := wellFormed_ofBins h
  obtain ⟨⟨⟩, hpartition, h⟩ := bind_eq_ok.mp h
  obtain ⟨layout, hlayout, h⟩ := bind_eq_ok.mp h
  obtain rfl := Except.ok.inj h
  have hbins : layout.bins = bins := congrArg Layout.bins (layout_ofBins_eq_ok.mp hlayout).2
  have partition := Bins.isPartition_of_requirePartition hpartition
  refine ⟨hwf, fun c hc e he => ?_, fun x hlen _ => ⟨(ColumnIndex.ofBins bins).find x, ?_⟩⟩
  · exact Extent.isIncreasing_iff.mp (partition.isIncreasing c (hbins ▸ hc) e he)
  · show (do requireCoordinates layout.axisCount x; return (ColumnIndex.ofBins bins).find x) = _
    have hlen : layout.axisCount ≤ x.length := hlen
    rw [requireCoordinates_eq_ok.mpr hlen]
    rfl

/-- A bin is found at its center if and only if the center lies in it. -/
theorem IsSearchable.find_center_iff (h : b.IsSearchable) (hi : b.bins[i]? = some c)
    (hx : ∀ v ∈ c.center, isBinnable v = true) :
    (∃ j : BinIndex, j.toNat = i ∧ b.find c.center = .ok (some j)) ↔
      c.contains c.center = true := by
  have hcount : c.axisCount = b.axisCount :=
    h.wellFormed.axisCount_of_mem c (List.mem_of_getElem? hi)
  have hlen : b.axisCount ≤ c.center.length := by rw [Bin.length_center, hcount]
  exact (h.wellFormed.agrees (h.wellFormed.hasIncreasingGrids h.increasing)).exists_found_iff
    hlen hx (h.exists_answer _ hlen hx) hi

/-- Centers of contiguous bins or of boxes with finite ends. A center lies in its extent if and
only if the sum of the ends does not overflow and the ends are not neighbours of which the upper one
is at an even place; without overflow it is at least not outside the ends. If all coordinates are
ordinary numbers, the bin is found at its center if and only if all its extents are of this kind. -/
theorem centers_exact
    (h : ofEdges policy edges label = .ok b ∨ ofBins policy bins labels = .ok b)
    (hfinite : ∀ c ∈ b.bins, c.IsFinite) (hi : b.bins[i]? = some c) :
    (Bins.centers b.bins)[i]? = some c.center ∧
    (∀ e ∈ c.extents, (e.contains e.center = true ↔ e.HasInnerCenter) ∧
      ((e.high + e.low).isFinite = true → e.low ≤ e.center ∧ e.center ≤ e.high)) ∧
    ((∀ v ∈ c.center, isBinnable v = true) →
      ((∃ j : BinIndex, j.toNat = i ∧ b.find c.center = .ok (some j)) ↔
        ∀ e ∈ c.extents, e.HasInnerCenter)) := by
  have hsearchable : b.IsSearchable := by
    rcases h with h | h
    · exact isSearchable_ofEdges h
    · exact isSearchable_ofBins h
  have hc := List.mem_of_getElem? hi
  have hcenter (e : Extent) (he : e ∈ c.extents) : e.contains e.center = true ↔ e.HasInnerCenter :=
    Extent.contains_center_iff (hfinite c hc e he) (hsearchable.increasing c hc e he)
  refine ⟨?_, fun e he => ⟨hcenter e he, ?_⟩, fun hx => ?_⟩
  · rw [Bins.centers, List.getElem?_map, hi, Option.map_some]
  · exact Extent.low_le_center_le_high (hfinite c hc e he) (hsearchable.increasing c hc e he)
  · rw [hsearchable.find_center_iff hi hx, Bin.contains_center_iff]
    exact forall₂_congr hcenter

/-- Neighbours of which the lower one is at an even place: it is the center and finds its bin. -/
theorem centers_exact_neighbours :
    ∃ b, ofEdges .strict [Float.ofBits 0x3ff0000000000002, Float.ofBits 0x3ff0000000000003] "" =
        .ok b ∧
      Bins.centers b.bins = [[Float.ofBits 0x3ff0000000000002]] ∧
      ∃ j : BinIndex, j.toNat = 0 ∧ b.find [Float.ofBits 0x3ff0000000000002] = .ok (some j) := by
  obtain ⟨b, hb⟩ : ∃ b, ofEdges .strict [Float.ofBits 0x3ff0000000000002,
    Float.ofBits 0x3ff0000000000003] "" = .ok b := ⟨_, rfl⟩
  have hbins : b.bins =
      [⟨[⟨Float.ofBits 0x3ff0000000000002, Float.ofBits 0x3ff0000000000003⟩]⟩] := by
    obtain rfl := Except.ok.inj hb
    rfl
  have hcenter : Bin.center
      ⟨[⟨Float.ofBits 0x3ff0000000000002, Float.ofBits 0x3ff0000000000003⟩]⟩ =
        [Float.ofBits 0x3ff0000000000002] := by decide
  have hbuilt : _ ∨ ofBins .strict [] [] = .ok b := .inl hb
  obtain ⟨-, -, hfind⟩ := centers_exact (i := 0) hbuilt (by rw [hbins]; decide) (by rw [hbins]; rfl)
  rw [hcenter] at hfind
  refine ⟨b, hb, ?_, (hfind (by decide)).mpr (by decide)⟩
  rw [hbins, Bins.centers, List.map_singleton, hcenter]

/-- Half the sum of two neighbours of which the upper one is at an even place is rounded to the
upper one. The sum of `2 ^ 1023` and half as much again is no double, and half of infinity is their
center. -/
theorem centers_outside :
    (∃ b, ofEdges .permissive
        [Float.ofBits 0x3ff0000000000001, Float.ofBits 0x3ff0000000000002] "" = .ok b ∧
      (∀ c ∈ b.bins, c.IsFinite) ∧
      Bins.centers b.bins = [[Float.ofBits 0x3ff0000000000002]] ∧
      isBinnable (Float.ofBits 0x3ff0000000000002) = true ∧
      b.find [Float.ofBits 0x3ff0000000000002] = .ok none) ∧
    ∃ b, ofEdges .permissive
        [Float.ofBits 0x7fe0000000000000, Float.ofBits 0x7fe8000000000000] "" = .ok b ∧
      (∀ c ∈ b.bins, c.IsFinite) ∧ Bins.centers b.bins = [[1.0 / 0.0]] := by
  constructor
  · obtain ⟨b, hb⟩ : ∃ b, ofEdges .permissive [Float.ofBits 0x3ff0000000000001,
      Float.ofBits 0x3ff0000000000002] "" = .ok b := ⟨_, rfl⟩
    refine ⟨b, hb, ?_⟩
    obtain rfl := Except.ok.inj hb
    decide +kernel
  · obtain ⟨b, hb⟩ : ∃ b, ofEdges .permissive [Float.ofBits 0x7fe0000000000000,
      Float.ofBits 0x7fe8000000000000] "" = .ok b := ⟨_, rfl⟩
    refine ⟨b, hb, ?_⟩
    obtain rfl := Except.ok.inj hb
    decide +kernel

end Binning

end BoxBinning
