import BoxBinning.Proofs.Binning.Grid
import BoxBinning.Proofs.Projection

/-!
# Binnings of projections

The distinct projections of the bins of a binning make a binning if and only if none of them
overlap, and then projecting a point and looking it up gives the projection of the bin that holds
the point (`Binning.lookup_project`). Nothing else can stand against it: the projections have axes,
equally many of them and increasing extents, and there are no more of them than bins.
-/

namespace BoxBinning.Binning

open Lookup

variable {bins : List Bin} {policy : InputPolicy} {labels : List String} {axes : List Nat}
  {x : List Float} {b r : Binning} {c : Bin}

/-- Boxes are refused only if they are no partition, unless there are too many of them. -/
theorem exists_ofBins_iff (hlt : bins.length < binLimit) :
    (∃ r, ofBins policy bins labels = .ok r) ↔ Bins.IsPartition bins := by
  rw [ofBins_eq_map hlt, ← Bins.requirePartition_eq_ok]
  cases Bins.requirePartition bins with
  | error e => exact iff_of_false nofun nofun
  | ok => exact iff_of_true ⟨_, rfl⟩ rfl

theorem bins_ofBins (h : ofBins policy bins labels = .ok r) : r.bins = bins := by
  obtain ⟨⟨⟩, -, h⟩ := bind_eq_ok.mp h
  obtain ⟨layout, hlayout, h⟩ := bind_eq_ok.mp h
  obtain rfl := Except.ok.inj h
  exact congrArg Layout.bins (layout_ofBins_eq_ok.mp hlayout).2

/-- A bin that contains a point is found. -/
theorem find_ofBins (h : ofBins policy bins labels = .ok r) {k : Nat} (hk : bins[k]? = some c)
    (hlen : Bins.axisCount bins ≤ x.length) (hcx : c.contains x = true) :
    r.find x = .ok (some (UInt32.ofNat k)) ∧ (UInt32.ofNat k).toNat = k := by
  obtain ⟨⟨⟩, hpart, h⟩ := bind_eq_ok.mp h
  obtain ⟨layout, hlayout, h⟩ := bind_eq_ok.mp h
  obtain rfl := Except.ok.inj h
  obtain ⟨hlt, hlayout⟩ := layout_ofBins_eq_ok.mp hlayout
  obtain rfl : layout.bins = bins := congrArg Layout.bins hlayout
  have hpart := Bins.isPartition_of_requirePartition hpart
  refine ⟨?_, toNat_ofNat_of_lt hlt (List.getElem?_eq_some_iff.mp hk).1⟩
  rw [find_columns_eq_find_scan layout layout hpart rfl, find_scan hlen,
    (findByScan_eq_some_iff hpart hlen).mpr ⟨k, c, hk, hcx, rfl⟩]

/-- Marginal binnings: the distinct projections of the bins of a binning with increasing extents
make a binning if and only if the overlap test finds nothing. Then the projection of a point that
lies in a bin is found in the projection of that bin. -/
theorem lookup_project {recipe : Recipe} (hbuild : recipe.build = .ok b)
    (hinc : ∀ c ∈ b.bins, ∀ e ∈ c.extents, e.low < e.high) (haxes : ∀ a ∈ axes, a < b.axisCount)
    (policy : InputPolicy) (labels : List String) :
    ∃ s, Bins.project b.bins axes = .ok s ∧
      ((∃ r, ofBins policy s labels = .ok r) ↔ Bins.hasOverlaps b.bins axes = .ok false) ∧
      ∀ r, ofBins policy s labels = .ok r → ∀ x i, b.find x = .ok (some i) →
        ∃ c p j d, b.bins[i.toNat]? = some c ∧
          c.project (listed axes b.axisCount) = .ok p ∧ (axes = [] → p = c) ∧
          r.find (onAxes (listed axes b.axisCount) x) = .ok (some j) ∧
          r.bins[j.toNat]? = some d ∧ (d == p) = true := by
  have hwf := Recipe.wellFormed_of_build recipe hbuild
  have hagrees := hwf.agrees (hwf.hasIncreasingGrids hinc)
  have hcount := hwf.axisCount_of_mem
  have hinc' : ∀ c ∈ b.bins, ∀ e ∈ c.extents, e.isIncreasing = true := fun c hc e he =>
    Extent.isIncreasing_iff.mpr (hinc c hc e he)
  obtain ⟨s, hproject, hs⟩ := Bins.exists_project hcount haxes fun c hc =>
    Bin.isNumeric_of_isIncreasing (hinc' c hc)
  have hlt : s.length < binLimit := by
    have hle := hs.length_le
    rw [List.length_map] at hle
    exact hle.trans_lt hwf.binCount_lt.2
  refine ⟨s, hproject, ?_, fun r hr x i hfind => ?_⟩
  · rw [exists_ofBins_iff hlt,
      Bins.isPartition_project_iff hcount haxes hinc' hs hproject hwf.axisCount_pos
        hwf.bins_ne_nil]
  · obtain ⟨hlen, c, hc, hcx⟩ := hagrees.sound x i hfind
    have hmem := List.mem_of_getElem? hc
    obtain ⟨d, hd, hbeq, hdx⟩ := Bins.exists_mem_project hcount haxes hinc' hs hmem hlen hcx
    obtain ⟨k, hk⟩ := List.mem_iff_getElem?.mp hd
    have hlisted := lt_of_mem_listed haxes
    have hlen' : Bins.axisCount s ≤ (onAxes (listed axes b.axisCount) x).length := by
      rw [length_onAxes fun a ha => (hlisted a ha).trans_le hlen]
      refine (Bins.axisCount_eq_of_forall (List.length_pos_of_mem hd) fun p hp => ?_).le
      exact Bins.forall_axisCount_onAxes hcount haxes p (hs.mem_of_mem p hp)
    obtain ⟨hfound, hj⟩ := find_ofBins hr hk hlen' hdx
    have hbin : r.bins[(UInt32.ofNat k).toNat]? = some d := by rw [hj, bins_ofBins hr, hk]
    have hp := Bin.project_eq_ok fun a ha => (hlisted a ha).trans_eq (hcount c hmem).symm
    refine ⟨c, _, _, d, hc, hp, ?_, hfound, hbin, hbeq⟩
    rintro rfl
    exact Bin.onAxes_listed_nil (hcount c hmem)

/-- Three boxes, two of which have the same projection on the first axis. -/
theorem lookup_project_columns :
    ∃ b s r, (Recipe.bins .strict [⟨[⟨0.0, 2.0⟩, ⟨0.0, 1.0⟩]⟩, ⟨[⟨0.0, 2.0⟩, ⟨1.0, 2.0⟩]⟩,
        ⟨[⟨2.0, 3.0⟩, ⟨0.0, 2.0⟩]⟩] []).build = .ok b ∧
      Bins.project b.bins [0] = .ok s ∧ ofBins .permissive s [] = .ok r ∧
      b.find [2.5, 1.5] = .ok (some 2) ∧ ∃ j d, r.find [2.5] = .ok (some j) ∧
        r.bins[j.toNat]? = some d ∧ (d == ⟨[⟨2.0, 3.0⟩]⟩) = true := by
  have hpartition : Bins.IsPartition [⟨[⟨0.0, 2.0⟩, ⟨0.0, 1.0⟩]⟩, ⟨[⟨0.0, 2.0⟩, ⟨1.0, 2.0⟩]⟩,
      ⟨[⟨2.0, 3.0⟩, ⟨0.0, 2.0⟩]⟩] :=
    (Bins.isPartition_iff_pairwise Nat.two_pos (by decide) (by decide) (by decide)).mpr (by decide)
  obtain ⟨b, hb⟩ : ∃ b, (Recipe.bins .strict _ []).build = .ok b :=
    (exists_ofBins_iff (by decide)).mpr hpartition
  have hbins := bins_ofBins hb
  have hfind := (find_ofBins hb (k := 2) rfl (x := [2.5, 1.5]) (by decide) (by decide)).1
  have hcount : b.axisCount = 2 := congrArg Bins.axisCount hbins
  have haxes : ∀ a ∈ [0], a < b.axisCount := by simp [hcount]
  have hoverlaps : Bins.hasOverlaps b.bins [0] = .ok false := by
    rw [hbins]
    exact (Bins.not_hasOverlaps_iff (n := 2) (by decide) (by decide) (by decide)).mpr (by decide)
  obtain ⟨s, hs, hiff, hlookup⟩ := lookup_project hb (by rw [hbins]; decide) haxes .permissive []
  obtain ⟨r, hr⟩ := hiff.mpr hoverlaps
  obtain ⟨c, p, j, d, hc, hp, -, hj, hd, hbeq⟩ := hlookup r hr _ _ hfind
  refine ⟨b, s, r, hb, hs, hr, hfind, j, d, hj, hd, ?_⟩
  rw [hbins] at hc
  obtain rfl := Option.some.inj hc
  obtain rfl := Except.ok.inj hp
  exact hbeq

end BoxBinning.Binning
