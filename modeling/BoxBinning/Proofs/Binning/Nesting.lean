import BoxBinning.Proofs.Binning.Labels
import BoxBinning.Proofs.Binning.Lookups

/-!
# Products in products

A product among the parts of a product may be replaced by its own parts: `Binning.product_group`
says that both are built or refused together, and that bins, labels and answers are the same. For
the bins this is `combinations_group`. For the answers it holds of lookups of any kind
(`Lookup.combined_group`): the first answer that is not a bin comes first in either order, and the
indices that are found are digits of the same number.
-/

namespace BoxBinning

open MixedRadix

namespace Lookup

variable {ps ls ms rs : List Lookup} {x : List Float} {ds ss ts us : List BinIndex}
  {left middle right : List Answer} {short short' : List Float → Answer}

/-! ### Answers in groups -/

theorem results_append (ps qs : List Lookup) (x : List Float) :
    results (ps ++ qs) x = results ps x ++ results qs (x.drop (ps.map axisCount).sum) := by
  induction ps generalizing x with
  | nil => rfl
  | cons p ps ih =>
    rw [List.cons_append, results_cons, ih, results_cons, List.drop_drop, List.map_cons,
      List.sum_cons, List.cons_append]

/-- Coordinates beyond those of the lookups do not matter. -/
theorem results_take (ps : List Lookup) (x : List Float) :
    results ps (x.take (ps.map axisCount).sum) = results ps x := by
  induction ps generalizing x with
  | nil => rfl
  | cons p ps ih =>
    have hpiece : (x.take (p.axisCount + (ps.map axisCount).sum)).take p.axisCount =
        x.take p.axisCount := by
      rw [List.take_take, Nat.min_eq_left (Nat.le_add_right _ _)]
    have hrest : (x.take (p.axisCount + (ps.map axisCount).sum)).drop p.axisCount =
        (x.drop p.axisCount).take (ps.map axisCount).sum := by
      rw [List.drop_take, Nat.add_sub_cancel_left]
    rw [List.map_cons, List.sum_cons, results_cons, results_cons, hpiece, hrest, ih]

/-- If bins are found for all pieces, their indices are digits. -/
theorem forall₂_of_results_map (hb : ∀ p ∈ ps, p.Bounded) (hr : results ps x = ds.map found) :
    List.Forall₂ (· < ·) (ds.map UInt32.toNat) (ps.map fun p => p.bins.length) := by
  have hlen : ds.length = (ps.map fun p => p.bins.length).length := by
    rw [← List.length_map found, ← hr, length_results, List.length_map]
  have hdigits := forall₂_of_results_eq hb hr
  rwa [hlen, List.take_length] at hdigits

/-- Answers may be combined in groups: the first one that is not a bin decides in any case, and the
indices that are found have the same number. -/
theorem combine_group (hencode : ∀ dl dm dr : List BinIndex, left = dl.map found →
      middle = dm.map found → right = dr.map found →
      encode ss (dl ++ encode ts dm :: dr) = encode us (dl ++ (dm ++ dr))) :
    combine ss (left ++ combine ts middle :: right) = combine us (left ++ (middle ++ right)) := by
  rcases exists_first_not_found left with ⟨dl, rfl⟩ | ⟨dl, r, rest, rfl, hr⟩
  · rcases exists_first_not_found middle with ⟨dm, rfl⟩ | ⟨dm, r, rest, rfl, hr⟩
    · rcases exists_first_not_found right with ⟨dr, rfl⟩ | ⟨dr, r, rest, rfl, hr⟩
      · have houter : dl.map found ++ found (encode ts dm) :: dr.map found =
            (dl ++ encode ts dm :: dr).map found := by simp
        rw [combine_map_found, houter, combine_map_found, ← List.map_append, ← List.map_append,
          combine_map_found, hencode dl dm dr rfl rfl rfl]
      · have houter : dl.map found ++ found (encode ts dm) :: (dr.map found ++ r :: rest) =
            (dl ++ encode ts dm :: dr).map found ++ r :: rest := by simp
        have hflat : dl.map found ++ (dm.map found ++ (dr.map found ++ r :: rest)) =
            (dl ++ (dm ++ dr)).map found ++ r :: rest := by simp
        rw [combine_map_found, houter, hflat, combine_of_ne_found hr, combine_of_ne_found hr]
    · -- the group answers what its first answer that is not a bin says
      have hflat : dl.map found ++ (dm.map found ++ r :: rest ++ right) =
          (dl ++ dm).map found ++ r :: (rest ++ right) := by simp
      rw [combine_of_ne_found hr, hflat, combine_of_ne_found hr, combine_of_ne_found hr]
  · rw [List.append_assoc, List.append_assoc, List.cons_append, List.cons_append,
      combine_of_ne_found hr, combine_of_ne_found hr]

/-! ### Combinations in groups -/

@[simp] theorem axisCount_combined :
    (combined short ts ms).axisCount = (ms.map axisCount).sum := rfl

@[simp] theorem length_bins_combined :
    (combined short ts ms).bins.length = (ms.map fun p => p.bins.length).prod := by
  show (Binning.combinations (ms.map bins)).length = _
  rw [Binning.length_combinations, List.map_map]
  rfl

theorem find_combined (short : List Float → Answer) (ts : List BinIndex) (ms : List Lookup)
    (x : List Float) : (combined short ts ms).find x =
      if x.length < (ms.map axisCount).sum then short x else combine ts (results ms x) := rfl

/-- With enough coordinates, a combination among the lookups answers by what it combines. -/
theorem results_group (hlen : ((ls ++ (ms ++ rs)).map axisCount).sum ≤ x.length) :
    results (ls ++ combined short ts ms :: rs) x =
      results ls x ++ combine ts (results ms (x.drop (ls.map axisCount).sum)) ::
        results rs ((x.drop (ls.map axisCount).sum).drop (ms.map axisCount).sum) := by
  rw [List.map_append, List.map_append, List.sum_append, List.sum_append] at hlen
  have hpiece : ¬((x.drop (ls.map axisCount).sum).take (ms.map axisCount).sum).length <
      (ms.map axisCount).sum := by
    rw [List.length_take, List.length_drop]
    omega
  rw [results_append, results_cons, axisCount_combined, find_combined, if_neg hpiece, results_take]

/-- A combination of lookups one of which is itself a combination is the combination of all of
them. -/
theorem combined_group (hb : ∀ p ∈ ls ++ (ms ++ rs), p.Bounded)
    (houter : IsNumbering ss ((ls ++ combined short' ts ms :: rs).map fun p => p.bins.length))
    (hinner : IsNumbering ts (ms.map fun p => p.bins.length))
    (hflat : IsNumbering us ((ls ++ (ms ++ rs)).map fun p => p.bins.length)) :
    combined short ss (ls ++ combined short' ts ms :: rs) =
      combined short us (ls ++ (ms ++ rs)) := by
  have hsum : ((ls ++ combined short' ts ms :: rs).map axisCount).sum =
      ((ls ++ (ms ++ rs)).map axisCount).sum := by simp
  have hbins : Binning.combinations ((ls ++ combined short' ts ms :: rs).map bins) =
      Binning.combinations ((ls ++ (ms ++ rs)).map bins) := by
    rw [List.map_append, List.map_cons, List.map_append, List.map_append]
    exact Binning.combinations_group _ _ _
  have hfind : (combined short ss (ls ++ combined short' ts ms :: rs)).find =
      (combined short us (ls ++ (ms ++ rs))).find := by
    funext x
    rw [find_combined, find_combined, hsum]
    split_ifs with hlen
    · rfl
    rw [List.map_append, List.map_cons, length_bins_combined] at houter
    rw [List.map_append, List.map_append] at hflat
    rw [results_group (not_lt.mp hlen), results_append, results_append]
    apply combine_group
    intro dl dm dr hdl hdm hdr
    have hls : ∀ p ∈ ls, p.Bounded := fun p hp => hb p (List.mem_append_left _ hp)
    have hms : ∀ p ∈ ms, p.Bounded := fun p hp =>
      hb p (List.mem_append_right _ (List.mem_append_left _ hp))
    have hrs : ∀ p ∈ rs, p.Bounded := fun p hp =>
      hb p (List.mem_append_right _ (List.mem_append_right _ hp))
    exact encode_group houter hinner hflat (forall₂_of_results_map hls hdl)
      (forall₂_of_results_map hms hdm) (forall₂_of_results_map hrs hdr)
  show Lookup.mk _ _ _ = Lookup.mk _ _ _
  rw [Lookup.mk.injEq]
  exact ⟨hsum, hbins, hfind⟩

end Lookup

namespace Binning

open Lookup

variable {left middle right parts : List Binning} {inner outer flat policy : InputPolicy}
  {m b c : Binning}

/-! ### Products in products -/

/-- The lookup in a product combines those in the parts. -/
theorem lookup_ofParts (hparts : ∀ part ∈ parts, part.WellFormed)
    (h : ofParts policy parts = .ok b) : ∃ strides,
      IsNumbering strides ((parts.map lookup).map fun p => p.bins.length) ∧
      b.lookup = combined (fun x => .error (.axisCountMismatch (parts.map axisCount).sum x.length))
        strides (parts.map lookup) := by
  have hproduct := wellFormed_ofParts hparts h
  obtain ⟨-, strides, hnum, rfl⟩ := ofParts_eq_ok h
  refine ⟨strides, ?_, lookup_product hproduct⟩
  rwa [List.map_map]

/-- Parts can be combined in groups if they can be combined at all: a group has at most as many bins
as the whole. -/
theorem exists_ofParts_group (hne : middle ≠ []) :
    (∃ m b, ofParts inner middle = .ok m ∧ ofParts outer (left ++ m :: right) = .ok b) ↔
      ∃ c, ofParts flat (left ++ (middle ++ right)) = .ok c := by
  have hprod : ∀ m, ofParts inner middle = .ok m → ((left ++ m :: right).map binCount).prod =
      ((left ++ (middle ++ right)).map binCount).prod := by
    intro m hm
    simp [binCount_ofParts hm]
  have hpos : ∀ m, ofParts inner middle = .ok m →
      ((∀ n ∈ (left ++ m :: right).map binCount, 0 < n) ↔
        ∀ n ∈ (left ++ (middle ++ right)).map binCount, 0 < n) := by
    intro m hm
    have hmiddle := (exists_ofParts_iff.mp ⟨m, hm⟩).2.1
    have hm' : 0 < m.binCount := by
      rw [binCount_ofParts hm]
      exact prod_pos hmiddle
    simp only [List.map_append, List.map_cons, List.forall_mem_append, List.forall_mem_cons]
    rw [and_iff_right hm', and_iff_right hmiddle]
  constructor
  · rintro ⟨m, b, hm, hb⟩
    obtain ⟨-, hcounts, hlt⟩ := exists_ofParts_iff.mp ⟨b, hb⟩
    exact exists_ofParts_iff.mpr ⟨by simp [hne], (hpos m hm).mp hcounts, hprod m hm ▸ hlt⟩
  · intro hflat
    obtain ⟨-, hcounts, hlt⟩ := exists_ofParts_iff.mp hflat
    have hmiddle : ∀ n ∈ middle.map binCount, 0 < n := fun n hn => hcounts n (by simp_all)
    have hle : (middle.map binCount).prod ≤ ((left ++ (middle ++ right)).map binCount).prod := by
      apply Nat.le_of_dvd (prod_pos hcounts)
      rw [List.map_append, List.map_append, List.prod_append, List.prod_append]
      exact (dvd_mul_right _ _).mul_left _
    obtain ⟨m, hm⟩ := exists_ofParts_iff.mpr ⟨hne, hmiddle, hle.trans_lt hlt⟩
    obtain ⟨b, hb⟩ : ∃ b, ofParts outer (left ++ m :: right) = .ok b :=
      exists_ofParts_iff.mpr ⟨by simp, (hpos m hm).mpr hcounts, (hprod m hm).trans_lt hlt⟩
    exact ⟨m, b, hm, hb⟩

theorem forall_mem_group {P : Binning → Prop} (h : ∀ part ∈ left ++ (middle ++ right), P part)
    (hm : P m) : ∀ part ∈ left ++ m :: right, P part := by
  simp only [List.forall_mem_append, List.forall_mem_cons] at h ⊢
  exact ⟨h.1, hm, h.2.2⟩

theorem lookup_ofParts_group (hparts : ∀ part ∈ left ++ (middle ++ right), part.WellFormed)
    (hm : ofParts inner middle = .ok m) (hb : ofParts outer (left ++ m :: right) = .ok b)
    (hc : ofParts flat (left ++ (middle ++ right)) = .ok c) : b.lookup = c.lookup := by
  have hmiddle : ∀ part ∈ middle, part.WellFormed := fun part hpart => hparts part (by simp [hpart])
  have hwf : m.WellFormed := wellFormed_ofParts hmiddle hm
  obtain ⟨ts, hts, hinner⟩ := lookup_ofParts hmiddle hm
  obtain ⟨ss, hss, houter⟩ := lookup_ofParts (forall_mem_group hparts hwf) hb
  obtain ⟨us, hus, hflat⟩ := lookup_ofParts hparts hc
  have hsum : ((left ++ m :: right).map axisCount).sum =
      ((left ++ (middle ++ right)).map axisCount).sum := by
    simp [axisCount_ofParts hmiddle hm]
  have hgroups : (left ++ m :: right).map lookup =
      left.map lookup ++ m.lookup :: right.map lookup := by simp
  have hall : (left ++ (middle ++ right)).map lookup =
      left.map lookup ++ (middle.map lookup ++ right.map lookup) := by simp
  have hbounded : ∀ p ∈ (left ++ (middle ++ right)).map lookup, p.Bounded :=
    List.forall_mem_map.mpr fun part hpart => (hparts part hpart).bounded
  rw [hgroups, hinner] at hss
  rw [hall] at hus hbounded
  rw [houter, hflat, hsum, hgroups, hall, hinner]
  exact combined_group hbounded hss hts hus

/-- Nesting products does not change anything: some of the parts of a product may be combined to a
product first. -/
theorem product_group
    (hparts : ∀ part ∈ left ++ (middle ++ right), ∃ recipe : Recipe, recipe.build = .ok part)
    (hne : middle ≠ []) (inner outer flat : InputPolicy) :
    ((∃ m b, ofParts inner middle = .ok m ∧ ofParts outer (left ++ m :: right) = .ok b) ↔
      ∃ c, ofParts flat (left ++ (middle ++ right)) = .ok c) ∧
    ∀ m b c, ofParts inner middle = .ok m → ofParts outer (left ++ m :: right) = .ok b →
      ofParts flat (left ++ (middle ++ right)) = .ok c →
      b.bins = c.bins ∧ b.labels = c.labels ∧ ∀ x, b.find x = c.find x := by
  refine ⟨exists_ofParts_group hne, fun m b c hm hb hc => ?_⟩
  have hwf : ∀ part ∈ left ++ (middle ++ right), part.WellFormed := fun part hpart =>
    Recipe.wellFormed_of_build _ (hparts part hpart).choose_spec
  have hlabels : ∀ part ∈ left ++ (middle ++ right), part.axisCount ≤ part.labels.length :=
    fun part hpart => Recipe.axisCount_le_length_labels (hparts part hpart).choose_spec
  have hmiddle : ∀ part ∈ middle, part ∈ left ++ (middle ++ right) := fun part hpart => by
    simp [hpart]
  have hm' : m.WellFormed := wellFormed_ofParts (fun part hpart => hwf part (hmiddle part hpart)) hm
  have hlookup := lookup_ofParts_group hwf hm hb hc
  refine ⟨congrArg Lookup.bins hlookup, ?_, fun x => congrArg (fun p => p.find x) hlookup⟩
  have hinner : m.labels = middle.flatMap labels :=
    labels_ofParts (fun part hpart => hwf part (hmiddle part hpart))
      (fun part hpart => hlabels part (hmiddle part hpart)) hm
  have houter : b.labels = (left ++ m :: right).flatMap labels :=
    labels_ofParts (forall_mem_group hwf hm')
      (forall_mem_group hlabels (axisCount_le_ofParts hm)) hb
  rw [houter, labels_ofParts hwf hlabels hc]
  simp [hinner]

/-- Three bins between twice two: the answer is the number with the digits `1 1 1`. -/
theorem product_group_rows :
    ∃ narrow wide m b c, (Recipe.edges .strict [0.0, 1.0, 3.0] "x").build = .ok narrow ∧
      (Recipe.edges .permissive [0.0, 2.0, 4.0, 8.0] "y").build = .ok wide ∧
      ofParts .permissive [wide, narrow] = .ok m ∧ ofParts .strict [narrow, m] = .ok b ∧
      ofParts .permissive [narrow, wide, narrow] = .ok c ∧ b.bins = c.bins ∧ b.labels = c.labels ∧
      b.find [2.0, 2.5, 1.0] = c.find [2.0, 2.5, 1.0] ∧ c.find [2.0, 2.5, 1.0] = .ok (some 9) := by
  obtain ⟨narrow, hnarrow⟩ : ∃ row, (Recipe.edges .strict [0.0, 1.0, 3.0] "x").build = .ok row :=
    ⟨_, rfl⟩
  obtain ⟨wide, hwide⟩ :
      ∃ row, (Recipe.edges .permissive [0.0, 2.0, 4.0, 8.0] "y").build = .ok row := ⟨_, rfl⟩
  obtain ⟨c, hc, hfound⟩ : ∃ c, ofParts .permissive [narrow, wide, narrow] = .ok c ∧
      c.find [2.0, 2.5, 1.0] = .ok (some 9) := by
    obtain rfl := Except.ok.inj hnarrow
    obtain rfl := Except.ok.inj hwide
    exact ⟨_, rfl, by decide +kernel⟩
  have hparts : ∀ part ∈ [narrow] ++ ([wide, narrow] ++ []),
      ∃ recipe : Recipe, recipe.build = .ok part := by
    simpa using ⟨⟨_, hnarrow⟩, ⟨_, hwide⟩, _, hnarrow⟩
  obtain ⟨hiff, hequal⟩ := product_group hparts (by simp) .permissive .strict .permissive
  obtain ⟨m, b, hm, hb⟩ := hiff.mpr ⟨c, hc⟩
  obtain ⟨hbins, hlabels, hfind⟩ := hequal m b c hm hb hc
  exact ⟨narrow, wide, m, b, c, hnarrow, hwide, hm, hb, hc, hbins, hlabels, hfind _, hfound⟩

end Binning

end BoxBinning
