import BoxBinning.Proofs.Binning.Lookups

/-!
# Products number their bins and answers alike

The bins of a product are laid out by `Binning.combinations`, and its lookup adds up the indices
that the parts find. `Binning.product_numbering` says that the two use the same mixed-radix numbers:
the bin at the number of some digits joins the bins that the digits choose in the parts, and the
answer to a point is the number of the indices found for its pieces, or else the first answer of a
part that is not a bin.
-/

namespace BoxBinning

open MixedRadix Lookup

namespace Binning

variable {policy : InputPolicy} {parts : List Binning} {b : Binning} {x : List Float}

/-- Layout and lookup of a product use the same mixed-radix numbers. -/
theorem product_numbering (hparts : ∀ part ∈ parts, ∃ recipe : Recipe, recipe.build = .ok part)
    (h : ofParts policy parts = .ok b) :
    b.binCount = (parts.map binCount).prod ∧
    (∀ digits : List Nat, List.Forall₂ (· < ·) digits (parts.map binCount) →
      ∃ cells, List.zipWith (fun part d => part.bins[d]?) parts digits = cells.map some ∧
        b.bins[number (weights 1 (parts.map binCount)) digits]? = some (Bin.join cells)) ∧
    (∀ x : List Float, (parts.map axisCount).sum ≤ x.length →
      (∀ (ds : List BinIndex) (r : Answer) (rest : List Answer),
        partAnswers parts x = ds.map found ++ r :: rest → (∀ i, r ≠ found i) → b.find x = r) ∧
      (∀ ds : List BinIndex, partAnswers parts x = ds.map found → ∃ i, b.find x = found i ∧
        i.toNat = number (weights 1 (parts.map binCount)) (ds.map UInt32.toNat))) ∧
    (∀ x : List Float, x.length < (parts.map axisCount).sum →
      b.find x = .error (.axisCountMismatch (parts.map axisCount).sum x.length)) := by
  have hwf := fun part hpart => Recipe.wellFormed_of_build _ (hparts part hpart).choose_spec
  have hproduct := wellFormed_ofParts hwf h
  obtain ⟨-, strides, hnum, rfl⟩ := ofParts_eq_ok h
  have hfind := find_product hproduct
  have hlengths : (parts.map bins).map List.length = parts.map binCount := List.map_map
  refine ⟨?_, ?_, fun x hlen => ⟨?_, ?_⟩, ?_⟩
  · exact length_combinations.trans (congrArg List.prod hlengths)
  · intro digits hdigits
    rw [← hlengths] at hdigits ⊢
    obtain ⟨cells, hcells⟩ := exists_cells hdigits
    have hget := getElem?_combinations (by rw [hdigits.length_eq, List.length_map]) hcells
    rw [List.zipWith_map_left] at hcells
    exact ⟨cells, hcells, hget⟩
  · intro ds r rest hr hne
    rw [hfind, if_neg (not_lt.mpr hlen), hr, combine_of_ne_found hne]
  · intro ds hds
    refine ⟨encode strides ds, ?_, hnum.toNat_encode ?_⟩
    · rw [hfind, if_neg (not_lt.mpr hlen), hds, combine_map_found]
    · rw [← results_lookup] at hds
      have hdigits := forall₂_of_results_eq
        (List.forall_mem_map.mpr fun part hpart => (hwf part hpart).bounded) hds
      rwa [List.map_map] at hdigits
  · intro x hlen
    rw [hfind, if_pos hlen]

/-- The square of a row of two cells: four bins, the last of which joins the second cells. -/
theorem product_numbering_square :
    ∃ row b, (Recipe.edges .strict [0.0, 1.0, 3.0] "x").build = .ok row ∧
      ofParts .permissive [row, row] = .ok b ∧ b.binCount = 4 ∧
      (∃ cells, List.zipWith (fun part d => part.bins[d]?) [row, row] [1, 1] = cells.map some ∧
        b.bins[3]? = some (Bin.join cells)) ∧
      b.find [0.5] = .error (.axisCountMismatch 2 1) := by
  obtain ⟨row, hrow⟩ : ∃ row, (Recipe.edges .strict [0.0, 1.0, 3.0] "x").build = .ok row :=
    ⟨_, rfl⟩
  obtain ⟨b, hb⟩ : ∃ b, ofParts .permissive [row, row] = .ok b := by
    obtain rfl := Except.ok.inj hrow
    exact ⟨_, rfl⟩
  have hcounts : row.binCount = 2 ∧ row.axisCount = 1 := by
    obtain rfl := Except.ok.inj hrow
    decide
  obtain ⟨hcount, hbins, -, hshort⟩ := product_numbering
    (by simpa using ⟨_, hrow⟩) hb
  simp only [List.map_cons, List.map_nil, hcounts] at hcount hbins hshort
  exact ⟨row, b, hrow, hb, hcount, hbins [1, 1] (by decide), hshort [0.5] (by decide)⟩

end Binning

end BoxBinning
