import BoxBinning.Proofs.Canonical

/-!
# Ascending lists of bins

Bins that ascend strictly are their own canonical list (`Bins.isInOrder_of_pairwise`), so their
positions in the list are those in the canonical list. The bins between increasing edges are such a
list (`Edges.pairwise_key_bins`). Numeric bins ascend if and only if they have equally many axes and
ascending keys (`Bins.pairwise_compare?_iff`).
-/

namespace BoxBinning

open Binary64

namespace Bins

variable {bins : List Bin} {n : Nat}

/-- The list is its own canonical list. -/
structure IsInOrder (bins : List Bin) : Prop where
  /-- The bins strictly ascend, last axis first. -/
  ascending : bins.Pairwise fun a b => a.compare? b = some .lt
  /-- Sorting and dropping repetitions change nothing. -/
  unique_eq : unique bins = .ok bins
  /-- Neither does projecting on all axes. -/
  project_eq : project bins [] = .ok bins

theorem isUnique_self (h : bins.Pairwise fun a b => a.key < b.key) : IsUnique bins bins :=
  ⟨fun _ hb => hb, fun b hb => ⟨b, hb, rfl⟩, h⟩

/-- Bins that can be compared have equally many axes. -/
theorem exists_axisCount_of_pairwise {o : Ordering}
    (h : bins.Pairwise fun a b => a.compare? b = some o) : ∃ n, ∀ b ∈ bins, b.axisCount = n := by
  cases bins with
  | nil => exact ⟨0, List.forall_mem_nil _⟩
  | cons a rest =>
    refine ⟨a.axisCount, List.forall_mem_cons.mpr ⟨rfl, fun b hb => ?_⟩⟩
    have hab := (List.pairwise_cons.mp h).1 b hb
    unfold Bin.compare? at hab
    split_ifs at hab with hcount
    exact hcount.symm

theorem pairwise_compare?_iff (hnum : ∀ b ∈ bins, b.IsNumeric) :
    (bins.Pairwise fun a b => a.compare? b = some .lt) ↔
      (∃ n, ∀ b ∈ bins, b.axisCount = n) ∧ bins.Pairwise fun a b => a.key < b.key := by
  constructor
  · intro h
    obtain ⟨n, hcount⟩ := exists_axisCount_of_pairwise h
    refine ⟨⟨n, hcount⟩, h.imp_of_mem fun {a b} ha hb hab => ?_⟩
    have hsame : a.axisCount = b.axisCount := (hcount a ha).trans (hcount b hb).symm
    rw [Bin.compare?, if_pos hsame, Option.some.injEq] at hab
    exact (Bin.order_compares hsame (hnum a ha) (hnum b hb)).eq_lt.mp hab
  · rintro ⟨⟨n, hcount⟩, h⟩
    exact (isUnique_self h).pairwise_compare? hnum hcount

/-- An ascending list is its own canonical list. -/
theorem isInOrder_of_pairwise (hnum : ∀ b ∈ bins, b.IsNumeric)
    (h : bins.Pairwise fun a b => a.compare? b = some .lt) : IsInOrder bins := by
  obtain ⟨⟨n, hcount⟩, hkeys⟩ := (pairwise_compare?_iff hnum).mp h
  obtain ⟨s, hs, hunique⟩ := exists_unique hcount hnum
  rw [(isUnique_self hkeys).eq_of_isUnique hunique] at hs
  exact ⟨h, hs, hs⟩

end Bins

namespace Edges

variable {edges : List Float}

theorem isNumeric_of_mem_bins (h : edges.Pairwise (· < ·)) : ∀ b ∈ bins edges, b.IsNumeric := by
  refine List.forall_mem_map.mpr fun c hc => Bin.isNumeric_of_isIncreasing ?_
  exact List.forall_mem_singleton.mpr (pairwise_iff_forall_cells.mp h c hc)

/-- The cells between increasing edges ascend. -/
theorem pairwise_key_cells (h : edges.Pairwise (· < ·)) :
    (cells edges).Pairwise fun c d => c.key < d.key := by
  refine List.pairwise_iff_getElem.mpr fun i j hi hj hij => ?_
  have hc := List.getElem?_eq_getElem hi
  have hd := List.getElem?_eq_getElem hj
  have hlow : ordinal (cells edges)[i].low < ordinal (cells edges)[j].low :=
    (lt_iff.mp (low_lt_high h hc)).2.2.trans_le (high_le_low h hc hd hij)
  exact Prod.Lex.toLex_lt_toLex.mpr (.inl hlow)

theorem pairwise_key_bins (h : edges.Pairwise (· < ·)) :
    (bins edges).Pairwise fun a b => a.key < b.key := by
  refine List.pairwise_map.mpr ((pairwise_key_cells h).imp fun hlt => ?_)
  exact List.cons_lt_cons_iff.mpr (.inl hlt)

end Edges

end BoxBinning
