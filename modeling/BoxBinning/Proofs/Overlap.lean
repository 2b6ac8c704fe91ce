import BoxBinning.Proofs.Projection

/-!
# Overlaps of projections

On any axes of bins with increasing extents the overlap test is exact
(`Bins.findOverlap_exact`): it finds nothing if and only if projections that share a point are
equal, as those of bins in one column are, and otherwise the first two of the distinct projections,
in ascending order, that share one. Equal lists of bins have equal overlaps
(`Bins.rel_firstOverlap`), so that neither the order of the bins nor repetitions have an influence
on the answer.
-/

namespace BoxBinning

section Rel

variable {α β : Type} {R : α → β → Prop} {l : List α} {m : List β} {p : α → Bool} {q : β → Bool}

/-- Related tests find related members first. -/
theorem rel_find? (h : List.Forall₂ R l m) (hpq : ∀ a b, R a b → p a = q b) :
    Option.Rel R (l.find? p) (m.find? q) := by
  induction h with
  | nil => exact .none
  | @cons a b l m hab _ ih =>
    rw [List.find?_cons, List.find?_cons, hpq a b hab]
    cases q b with
    | true => exact .some hab
    | false => exact ih

end Rel

namespace Bins

variable {bins others s t : List Bin} {axes : List Nat} {n : Nat} {a b : Bin}

/-- Equal bins have equal overlaps. -/
theorem rel_firstOverlap (h : List.Forall₂ (fun a b => (a == b) = true) s t) :
    Option.Rel (fun p q => (p == q) = true) (firstOverlap s) (firstOverlap t) := by
  induction h with
  | nil => exact .none
  | @cons a b s t hab hst ih =>
    have hfind := rel_find? hst fun c d hcd => Bin.overlaps_congr hab hcd
    rw [firstOverlap, firstOverlap]
    generalize s.find? a.overlaps = found, t.find? b.overlaps = found' at hfind ⊢
    cases hfind with
    | none => exact ih
    | some hcd => exact .some (Bool.and_eq_true_iff.mpr ⟨hab, hcd⟩)

theorem findOverlap_eq_ok (h : project bins axes = .ok s) :
    findOverlap bins axes = .ok (firstOverlap s) := by
  rw [findOverlap, h]
  rfl

/-- The first two distinct bins that share a point are different bins of the list. -/
theorem IsUnique.of_isFirstPair (hs : IsUnique bins s) (hnum : ∀ b ∈ bins, b.IsNumeric)
    (h : IsFirstPair Bin.Meets s a b) :
    a ∈ bins ∧ b ∈ bins ∧ (a == b) = false ∧ a.Meets b := by
  obtain ⟨i, j, hij, ha, hb, hmeets, -⟩ := h
  have ha' := hs.mem_of_mem a (List.mem_of_getElem? ha)
  have hb' := hs.mem_of_mem b (List.mem_of_getElem? hb)
  obtain ⟨hi, rfl⟩ := List.getElem?_eq_some_iff.mp ha
  obtain ⟨hj, rfl⟩ := List.getElem?_eq_some_iff.mp hb
  have hlt := List.pairwise_iff_getElem.mp hs.ascending i j hi hj hij
  refine ⟨ha', hb', Bool.eq_false_of_not_eq_true fun hbeq => hlt.ne ?_, hmeets⟩
  exact (Bin.beq_iff_key_eq (hnum _ ha') (hnum _ hb')).mp hbeq

section Exact

variable (hcount : ∀ b ∈ bins, b.axisCount = n) (haxes : ∀ i ∈ axes, i < n)
include hcount haxes

/-- Bins that are rearranged or repeated have equal overlaps. -/
theorem findOverlap_congr (hnum : ∀ b ∈ bins, b.IsNumeric) (h : ∀ b, b ∈ others ↔ b ∈ bins) :
    ∃ found found', findOverlap bins axes = .ok found ∧ findOverlap others axes = .ok found' ∧
      (found == found') = true := by
  obtain ⟨s, hproject, hs⟩ := exists_project hcount haxes hnum
  obtain ⟨t, hproject', ht⟩ := exists_project (fun b hb => hcount b ((h b).mp hb)) haxes
    fun b hb => hnum b ((h b).mp hb)
  have hmem : ∀ p, p ∈ others.map (·.onAxes (listed axes n)) ↔
      p ∈ bins.map (·.onAxes (listed axes n)) := fun p => by
    simp only [List.mem_map, h]
  have hprojections : ∀ p ∈ bins.map (·.onAxes (listed axes n)), p.IsNumeric :=
    forall_isNumeric_onAxes hnum
  have hequal := hs.forall₂_beq (ht.of_mem_iff hmem) hprojections hprojections fun k => Iff.rfl
  refine ⟨_, _, findOverlap_eq_ok hproject, findOverlap_eq_ok hproject', ?_⟩
  have hrel := rel_firstOverlap hequal
  generalize firstOverlap s = found, firstOverlap t = found' at hrel
  cases hrel with
  | none => rfl
  | some hpq => exact hpq

/-- The overlap test is exact on any axes. It finds nothing if and only if all projections that
share a point are equal, and otherwise the first two of the distinct projections that share one.
The answer is the same for bins that are rearranged or repeated. -/
theorem findOverlap_exact (hinc : ∀ b ∈ bins, ∀ e ∈ b.extents, e.low < e.high) :
    ∃ projections s found, bins.mapM (·.project (listed axes n)) = .ok projections ∧
      (axes = [] → projections = bins) ∧
      project bins axes = .ok s ∧ IsUnique projections s ∧
      findOverlap bins axes = .ok found ∧ hasOverlaps bins axes = .ok found.isSome ∧
      (found = none ↔ ∀ p ∈ projections, ∀ q ∈ projections, p.Meets q → (p == q) = true) ∧
      (∀ p q, found = some (p, q) ↔ IsFirstPair Bin.Meets s p q) ∧
      (∀ p q, found = some (p, q) →
        p ∈ projections ∧ q ∈ projections ∧ (p == q) = false ∧ p.Meets q) ∧
      ∀ others, (∀ b, b ∈ others ↔ b ∈ bins) →
        ∃ found', findOverlap others axes = .ok found' ∧ (found == found') = true := by
  rw [← forall_isIncreasing_iff] at hinc
  have hnum : ∀ b ∈ bins, b.IsNumeric := fun b hb => Bin.isNumeric_of_isIncreasing (hinc b hb)
  obtain ⟨s, hproject, hs⟩ := exists_project hcount haxes hnum
  have hfound := findOverlap_eq_ok hproject
  have hnum' : ∀ p ∈ bins.map (·.onAxes (listed axes n)), p.IsNumeric :=
    forall_isNumeric_onAxes hnum
  have hcount' := forall_axisCount_onAxes hcount haxes
  have hcounts : ∀ p ∈ s, p.axisCount = (listed axes n).length := fun p hp =>
    hcount' p (hs.mem_of_mem p hp)
  have hincs : ∀ p ∈ s, ∀ e ∈ p.extents, e.isIncreasing = true := fun p hp =>
    forall_isIncreasing_onAxes hinc p (hs.mem_of_mem p hp)
  have hpair : ∀ p q, firstOverlap s = some (p, q) ↔ IsFirstPair Bin.Meets s p q := fun p q =>
    firstOverlap_eq_some_iff_meets hcounts hincs
  refine ⟨_, s, firstOverlap s, mapM_project_eq_ok ?_, ?_, hproject, hs, hfound, ?_, ?_, hpair, ?_,
    ?_⟩
  · exact fun b hb i hi => (lt_of_mem_listed haxes i hi).trans_eq (hcount b hb).symm
  · rintro rfl
    exact map_onAxes_listed_nil hcount
  · rw [hasOverlaps, hfound]
    rfl
  · rw [firstOverlap_eq_none, pairwise_overlaps_iff hcounts hincs,
      hs.pairwise_not_meets_iff hcount' hnum']
  · intro p q hpq
    exact hs.of_isFirstPair hnum' ((hpair p q).mp hpq)
  · intro others hothers
    obtain ⟨_, found', hfirst, hfound', hequal⟩ := findOverlap_congr hcount haxes hnum hothers
    obtain rfl := Except.ok.inj (hfound.symm.trans hfirst)
    exact ⟨found', hfound', hequal⟩

end Exact

/-- Three boxes, two of which have the same projection on the first axis; the third one overlaps
it there only. -/
theorem findOverlap_exact_shadow :
    ∃ p q, findOverlap [⟨[⟨1.0, 3.0⟩, ⟨1.0, 2.0⟩]⟩, ⟨[⟨0.0, 2.0⟩, ⟨-0.0, 1.0⟩]⟩,
        ⟨[⟨-0.0, 2.0⟩, ⟨5.0, 6.0⟩]⟩] [0] = .ok (some (p, q)) ∧
      (p == q) = false ∧ p.Meets q ∧
      hasOverlaps [⟨[⟨1.0, 3.0⟩, ⟨1.0, 2.0⟩]⟩, ⟨[⟨0.0, 2.0⟩, ⟨-0.0, 1.0⟩]⟩,
        ⟨[⟨-0.0, 2.0⟩, ⟨5.0, 6.0⟩]⟩] [0] = .ok true := by
  have hcount : ∀ b ∈ [Bin.mk [⟨1.0, 3.0⟩, ⟨1.0, 2.0⟩], ⟨[⟨0.0, 2.0⟩, ⟨-0.0, 1.0⟩]⟩,
      ⟨[⟨-0.0, 2.0⟩, ⟨5.0, 6.0⟩]⟩], b.axisCount = 2 := by decide
  have haxes : ∀ i ∈ [0], i < 2 := by decide
  obtain ⟨projections, s, found, hprojections, -, -, -, hfound, hoverlaps, hnone, -, hpair, -⟩ :=
    findOverlap_exact hcount haxes (by decide)
  obtain rfl : [⟨[⟨1.0, 3.0⟩]⟩, ⟨[⟨0.0, 2.0⟩]⟩, ⟨[⟨-0.0, 2.0⟩]⟩] = projections :=
    Except.ok.inj hprojections
  cases found with
  | none =>
    -- the first two projections share a point, but they are not equal
    have hmeets : Bin.Meets ⟨[⟨1.0, 3.0⟩]⟩ ⟨[⟨0.0, 2.0⟩]⟩ := ⟨[1.5], rfl, rfl, rfl⟩
    have hequal := hnone.mp rfl _ List.mem_cons_self _
      (List.mem_cons_of_mem _ List.mem_cons_self) hmeets
    exact absurd hequal (by decide)
  | some pair =>
    obtain ⟨-, -, hne, hmeets⟩ := hpair pair.1 pair.2 rfl
    exact ⟨pair.1, pair.2, hfound, hne, hmeets, hoverlaps⟩

end Bins

end BoxBinning
