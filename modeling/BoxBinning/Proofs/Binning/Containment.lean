import BoxBinning.Proofs.Binning.Lookups

/-!
# Lookup agrees with containment

`Recipe.find_agrees` is the contract of all lookups: the bin that is found contains the point, no
bin contains a point of ordinary numbers that has no bin, and no point lies in two bins. It holds of
every binning that can be built, provided that the edges of its grids strictly increase, also of
those in parts of parts (`Binning.leaves`). The formulas then make no difference: on no axis does
the bin depend on the first guess. The proof is by induction on `Binning.WellFormed`.
-/

namespace BoxBinning

open Binary64 MixedRadix Lookup

namespace Binning

mutual

/-- The binnings that a binning is made of, down to parts that are no products. -/
def leaves : Binning → List Binning
  | product _ parts _ => leavesOfParts parts
  | b => [b]

/-- The binnings that several binnings are made of. -/
def leavesOfParts : List Binning → List Binning
  | [] => []
  | part :: parts => leaves part ++ leavesOfParts parts

end

/-- The axes of a grid. -/
def gridAxes : Binning → List UniformAxis
  | grid _ axes _ => axes
  | _ => []

/-- The axes with a formula for the bin. -/
def formulaAxes : Binning → List UniformAxis
  | linear _ axis => [axis]
  | grid _ axes _ => axes
  | logarithmic _ _ axis => [axis]
  | _ => []

theorem mem_leavesOfParts {leaf : Binning} {parts : List Binning} :
    leaf ∈ leavesOfParts parts ↔ ∃ part ∈ parts, leaf ∈ part.leaves := by
  induction parts with
  | nil => simp [leavesOfParts]
  | cons part parts ih => simp [leavesOfParts, ih]

/-- The edges of all grids strictly increase. -/
def HasIncreasingGrids (b : Binning) : Prop :=
  ∀ leaf ∈ b.leaves, ∀ axis ∈ leaf.gridAxes, axis.edges.toList.Pairwise (· < ·)

instance decidableHasIncreasingGrids (b : Binning) : Decidable b.HasIncreasingGrids :=
  inferInstanceAs (Decidable
    (∀ leaf ∈ b.leaves, ∀ axis ∈ leaf.gridAxes, axis.edges.toList.Pairwise (· < ·)))

theorem HasIncreasingGrids.of_mem {layout : Layout} {parts : List Binning}
    {strides : List BinIndex} {part : Binning}
    (h : (product layout parts strides).HasIncreasingGrids) (hpart : part ∈ parts) :
    part.HasIncreasingGrids := by
  intro leaf hleaf
  exact h leaf (mem_leavesOfParts.mpr ⟨part, hpart, hleaf⟩)

/-- A lookup agrees with containment if the edges of all grids strictly increase. -/
theorem WellFormed.agrees {b : Binning} (h : b.WellFormed) (hinc : b.HasIncreasingGrids) :
    b.lookup.Agrees := by
  induction h with
  | linear row => exact agrees_linear row
  | logarithmic row positive => exact agrees_logarithmic row positive
  | contiguous row => exact agrees_contiguous row
  | columns partition length_lt => exact agrees_columns partition length_lt
  | scan partition length_lt => exact agrees_scan partition length_lt
  | @grid layout axes strides ne_nil numbering bins_eq =>
    rw [lookup_grid (.grid ne_nil numbering bins_eq)]
    have haxes : ∀ axis ∈ axes, axis.edges.toList.Pairwise (· < ·) :=
      hinc (.grid layout axes strides) List.mem_cons_self
    have hlookups : ∀ p ∈ axisLookups layout.policy 0 axes, p.Agrees := by
      apply forall_axisLookups
      intro axis haxis n
      have hlt := numbering.lt_of_mem (List.mem_map.mpr ⟨axis, haxis, rfl⟩)
      exact agrees_axisLookup (haxes axis haxis) hlt
    refine agrees_combined (fun x i => reject_ne_found _ _ i) hlookups ?_
    rwa [map_length_axisLookups]
  | @product layout parts strides ne_nil forall_parts numbering bins_eq ih =>
    rw [lookup_product (.product ne_nil forall_parts numbering bins_eq)]
    have hlookups : ∀ p ∈ parts.map lookup, p.Agrees := by
      intro p hp
      obtain ⟨part, hpart, rfl⟩ := List.mem_map.mp hp
      exact ih part hpart (hinc.of_mem hpart)
    refine agrees_combined (fun x i => nofun) hlookups ?_
    rwa [List.map_map]

/-- The edges of all axes with a formula strictly increase if those of all grids do. -/
theorem WellFormed.increasing {b : Binning} (h : b.WellFormed) (hinc : b.HasIncreasingGrids) :
    ∀ leaf ∈ b.leaves, ∀ axis ∈ leaf.formulaAxes, axis.edges.toList.Pairwise (· < ·) := by
  intro leaf hleaf axis haxis
  induction h with
  | linear row =>
    obtain rfl := List.mem_singleton.mp hleaf
    obtain rfl := List.mem_singleton.mp haxis
    exact row.increasing
  | logarithmic row =>
    obtain rfl := List.mem_singleton.mp hleaf
    obtain rfl := List.mem_singleton.mp haxis
    exact row.increasing
  | contiguous =>
    obtain rfl := List.mem_singleton.mp hleaf
    cases haxis
  | columns =>
    obtain rfl := List.mem_singleton.mp hleaf
    cases haxis
  | scan =>
    obtain rfl := List.mem_singleton.mp hleaf
    cases haxis
  | grid =>
    obtain rfl := List.mem_singleton.mp hleaf
    exact hinc _ List.mem_cons_self axis haxis
  | product _ _ _ _ ih =>
    obtain ⟨part, hpart, hleaf⟩ := mem_leavesOfParts.mp hleaf
    exact ih part hpart (hinc.of_mem hpart) hleaf

end Binning

namespace Recipe

/-- The lookup of every binning that can be built agrees with containment, and on no axis does it
matter where a formula suggests to start. -/
theorem find_agrees {recipe : Recipe} {b : Binning} (hbuild : recipe.build = .ok b)
    (hinc : b.HasIncreasingGrids) (x : List Float) :
    (∀ i, b.find x = .ok (some i) → i.toNat < b.binCount ∧ b.axisCount ≤ x.length ∧
      ∃ c, b.bins[i.toNat]? = some c ∧ c.contains x = true) ∧
    (b.axisCount ≤ x.length → (∀ v ∈ x.take b.axisCount, isBinnable v = true) →
      b.find x = .ok none → ∀ c ∈ b.bins, c.contains x = false) ∧
    (b.axisCount ≤ x.length → ∀ (i j : Nat) (c d : Bin), b.bins[i]? = some c →
      b.bins[j]? = some d → c.contains x = true → d.contains x = true → i = j) ∧
    (∀ leaf ∈ b.leaves, ∀ axis ∈ leaf.formulaAxes, ∀ (g : Nat) (u v : Float),
      axis.locateFrom g v = axis.locate u v) := by
  have hwf := wellFormed_of_build recipe hbuild
  have hagrees := hwf.agrees hinc
  refine ⟨?_, hagrees.complete x, ?_, ?_⟩
  · intro i hi
    obtain ⟨hlen, c, hc, hcx⟩ := hagrees.sound x i hi
    exact ⟨(List.getElem?_eq_some_iff.mp hc).1, hlen, c, hc, hcx⟩
  · intro hlen i j c d
    exact hagrees.eq_of_contains x i j c d hlen
  · intro leaf hleaf axis haxis
    exact UniformAxis.locateFrom_eq_locate (hwf.increasing hinc leaf hleaf axis haxis)

/-- A product of a row and a grid, in which a point inside a bin is not missed. -/
theorem find_agrees_product :
    ∃ b, (Recipe.product .strict [.edges .strict [0.0, 1.0, 3.0] "x",
        .grid .permissive [⟨0.0, 2.0, 2⟩] ["y"]]).build = .ok b ∧ b.HasIncreasingGrids ∧
      (∃ c ∈ b.bins, c.contains [2.0, 0.5] = true) ∧ b.find [2.0, 0.5] ≠ .ok none := by
  obtain ⟨b, hb⟩ : ∃ b, (Recipe.product .strict [.edges .strict [0.0, 1.0, 3.0] "x",
      .grid .permissive [⟨0.0, 2.0, 2⟩] ["y"]]).build = .ok b := ⟨_, rfl⟩
  have hevaluated : b.axisCount ≤ 2 ∧ b.HasIncreasingGrids ∧
      (∀ v ∈ [2.0, 0.5].take b.axisCount, isBinnable v = true) ∧
      ∃ c ∈ b.bins, c.contains [2.0, 0.5] = true := by
    obtain rfl := Except.ok.inj hb
    decide
  obtain ⟨hlen, hinc, hx, c, hc, hcx⟩ := hevaluated
  refine ⟨b, hb, hinc, ⟨c, hc, hcx⟩, fun hnone => ?_⟩
  rw [(find_agrees hb hinc [2.0, 0.5]).2.1 hlen hx hnone c hc] at hcx
  cases hcx

end Recipe

end BoxBinning
