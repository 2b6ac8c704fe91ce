import BoxBinning.Proofs.Ascending
import BoxBinning.Proofs.Contiguity

/-!
# Edges along an axis

The bins between increasing edges and the edges along an axis are inverse to each other. The walk
along the distinct extents gives edges if and only if the extents are the cells between them
(`Bins.chainEdges_iff`), and among increasing extents those are the cells between increasing edges.
So `Bins.edgesAlong` gives edges if and only if the extents of the bins are the cells between them,
in whatever order and however often they stand there (`Bins.edgesAlong_inverts_toBins`).
-/

namespace BoxBinning

open Binary64

/-! ### Bins of one extent -/

section Single

variable {es fs : List Extent} {e f : Extent}

theorem single_beq_single (e f : Extent) : ((⟨[e]⟩ : Bin) == ⟨[f]⟩) = (e == f) :=
  Bool.and_true (e == f)

theorem mem_map_single : (⟨[e]⟩ : Bin) ∈ es.map (fun e => ⟨[e]⟩) ↔ e ∈ es := by
  simp

theorem flatMap_extents_single :
    (es.map fun e => (⟨[e]⟩ : Bin)).flatMap Bin.extents = es := by
  rw [List.flatMap_map]
  exact List.flatMap_singleton' es

theorem forall₂_single_iff :
    List.Forall₂ (fun a b => (a == b) = true) (es.map fun e => (⟨[e]⟩ : Bin))
        (fs.map fun e => ⟨[e]⟩) ↔
      List.Forall₂ (fun e f => (e == f) = true) es fs := by
  simp only [List.forall₂_map_left_iff, List.forall₂_map_right_iff, single_beq_single]

end Single

namespace Edges

variable {edges : List Float}

theorem cells_cons_cons (v w : Float) (edges : List Float) :
    cells (v :: w :: edges) = ⟨v, w⟩ :: cells (w :: edges) := rfl

/-- Edges increase if the cells between them are equal to increasing extents. -/
theorem pairwise_of_forall₂_cells {es : List Extent}
    (h : List.Forall₂ (fun c e => (c == e) = true) (cells edges) es)
    (hinc : ∀ e ∈ es, e.isIncreasing = true) : edges.Pairwise (· < ·) := by
  refine pairwise_iff_forall_cells.mpr fun c hc => ?_
  obtain ⟨e, he, hce⟩ := exists_mem_of_forall₂ h hc
  exact (Extent.isIncreasing_congr hce).trans (hinc e he)

end Edges

namespace Bins

variable {bins others s : List Bin} {es : List Extent} {edges vs : List Float} {axis : Nat}
  {v : Float}

/-! ### The walk -/

theorem ne_nil_of_chainEdges (h : chainEdges v es = .ok vs) : vs ≠ [] := by
  rintro rfl
  cases es with
  | nil => cases h
  | cons e es =>
    rw [chainEdges] at h
    split_ifs at h
    cases hrest : chainEdges e.high es <;> rw [hrest] at h <;> cases h

/-- The walk goes on where the first extent ends, provided that this starts at the number. -/
theorem exists_chainEdges_cons {e : Extent} {P : List Float → Prop} :
    (∃ vs, chainEdges v (e :: es) = .ok vs ∧ P vs) ↔
      (e.low == v) = true ∧ ∃ vs, chainEdges e.high es = .ok vs ∧ P (v :: vs) := by
  rw [chainEdges]
  by_cases h : (e.low == v) = true
  · rw [if_pos h, and_iff_right h]
    cases chainEdges e.high es <;> simp [Functor.map, Except.map]
  · rw [if_neg h]
    simp [h]

/-- The walk gives edges that begin at the number it starts with and have the extents as cells, and
it gives some whenever there are such edges. -/
theorem chainEdges_iff {w : Float} {ws : List Float} :
    (∃ vs, chainEdges v es = .ok vs ∧ List.Forall₂ (fun v w => (v == w) = true) vs (w :: ws)) ↔
      (v == w) = true ∧
        List.Forall₂ (fun c e => (c == e) = true) (Edges.cells (w :: ws)) es := by
  induction es generalizing v w ws with
  | nil => cases ws <;> simp [chainEdges, Edges.cells]
  | cons e es ih =>
    rw [exists_chainEdges_cons]
    simp only [List.forall₂_cons]
    cases ws with
    | nil =>
      -- the walk along the other extents gives at least the end of the first one
      simp only [List.forall₂_nil_right_iff]
      constructor
      · rintro ⟨-, vs, hvs, -, rfl⟩
        exact absurd rfl (ne_nil_of_chainEdges hvs)
      · rintro ⟨-, h⟩
        cases h
    | cons x ws =>
      rw [Edges.cells_cons_cons, List.forall₂_cons, Extent.beq_iff]
      constructor
      · rintro ⟨hlow, vs, hvs, hvw, hws⟩
        obtain ⟨hhigh, hcells⟩ := ih.mp ⟨vs, hvs, hws⟩
        refine ⟨hvw, ⟨Binary64.beq_symm (Binary64.beq_trans hlow hvw), ?_⟩, hcells⟩
        exact Binary64.beq_symm hhigh
      · rintro ⟨hvw, ⟨hlow, hhigh⟩, hcells⟩
        obtain ⟨vs, hvs, hws⟩ := ih.mpr ⟨Binary64.beq_symm hhigh, hcells⟩
        exact ⟨Binary64.beq_symm (Binary64.beq_trans hvw hlow), vs, hvs, hvw, hws⟩

/-- Along the cells between increasing edges the walk gives back the edges. -/
theorem chainEdges_cells {rest : List Float} (h : (v :: rest).Pairwise (· < ·)) :
    chainEdges v (Edges.cells (v :: rest)) = .ok (v :: rest) := by
  induction rest generalizing v with
  | nil => rfl
  | cons w rest ih =>
    obtain ⟨hv, hrest⟩ := List.pairwise_cons.mp h
    have hnum := (isNaN_of_lt (hv w List.mem_cons_self)).1
    have hself : (v == v) = true := Binary64.beq_iff.mpr ⟨hnum, hnum, rfl⟩
    rw [Edges.cells_cons_cons, chainEdges, if_pos hself, ih hrest]
    rfl

/-! ### Edges of extents -/

theorem edgesAlong_of_flatMap_eq_nil (hs : project bins [axis] = .ok s)
    (h : s.flatMap Bin.extents = []) : edgesAlong bins axis = .error .noBins := by
  rw [edgesAlong, hs]
  simp only [bind, Except.bind, h]

/-- There are edges if and only if the distinct extents are the cells between them. -/
theorem edgesAlong_iff_forall₂ (hs : project bins [axis] = .ok s) :
    (∃ vs, edgesAlong bins axis = .ok vs ∧
        List.Forall₂ (fun v w => (v == w) = true) vs edges) ↔
      2 ≤ edges.length ∧ List.Forall₂ (fun c e => (c == e) = true) (Edges.cells edges)
        (s.flatMap Bin.extents) := by
  cases hrow : s.flatMap Bin.extents with
  | nil =>
    rw [edgesAlong_of_flatMap_eq_nil hs hrow, List.forall₂_nil_right_iff,
      ← List.length_eq_zero_iff, Edges.length_cells]
    constructor
    · rintro ⟨vs, h, -⟩
      cases h
    · omega
  | cons e rest =>
    rw [edgesAlong_eq hs hrow]
    cases edges with
    | nil =>
      constructor
      · rintro ⟨vs, hvs, h⟩
        exact absurd (List.forall₂_nil_right_iff.mp h) (ne_nil_of_chainEdges hvs)
      · rintro ⟨htwo, -⟩
        cases htwo
    | cons w ws =>
      rw [chainEdges_iff]
      refine and_congr_left fun hcells => ?_
      -- the first cell starts at the first edge
      cases ws with
      | nil => cases hcells
      | cons x ws =>
        obtain ⟨hfirst, -⟩ := List.forall₂_cons.mp hcells
        exact iff_of_true (Binary64.beq_symm (Extent.beq_iff.mp hfirst).1) (Nat.le_add_left 2 _)

/-- The edges have the extents of the bins on the axis as the cells between them. -/
structure HasEdges (bins : List Bin) (axis : Nat) (edges : List Float) : Prop where
  /-- There is a cell. -/
  two_le : 2 ≤ edges.length
  /-- The edges strictly increase. -/
  increasing : edges.Pairwise (· < ·)
  /-- The extent of every bin is a cell. -/
  exists_cell : ∀ e ∈ extentsOn bins axis, ∃ c ∈ Edges.cells edges, (c == e) = true
  /-- Every cell is the extent of a bin. -/
  exists_extent : ∀ c ∈ Edges.cells edges, ∃ e ∈ extentsOn bins axis, (c == e) = true

section Along

variable (hinc : ∀ e ∈ extentsOn bins axis, e.low < e.high)
include hinc

theorem forall_isNumeric_single :
    ∀ b ∈ (extentsOn bins axis).map fun e => (⟨[e]⟩ : Bin), b.IsNumeric := by
  refine List.forall_mem_map.mpr fun e he => List.forall_mem_singleton.mpr ?_
  exact isNaN_of_lt (hinc e he)

/-- The distinct extents are the cells between edges if and only if the cells between the edges are
the extents. -/
theorem forall₂_cells_iff_hasEdges
    (hs : IsUnique ((extentsOn bins axis).map fun e => ⟨[e]⟩) (es.map fun e => ⟨[e]⟩)) :
    2 ≤ edges.length ∧ List.Forall₂ (fun c e => (c == e) = true) (Edges.cells edges) es ↔
      HasEdges bins axis edges := by
  have hmem : ∀ e ∈ es, e ∈ extentsOn bins axis := fun e he =>
    mem_map_single.mp (hs.mem_of_mem _ (mem_map_single.mpr he))
  constructor
  · rintro ⟨htwo, hcells⟩
    refine ⟨htwo, Edges.pairwise_of_forall₂_cells hcells fun e he => ?_, fun e he => ?_,
      fun c hc => ?_⟩
    · exact Extent.isIncreasing_iff.mpr (hinc e (hmem e he))
    · obtain ⟨b, hb, hbe⟩ := hs.exists_beq (forall_isNumeric_single hinc) (mem_map_single.mpr he)
      obtain ⟨f, hf, rfl⟩ := List.mem_map.mp hb
      rw [single_beq_single] at hbe
      obtain ⟨c, hc, hcf⟩ := exists_mem_of_forall₂ hcells.flip hf
      exact ⟨c, hc, Extent.beq_trans hcf hbe⟩
    · obtain ⟨e, he, hce⟩ := exists_mem_of_forall₂ hcells hc
      exact ⟨e, hmem e he, hce⟩
  · intro h
    have hsame : SameBins (Edges.bins edges) ((extentsOn bins axis).map fun e => ⟨[e]⟩) := by
      constructor
      · refine List.forall_mem_map.mpr fun c hc => ?_
        obtain ⟨e, he, hce⟩ := h.exists_extent c hc
        exact ⟨_, mem_map_single.mpr he, (single_beq_single c e).trans hce⟩
      · refine List.forall_mem_map.mpr fun e he => ?_
        obtain ⟨c, hc, hce⟩ := h.exists_cell e he
        exact ⟨_, mem_map_single.mpr hc, (single_beq_single c e).trans hce⟩
    have hnum := Edges.isNumeric_of_mem_bins h.increasing
    exact ⟨h.two_le, forall₂_single_iff.mp
      ((isUnique_self (Edges.pairwise_key_bins h.increasing)).forall₂_beq hs hnum
        (forall_isNumeric_single hinc) (hsame.mem_map_key hnum))⟩

variable (haxis : ∀ b ∈ bins, axis < b.axisCount)
include haxis

/-- Bins can be projected on an axis on which their extents increase. -/
theorem exists_project_single :
    ∃ es : List Extent, project bins [axis] = .ok (es.map fun e => ⟨[e]⟩) ∧
      IsUnique ((extentsOn bins axis).map fun e => ⟨[e]⟩) (es.map fun e => ⟨[e]⟩) := by
  have haxes : ∀ b ∈ bins, ∀ i ∈ [axis], i < b.axisCount := fun b hb =>
    List.forall_mem_singleton.mpr (haxis b hb)
  rw [project_eq_unique_of_ne_nil (List.cons_ne_nil axis []) haxes, map_onAxes_singleton haxis]
  obtain ⟨s, hs, hunique⟩ := exists_unique (n := 1)
    (List.forall_mem_map.mpr fun _ _ => rfl) (forall_isNumeric_single hinc)
  obtain ⟨es, rfl⟩ : s ∈ Set.range (List.map fun e => (⟨[e]⟩ : Bin)) := by
    rw [Set.range_list_map]
    intro b hb
    obtain ⟨e, -, he⟩ := List.mem_map.mp (hunique.mem_of_mem b hb)
    exact ⟨e, he⟩
  exact ⟨es, hs, hunique⟩

/-- Bins have edges along an axis if and only if their extents on it are the cells between them. -/
theorem edgesAlong_iff_hasEdges :
    (∃ vs, edgesAlong bins axis = .ok vs ∧
        List.Forall₂ (fun v w => (v == w) = true) vs edges) ↔ HasEdges bins axis edges := by
  obtain ⟨es, hproject, hs⟩ := exists_project_single hinc haxis
  rw [edgesAlong_iff_forall₂ hproject, flatMap_extents_single, forall₂_cells_iff_hasEdges hinc hs]

theorem forall₂_self_of_edgesAlong (h : edgesAlong bins axis = .ok vs) :
    List.Forall₂ (fun v w => (v == w) = true) vs vs := by
  obtain ⟨es, hproject, hs⟩ := exists_project_single hinc haxis
  cases es with
  | nil =>
    rw [edgesAlong_of_flatMap_eq_nil hproject rfl] at h
    cases h
  | cons e rest =>
    have hnum : ∀ b ∈ (e :: rest).map fun e => (⟨[e]⟩ : Bin), b.IsNumeric := fun b hb =>
      forall_isNumeric_single hinc b (hs.mem_of_mem b hb)
    have hself := edgesAlong_congr hproject hproject
      (List.forall₂_same.mpr fun b hb => (Bin.beq_iff_key_eq (hnum b hb) (hnum b hb)).mpr rfl)
      (List.cons_ne_nil _ _) (List.forall_mem_map.mpr fun _ _ => rfl)
    rw [h] at hself
    cases hself with
    | ok equal => exact equal

/-- The bins between the edges along an axis are the distinct projections on it. -/
theorem toBins_of_edgesAlong (h : edgesAlong bins axis = .ok edges) :
    ∃ row s, Edges.toBins edges = .ok row ∧ project bins [axis] = .ok s ∧
      List.Forall₂ (fun a b => (a == b) = true) row s := by
  obtain ⟨es, hproject, hs⟩ := exists_project_single hinc haxis
  obtain ⟨htwo, hcells⟩ := (edgesAlong_iff_forall₂ hproject).mp
    ⟨edges, h, forall₂_self_of_edgesAlong hinc haxis h⟩
  rw [flatMap_extents_single] at hcells
  have hedges := (forall₂_cells_iff_hasEdges hinc hs).mp ⟨htwo, hcells⟩
  exact ⟨_, _, Edges.toBins_eq_ok.mpr ⟨htwo, hedges.increasing, rfl⟩, hproject,
    forall₂_single_iff.mpr hcells⟩

end Along

theorem extentsOn_bins : extentsOn (Edges.bins edges) 0 = Edges.cells edges := by
  rw [extentsOn, Edges.bins, List.filterMap_map]
  exact List.filterMap_some

/-- Bins between edges have these edges, in whatever order and however often they stand there. -/
theorem edgesAlong_of_toBins {row : List Bin} (hrow : Edges.toBins edges = .ok row)
    (h : ∀ b, b ∈ others ↔ b ∈ row) : edgesAlong others 0 = .ok edges := by
  obtain ⟨htwo, hinc, rfl⟩ := Edges.toBins_eq_ok.mp hrow
  have hextents : ∀ e, e ∈ extentsOn others 0 ↔ e ∈ Edges.cells edges := fun e => by
    simp only [← extentsOn_bins, mem_extentsOn, h]
  have haxis : ∀ b ∈ others, 0 < b.axisCount := fun b hb =>
    (Edges.axisCount_of_mem_bins b ((h b).mp hb)).symm ▸ Nat.one_pos
  have hlt : ∀ e ∈ extentsOn others 0, e.low < e.high := fun e he =>
    Extent.isIncreasing_iff.mp (Edges.pairwise_iff_forall_cells.mp hinc e ((hextents e).mp he))
  obtain ⟨es, hproject, hs⟩ := exists_project_single hlt haxis
  -- the distinct bins are those between the edges themselves, which ascend
  have hbins : es.map (fun e => (⟨[e]⟩ : Bin)) = Edges.bins edges := by
    refine (isUnique_self (Edges.pairwise_key_bins hinc)).eq_of_isUnique (hs.of_mem_iff fun b => ?_)
    simp only [Edges.bins, List.mem_map, hextents]
  rw [hbins] at hproject
  obtain ⟨v, rest, rfl⟩ := List.exists_cons_of_length_pos (Nat.zero_lt_of_lt htwo)
  obtain ⟨w, rest, rfl⟩ := List.exists_cons_of_length_pos (Nat.lt_of_succ_lt_succ htwo)
  rw [edgesAlong_eq hproject Edges.flatMap_extents_bins]
  exact chainEdges_cells hinc

/-- Edges along an axis and bins between edges are inverse to each other. Bins with increasing
extents on an axis have edges along it if and only if their extents are the cells between them, and
the bins between the edges are then the distinct projections on the axis. Bins between edges have
these edges, in whatever order and however often they stand there. -/
theorem edgesAlong_inverts_toBins :
    (∀ bins axis, (∀ b ∈ bins, axis < b.axisCount) →
      (∀ e ∈ extentsOn bins axis, e.low < e.high) →
      (∀ edges, (∃ vs, edgesAlong bins axis = .ok vs ∧
          List.Forall₂ (fun v w => (v == w) = true) vs edges) ↔ HasEdges bins axis edges) ∧
      ∀ edges, edgesAlong bins axis = .ok edges →
        ∃ row s, Edges.toBins edges = .ok row ∧ project bins [axis] = .ok s ∧
          List.Forall₂ (fun a b => (a == b) = true) row s) ∧
    ∀ edges row, Edges.toBins edges = .ok row → ∀ others, (∀ b, b ∈ others ↔ b ∈ row) →
      edgesAlong others 0 = .ok edges := by
  refine ⟨fun bins axis haxis hinc => ⟨fun edges => edgesAlong_iff_hasEdges hinc haxis,
    fun edges => toBins_of_edgesAlong hinc haxis⟩, fun edges row hrow others h => ?_⟩
  exact edgesAlong_of_toBins hrow h

/-- Bins with different numbers of axes, of which two have equal extents on the first axis, and bins
between edges in another order and with a repetition. -/
theorem edgesAlong_inverts_toBins_ragged :
    ∃ bins vs row s,
      bins = [⟨[⟨1.0, 3.0⟩, ⟨0.0, 1.0⟩]⟩, ⟨[⟨-0.0, 1.0⟩]⟩, ⟨[⟨0.0, 1.0⟩, ⟨1.0, 2.0⟩]⟩] ∧
      edgesAlong bins 0 = .ok vs ∧
      List.Forall₂ (fun v w => (v == w) = true) vs [0.0, 1.0, 3.0] ∧
      Edges.toBins vs = .ok row ∧ project bins [0] = .ok s ∧
      List.Forall₂ (fun a b => (a == b) = true) row s ∧
      edgesAlong [⟨[⟨1.0, 3.0⟩]⟩, ⟨[⟨0.0, 1.0⟩]⟩, ⟨[⟨1.0, 3.0⟩]⟩] 0 = .ok [0.0, 1.0, 3.0] := by
  obtain ⟨bins, hbins⟩ : ∃ bins : List Bin,
      bins = [⟨[⟨1.0, 3.0⟩, ⟨0.0, 1.0⟩]⟩, ⟨[⟨-0.0, 1.0⟩]⟩, ⟨[⟨0.0, 1.0⟩, ⟨1.0, 2.0⟩]⟩] := ⟨_, rfl⟩
  have haxis : ∀ b ∈ bins, 0 < b.axisCount := by
    subst hbins
    decide
  have hinc : ∀ e ∈ extentsOn bins 0, e.low < e.high := by
    subst hbins
    decide
  have hedges : HasEdges bins 0 [0.0, 1.0, 3.0] := by
    subst hbins
    exact ⟨by decide, by decide, by decide, by decide⟩
  obtain ⟨hiff, hback⟩ := edgesAlong_inverts_toBins.1 bins 0 haxis hinc
  obtain ⟨vs, hvs, hequal⟩ := (hiff _).mpr hedges
  obtain ⟨row, s, hrow, hs, hrows⟩ := hback vs hvs
  refine ⟨bins, vs, row, s, hbins, hvs, hequal, hrow, hs, hrows, ?_⟩
  refine edgesAlong_inverts_toBins.2 _ [⟨[⟨0.0, 1.0⟩]⟩, ⟨[⟨1.0, 3.0⟩]⟩] rfl _ fun b => ?_
  simp only [List.mem_cons, List.not_mem_nil]
  tauto

end Bins

end BoxBinning
