import BoxBinning.Proofs.Binning.WellFormed
import BoxBinning.Proofs.Contiguity
import BoxBinning.Proofs.Selection

/-!
# Projections of products

The distinct projections of the bins of a product are those of the combinations of the distinct
projections of its parts, for any choice of parts and of their axes (`Binning.project_factors`). The
two lists of projections have the same keys, and a sorted list of distinct bins is determined by its
keys. So the edges along an axis of a product are those of the part that the axis belongs to, and a
product is contiguous if and only if its parts are.
-/

namespace BoxBinning.Binning

variable {parts : List Binning} {policy : InputPolicy} {part b : Binning} {axes : List Nat}
  {selection : Selection} {projections : List (List Bin)} {p j : Nat}

/-- A binning without undefined ends can be projected on any axes that it has. -/
theorem WellFormed.exists_project (h : b.WellFormed) (hnum : ∀ c ∈ b.bins, c.IsNumeric)
    (hne : axes ≠ []) (haxes : ∀ a ∈ axes, a < b.axisCount) :
    ∃ s, Bins.project b.bins axes = .ok s ∧ Bins.IsUnique (b.bins.map (·.onAxes axes)) s := by
  have hproject := Bins.exists_project h.axisCount_of_mem haxes hnum
  rwa [listed_of_ne_nil hne] at hproject

section Product

variable (hwf : ∀ part ∈ parts, part.WellFormed)
  (hnum : ∀ part ∈ parts, ∀ c ∈ part.bins, c.IsNumeric) (h : ofParts policy parts = .ok b)
include hwf h

omit h in
theorem bins_ne_nil_of_mem : ∀ list ∈ parts.map bins, list ≠ [] :=
  List.forall_mem_map.mpr fun part hpart => (hwf part hpart).bins_ne_nil

/-- The projections of the bins of a product are the combinations of those of its parts. -/
theorem mem_map_onAxes_ofParts (hvalid : selection.IsValid (parts.map axisCount))
    (hnodup : (selection.map Prod.fst).Nodup) {c : Bin} :
    c ∈ b.bins.map (·.onAxes (selection.axes (parts.map axisCount))) ↔
      c ∈ combinations (selection.lists (parts.map bins)) := by
  rw [bins_ofParts h]
  refine mem_map_onAxes_combinations (bins_ne_nil_of_mem hwf) ?_ hvalid hnodup
  rw [List.forall₂_map_left_iff, List.forall₂_map_right_iff, List.forall₂_same]
  exact fun part hpart => (hwf part hpart).axisCount_of_mem

theorem lt_axisCount_of_mem_axes (hvalid : selection.IsValid (parts.map axisCount)) :
    ∀ a ∈ selection.axes (parts.map axisCount), a < b.axisCount := by
  intro a ha
  obtain ⟨q, hq, ha⟩ := List.mem_flatMap.mp ha
  obtain ⟨j, hj, rfl⟩ := List.mem_map.mp ha
  obtain ⟨n, hn, haxes⟩ := hvalid q hq
  rw [axisCount_ofParts hwf h]
  exact offset_add_lt_sum hn (haxes j hj)

include hnum

omit hwf in
theorem isNumeric_of_mem_ofParts : ∀ c ∈ b.bins, c.IsNumeric := by
  have hextents : ∀ list ∈ parts.map bins, ∀ a ∈ list, ∀ e ∈ a.extents, e.IsNumeric :=
    List.forall_mem_map.mpr hnum
  rw [bins_ofParts h]
  exact forall_extents_of_mem_combinations hextents

/-- The combinations of the distinct projections have distinct ones as well. -/
theorem exists_unique_combinations (hvalid : selection.IsValid (parts.map axisCount))
    (hnodup : (selection.map Prod.fst).Nodup)
    (hprojections : List.Forall₂ Bins.IsUnique (selection.lists (parts.map bins)) projections) :
    ∃ t, Bins.unique (combinations projections) = .ok t ∧
      Bins.IsUnique (combinations projections) t ∧ ∀ c ∈ combinations projections, c.IsNumeric := by
  -- combinations of distinct projections are projections of bins of the product
  have hmem : ∀ c ∈ combinations projections,
      c ∈ b.bins.map (·.onAxes (selection.axes (parts.map axisCount))) := fun c hc =>
    (mem_map_onAxes_ofParts hwf h hvalid hnodup).mpr
      (mem_combinations_mono (hprojections.imp fun _ _ hunique => hunique.mem_of_mem) hc)
  have hnumeric : ∀ c ∈ combinations projections, c.IsNumeric := fun c hc =>
    Bins.forall_isNumeric_onAxes (isNumeric_of_mem_ofParts hnum h) c (hmem c hc)
  have hcount : ∀ c ∈ combinations projections,
      c.axisCount = (selection.axes (parts.map axisCount)).length := by
    intro c hc
    obtain ⟨d, hd, rfl⟩ := List.mem_map.mp (hmem c hc)
    refine Bin.axisCount_onAxes fun a ha => ?_
    exact (lt_axisCount_of_mem_axes hwf h hvalid a ha).trans_eq
      ((wellFormed_ofParts hwf h).axisCount_of_mem d hd).symm
  obtain ⟨t, ht, hunique⟩ := Bins.exists_unique hcount hnumeric
  exact ⟨t, ht, hunique, hnumeric⟩

omit h in
/-- The selected parts have distinct projections on the selected axes. -/
theorem exists_projections (hselection : ∀ q ∈ selection, ∃ part, parts[q.1]? = some part ∧
      q.2 ≠ [] ∧ ∀ a ∈ q.2, a < part.axisCount) :
    ∃ projections,
      List.Forall₂ (fun (q : Nat × List Nat) u => ∃ part, parts[q.1]? = some part ∧
        Bins.project part.bins q.2 = .ok u) selection projections ∧
      List.Forall₂ Bins.IsUnique (selection.lists (parts.map bins)) projections := by
  have heach : ∀ q ∈ selection, ∃ u, (∃ part, parts[q.1]? = some part ∧
      Bins.project part.bins q.2 = .ok u) ∧
      Bins.IsUnique (((parts.map bins)[q.1]?.getD []).map (·.onAxes q.2)) u := by
    intro q hq
    obtain ⟨part, hpart, hne, haxes⟩ := hselection q hq
    have hmem := List.mem_of_getElem? hpart
    obtain ⟨u, hu, hunique⟩ := (hwf part hmem).exists_project (hnum part hmem) hne haxes
    refine ⟨u, ⟨part, hpart, hu⟩, ?_⟩
    rwa [List.getElem?_map, hpart]
  obtain ⟨projections, hprojections⟩ := exists_forall₂ heach
  refine ⟨projections, hprojections.imp fun _ _ hu => hu.1, ?_⟩
  exact List.forall₂_map_left_iff.mpr (hprojections.imp fun _ _ hu => hu.2)

/-- The edges along an axis of a product are those of the part that the axis belongs to. -/
theorem sameEdges_ofParts (hp : parts[p]? = some part) (hj : j < part.axisCount) :
    Bins.SameEdges (Bins.edgesAlong b.bins (offset (parts.map axisCount) p + j))
      (Bins.edgesAlong part.bins j) := by
  have hpart := List.mem_of_getElem? hp
  have hb := wellFormed_ofParts hwf h
  have hvalid : Selection.IsValid (parts.map axisCount) [(p, [j])] := by
    intro q hq
    obtain rfl := List.mem_singleton.mp hq
    refine ⟨part.axisCount, ?_, by simpa using hj⟩
    rw [List.getElem?_map, hp, Option.map_some]
  have hlists : Selection.lists (parts.map bins) [(p, [j])] = [part.bins.map (·.onAxes [j])] := by
    simp [Selection.lists, hp]
  have hmem : ∀ c, c ∈ b.bins.map (·.onAxes [offset (parts.map axisCount) p + j]) ↔
      c ∈ part.bins.map (·.onAxes [j]) := by
    intro c
    have hfactor := mem_map_onAxes_ofParts hwf h hvalid (List.nodup_singleton p) (c := c)
    rwa [hlists, combinations_singleton] at hfactor
  have hlt : ∀ a ∈ [offset (parts.map axisCount) p + j], a < b.axisCount :=
    lt_axisCount_of_mem_axes hwf h hvalid
  have hnum' := isNumeric_of_mem_ofParts hnum h
  obtain ⟨s, hs, hunique⟩ := hb.exists_project hnum' (List.cons_ne_nil _ _) hlt
  obtain ⟨t, ht, hunique'⟩ := (hwf part hpart).exists_project (hnum part hpart)
    (List.cons_ne_nil j []) (by simpa using hj)
  have hequal := hunique.forall₂_beq hunique' (Bins.forall_isNumeric_onAxes hnum')
    (Bins.forall_isNumeric_onAxes (hnum part hpart))
    fun k => by simp only [List.mem_map (b := k), hmem]
  refine Bins.edgesAlong_congr hs ht hequal (hunique.ne_nil ?_) fun c hc => ?_
  · exact List.map_eq_nil_iff.not.mpr hb.bins_ne_nil
  · obtain ⟨d, hd, rfl⟩ := List.mem_map.mp (hunique.mem_of_mem c hc)
    exact Bin.axisCount_onAxes fun a ha => (hlt a ha).trans_eq (hb.axisCount_of_mem d hd).symm

/-- A product is contiguous if and only if its parts are. -/
theorem isContiguous_ofParts_iff :
    Bins.isContiguous b.bins = true ↔ ∀ part ∈ parts, Bins.isContiguous part.bins = true := by
  have hsum : Bins.axisCount b.bins = (parts.map axisCount).sum := axisCount_ofParts hwf h
  rw [Bins.isContiguous_iff, and_iff_right (wellFormed_ofParts hwf h).bins_ne_nil]
  constructor
  · intro hedges part hpart
    refine Bins.isContiguous_iff.mpr ⟨(hwf part hpart).bins_ne_nil, fun j hj => ?_⟩
    obtain ⟨p, hp⟩ := List.mem_iff_getElem?.mp hpart
    have hcount : (parts.map axisCount)[p]? = some part.axisCount := by
      rw [List.getElem?_map, hp, Option.map_some]
    rw [← (sameEdges_ofParts hwf hnum h hp hj).isOk_eq]
    exact hedges _ ((offset_add_lt_sum hcount hj).trans_eq hsum.symm)
  · intro hparts axis haxis
    obtain ⟨p, n, j, hn, hj, rfl⟩ := exists_offset_add (haxis.trans_eq hsum)
    obtain ⟨part, hp, rfl⟩ := Option.map_eq_some_iff.mp (List.getElem?_map .. ▸ hn)
    rw [(sameEdges_ofParts hwf hnum h hp hj).isOk_eq]
    exact (Bins.isContiguous_iff.mp (hparts part (List.mem_of_getElem? hp))).2 j hj

end Product

/-- The projections of a product factor through its parts. Selecting some parts, in any order, and
some axes of each, the distinct projections of the bins of the product are the distinct combinations
of those of the parts. So the edges along an axis are those of the part that the axis belongs to,
and the product is contiguous if and only if all parts are. -/
theorem project_factors (hparts : ∀ part ∈ parts, ∃ recipe : Recipe, recipe.build = .ok part)
    (hnum : ∀ part ∈ parts, ∀ c ∈ part.bins, ∀ e ∈ c.extents,
      e.low.isNaN = false ∧ e.high.isNaN = false)
    (h : ofParts policy parts = .ok b) :
    (∀ selection : Selection, selection ≠ [] → (selection.map Prod.fst).Nodup →
      (∀ q ∈ selection, ∃ part, parts[q.1]? = some part ∧ q.2 ≠ [] ∧
        ∀ a ∈ q.2, a < part.axisCount) →
      ∃ projections s t,
        List.Forall₂ (fun (q : Nat × List Nat) u => ∃ part, parts[q.1]? = some part ∧
          Bins.project part.bins q.2 = .ok u) selection projections ∧
        Bins.project b.bins (selection.axes (parts.map axisCount)) = .ok s ∧
        Bins.unique (combinations projections) = .ok t ∧
        List.Forall₂ (fun c d => (c == d) = true) s t) ∧
    (∀ p part j, parts[p]? = some part → j < part.axisCount →
      Bins.SameEdges (Bins.edgesAlong b.bins (offset (parts.map axisCount) p + j))
        (Bins.edgesAlong part.bins j)) ∧
    (Bins.isContiguous b.bins = true ↔ ∀ part ∈ parts, Bins.isContiguous part.bins = true) := by
  have hwf : ∀ part ∈ parts, part.WellFormed := fun part hpart =>
    Recipe.wellFormed_of_build _ (hparts part hpart).choose_spec
  refine ⟨fun selection hne hnodup hselection => ?_,
    fun p part j hp hj => sameEdges_ofParts hwf hnum h hp hj, isContiguous_ofParts_iff hwf hnum h⟩
  have hvalid : selection.IsValid (parts.map axisCount) := by
    intro q hq
    obtain ⟨part, hpart, -, haxes⟩ := hselection q hq
    exact ⟨part.axisCount, by rw [List.getElem?_map, hpart, Option.map_some], haxes⟩
  have haxes : selection.axes (parts.map axisCount) ≠ [] := by
    obtain ⟨q, hq⟩ := List.exists_mem_of_ne_nil selection hne
    obtain ⟨part, -, hne, -⟩ := hselection q hq
    obtain ⟨a, ha⟩ := List.exists_mem_of_ne_nil q.2 hne
    exact List.ne_nil_of_mem (List.mem_flatMap.mpr ⟨q, hq, List.mem_map.mpr ⟨a, ha, rfl⟩⟩)
  have hnum' := isNumeric_of_mem_ofParts hnum h
  obtain ⟨projections, hprojections, hlists⟩ := exists_projections hwf hnum hselection
  obtain ⟨s, hs, hunique⟩ := (wellFormed_ofParts hwf h).exists_project hnum' haxes
    (lt_axisCount_of_mem_axes hwf h hvalid)
  obtain ⟨t, ht, hunique', hnum''⟩ :=
    exists_unique_combinations hwf hnum h hvalid hnodup hlists
  refine ⟨projections, s, t, hprojections, hs, ht, ?_⟩
  -- both have the keys of the combinations of all projections
  refine hunique.forall₂_beq hunique' (Bins.forall_isNumeric_onAxes hnum') hnum'' fun k => ?_
  rw [← mem_map_key_combinations_iff hlists]
  simp only [List.mem_map (b := k), mem_map_onAxes_ofParts hwf h hvalid hnodup]

/-- The second of two rows and twice the axis of the first one. -/
theorem project_factors_rows :
    ∃ narrow wide b, (Recipe.edges .strict [0.0, 1.0, 3.0] "x").build = .ok narrow ∧
      (Recipe.edges .permissive [0.0, 2.0, 4.0, 8.0] "y").build = .ok wide ∧
      ofParts .strict [narrow, wide] = .ok b ∧
      (∃ u v s t, Bins.project wide.bins [0] = .ok u ∧ Bins.project narrow.bins [0, 0] = .ok v ∧
        Bins.project b.bins [1, 0, 0] = .ok s ∧ Bins.unique (combinations [u, v]) = .ok t ∧
        List.Forall₂ (fun c d => (c == d) = true) s t) ∧
      Bins.SameEdges (Bins.edgesAlong b.bins 1) (Bins.edgesAlong wide.bins 0) ∧
      (Bins.isContiguous b.bins = true ↔
        ∀ part ∈ [narrow, wide], Bins.isContiguous part.bins = true) := by
  obtain ⟨narrow, hnarrow⟩ : ∃ row, (Recipe.edges .strict [0.0, 1.0, 3.0] "x").build = .ok row :=
    ⟨_, rfl⟩
  obtain ⟨wide, hwide⟩ :
      ∃ row, (Recipe.edges .permissive [0.0, 2.0, 4.0, 8.0] "y").build = .ok row := ⟨_, rfl⟩
  obtain ⟨b, hb⟩ : ∃ b, ofParts .strict [narrow, wide] = .ok b := by
    obtain rfl := Except.ok.inj hnarrow
    obtain rfl := Except.ok.inj hwide
    exact ⟨_, rfl⟩
  have hcounts : narrow.axisCount = 1 ∧ wide.axisCount = 1 := by
    obtain rfl := Except.ok.inj hnarrow
    obtain rfl := Except.ok.inj hwide
    decide
  have hnum : ∀ part ∈ [narrow, wide], ∀ c ∈ part.bins, ∀ e ∈ c.extents,
      e.low.isNaN = false ∧ e.high.isNaN = false := by
    obtain rfl := Except.ok.inj hnarrow
    obtain rfl := Except.ok.inj hwide
    decide
  obtain ⟨hproject, hedges, hcontiguous⟩ :=
    project_factors (by simpa using ⟨⟨_, hnarrow⟩, _, hwide⟩) hnum hb
  have hvalid : ∀ q ∈ ([(1, [0]), (0, [0, 0])] : Selection), ∃ part,
      [narrow, wide][q.1]? = some part ∧ q.2 ≠ [] ∧ ∀ a ∈ q.2, a < part.axisCount := by
    simp [hcounts]
  obtain ⟨projections, s, t, hprojections, hs, ht, hequal⟩ :=
    hproject [(1, [0]), (0, [0, 0])] (by decide) (by decide) hvalid
  have hsame := hedges 1 wide 0 rfl (hcounts.2 ▸ Nat.one_pos)
  have haxes : Selection.axes ([narrow, wide].map axisCount) [(1, [0]), (0, [0, 0])] =
      [1, 0, 0] := by
    simp [Selection.axes, offset, hcounts]
  have hoffset : offset ([narrow, wide].map axisCount) 1 + 0 = 1 := by simp [offset, hcounts]
  rw [haxes] at hs
  rw [hoffset] at hsame
  obtain ⟨u, rest, ⟨_, hpart, hu⟩, hrest, rfl⟩ := List.forall₂_cons_left_iff.mp hprojections
  obtain rfl := Option.some.inj hpart
  obtain ⟨v, others, ⟨_, hpart, hv⟩, hnil, rfl⟩ := List.forall₂_cons_left_iff.mp hrest
  obtain rfl := Option.some.inj hpart
  obtain rfl := List.forall₂_nil_left_iff.mp hnil
  exact ⟨narrow, wide, b, hnarrow, hwide, hb, ⟨u, v, s, t, hu, hv, hs, ht, hequal⟩, hsame,
    hcontiguous⟩

end BoxBinning.Binning
