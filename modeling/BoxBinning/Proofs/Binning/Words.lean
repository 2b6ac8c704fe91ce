import BoxBinning.Proofs.Binning.Lookups

/-!
# Index arithmetic in words

Indices are 32-bit words, which wrap around silently. `Binning.steps` lists the numbers that become
words in a lookup and in what it looks at: positions and strides, products of digits with strides
and running sums, also in the parts of a product and also when the lookup ends without a bin.
`Recipe.index_arithmetic` says that none of them is too large for a word, so every index is exact,
belongs to a bin and differs from `noBinIndex`.
-/

namespace BoxBinning

open Binary64 MixedRadix Lookup

namespace MixedRadix

variable {counts : List Nat} {words ss : List BinIndex} {a : BinIndex} {t : Nat}

/-- The number is not too large for a word, and the word stands for it. -/
def IsExact (step : Nat × BinIndex) : Prop := step.1 < 2 ^ 32 ∧ step.2.toNat = step.1

/-- The products and the running sums of `encode`: the value that each operation should have, and
the word it has. -/
def encodeSteps (a : BinIndex) : List BinIndex → List BinIndex → List (Nat × BinIndex)
  | d :: ds, w :: ws =>
    (d.toNat * w.toNat, d * w) :: (a.toNat + (d * w).toNat, a + d * w) ::
      encodeSteps (a + d * w) ds ws
  | _, _ => []

theorem getLastD_encodeSteps (a : BinIndex) (words ss : List BinIndex) :
    ((encodeSteps a words ss).map Prod.snd).getLastD a =
      (List.zipWith (· * ·) words ss).foldl (· + ·) a := by
  induction words generalizing a ss with
  | nil => rfl
  | cons d ds ih =>
    cases ss with
    | nil => rfl
    | cons w ws =>
      rw [encodeSteps, List.map_cons, List.map_cons, List.getLastD_cons, List.getLastD_cons, ih]
      rfl

/-- The result of `encode` is the word of a step. -/
theorem exists_encodeStep (hwords : words ≠ []) (hss : ss ≠ []) :
    ∃ step ∈ encodeSteps 0 words ss, step.2 = encode ss words := by
  obtain ⟨d, ds, rfl⟩ := List.exists_cons_of_ne_nil hwords
  obtain ⟨w, ws, rfl⟩ := List.exists_cons_of_ne_nil hss
  have hlast := getLastD_encodeSteps 0 (d :: ds) (w :: ws)
  have hmem : ((encodeSteps 0 (d :: ds) (w :: ws)).map Prod.snd).getLastD 0 ∈
      (encodeSteps 0 (d :: ds) (w :: ws)).map Prod.snd := by
    rw [encodeSteps, List.map_cons, List.getLastD_cons]
    exact List.getLastD_mem_cons
  rw [hlast] at hmem
  exact List.mem_map.mp hmem

/-- All products and running sums are exact: before each digit the sum is below its weight. -/
theorem isExact_of_mem_encodeSteps (hpos : ∀ n ∈ counts, 0 < n)
    (hs : ss.map UInt32.toNat = weights t counts)
    (hd : List.Forall₂ (· < ·) (words.map UInt32.toNat) (counts.take words.length))
    (ha : a.toNat < t) (hlim : t * counts.prod ≤ 2 ^ 32) :
    ∀ step ∈ encodeSteps a words ss, IsExact step := by
  induction counts generalizing t words ss a with
  | nil =>
    rw [weights, List.map_eq_nil_iff] at hs
    rw [hs]
    cases words <;> exact List.forall_mem_nil _
  | cons n rest ih =>
    obtain ⟨hn, hrest⟩ := List.forall_mem_cons.mp hpos
    obtain ⟨w, ws, rfl, hw, hws⟩ := List.map_eq_cons_iff.mp hs
    cases words with
    | nil => exact List.forall_mem_nil _
    | cons d ds =>
      obtain ⟨hdn, hds⟩ := List.forall₂_cons.mp hd
      rw [List.prod_cons, ← Nat.mul_assoc] at hlim
      have hnext := (Nat.le_mul_of_pos_right (t * n) (prod_pos hrest)).trans hlim
      have hlt := add_mul_lt ha hdn
      obtain ⟨hmul, hadd⟩ := toNat_add_mul hw ha hdn hnext
      rw [encodeSteps, List.forall_mem_cons, List.forall_mem_cons, hmul]
      refine ⟨⟨?_, ?_⟩, ⟨by dsimp only; omega, hadd⟩, ih hrest hws hds (hadd ▸ hlt) hlim⟩
      · dsimp only
        rw [hw]
        omega
      · dsimp only
        rw [hw, hmul]

end MixedRadix

namespace Binning

/-- A number that becomes a word. -/
def cast (k : Nat) : Nat × BinIndex := (k, UInt32.ofNat k)

/-- The position that a lookup on one axis finds. -/
def positions (accepted : Float → Bool) (locate : Float → Option Nat) : List Float → List Nat
  | [] => []
  | v :: _ => if accepted v then (locate v).toList else []

/-- The positions on the axes of a grid up to the first axis without one. -/
def gridPositions : List UniformAxis → List Float → List Nat
  | axis :: axes, v :: x =>
    if isBinnable v then
      match axis.binOf v with
      | some k => k :: gridPositions axes x
      | none => []
    else []
  | _, _ => []

/-- The indices that are found up to the first answer that is not a bin. -/
def foundFirst : List Answer → List BinIndex
  | .ok (some i) :: rest => i :: foundFirst rest
  | _ => []

mutual

/-- The numbers that become words in a binning and in its lookup of a point, with these words. -/
def steps : Binning → List Float → List (Nat × BinIndex)
  | linear _ axis, x => (positions isBinnable axis.binOf x).map cast
  | grid _ axes strides, x =>
    (weights 1 (axes.map fun axis => (axisBins axis).length)).zip strides ++
      if x.length < axes.length then []
      else (gridPositions axes x).map cast ++
        encodeSteps 0 ((gridPositions axes x).map UInt32.ofNat) strides
  | logarithmic _ base axis, x =>
    (positions isLoggable (fun v => axis.locate (base.log v) v) x).map cast
  | contiguous _ cells, x => (positions isBinnable (Cells.search cells) x).map cast
  | columns layout _, _ => (List.range layout.bins.length).map cast
  | scan layout, x => (layout.bins.findIdx? (·.contains x)).toList.map cast
  | product _ parts strides, x =>
    (weights 1 (parts.map binCount)).zip strides ++
      if x.length < (parts.map axisCount).sum then []
      else partSteps parts x ++ encodeSteps 0 (foundFirst (partAnswers parts x)) strides

/-- The steps of the lookups in the parts of a product, up to the first part without a bin. -/
def partSteps : List Binning → List Float → List (Nat × BinIndex)
  | [], _ => []
  | part :: parts, x =>
    steps part (x.take part.axisCount) ++
      match find part (x.take part.axisCount) with
      | .ok (some _) => partSteps parts (x.drop part.axisCount)
      | _ => []

end

variable {axes : List UniformAxis} {parts : List Binning} {strides : List BinIndex}
  {x : List Float} {rs : List Answer} {step : Nat × BinIndex}

/-! ### Where the digits come from -/

theorem exists_rest (rs : List Answer) : ∃ rest, rs = (foundFirst rs).map found ++ rest := by
  induction rs with
  | nil => exact ⟨[], rfl⟩
  | cons r rs ih =>
    rcases r with e | _ | i
    · exact ⟨_, rfl⟩
    · exact ⟨_, rfl⟩
    · obtain ⟨rest, hrest⟩ := ih
      exact ⟨rest, congrArg (found i :: ·) hrest⟩

/-- The digits of a point in a grid are its positions as words. -/
theorem foundFirst_results_axisLookups (policy : InputPolicy) (n : Nat) (axes : List UniformAxis)
    (x : List Float) : foundFirst (results (axisLookups policy n axes) x) =
      (gridPositions axes x).map UInt32.ofNat := by
  induction axes generalizing n x with
  | nil => cases x <;> rfl
  | cons axis axes ih =>
    cases x with
    | nil => rfl
    | cons v x =>
      rw [results_axisLookups_cons, gridPositions]
      dsimp only [axisLookup]
      split_ifs
      · cases axis.binOf v with
        | none => rfl
        | some k => exact congrArg (UInt32.ofNat k :: ·) (ih (n + 1) x)
      · cases policy <;> rfl

theorem lt_of_locate {axis : UniformAxis} {u v : Float} {k : Nat}
    (h : axis.locate u v = some k) : k < (axisBins axis).length := by
  have hlt := UniformAxis.lt_size_of_locate h
  rw [axisBins, Edges.length_bins, Array.length_toList]
  omega

/-- The positions on the axes of a grid are digits. -/
theorem forall₂_gridPositions (axes : List UniformAxis) (x : List Float) :
    List.Forall₂ (· < ·) (gridPositions axes x)
      ((axes.map fun axis => (axisBins axis).length).take (gridPositions axes x).length) := by
  fun_induction gridPositions axes x with
  | case1 axis axes v x hv k hk ih =>
    exact .cons (lt_of_locate hk) ih
  | case2 => exact .nil
  | case3 => exact .nil
  | case4 => exact .nil

theorem exists_axis_of_mem_gridPositions {k : Nat} (hk : k ∈ gridPositions axes x) :
    ∃ axis ∈ axes, k < (axisBins axis).length := by
  fun_induction gridPositions axes x with
  | case1 axis axes v x hv j hj ih =>
    rcases List.mem_cons.mp hk with rfl | hk
    · exact ⟨axis, List.mem_cons_self, lt_of_locate hj⟩
    · obtain ⟨other, hother, hlt⟩ := ih hk
      exact ⟨other, List.mem_cons_of_mem axis hother, hlt⟩
  | case2 => cases hk
  | case3 => cases hk
  | case4 => cases hk

theorem mem_partSteps (h : step ∈ partSteps parts x) :
    ∃ part ∈ parts, ∃ y, step ∈ part.steps y := by
  induction parts generalizing x with
  | nil => cases h
  | cons part parts ih =>
    rw [partSteps, List.mem_append] at h
    rcases h with h | h
    · exact ⟨part, List.mem_cons_self, _, h⟩
    · split at h
      · obtain ⟨p, hp, hstep⟩ := ih h
        exact ⟨p, List.mem_cons_of_mem _ hp, hstep⟩
      · cases h

/-! ### All steps are exact -/

theorem isExact_cast {n k : Nat} (hn : n < binLimit) (hk : k < n) : IsExact (cast k) := by
  refine ⟨?_, toNat_ofNat_of_lt hn hk⟩
  unfold binLimit at hn
  dsimp only [cast]
  omega

theorem isExact_of_mem_zip {counts : List Nat} (h : IsNumbering strides counts) :
    ∀ step ∈ (weights 1 counts).zip strides, IsExact step := by
  have hzip : (weights 1 counts).zip strides = strides.map fun w => (w.toNat, w) := by
    rw [← h.toNat_strides, List.zip_map_left, List.zip_eq_zipWith, List.zipWith_self, List.map_map]
    rfl
  rw [hzip]
  exact List.forall_mem_map.mpr fun w _ => ⟨w.toNat_lt, rfl⟩

theorem lt_of_mem_positions {accepted : Float → Bool} {locate : Float → Option Nat} {n k : Nat}
    (hlocate : ∀ v k, accepted v = true → locate v = some k → k < n)
    (hk : k ∈ positions accepted locate x) : k < n := by
  cases x with
  | nil => cases hk
  | cons v x =>
    rw [positions] at hk
    split_ifs at hk with hv
    · exact hlocate v k hv (Option.mem_toList.mp hk)
    · cases hk

theorem isExact_of_mem_positions {layout : Layout} {edges : List Float}
    {accepted : Float → Bool} {locate : Float → Option Nat} (row : layout.IsRow edges)
    (hlocate : ∀ v k, accepted v = true → locate v = some k → k < (Edges.bins edges).length) :
    ∀ step ∈ (positions accepted locate x).map cast, IsExact step := by
  intro step hstep
  obtain ⟨k, hk, rfl⟩ := List.mem_map.mp hstep
  exact isExact_cast (row.bins_eq ▸ row.length_lt) (lt_of_mem_positions hlocate hk)

/-- All products and running sums of a numbering are exact. -/
theorem isExact_encodeSteps {counts : List Nat} {words : List BinIndex}
    (h : IsNumbering strides counts)
    (hd : List.Forall₂ (· < ·) (words.map UInt32.toNat) (counts.take words.length)) :
    ∀ step ∈ encodeSteps 0 words strides, IsExact step := by
  have hlim := h.prod_lt
  unfold binLimit at hlim
  exact isExact_of_mem_encodeSteps h.pos h.toNat_strides hd Nat.zero_lt_one (by omega)

/-- In a grid the strides, the positions and the sum of their products are exact. -/
theorem isExact_of_mem_grid {layout : Layout}
    (h : IsNumbering strides (axes.map fun axis => (axisBins axis).length)) :
    ∀ step ∈ steps (.grid layout axes strides) x, IsExact step := by
  intro step hstep
  rw [steps, List.mem_append] at hstep
  rcases hstep with hstep | hstep
  · exact isExact_of_mem_zip h step hstep
  split_ifs at hstep with hlen
  · cases hstep
  rcases List.mem_append.mp hstep with hstep | hstep
  · obtain ⟨k, hk, rfl⟩ := List.mem_map.mp hstep
    obtain ⟨axis, haxis, hlt⟩ := exists_axis_of_mem_gridPositions hk
    exact isExact_cast (h.lt_of_mem (List.mem_map.mpr ⟨axis, haxis, rfl⟩)) hlt
  · -- the positions are digits, and a word is at most the number that is cut off to it
    have hdigits := forall₂_gridPositions axes x
    apply isExact_encodeSteps h ?_ step hstep
    rw [List.length_map, List.map_map]
    exact List.forall₂_map_left_iff.mpr
      (hdigits.imp fun k n hk => (Nat.mod_le _ _).trans_lt hk)

/-- In a product the strides and the sum of products are exact if the steps in the parts are. -/
theorem isExact_of_mem_product {layout : Layout} (h : IsNumbering strides (parts.map binCount))
    (hbounded : ∀ part ∈ parts, part.lookup.Bounded)
    (hparts : ∀ part ∈ parts, ∀ y, ∀ step ∈ part.steps y, IsExact step) :
    ∀ step ∈ steps (.product layout parts strides) x, IsExact step := by
  intro step hstep
  rw [steps, List.mem_append] at hstep
  rcases hstep with hstep | hstep
  · exact isExact_of_mem_zip h step hstep
  split_ifs at hstep with hlen
  · cases hstep
  rcases List.mem_append.mp hstep with hstep | hstep
  · obtain ⟨part, hpart, y, hstep⟩ := mem_partSteps hstep
    exact hparts part hpart y step hstep
  · -- what the parts find before they miss are digits
    obtain ⟨rest, hrest⟩ := exists_rest (partAnswers parts x)
    have hdigits := forall₂_of_results (List.forall_mem_map.mpr hbounded)
      (results_lookup.trans hrest)
    rw [List.map_map] at hdigits
    exact isExact_encodeSteps h hdigits step hstep

/-- No step of a well-formed binning is too large for a word. -/
theorem WellFormed.isExact {b : Binning} (h : b.WellFormed) :
    ∀ x, ∀ step ∈ b.steps x, IsExact step := by
  induction h with
  | linear row =>
    intro x
    rw [steps]
    exact isExact_of_mem_positions row fun v k _ hk => lt_of_locate hk
  | logarithmic row =>
    intro x
    rw [steps]
    exact isExact_of_mem_positions row fun v k _ hk => lt_of_locate hk
  | contiguous row =>
    intro x
    rw [steps]
    apply isExact_of_mem_positions row
    intro v k hv hk
    obtain ⟨c, hc, -⟩ :=
      (Cells.search_eq_some_iff row.increasing (isNaN_of_isBinnable hv)).mp hk
    rw [Edges.length_bins, ← Edges.length_cells]
    exact (List.getElem?_eq_some_iff.mp hc).1
  | columns partition length_lt =>
    intro x step hstep
    rw [steps] at hstep
    obtain ⟨k, hk, rfl⟩ := List.mem_map.mp hstep
    exact isExact_cast length_lt (List.mem_range.mp hk)
  | scan partition length_lt =>
    intro x step hstep
    rw [steps] at hstep
    obtain ⟨k, hk, rfl⟩ := List.mem_map.mp hstep
    rw [Option.mem_toList] at hk
    exact isExact_cast length_lt (List.findIdx?_eq_some_iff_getElem.mp hk).1
  | grid ne_nil numbering bins_eq =>
    intro x
    exact isExact_of_mem_grid numbering
  | product ne_nil forall_parts numbering bins_eq ih =>
    intro x
    exact isExact_of_mem_product numbering (fun part hpart => (forall_parts part hpart).bounded) ih

/-! ### The index is a step -/

@[simp] theorem foundFirst_map_found (ds : List BinIndex) : foundFirst (ds.map found) = ds := by
  induction ds with
  | nil => rfl
  | cons d ds ih => exact congrArg (d :: ·) ih

theorem exists_step_of_combine {counts : List Nat} {i : BinIndex}
    (hnum : IsNumbering strides counts) (hne : counts ≠ []) (hlen : rs.length = counts.length)
    (h : combine strides rs = found i) :
    ∃ step ∈ encodeSteps 0 (foundFirst rs) strides, step.2 = i := by
  obtain ⟨ds, rfl, rfl⟩ := combine_eq_found.mp h
  rw [foundFirst_map_found]
  refine exists_encodeStep (List.ne_nil_of_length_pos ?_) (List.ne_nil_of_length_pos ?_)
  · rw [← List.length_map found, hlen]
    exact List.length_pos_of_ne_nil hne
  · rw [hnum.length_eq]
    exact List.length_pos_of_ne_nil hne

theorem exists_step_of_positions {accepted : Float → Bool} {locate : Float → Option Nat}
    {policy : InputPolicy} {i : BinIndex} (h : findOnAxis policy accepted locate x = found i) :
    ∃ step ∈ (positions accepted locate x).map cast, step.2 = i := by
  obtain ⟨v, rest, k, rfl, hv, hk, rfl⟩ := findOnAxis_eq_found.mp h
  refine ⟨cast k, List.mem_map_of_mem ?_, rfl⟩
  rw [positions, if_pos hv, hk]
  exact List.mem_singleton_self k

theorem exists_step_of_scan {layout : Layout} {i : BinIndex}
    (h : find (.scan layout) x = found i) :
    ∃ step ∈ steps (.scan layout) x, step.2 = i ∧ step.1 < layout.bins.length := by
  have hscan := Except.ok.inj ((find_scan (length_of_find_scan h)).symm.trans h)
  obtain ⟨k, hk, rfl⟩ := Option.map_eq_some_iff.mp hscan
  have hlt := (List.findIdx?_eq_some_iff_getElem.mp hk).1
  rw [steps]
  exact ⟨cast k, List.mem_map_of_mem (Option.mem_toList.mpr hk), rfl, hlt⟩

theorem exists_step_of_grid {layout : Layout} {i : BinIndex}
    (hwf : (grid layout axes strides).WellFormed) (hne : axes ≠ [])
    (hnum : IsNumbering strides (axes.map fun axis => (axisBins axis).length))
    (h : find (.grid layout axes strides) x = found i) :
    ∃ step ∈ steps (.grid layout axes strides) x, step.2 = i := by
  have hlookup := congrArg (fun p => p.find x) (lookup_grid hwf)
  replace h := hlookup.symm.trans h
  dsimp only [combined] at h
  rw [sum_axisLookups] at h
  split_ifs at h with hlen
  · exact absurd h (reject_ne_found _ _ i)
  · obtain ⟨step, hstep, hword⟩ := exists_step_of_combine hnum (by simpa using hne)
      (by simp [axisLookups]) h
    rw [foundFirst_results_axisLookups] at hstep
    rw [steps, if_neg hlen]
    exact ⟨step, List.mem_append_right _ (List.mem_append_right _ hstep), hword⟩

theorem exists_step_of_product {layout : Layout} {i : BinIndex}
    (hwf : (product layout parts strides).WellFormed) (hne : parts ≠ [])
    (hnum : IsNumbering strides (parts.map binCount))
    (h : find (.product layout parts strides) x = found i) :
    ∃ step ∈ steps (.product layout parts strides) x, step.2 = i := by
  rw [find_product hwf] at h
  split_ifs at h with hlen
  · cases h
  · obtain ⟨step, hstep, hword⟩ := exists_step_of_combine hnum (by simpa using hne)
      (by rw [← results_lookup]; simp) h
    rw [steps, if_neg hlen]
    exact ⟨step, List.mem_append_right _ (List.mem_append_right _ hstep), hword⟩

/-- The index of a point is the word of a step. -/
theorem WellFormed.exists_step {b : Binning} (h : b.WellFormed) {i : BinIndex}
    (hi : b.find x = found i) : ∃ step ∈ b.steps x, step.2 = i := by
  have hwf := h
  cases h with
  | linear row =>
    rw [steps]
    exact exists_step_of_positions hi
  | logarithmic row =>
    rw [steps]
    exact exists_step_of_positions hi
  | contiguous row =>
    rw [steps]
    exact exists_step_of_positions hi
  | scan partition length_lt =>
    obtain ⟨step, hstep, hword, -⟩ := exists_step_of_scan hi
    exact ⟨step, hstep, hword⟩
  | @columns layout partition length_lt =>
    -- the index of columns finds what the scan finds, and lists all positions
    rw [find_columns_eq_find_scan layout layout partition rfl] at hi
    obtain ⟨step, hstep, hword, hlt⟩ := exists_step_of_scan hi
    rw [steps] at hstep
    obtain ⟨k, -, rfl⟩ := List.mem_map.mp hstep
    rw [steps]
    exact ⟨cast k, List.mem_map_of_mem (List.mem_range.mpr hlt), hword⟩
  | grid ne_nil numbering => exact exists_step_of_grid hwf ne_nil numbering hi
  | product ne_nil _ numbering => exact exists_step_of_product hwf ne_nil numbering hi

end Binning

namespace Recipe

/-- The arithmetic of indices is exact in every binning that can be built, so no index is taken for
that of another bin or for the lack of one. -/
theorem index_arithmetic {recipe : Recipe} {b : Binning} (hbuild : recipe.build = .ok b)
    (x : List Float) :
    b.binCount < noBinIndex.toNat ∧
    (∀ step ∈ b.steps x, step.1 < 2 ^ 32 ∧ step.2.toNat = step.1) ∧
    (∀ i, b.find x = .ok (some i) → i.toNat < b.binCount ∧ ∃ step ∈ b.steps x, step.2 = i) ∧
    (b.findOrNone x = .ok noBinIndex ↔ b.find x = .ok none) := by
  have hwf := wellFormed_of_build recipe hbuild
  have hlimit := hwf.binCount_lt.2
  refine ⟨hlimit, hwf.isExact x, fun i hi => ⟨hwf.bounded x i hi, hwf.exists_step hi⟩, ?_⟩
  unfold Binning.findOrNone
  rcases hfind : b.find x with e | _ | i
  · exact ⟨nofun, nofun⟩
  · exact ⟨fun _ => rfl, fun _ => rfl⟩
  · refine ⟨fun h => ?_, nofun⟩
    -- an index that is found is below the number of bins, and `noBinIndex` is not
    have hlt : i.toNat < b.binCount := hwf.bounded x i hfind
    obtain rfl : i = noBinIndex := Except.ok.inj h
    exact absurd (hlt.trans hlimit) (lt_irrefl binLimit)

/-- A grid in a product in a product. -/
theorem index_arithmetic_nested :
    ∃ b, (Recipe.product .strict [.product .permissive
        [.grid .strict [⟨0.0, 2.0, 2⟩, ⟨0.0, 3.0, 3⟩] [], .edges .strict [0.0, 1.0, 3.0] "x"],
        .linear .permissive 0.0 4.0 4 "y"]).build = .ok b ∧ b.binCount = 48 ∧
      (∀ step ∈ b.steps [0.5, 1.5, 2.0, 3.5], step.1 < 2 ^ 32 ∧ step.2.toNat = step.1) ∧
      ∀ i, b.find [0.5, 1.5, 2.0, 3.5] = .ok (some i) → i.toNat < 48 := by
  obtain ⟨b, hb⟩ : ∃ b, (Recipe.product .strict [.product .permissive
      [.grid .strict [⟨0.0, 2.0, 2⟩, ⟨0.0, 3.0, 3⟩] [], .edges .strict [0.0, 1.0, 3.0] "x"],
      .linear .permissive 0.0 4.0 4 "y"]).build = .ok b := ⟨_, rfl⟩
  have hcount : b.binCount = 48 := by
    obtain rfl := Except.ok.inj hb
    rfl
  obtain ⟨-, hsteps, hfind, -⟩ := index_arithmetic hb [0.5, 1.5, 2.0, 3.5]
  exact ⟨b, hb, hcount, hsteps, fun i hi => hcount ▸ (hfind i hi).1⟩

end Recipe

end BoxBinning
