import BoxBinning.Proofs.Binning.WellFormed
import BoxBinning.Proofs.Lookup

/-!
# The lookups of the kinds of binnings

On a row of cells (`Binning.agrees_row`) and among boxes (`Binning.agrees_scan`,
`Binning.agrees_columns`) a lookup agrees with containment. The lookups in a grid and in a product
are combinations of those on the axes and in the parts (`Binning.lookup_grid`,
`Binning.lookup_product`). Every lookup finds only bins that exist (`Binning.WellFormed.bounded`),
also in a grid whose edges do not increase.
-/

namespace BoxBinning

open Binary64 MixedRadix Lookup

namespace Binning

variable {layout : Layout} {policy : InputPolicy} {axes : List UniformAxis} {parts : List Binning}
  {strides : List BinIndex} {x : List Float} {n : Nat}

/-- The lookup of a binning. -/
def lookup (b : Binning) : Lookup := ⟨b.axisCount, b.bins, b.find⟩

theorem reject_ne_found (policy : InputPolicy) (e : BinningError) (i : BinIndex) :
    reject policy e ≠ found i := by
  cases policy <;> simp [reject, found]

/-! ### Rows -/

section Rows

variable {edges : List Float} {accepted : Float → Bool} {locate : Float → Option Nat}
  {i : BinIndex} {k : Nat}

theorem find_linear (layout : Layout) (axis : UniformAxis) (x : List Float) :
    find (.linear layout axis) x = findOnAxis layout.policy isBinnable axis.binOf x := rfl

theorem find_logarithmic (layout : Layout) (base : LogBase) (axis : UniformAxis)
    (x : List Float) : find (.logarithmic layout base axis) x =
      findOnAxis layout.policy isLoggable (fun v => axis.locate (base.log v) v) x := rfl

theorem find_contiguous (layout : Layout) (cells : Array Extent) (x : List Float) :
    find (.contiguous layout cells) x =
      findOnAxis layout.policy isBinnable (Cells.search cells) x := rfl

/-- A point is found on one axis if and only if its first coordinate is accepted and located. -/
theorem findOnAxis_eq_found : findOnAxis policy accepted locate x = found i ↔
    ∃ v rest k, x = v :: rest ∧ accepted v = true ∧ locate v = some k ∧ UInt32.ofNat k = i := by
  unfold findOnAxis
  cases x with
  | nil => simp [reject_ne_found]
  | cons v rest =>
    dsimp only
    split_ifs with h
    · simp [found, h]
    · simp [reject_ne_found, h]

theorem locate_eq_none_of_findOnAxis {v : Float} {rest : List Float}
    (h : findOnAxis policy accepted locate (v :: rest) = .ok none) (hv : accepted v = true) :
    locate v = none := by
  dsimp only [findOnAxis] at h
  rw [if_pos hv] at h
  simpa using Except.ok.inj h

theorem toNat_ofNat_of_lt {n : Nat} (hn : n < binLimit) (hk : k < n) :
    (UInt32.ofNat k).toNat = k := by
  unfold binLimit at hn
  exact UInt32.toNat_ofNat_of_lt' (by unfold UInt32.size; omega)

/-- On a row a lookup agrees with containment if every accepted number is located where it lies and
if all ordinary numbers in the cells are accepted. -/
theorem agrees_row {search : List Float → Answer} (accepted : Float → Bool)
    (locate : Float → Option Nat) (hinc : edges.Pairwise (· < ·))
    (hlt : (Edges.bins edges).length < binLimit)
    (hfound : ∀ x i, search x = found i →
      ∃ v rest k, x = v :: rest ∧ accepted v = true ∧ locate v = some k ∧ UInt32.ofNat k = i)
    (hnone : ∀ v rest, search (v :: rest) = .ok none → accepted v = true → locate v = none)
    (hlocate : ∀ v, accepted v = true → ∀ k, locate v = some k ↔
      ∃ c, (Edges.cells edges)[k]? = some c ∧ c.contains v = true)
    (haccepted : ∀ v, isBinnable v = true → ∀ c ∈ Edges.cells edges, c.contains v = true →
      accepted v = true) :
    Agrees ⟨1, Edges.bins edges, search⟩ where
  axisCount_eq := Edges.axisCount_of_mem_bins
  sound x i hi := by
    obtain ⟨v, rest, k, rfl, hv, hk, rfl⟩ := hfound x i hi
    obtain ⟨c, hc, hcv⟩ := (hlocate v hv k).mp hk
    have hbin : (Edges.bins edges)[k]? = some ⟨[c]⟩ := by
      rw [Edges.bins, List.getElem?_map, hc]
      rfl
    rw [toNat_ofNat_of_lt hlt (List.getElem?_eq_some_iff.mp hbin).1]
    refine ⟨Nat.succ_le_succ (Nat.zero_le _), ⟨[c]⟩, hbin, ?_⟩
    rw [Bin.contains_cons, hcv]
    rfl
  complete x hlen hx hsearch b hb := by
    obtain ⟨v, rest, rfl⟩ := List.exists_cons_of_length_pos hlen
    obtain ⟨c, hc, rfl⟩ := List.mem_map.mp hb
    by_contra hcontains
    have hcv : c.contains v = true := by simpa using hcontains
    have hv := haccepted v (hx v (by simp)) c hc hcv
    obtain ⟨k, hk⟩ := List.mem_iff_getElem?.mp hc
    have hlocated := (hlocate v hv k).mpr ⟨c, hk, hcv⟩
    rw [hnone v rest hsearch hv] at hlocated
    cases hlocated
  eq_of_contains x i j a b hlen ha hb hax hbx := by
    obtain ⟨v, rest, rfl⟩ := List.exists_cons_of_length_pos hlen
    dsimp only at ha hb
    rw [Edges.bins, List.getElem?_map, Option.map_eq_some_iff] at ha hb
    obtain ⟨c, hc, rfl⟩ := ha
    obtain ⟨d, hd, rfl⟩ := hb
    exact Edges.eq_of_contains hinc hc hd (by simpa using hax) (by simpa using hbx)

theorem agrees_of_isRow {b : Binning} (row : b.layout.IsRow edges)
    (hfind : ∀ x, b.find x = findOnAxis b.policy accepted locate x)
    (hlocate : ∀ v, accepted v = true → ∀ k, locate v = some k ↔
      ∃ c, (Edges.cells edges)[k]? = some c ∧ c.contains v = true)
    (haccepted : ∀ v, isBinnable v = true → ∀ c ∈ Edges.cells edges, c.contains v = true →
      accepted v = true) : b.lookup.Agrees := by
  have hlookup : b.lookup = ⟨1, Edges.bins edges, findOnAxis b.policy accepted locate⟩ := by
    rw [lookup, funext hfind, axisCount, axisCount_row row]
    exact congrArg (Lookup.mk 1 · _) row.bins_eq
  rw [hlookup]
  exact agrees_row accepted locate row.increasing (row.bins_eq ▸ row.length_lt)
    (fun _ _ => findOnAxis_eq_found.mp) (fun _ _ => locate_eq_none_of_findOnAxis)
    hlocate haccepted

variable {axis : UniformAxis} {base : LogBase}

theorem agrees_linear (row : layout.IsRow axis.edges.toList) :
    (lookup (.linear layout axis)).Agrees := by
  refine agrees_of_isRow row (find_linear layout axis) ?_ ?_
  · intro v _ k
    rw [UniformAxis.binOf, UniformAxis.locate_eq_some_iff row.increasing,
      UniformAxis.cell?_eq_cells]
  · intro v hv _ _ _
    exact hv

theorem agrees_contiguous (row : layout.IsRow edges) :
    (lookup (.contiguous layout (Edges.cells edges).toArray)).Agrees := by
  refine agrees_of_isRow row (find_contiguous layout _) ?_ ?_
  · intro v hv k
    exact Cells.search_eq_some_iff row.increasing (isNaN_of_isBinnable hv)
  · intro v hv _ _ _
    exact hv

/-- Ordinary numbers above a positive one are normal. -/
theorem isLoggable_of_lt {u v : Float} (hu : 0.0 < u) (huv : u ≤ v) (hv : isBinnable v = true) :
    isLoggable v = true := by
  rw [lt_iff, ordinal_zero] at hu
  rw [le_iff] at huv
  have hne : ¬(v == 0.0) = true := fun h => by
    rw [beq_iff, ordinal_zero] at h
    omega
  have hnonneg : ¬v < 0.0 := fun h => by
    rw [lt_iff, ordinal_zero] at h
    omega
  rw [isBinnable, Bool.or_eq_true] at hv
  simp [isLoggable, hv.resolve_left hne, hnonneg]

/-- Between edges that start above zero there are only numbers that have a logarithm. -/
theorem isLoggable_of_contains {v : Float} {c : Extent} (hinc : edges.Pairwise (· < ·))
    (positive : ∀ e, edges[0]? = some e → 0.0 < e) (hv : isBinnable v = true)
    (hc : c ∈ Edges.cells edges) (hcv : c.contains v = true) : isLoggable v = true := by
  -- the cell starts at the first edge or above it, and that is positive
  obtain ⟨k, hk⟩ := List.mem_iff_getElem?.mp hc
  obtain ⟨hlow, -⟩ := Edges.getElem?_cells.mp hk
  have hfirst := List.getElem?_eq_getElem (l := edges) (i := 0)
    (Nat.zero_lt_of_lt (List.getElem?_eq_some_iff.mp hlow).1)
  have hpos := positive _ hfirst
  have hle := Edges.ordinal_le_of_getElem? hinc hfirst hlow (Nat.zero_le k)
  rw [Extent.contains_iff] at hcv
  refine isLoggable_of_lt (u := c.low) ?_ hcv.1 hv
  rw [lt_iff] at hpos ⊢
  exact ⟨hpos.1, (le_iff.mp hcv.1).1, hpos.2.2.trans_le hle⟩

theorem agrees_logarithmic (row : layout.IsRow axis.edges.toList)
    (positive : ∀ e, axis.edges[0]? = some e → 0.0 < e) :
    (lookup (.logarithmic layout base axis)).Agrees := by
  refine agrees_of_isRow row (find_logarithmic layout base axis) ?_ ?_
  · intro v _ k
    rw [UniformAxis.locate_eq_some_iff row.increasing, UniformAxis.cell?_eq_cells]
  · intro v hv c hc hcv
    exact isLoggable_of_contains row.increasing
      (fun e he => positive e (Array.getElem?_toList ▸ he)) hv hc hcv

end Rows

/-! ### Boxes -/

section Boxes

theorem find_scan (h : layout.axisCount ≤ x.length) :
    find (.scan layout) x = .ok (findByScan layout.bins x) := by
  show (do requireCoordinates layout.axisCount x; return findByScan layout.bins x) = _
  rw [requireCoordinates_eq_ok.mpr h]
  rfl

theorem length_of_find_scan {i : BinIndex} (h : find (.scan layout) x = found i) :
    layout.axisCount ≤ x.length := by
  obtain ⟨⟨⟩, hlen, -⟩ := bind_eq_ok.mp h
  exact requireCoordinates_eq_ok.mp hlen

theorem agrees_scan (partition : Bins.IsPartition layout.bins)
    (length_lt : layout.bins.length < binLimit) : (lookup (.scan layout)).Agrees where
  axisCount_eq := partition.axisCount_eq
  sound x i hi := by
    have hlen := length_of_find_scan hi
    have hscan := Except.ok.inj ((find_scan hlen).symm.trans hi)
    obtain ⟨k, b, hb, hbx, rfl⟩ := (findByScan_eq_some_iff partition hlen).mp hscan
    rw [toNat_ofNat_of_lt length_lt (List.getElem?_eq_some_iff.mp hb).1]
    exact ⟨hlen, b, hb, hbx⟩
  complete x hlen _ hnone b hb := by
    have hscan : findByScan layout.bins x = none :=
      Except.ok.inj ((find_scan hlen).symm.trans hnone)
    obtain ⟨k, hk⟩ := List.mem_iff_getElem?.mp hb
    by_contra hbx
    have hsome := (findByScan_eq_some_iff partition hlen).mpr
      ⟨k, b, hk, Bool.eq_true_of_not_eq_false hbx, rfl⟩
    rw [hscan] at hsome
    cases hsome
  eq_of_contains x i j a b hlen ha hb hax hbx := partition.eq_of_contains hlen ha hb hax hbx

theorem agrees_columns (partition : Bins.IsPartition layout.bins)
    (length_lt : layout.bins.length < binLimit) :
    (lookup (.columns layout (ColumnIndex.ofBins layout.bins))).Agrees := by
  have hfind : find (.columns layout (ColumnIndex.ofBins layout.bins)) = find (.scan layout) :=
    funext (find_columns_eq_find_scan layout layout partition rfl)
  show Agrees ⟨layout.axisCount, layout.bins, _⟩
  rw [hfind]
  exact agrees_scan partition length_lt

end Boxes

/-! ### Grids and products -/

/-- The lookup on the axis of a grid that has the given number. -/
def axisLookup (policy : InputPolicy) (axis : UniformAxis) (number : Nat) : Lookup where
  axisCount := 1
  bins := axisBins axis
  find
    | [] => .ok none
    | v :: _ =>
      if isBinnable v then .ok ((axis.binOf v).map UInt32.ofNat)
      else reject policy (.unbinnable v number)

/-- The lookups on the axes of a grid, of which the first is number `n`. -/
def axisLookups (policy : InputPolicy) (n : Nat) (axes : List UniformAxis) : List Lookup :=
  (axes.zipIdx n).map fun (axis, k) => axisLookup policy axis k

theorem sum_axisLookups :
    ((axisLookups policy n axes).map Lookup.axisCount).sum = axes.length := by
  induction axes generalizing n with
  | nil => rfl
  | cons axis axes ih =>
    show 1 + ((axisLookups policy (n + 1) axes).map Lookup.axisCount).sum = _
    rw [ih, List.length_cons, Nat.add_comm]

theorem map_bins_axisLookups (policy : InputPolicy) (n : Nat) :
    (axisLookups policy n axes).map Lookup.bins = axes.map axisBins := by
  induction axes generalizing n with
  | nil => rfl
  | cons axis axes ih => exact congrArg (axisBins axis :: ·) (ih (n + 1))

theorem map_length_axisLookups (policy : InputPolicy) (n : Nat) :
    (axisLookups policy n axes).map (fun p => p.bins.length) =
      axes.map fun axis => (axisBins axis).length := by
  have h : ((axisLookups policy n axes).map Lookup.bins).map List.length =
      (axes.map axisBins).map List.length := by rw [map_bins_axisLookups]
  rwa [List.map_map, List.map_map] at h

theorem forall_axisLookups {P : Lookup → Prop}
    (h : ∀ axis ∈ axes, ∀ n, P (axisLookup policy axis n)) :
    ∀ p ∈ axisLookups policy n axes, P p := by
  intro p hp
  obtain ⟨⟨axis, k⟩, hmem, rfl⟩ := List.mem_map.mp hp
  exact h axis (List.fst_mem_of_mem_zipIdx hmem) k

theorem partDigits_eq_collect : ∀ (parts : List Binning) (x : List Float),
    partDigits parts x = collect (results (parts.map lookup) x)
  | [], x => by rw [partDigits]; rfl
  | part :: parts, x => by
    rw [partDigits, partDigits_eq_collect parts, List.map_cons, results_cons]
    show _ = collect (find part (x.take part.axisCount) :: _)
    rcases find part (x.take part.axisCount) with e | _ | i
    · rfl
    · rfl
    · exact bind_pure_eq_map _ _

theorem results_axisLookups_cons (axis : UniformAxis) (v : Float) (x : List Float) :
    results (axisLookups policy n (axis :: axes)) (v :: x) =
      (axisLookup policy axis n).find [v] :: results (axisLookups policy (n + 1) axes) x := by
  simp [axisLookups, axisLookup]

theorem gridDigits_eq_collect (h : axes.length ≤ x.length) :
    gridDigits policy n axes x = collect (results (axisLookups policy n axes) x) := by
  induction axes generalizing n x with
  | nil => cases x <;> rfl
  | cons axis axes ih =>
    cases x with
    | nil => cases h
    | cons v x =>
      have ih := ih (n := n + 1) (Nat.le_of_succ_le_succ h)
      rw [results_axisLookups_cons, gridDigits, ih]
      dsimp only [axisLookup]
      split_ifs
      · cases axis.binOf v with
        | none => rfl
        | some k => exact bind_pure_eq_map _ _
      · cases policy <;> rfl

/-- The answers of the parts to the pieces of a point, one part after the other. -/
def partAnswers (parts : List Binning) (x : List Float) : List Answer :=
  List.zipWith find parts ((parts.map axisCount).splitLengths x)

theorem results_lookup : results (parts.map lookup) x = partAnswers parts x := by
  rw [results, partAnswers, List.zipWith_map_left, List.map_map]
  rfl

theorem find_grid (layout : Layout) (axes : List UniformAxis) (strides : List BinIndex)
    (x : List Float) :
    find (.grid layout axes strides) x = findInGrid layout.policy axes strides x := rfl

/-- The lookup in a grid combines those on the axes. -/
theorem lookup_grid (h : (grid layout axes strides).WellFormed) :
    (grid layout axes strides).lookup =
      combined (fun x => reject layout.policy (.tooFewCoordinates axes.length x.length)) strides
        (axisLookups layout.policy 0 axes) := by
  have hfind : find (grid layout axes strides) =
      (combined (fun x => reject layout.policy (.tooFewCoordinates axes.length x.length)) strides
        (axisLookups layout.policy 0 axes)).find := by
    funext x
    rw [find_grid, findInGrid]
    dsimp only [combined]
    rw [sum_axisLookups]
    split_ifs with hlen
    · rfl
    · rw [gridDigits_eq_collect (not_lt.mp hlen)]
      exact bind_pure_eq_map _ _
  have hcount : axisCount (grid layout axes strides) =
      ((axisLookups layout.policy 0 axes).map Lookup.axisCount).sum := by
    rw [sum_axisLookups]
    exact axisCount_grid h
  cases h with
  | grid _ _ bins_eq =>
    rw [← map_bins_axisLookups layout.policy 0] at bins_eq
    rw [lookup, hfind, hcount]
    exact congrArg (Lookup.mk _ · _) bins_eq

/-- The lookup in a product combines those in the parts. -/
theorem lookup_product (h : (product layout parts strides).WellFormed) :
    (product layout parts strides).lookup =
      combined (fun x => .error (.axisCountMismatch (parts.map axisCount).sum x.length)) strides
        (parts.map lookup) := by
  have hsum : (parts.map lookup).map Lookup.axisCount = parts.map axisCount := List.map_map
  have hfind : find (product layout parts strides) =
      (combined (fun x => .error (.axisCountMismatch (parts.map axisCount).sum x.length)) strides
        (parts.map lookup)).find := by
    funext x
    show (do
      requireCoordinates (parts.map axisCount).sum x
      let digits ← partDigits parts x
      return digits.map (encode strides)) = _
    rw [partDigits_eq_collect]
    dsimp only [combined]
    rw [hsum]
    unfold requireCoordinates
    split_ifs with hlen
    · rfl
    · exact bind_pure_eq_map _ _
  have hcount := axisCount_product h
  cases h with
  | product _ _ _ bins_eq =>
    have hbins : (parts.map lookup).map Lookup.bins = parts.map bins := List.map_map
    rw [← hbins] at bins_eq
    rw [← hsum] at hcount
    rw [lookup, hfind, hcount]
    exact congrArg (Lookup.mk _ · _) bins_eq

theorem find_grid_eq_combine {layout : Layout} (h : (grid layout axes strides).WellFormed)
    (x : List Float) :
    find (grid layout axes strides) x =
      if x.length < axes.length then
        reject layout.policy (.tooFewCoordinates axes.length x.length)
      else combine strides (results (axisLookups layout.policy 0 axes) x) := by
  have hfind := congrArg (fun p => p.find x) (lookup_grid h)
  dsimp only [combined] at hfind
  rwa [sum_axisLookups] at hfind

theorem find_product {layout : Layout} {strides : List BinIndex}
    (h : (product layout parts strides).WellFormed) (x : List Float) :
    find (product layout parts strides) x =
      if x.length < (parts.map axisCount).sum then
        .error (.axisCountMismatch (parts.map axisCount).sum x.length)
      else combine strides (partAnswers parts x) := by
  have hsum : (parts.map lookup).map Lookup.axisCount = parts.map axisCount := List.map_map
  have hfind := congrArg (fun p => p.find x) (lookup_product h)
  dsimp only [combined] at hfind
  rwa [hsum, results_lookup] at hfind

theorem bounded_axisLookup (axis : UniformAxis) (n : Nat) :
    (axisLookup policy axis n).Bounded := by
  intro x i hi
  dsimp only [axisLookup] at hi ⊢
  cases x with
  | nil => simp [found] at hi
  | cons v x =>
    dsimp only at hi
    split_ifs at hi
    · obtain ⟨k, hk, rfl⟩ := Option.map_eq_some_iff.mp (Except.ok.inj hi)
      have hlt := UniformAxis.lt_size_of_locate hk
      have hle : (UInt32.ofNat k).toNat ≤ k := Nat.mod_le _ _
      rw [axisBins, Edges.length_bins, Array.length_toList]
      omega
    · exact absurd hi (reject_ne_found policy _ i)

theorem agrees_axisLookup {axis : UniformAxis} {n : Nat}
    (hinc : axis.edges.toList.Pairwise (· < ·)) (hlt : (axisBins axis).length < binLimit) :
    (axisLookup policy axis n).Agrees := by
  apply agrees_row isBinnable axis.binOf hinc hlt
  · intro x i hi
    cases x with
    | nil => cases hi
    | cons v rest =>
      dsimp only at hi
      split_ifs at hi with hv
      · obtain ⟨k, hk, rfl⟩ := Option.map_eq_some_iff.mp (Except.ok.inj hi)
        exact ⟨v, rest, k, rfl, hv, hk, rfl⟩
      · exact absurd hi (reject_ne_found policy _ i)
  · intro v rest hnone hv
    dsimp only at hnone
    rw [if_pos hv] at hnone
    simpa using Except.ok.inj hnone
  · intro v _ k
    rw [UniformAxis.binOf, UniformAxis.locate_eq_some_iff hinc, UniformAxis.cell?_eq_cells]
  · intro v hv _ _ _
    exact hv

/-- Every lookup finds only bins that exist. -/
theorem WellFormed.bounded {b : Binning} (h : b.WellFormed) : b.lookup.Bounded := by
  induction h with
  | linear row => exact (agrees_linear row).bounded
  | logarithmic row positive => exact (agrees_logarithmic row positive).bounded
  | contiguous row => exact (agrees_contiguous row).bounded
  | columns partition length_lt => exact (agrees_columns partition length_lt).bounded
  | scan partition length_lt => exact (agrees_scan partition length_lt).bounded
  | @grid layout axes strides ne_nil numbering bins_eq =>
    rw [lookup_grid (.grid ne_nil numbering bins_eq)]
    refine bounded_combined (fun x i => reject_ne_found _ _ i)
      (forall_axisLookups fun axis _ n => bounded_axisLookup axis n) ?_
    rwa [map_length_axisLookups]
  | @product layout parts strides ne_nil forall_parts numbering bins_eq ih =>
    rw [lookup_product (.product ne_nil forall_parts numbering bins_eq)]
    refine bounded_combined (fun x i => nofun) (List.forall_mem_map.mpr ih) ?_
    rwa [List.map_map]

end Binning

end BoxBinning
