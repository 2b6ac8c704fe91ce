import BoxBinning.Binning.Build
import BoxBinning.Binning.Find
import BoxBinning.Columns
import BoxBinning.Proofs.Order

/-!
# Lookup through columns

`ColumnIndex.Indexes` says what an index of bins has to be: every bin stands in a column whose
extent it has on the axis of the columns, and the columns ascend. The index that is built of
numeric bins has this form (`ColumnIndex.indexes_ofBins`). In an index of this form the search that
stops at the first column above the point finds the bin that contains the point
(`ColumnIndex.find_eq_some_iff`), as trying all bins does (`Binning.findByScan_eq_some_iff`). So the
two ways of finding boxes cannot be told apart (`Binning.ofBins_observes_ofBinsByScan`).
-/

namespace BoxBinning

open Binary64

theorem mapM_eq_some_iff {α β : Type} {f : α → Option β} {l : List α} {l' : List β} :
    l.mapM f = some l' ↔ l.map f = l'.map some := by
  induction l generalizing l' with
  | nil => cases l' <;> simp
  | cons a l ih =>
    rw [List.mapM_cons]
    cases l' with
    | nil => cases f a <;> cases l.mapM f <;> simp
    | cons b l' =>
      rw [List.map_cons, List.map_cons, List.cons.injEq, ← ih]
      cases f a <;> cases l.mapM f <;> simp

theorem mapM_eq_none_iff {α β : Type} {f : α → Option β} {l : List α} :
    l.mapM f = none ↔ ∃ a ∈ l, f a = none := by
  induction l with
  | nil => simp
  | cons a l ih =>
    rw [List.mapM_cons, List.exists_mem_cons_iff, ← ih]
    cases f a <;> cases l.mapM f <;> simp

theorem exists_mapM_eq_some {α β : Type} {f : α → Option β} {l : List α}
    (h : ∀ a ∈ l, ∃ b, f a = some b) : ∃ l', l.mapM f = some l' := by
  induction l with
  | nil => exact ⟨[], rfl⟩
  | cons a l ih =>
    obtain ⟨⟨b, hb⟩, hl⟩ := List.forall_mem_cons.mp h
    obtain ⟨l', hl'⟩ := ih hl
    exact ⟨b :: l', by rw [List.mapM_cons, hb, hl']; rfl⟩

namespace Bins

variable {bins : List Bin} {cells : List (Extent × Nat)} {axis k : Nat} {e : Extent}

/-! ### Cells in order -/

theorem mem_cellsOn? (h : cellsOn? bins axis = some cells) :
    (e, k) ∈ cells ↔ ∃ b, bins[k]? = some b ∧ b.extents[axis]? = some e := by
  obtain ⟨es, hes, rfl⟩ := Option.map_eq_some_iff.mp h
  have hk := congrArg (·[k]?) (mapM_eq_some_iff.mp hes)
  simp only [List.getElem?_map] at hk
  rw [List.mk_mem_zipIdx_iff_getElem?]
  cases hb : bins[k]? <;> cases he : es[k]? <;> simp_all

theorem isNumeric_of_mem_cellsOn? (h : cellsOn? bins axis = some cells)
    (hnum : ∀ b ∈ bins, b.IsNumeric) : ∀ c ∈ cells, c.1.IsNumeric := by
  rintro ⟨e, k⟩ hc
  obtain ⟨b, hb, he⟩ := (mem_cellsOn? h).mp hc
  exact hnum b (List.mem_of_getElem? hb) e (List.mem_of_getElem? he)

theorem length_cellsOn? (h : cellsOn? bins axis = some cells) : cells.length = bins.length := by
  obtain ⟨es, hes, rfl⟩ := Option.map_eq_some_iff.mp h
  simpa using congrArg List.length (mapM_eq_some_iff.mp hes).symm

theorem exists_cellsOn? (h : ∀ b ∈ bins, axis < b.axisCount) :
    ∃ cells, cellsOn? bins axis = some cells := by
  obtain ⟨es, hes⟩ := exists_mapM_eq_some (f := fun b : Bin => b.extents[axis]?) (l := bins)
    fun b hb => ⟨_, List.getElem?_eq_getElem (h b hb)⟩
  exact ⟨es.zipIdx, by rw [cellsOn?, hes]; rfl⟩

theorem compare?_bne_gt (h : ∀ c ∈ cells, c.1.IsNumeric) : ∀ a ∈ cells, ∀ b ∈ cells,
    (a.1.compare? b.1 != some .gt) = decide (a.1.key ≤ b.1.key) := by
  intro a ha b hb
  rw [Extent.compare?_eq (h a ha) (h b hb), Bool.eq_iff_iff, decide_eq_true_iff]
  simp [compare_gt_iff_gt]

/-- Numeric cells are put in the order of their extents. -/
theorem pairwise_orderCells (h : ∀ c ∈ cells, c.1.IsNumeric) :
    (orderCells cells).Pairwise fun a b => a.1.key ≤ b.1.key :=
  pairwise_mergeSort_of_key (compare?_bne_gt h)

theorem mem_orderCells {c : Extent × Nat} : c ∈ orderCells cells ↔ c ∈ cells :=
  (List.mergeSort_perm cells _).mem_iff

theorem forall_isNumeric_orderCells (h : ∀ c ∈ cells, c.1.IsNumeric) :
    ∀ c ∈ orderCells cells, c.1.IsNumeric := fun c hc => h c (mem_orderCells.mp hc)

theorem length_orderCells : (orderCells cells).length = cells.length := List.length_mergeSort cells

/-- There is a list of ordered cells for each axis of the first bin. -/
theorem getElem?_orderedCells? {orders : List (List (Extent × Nat))}
    {ordered : List (Extent × Nat)} (h : orderedCells? bins = some orders) :
    orders[axis]? = some ordered ↔ axis < axisCount bins ∧
      ∃ cells, cellsOn? bins axis = some cells ∧ orderCells cells = ordered := by
  have hk := congrArg (·[axis]?) (mapM_eq_some_iff.mp h)
  simp only [List.getElem?_map] at hk
  rcases Nat.lt_or_ge axis (axisCount bins) with hlt | hge
  · have horder : orders[axis]? = orderCells <$> cellsOn? bins axis := by
      rw [List.getElem?_range hlt] at hk
      cases ho : orders[axis]? <;> simp_all
    rw [horder, and_iff_right hlt]
    exact Option.map_eq_some_iff
  · rw [List.getElem?_eq_none (by simpa using hge)] at hk
    cases ho : orders[axis]? <;> simp_all

theorem exists_orderedCells? (haxes : ∀ b ∈ bins, axisCount bins ≤ b.axisCount) :
    ∃ orders, orderedCells? bins = some orders := by
  refine exists_mapM_eq_some fun axis haxis => ?_
  obtain ⟨cells, h⟩ : ∃ cells, cellsOn? bins axis = some cells :=
    exists_cellsOn? fun b hb => (List.mem_range.mp haxis).trans_le (haxes b hb)
  exact ⟨orderCells cells, by rw [h]; rfl⟩

end Bins

namespace Columns

variable {bins : List Bin} {cells : List (Extent × Nat)} {axis : Nat}

/-! ### Grouping -/

/-- The chosen grouping is one of the given ones, none of them has more columns, and those on lower
axes have fewer. -/
theorem foldl_better {best : Columns} {l : List Columns}
    (h : (best :: l).Pairwise fun c d => c.axis < d.axis) :
    l.foldl better best ∈ best :: l ∧
      ∀ c ∈ best :: l, c.groups.length ≤ (l.foldl better best).groups.length ∧
        (c.axis < (l.foldl better best).axis →
          c.groups.length < (l.foldl better best).groups.length) := by
  induction l generalizing best with
  | nil => simp
  | cons next l ih =>
    obtain ⟨hbest, hnext⟩ := List.pairwise_cons.mp h
    obtain ⟨hlt, hrest⟩ := List.forall_mem_cons.mp hbest
    rw [List.foldl_cons]
    by_cases hmore : best.groups.length < next.groups.length
    · rw [better, if_pos hmore]
      obtain ⟨hmem, hmax⟩ := ih hnext
      have hless := hmore.trans_le (hmax next List.mem_cons_self).1
      exact ⟨List.mem_cons_of_mem best hmem,
        List.forall_mem_cons.mpr ⟨⟨hless.le, fun _ => hless⟩, hmax⟩⟩
    · rw [better, if_neg hmore]
      have hskip := List.pairwise_cons.mpr ⟨hrest, (List.pairwise_cons.mp hnext).2⟩
      obtain ⟨hmem, hmax⟩ := ih hskip
      obtain ⟨hfirst, hmax⟩ := List.forall_mem_cons.mp hmax
      refine ⟨?_, List.forall_mem_cons.mpr ⟨hfirst, List.forall_mem_cons.mpr ⟨⟨?_, ?_⟩, hmax⟩⟩⟩
      · exact List.cons_subset_cons best (List.subset_cons_self next l) hmem
      · exact (not_lt.mp hmore).trans hfirst.1
      · -- `next` is on a higher axis than `best`, which has as many columns at least
        exact fun haxis => (not_lt.mp hmore).trans_lt (hfirst.2 (hlt.trans haxis))

theorem length_groups_pos (h : cells ≠ []) : 0 < (onAxis cells axis).groups.length :=
  List.length_pos_of_ne_nil (List.splitBy_ne_nil.mpr h)

/-- The groupings on the axes, from the lowest axis on. -/
theorem pairwise_axis_onAxis (orders : List (List (Extent × Nat))) :
    (orders.zipIdx.map fun p => onAxis p.1 p.2).Pairwise fun c d => c.axis < d.axis := by
  have hsnd : (orders.zipIdx.map Prod.snd).Pairwise (· < ·) := by
    rw [List.zipIdx_map_snd]
    exact List.pairwise_lt_range'
  exact List.pairwise_map.mpr (List.pairwise_map.mp hsnd)

/-- The groupings to choose from are those on the axes of the first bin. -/
theorem mem_map_onAxis {orders : List (List (Extent × Nat))} {c : Columns}
    (h : Bins.orderedCells? bins = some orders) :
    c ∈ orders.zipIdx.map (fun p => onAxis p.1 p.2) ↔
      ∃ axis < Bins.axisCount bins, ∃ cells, Bins.cellsOn? bins axis = some cells ∧
        onAxis (Bins.orderCells cells) axis = c := by
  rw [List.mem_map]
  constructor
  · rintro ⟨⟨ordered, axis⟩, hmem, rfl⟩
    obtain ⟨haxis, cells, hcells, rfl⟩ :=
      (Bins.getElem?_orderedCells? h).mp (List.mk_mem_zipIdx_iff_getElem?.mp hmem)
    exact ⟨axis, haxis, cells, hcells, rfl⟩
  · rintro ⟨axis, haxis, cells, hcells, rfl⟩
    refine ⟨(Bins.orderCells cells, axis), List.mk_mem_zipIdx_iff_getElem?.mpr ?_, rfl⟩
    exact (Bins.getElem?_orderedCells? h).mpr ⟨haxis, cells, hcells, rfl⟩

/-- Bins that have the axes of the first one are grouped on the first of the axes that give the most
columns. -/
theorem exists_ofBins? (hpos : 0 < Bins.axisCount bins)
    (haxes : ∀ b ∈ bins, Bins.axisCount bins ≤ b.axisCount) :
    ∃ axis cells, Columns.ofBins? bins = some (onAxis (Bins.orderCells cells) axis) ∧
      axis < Bins.axisCount bins ∧ Bins.cellsOn? bins axis = some cells ∧
      ∀ other < Bins.axisCount bins, ∀ cells', Bins.cellsOn? bins other = some cells' →
        (onAxis (Bins.orderCells cells') other).groups.length ≤
            (onAxis (Bins.orderCells cells) axis).groups.length ∧
          (other < axis → (onAxis (Bins.orderCells cells') other).groups.length <
            (onAxis (Bins.orderCells cells) axis).groups.length) := by
  obtain ⟨orders, horders⟩ := Bins.exists_orderedCells? haxes
  have hbins : ofBins? bins =
      some ((orders.zipIdx.map fun p => onAxis p.1 p.2).foldl better empty) := by
    rw [ofBins?, horders]
    rfl
  have hmem := fun c => mem_map_onAxis (c := c) horders
  have hasc := pairwise_axis_onAxis orders
  generalize orders.zipIdx.map (fun p => onAxis p.1 p.2) = groupings at hbins hmem hasc
  obtain ⟨cells, hcells⟩ : ∃ cells, Bins.cellsOn? bins 0 = some cells :=
    Bins.exists_cellsOn? fun b hb => hpos.trans_le (haxes b hb)
  have hsome : onAxis (Bins.orderCells cells) 0 ∈ groupings :=
    (hmem _).mpr ⟨0, hpos, cells, hcells, rfl⟩
  obtain ⟨first, rest, rfl⟩ := List.exists_cons_of_ne_nil (List.ne_nil_of_mem hsome)
  -- the grouping of no bins has fewer columns than the first one
  have hfirst : better empty first = first := by
    obtain ⟨axis, -, cells, hcells, rfl⟩ := (hmem first).mp List.mem_cons_self
    refine if_pos (length_groups_pos ?_)
    rw [← List.length_pos_iff, Bins.length_orderCells, Bins.length_cellsOn? hcells]
    exact Bins.length_pos_of_axisCount_pos hpos
  rw [List.foldl_cons, hfirst] at hbins
  obtain ⟨hbest, hmax⟩ := foldl_better hasc
  obtain ⟨axis, haxis, cells, hcells, hgroups⟩ := (hmem _).mp hbest
  rw [← hgroups] at hbins hmax
  refine ⟨axis, cells, hbins, haxis, hcells, fun other hother cells' hcells' => ?_⟩
  exact hmax _ ((hmem _).mpr ⟨other, hother, cells', hcells', rfl⟩)

theorem beq_of_isChain {c d : Extent × Nat} {l : List (Extent × Nat)}
    (h : (c :: l).IsChain fun a b => (a.1 == b.1) = true) (hd : d ∈ l) : (c.1 == d.1) = true := by
  induction l generalizing c with
  | nil => cases hd
  | cons a l ih =>
    obtain ⟨hca, hl⟩ := List.isChain_cons_cons.mp h
    rcases List.mem_cons.mp hd with rfl | hd
    · exact hca
    · exact Extent.beq_trans hca (ih hl hd)

theorem beq_of_mem_groups {c d : Extent × Nat} {group : List (Extent × Nat)}
    (hgroup : c :: group ∈ (onAxis cells axis).groups) (hd : d ∈ group) : (c.1 == d.1) = true :=
  beq_of_isChain (List.isChain_of_mem_splitBy hgroup) hd

end Columns

namespace ColumnIndex

variable {bins : List Bin} {index : ColumnIndex} {columns : List Column} {x : List Float}
  {v : Float} {i : BinIndex}

/-! ### The index -/

/-- What an index of bins has to be for lookup: its columns ascend, hold nothing but the bins with
their indices, and every bin stands in a column that has its extent. -/
structure Indexes (index : ColumnIndex) (bins : List Bin) : Prop where
  /-- The bins have the axis of the columns. -/
  axis_lt : index.axis < Bins.axisCount bins
  /-- The members of the columns are bins with their indices. -/
  getElem?_of_mem : ∀ c ∈ index.columns, ∀ m ∈ c.members,
    ∃ k, bins[k]? = some m.1 ∧ m.2 = UInt32.ofNat k
  /-- Every bin is a member of a column with its extent on the axis. -/
  exists_column : ∀ k b, bins[k]? = some b → ∃ c ∈ index.columns,
    (b, UInt32.ofNat k) ∈ c.members ∧
      ∃ e, b.extents[index.axis]? = some e ∧ (c.extent == e) = true
  /-- The lower ends of the columns do not decrease. -/
  ascending : index.columns.Pairwise fun c d => ordinal c.extent.low ≤ ordinal d.extent.low

theorem column_cons (array : Array Bin) (c : Extent × Nat) (group : List (Extent × Nat)) :
    column array (c :: group) = some ⟨c.1, (c :: group).filterMap fun (_, k) =>
      array[k]?.map fun b => (b, UInt32.ofNat k)⟩ := rfl

/-- The members of a column are bins with their indices. -/
theorem getElem?_of_column {group : List (Extent × Nat)} {c : Column}
    (hc : column bins.toArray group = some c) :
    ∀ m ∈ c.members, ∃ k, bins[k]? = some m.1 ∧ m.2 = UInt32.ofNat k := by
  intro m hm
  cases group with
  | nil => cases hc
  | cons d group =>
    rw [column_cons] at hc
    obtain rfl := Option.some.inj hc
    obtain ⟨⟨_, k⟩, _, hk⟩ := List.mem_filterMap.mp hm
    obtain ⟨b, hb, rfl⟩ := Option.map_eq_some_iff.mp hk
    rw [List.getElem?_toArray] at hb
    exact ⟨k, hb, rfl⟩

/-- A cell of numbers in one of the groups puts its bin in a column with an equal extent. -/
theorem exists_column_of_cell {axis k : Nat} {cells : List (Extent × Nat)} {e : Extent} {b : Bin}
    (he : e.IsNumeric) (hb : bins[k]? = some b)
    (hcell : (e, k) ∈ (Columns.onAxis cells axis).groups.flatten) :
    ∃ c ∈ (Columns.onAxis cells axis).groups.filterMap (column bins.toArray),
      (b, UInt32.ofNat k) ∈ c.members ∧ (c.extent == e) = true := by
  obtain ⟨group, hgroup, hin⟩ := List.mem_flatten.mp hcell
  cases group with
  | nil => cases hin
  | cons a group =>
    refine ⟨_, List.mem_filterMap.mpr ⟨_, hgroup, column_cons _ a group⟩, ?_, ?_⟩
    · refine List.mem_filterMap.mpr ⟨_, hin, ?_⟩
      simp [hb]
    · rcases List.mem_cons.mp hin with rfl | hin
      · exact Extent.beq_refl he
      · show (a.1 == (e, k).1) = true
        exact Columns.beq_of_mem_groups hgroup hin

/-- Columns of groups of ordered cells ascend. -/
theorem pairwise_columns {groups : List (List (Extent × Nat))} (array : Array Bin)
    (hsorted : groups.flatten.Pairwise fun a b => a.1.key ≤ b.1.key) :
    (groups.filterMap (column array)).Pairwise fun c d =>
      ordinal c.extent.low ≤ ordinal d.extent.low := by
  rw [List.pairwise_flatten] at hsorted
  refine hsorted.2.filterMap _ fun g g' hle c hc d hd => ?_
  -- a column has the extent of the first cell of its group
  cases g with
  | nil => cases hc
  | cons a g =>
    cases g' with
    | nil => cases hd
    | cons b g' =>
      rw [column_cons] at hc hd
      obtain rfl := Option.some.inj hc
      obtain rfl := Option.some.inj hd
      have hkey : a.1.key ≤ b.1.key := hle a List.mem_cons_self b List.mem_cons_self
      exact Extent.ordinal_low_le_of_key_le hkey

/-- The columns of the groups of ordered numeric cells. -/
theorem indexes_of_cells {axis : Nat} {cells : List (Extent × Nat)}
    (haxis : axis < Bins.axisCount bins)
    (hcount : ∀ b ∈ bins, b.axisCount = Bins.axisCount bins)
    (hcells : Bins.cellsOn? bins axis = some cells) (hnum : ∀ c ∈ cells, c.1.IsNumeric) :
    Indexes ⟨axis, (Columns.onAxis (Bins.orderCells cells) axis).groups.filterMap
      (column bins.toArray)⟩ bins := by
  have hflat : (Columns.onAxis (Bins.orderCells cells) axis).groups.flatten =
      Bins.orderCells cells := List.flatten_splitBy _ _
  refine ⟨haxis, fun c hc => ?_, fun k b hb => ?_, ?_⟩
  · obtain ⟨group, -, hcolumn⟩ := List.mem_filterMap.mp hc
    exact getElem?_of_column hcolumn
  · have hlt : axis < b.extents.length :=
      haxis.trans_eq (hcount b (List.mem_of_getElem? hb)).symm
    have he := List.getElem?_eq_getElem hlt
    have hmem : (b.extents[axis], k) ∈ cells := (Bins.mem_cellsOn? hcells).mpr ⟨b, hb, he⟩
    have hcell := Bins.mem_orderCells.mpr hmem
    rw [← hflat] at hcell
    obtain ⟨c, hc, hm, hbeq⟩ := exists_column_of_cell (hnum _ hmem) hb hcell
    exact ⟨c, hc, hm, _, he, hbeq⟩
  · apply pairwise_columns
    rw [hflat]
    exact Bins.pairwise_orderCells hnum

/-- The index built of a partition is one for lookup. -/
theorem indexes_ofBins (h : Bins.IsPartition bins) : (ofBins bins).Indexes bins := by
  obtain ⟨axis, cells, hcolumns, haxis, hcells, -⟩ :=
    Columns.exists_ofBins? h.axisCount_pos fun b hb => (h.axisCount_eq b hb).ge
  rw [ofBins, hcolumns]
  refine indexes_of_cells haxis h.axisCount_eq hcells (Bins.isNumeric_of_mem_cellsOn? hcells ?_)
  exact fun b hb => Bin.isNumeric_of_isIncreasing (h.isIncreasing b hb)

/-! ### The search -/

/-- What the search finds is a member that contains the point. -/
theorem exists_mem_of_search (h : search x v columns = some i) :
    ∃ c ∈ columns, ∃ m ∈ c.members, m.1.contains x = true ∧ m.2 = i := by
  induction columns with
  | nil => cases h
  | cons c rest ih =>
    have hrest : search x v rest = some i →
        ∃ d ∈ c :: rest, ∃ m ∈ d.members, m.1.contains x = true ∧ m.2 = i := fun h => by
      obtain ⟨d, hd, hm⟩ := ih h
      exact ⟨d, List.mem_cons_of_mem c hd, hm⟩
    unfold search at h
    split_ifs at h with hlow hcontains
    · split at h
      · rename_i m hfind
        exact ⟨c, List.mem_cons_self, m, List.mem_of_find?_eq_some hfind,
          List.find?_some (p := fun m : Bin × BinIndex => m.1.contains x) hfind,
          Option.some.inj h⟩
      · exact hrest h
    · exact hrest h

/-- The search does not end before the column of a member that contains the point. -/
theorem exists_search_eq_some {c : Column} {m : Bin × BinIndex}
    (hasc : columns.Pairwise fun c d => ordinal c.extent.low ≤ ordinal d.extent.low)
    (hc : c ∈ columns) (hv : c.extent.contains v = true) (hm : m ∈ c.members)
    (hx : m.1.contains x = true) : ∃ i, search x v columns = some i := by
  induction columns with
  | nil => cases hc
  | cons d rest ih =>
    obtain ⟨hd, hrest⟩ := List.pairwise_cons.mp hasc
    obtain ⟨hlow, -⟩ := Extent.contains_iff.mp hv
    rw [le_iff] at hlow
    unfold search
    rcases List.mem_cons.mp hc with rfl | hc
    · rw [if_neg fun h => absurd (lt_iff.mp h).2.2 (not_lt.mpr hlow.2.2), if_pos hv]
      split
      · exact ⟨_, rfl⟩
      · rename_i hfind
        exact absurd hx (List.find?_eq_none.mp hfind m hm)
    · -- the lower ends do not decrease, so no column before `c` starts above the number
      rw [if_neg fun h => absurd (lt_iff.mp h).2.2 (not_lt.mpr ((hd c hc).trans hlow.2.2))]
      split_ifs
      · split
        · exact ⟨_, rfl⟩
        · exact ih hrest hc
      · exact ih hrest hc

/-- Lookup through columns finds the bin that contains the point. -/
theorem find_eq_some_iff (h : index.Indexes bins) (hbins : Bins.IsPartition bins)
    (hlen : Bins.axisCount bins ≤ x.length) :
    index.find x = some i ↔
      ∃ k b, bins[k]? = some b ∧ b.contains x = true ∧ i = UInt32.ofNat k := by
  obtain ⟨v, hv⟩ : ∃ v, x[index.axis]? = some v :=
    ⟨_, List.getElem?_eq_getElem (h.axis_lt.trans_le hlen)⟩
  have hsound : ∀ j, index.find x = some j →
      ∃ k b, bins[k]? = some b ∧ b.contains x = true ∧ j = UInt32.ofNat k := fun j hj => by
    rw [find, hv] at hj
    obtain ⟨c, hc, m, hm, hx, rfl⟩ := exists_mem_of_search hj
    obtain ⟨k, hk, hindex⟩ := h.getElem?_of_mem c hc m hm
    exact ⟨k, m.1, hk, hx, hindex⟩
  refine ⟨hsound i, ?_⟩
  rintro ⟨k, b, hb, hx, rfl⟩
  obtain ⟨c, hc, hm, e, he, hbeq⟩ := h.exists_column k b hb
  have hcv : c.extent.contains v = true :=
    (Extent.contains_congr hbeq).trans (Bin.contains_iff.mp hx _ e _ he hv)
  obtain ⟨j, hj⟩ := exists_search_eq_some h.ascending hc hcv hm hx
  have hfind : index.find x = some j := by rwa [find, hv]
  obtain ⟨k', b', hb', hx', rfl⟩ := hsound j hfind
  rw [hfind, hbins.eq_of_contains hlen hb' hb hx' hx]

end ColumnIndex

namespace Binning

variable {bins : List Bin} {x : List Float} {i : BinIndex}

/-! ### Boxes found in two ways -/

/-- Trying one bin after the other finds the bin that contains the point. -/
theorem findByScan_eq_some_iff (hbins : Bins.IsPartition bins)
    (hlen : Bins.axisCount bins ≤ x.length) :
    findByScan bins x = some i ↔
      ∃ k b, bins[k]? = some b ∧ b.contains x = true ∧ i = UInt32.ofNat k := by
  unfold findByScan
  rw [Option.map_eq_some_iff]
  constructor
  · rintro ⟨k, hk, rfl⟩
    obtain ⟨hlt, hx, -⟩ := List.findIdx?_eq_some_iff_getElem.mp hk
    exact ⟨k, bins[k], List.getElem?_eq_getElem hlt, hx, rfl⟩
  · rintro ⟨k, b, hb, hx, rfl⟩
    refine ⟨k, ?_, rfl⟩
    obtain ⟨hlt, rfl⟩ := List.getElem?_eq_some_iff.mp hb
    refine List.findIdx?_eq_some_iff_getElem.mpr ⟨hlt, hx, fun j hj hjx => ?_⟩
    exact hj.ne (hbins.eq_of_contains hlen (List.getElem?_eq_getElem _) hb hjx hx)

theorem requireCoordinates_eq_ok {n : Nat} : requireCoordinates n x = .ok () ↔ n ≤ x.length :=
  ite_error_eq_ok.trans not_lt

/-- On a partition the two lookups give the same answers and errors. -/
theorem find_columns_eq_find_scan (layout layout' : Layout) (hbins : Bins.IsPartition layout.bins)
    (h : layout'.bins = layout.bins) (x : List Float) :
    find (columns layout (ColumnIndex.ofBins layout.bins)) x = find (scan layout') x := by
  show (do
      requireCoordinates (Bins.axisCount layout.bins) x
      return (ColumnIndex.ofBins layout.bins).find x) = (do
      requireCoordinates (Bins.axisCount layout'.bins) x
      return findByScan layout'.bins x)
  rw [h]
  cases hlen : requireCoordinates (Bins.axisCount layout.bins) x with
  | error e => rfl
  | ok =>
    have hfind : (ColumnIndex.ofBins layout.bins).find x = findByScan layout.bins x := by
      ext i
      rw [ColumnIndex.find_eq_some_iff (ColumnIndex.indexes_ofBins hbins) hbins
          (requireCoordinates_eq_ok.mp hlen),
        findByScan_eq_some_iff hbins (requireCoordinates_eq_ok.mp hlen)]
    rw [hfind]

/-- Lists of boxes are accepted or refused alike, whichever way of finding is chosen, and the
binnings that are built cannot be told apart by their lookups. -/
theorem ofBins_observes_ofBinsByScan (policy policy' : InputPolicy) (bins : List Bin)
    (labels : List String) :
    (ofBins policy bins labels).map (fun b => (b.labels, b.bins, b.find)) =
      (ofBinsByScan policy' bins labels).map fun b => (b.labels, b.bins, b.find) := by
  unfold ofBins ofBinsByScan Layout.ofBins
  cases hbins : Bins.requirePartition bins with
  | error e => rfl
  | ok =>
    have hpart := Bins.isPartition_of_requirePartition hbins
    split_ifs
    · let padded := Layout.padLabels labels (Bins.axisCount bins)
      have hfind : (columns ⟨padded, bins, policy⟩ (ColumnIndex.ofBins bins)).find
          = (scan ⟨padded, bins, policy'⟩).find :=
        funext (find_columns_eq_find_scan _ _ hpart rfl)
      exact congrArg (fun find => Except.ok (padded, bins, find)) hfind
    · rfl

end Binning

end BoxBinning
