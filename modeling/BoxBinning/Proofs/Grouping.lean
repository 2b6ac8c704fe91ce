import BoxBinning.Proofs.Columns
import BoxBinning.Proofs.Projection

/-!
# Orders and columns along an axis

The positions of bins are ordered by the extents on an axis, and those of equal extents stand in the
order of the list (`Bins.isAxisOrder_orderCells`), since sorting is stable. Equal extents are
therefore neighbours in the order, and cutting it between neighbours with different extents gives
one column for each distinct extent (`Columns.isGrouping_onAxis`). The columns that are chosen are
those on the first of the axes with the most distinct extents (`Columns.ofBins?_most_distinct`).
-/

namespace BoxBinning

/-! ### Groups of equal keys -/

section Groups

variable {α κ : Type} [LinearOrder κ] {key : α → κ} {groups : List (List α)}
  (hequal : ∀ g ∈ groups, ∀ a ∈ g, ∀ b ∈ g, key a = key b)
include hequal

/-- Groups of equal keys ascend strictly if they ascend and neighbours end and begin with different
keys. -/
theorem pairwise_lt_of_isChain (hle : groups.Pairwise fun g g' => ∀ a ∈ g, ∀ b ∈ g', key a ≤ key b)
    (hne : groups.IsChain fun g g' => ∃ h h', key (g.getLast h) ≠ key (g'.head h')) :
    groups.Pairwise fun g g' => ∀ a ∈ g, ∀ b ∈ g', key a < key b := by
  induction groups with
  | nil => exact .nil
  | cons g groups ih =>
    obtain ⟨hg, hrest⟩ := List.forall_mem_cons.mp hequal
    obtain ⟨hgle, hrestle⟩ := List.pairwise_cons.mp hle
    have ih := ih hrest hrestle hne.tail
    refine List.pairwise_cons.mpr ⟨?_, ih⟩
    cases groups with
    | nil => exact List.forall_mem_nil _
    | cons g' groups =>
      obtain ⟨⟨h, h', hdiff⟩, -⟩ := List.isChain_cons_cons.mp hne
      have hlt : ∀ a ∈ g, key a < key (g'.head h') := fun a ha => by
        rw [hg a ha _ (List.getLast_mem h)]
        exact lt_of_le_of_ne
          (hgle g' List.mem_cons_self _ (List.getLast_mem h) _ (List.head_mem h')) hdiff
      -- the groups behind the next one are above its first member
      refine List.forall_mem_cons.mpr ⟨fun a ha b hb => ?_, fun g'' hg'' a ha b hb => ?_⟩
      · rw [hrest g' List.mem_cons_self b hb _ (List.head_mem h')]
        exact hlt a ha
      · exact (hlt a ha).trans ((List.pairwise_cons.mp ih).1 g'' hg'' _ (List.head_mem h') b hb)

/-- Groups that ascend strictly are as many as their keys. -/
theorem exists_keys_of_groups (hne : ∀ g ∈ groups, g ≠ [])
    (hless : groups.Pairwise fun g g' => ∀ a ∈ g, ∀ b ∈ g', key a < key b) :
    ∃ keys : List κ, keys.Pairwise (· < ·) ∧ (∀ k, k ∈ keys ↔ k ∈ groups.flatten.map key) ∧
      keys.length = groups.length := by
  refine ⟨groups.filterMap fun g => g.head?.map key, ?_, fun k => ?_, ?_⟩
  · refine hless.filterMap _ fun g g' hlt k hk k' hk' => ?_
    obtain ⟨a, ha, rfl⟩ := Option.map_eq_some_iff.mp hk
    obtain ⟨b, hb, rfl⟩ := Option.map_eq_some_iff.mp hk'
    exact hlt a (List.mem_of_head? ha) b (List.mem_of_head? hb)
  · simp only [List.mem_filterMap, List.mem_map, List.mem_flatten, Option.map_eq_some_iff]
    constructor
    · rintro ⟨g, hg, a, ha, rfl⟩
      exact ⟨a, ⟨g, hg, List.mem_of_head? ha⟩, rfl⟩
    · rintro ⟨a, ⟨g, hg, ha⟩, rfl⟩
      obtain ⟨b, g', rfl⟩ := List.exists_cons_of_ne_nil (hne g hg)
      exact ⟨b :: g', hg, b, rfl, hequal _ hg b List.mem_cons_self a ha⟩
  · refine List.filterMap_length_eq_length.mpr fun g hg => ?_
    obtain ⟨a, g', rfl⟩ := List.exists_cons_of_ne_nil (hne g hg)
    rfl

end Groups

namespace Bins

variable {bins : List Bin} {cells : List (Extent × Nat)} {a b : Extent × Nat} {axis : Nat}

/-! ### Positions ordered along an axis -/

/-- The extent on an axis of the bin at a position. -/
def extentAt? (bins : List Bin) (axis k : Nat) : Option Extent := bins[k]?.bind (·.extents[axis]?)

/-- The bins at two positions have equal extents on the axis. -/
def EqualOn (bins : List Bin) (axis i j : Nat) : Prop :=
  ∃ e f, extentAt? bins axis i = some e ∧ extentAt? bins axis j = some f ∧ (e == f) = true

/-- The bin at one position has a smaller extent on the axis than that at the other: it starts
lower, or at the same number and ends lower. -/
def LessOn (bins : List Bin) (axis i j : Nat) : Prop :=
  ∃ e f, extentAt? bins axis i = some e ∧ extentAt? bins axis j = some f ∧
    (e.low < f.low ∨ (e.low == f.low) = true ∧ e.high < f.high)

/-- The positions of the bins in the order of their extents, and of equal extents in the order of
the list. -/
structure IsAxisOrder (bins : List Bin) (axis : Nat) (order : List Nat) : Prop where
  /-- Every position stands there once. -/
  perm : order.Perm (List.range bins.length)
  /-- The extents ascend, and among equal ones the positions. -/
  ascending : order.Pairwise fun i j => LessOn bins axis i j ∨ EqualOn bins axis i j ∧ i < j

/-- The number of distinct extents on the axis. -/
def distinctOn (bins : List Bin) (axis : Nat) : Nat := (extentsOn bins axis).eraseDups.length

theorem cellsOn?_eq_none_iff : cellsOn? bins axis = none ↔ ∃ b ∈ bins, b.axisCount ≤ axis := by
  rw [cellsOn?, Option.map_eq_map, Option.map_eq_none_iff, mapM_eq_none_iff]
  simp only [List.getElem?_eq_none_iff]
  rfl

/-- An axis is missing if and only if some bin has fewer axes than the first one. -/
theorem orderedCells?_eq_none_iff :
    orderedCells? bins = none ↔ ∃ b ∈ bins, b.axisCount < axisCount bins := by
  simp only [orderedCells?, mapM_eq_none_iff, Option.map_eq_map, Option.map_eq_none_iff,
    cellsOn?_eq_none_iff, List.mem_range]
  constructor
  · rintro ⟨axis, haxis, b, hb, hle⟩
    exact ⟨b, hb, hle.trans_lt haxis⟩
  · rintro ⟨b, hb, hlt⟩
    exact ⟨b.axisCount, hlt, b, hb, le_rfl⟩

theorem axisOrders?_eq_none_iff :
    axisOrders? bins = none ↔ ∃ b ∈ bins, b.axisCount < axisCount bins := by
  rw [axisOrders?, Option.map_eq_map, Option.map_eq_none_iff, orderedCells?_eq_none_iff]

section Cells

variable (hcells : cellsOn? bins axis = some cells)
include hcells

theorem extentAt?_of_mem (ha : a ∈ cells) : extentAt? bins axis a.2 = some a.1 :=
  Option.bind_eq_some_iff.mpr ((mem_cellsOn? hcells).mp ha)

theorem map_fst_cellsOn? : cells.map Prod.fst = extentsOn bins axis := by
  obtain ⟨es, hes, rfl⟩ := Option.map_eq_some_iff.mp hcells
  have h := congrArg (List.filterMap id) (mapM_eq_some_iff.mp hes)
  rw [List.filterMap_map, List.filterMap_map] at h
  rw [List.zipIdx_map_fst]
  exact (h.trans List.filterMap_some).symm

theorem map_snd_cellsOn? : cells.map Prod.snd = List.range bins.length := by
  have hlen := length_cellsOn? hcells
  obtain ⟨es, hes, rfl⟩ := Option.map_eq_some_iff.mp hcells
  rw [List.length_zipIdx] at hlen
  rw [List.zipIdx_map_snd, hlen, List.range_eq_range']

variable (hnum : ∀ c ∈ cells, c.1.IsNumeric)
include hnum

theorem lessOn_of_key_lt (ha : a ∈ cells) (hb : b ∈ cells) (h : a.1.key < b.1.key) :
    LessOn bins axis a.2 b.2 :=
  ⟨a.1, b.1, extentAt?_of_mem hcells ha, extentAt?_of_mem hcells hb,
    (Extent.key_lt_iff (hnum a ha) (hnum b hb)).mp h⟩

theorem equalOn_of_key_eq (ha : a ∈ cells) (hb : b ∈ cells) (h : a.1.key = b.1.key) :
    EqualOn bins axis a.2 b.2 :=
  ⟨a.1, b.1, extentAt?_of_mem hcells ha, extentAt?_of_mem hcells hb,
    (Extent.beq_iff_key_eq (hnum a ha) (hnum b hb)).mpr h⟩

/-- Cells with equal extents keep the order of their positions. -/
theorem pairwise_orderCells_stable : (orderCells cells).Pairwise fun a b =>
    a.1.key < b.1.key ∨ a.1.key = b.1.key ∧ a.2 < b.2 := by
  refine pairwise_mergeSort_stable (compare?_bne_gt hnum) (List.pairwise_map.mp ?_)
  rw [map_snd_cellsOn? hcells]
  exact List.pairwise_lt_range

theorem isAxisOrder_orderCells : IsAxisOrder bins axis ((orderCells cells).map Prod.snd) := by
  constructor
  · rw [← map_snd_cellsOn? hcells]
    exact (List.mergeSort_perm cells _).map Prod.snd
  · refine List.pairwise_map.mpr ((pairwise_orderCells_stable hcells hnum).imp_of_mem ?_)
    intro a b ha hb h
    rw [mem_orderCells] at ha hb
    exact h.imp (lessOn_of_key_lt hcells hnum ha hb)
      (And.imp_left (equalOn_of_key_eq hcells hnum ha hb))

end Cells

/-- There is an order for each axis of the first bin. -/
theorem isAxisOrder_of_axisOrders? {orders : List (List Nat)} (hnum : ∀ b ∈ bins, b.IsNumeric)
    (h : axisOrders? bins = some orders) : orders.length = axisCount bins ∧
      ∀ axis order, orders[axis]? = some order → IsAxisOrder bins axis order := by
  obtain ⟨ordered, hordered, rfl⟩ := Option.map_eq_some_iff.mp h
  constructor
  · simpa using congrArg List.length (mapM_eq_some_iff.mp hordered).symm
  · intro axis order horder
    rw [List.getElem?_map] at horder
    obtain ⟨_, hget, rfl⟩ := Option.map_eq_some_iff.mp horder
    obtain ⟨-, cells, hcells, rfl⟩ := (getElem?_orderedCells? hordered).mp hget
    exact isAxisOrder_orderCells hcells (isNumeric_of_mem_cellsOn? hcells hnum)

end Bins

namespace Columns

variable {bins : List Bin} {cells : List (Extent × Nat)} {group : List (Extent × Nat)}
  {a b : Extent × Nat} {axis : Nat}

/-! ### Columns -/

/-- The positions of bins in columns, one column for each extent on the axis. -/
structure IsGrouping (bins : List Bin) (axis : Nat) (columns : List (List Nat)) : Prop where
  /-- Every position stands in one column, once. -/
  perm : columns.flatten.Perm (List.range bins.length)
  /-- No column is empty. -/
  ne_nil : ∀ column ∈ columns, column ≠ []
  /-- The bins of a column have equal extents. -/
  equal : ∀ column ∈ columns, ∀ i ∈ column, ∀ j ∈ column, Bins.EqualOn bins axis i j
  /-- The positions in a column ascend. -/
  ascending : ∀ column ∈ columns, column.Pairwise (· < ·)
  /-- So do the extents of the columns. -/
  less : columns.Pairwise fun c d => ∀ i ∈ c, ∀ j ∈ d, Bins.LessOn bins axis i j
  /-- There are as many columns as distinct extents. -/
  length_eq : columns.length = Bins.distinctOn bins axis

theorem flatten_groups : (onAxis cells axis).groups.flatten = cells := List.flatten_splitBy _ _

theorem mem_of_mem_group (hgroup : group ∈ (onAxis cells axis).groups) (ha : a ∈ group) :
    a ∈ cells := by
  rw [← @flatten_groups cells axis]
  exact List.mem_flatten.mpr ⟨group, hgroup, ha⟩

section Order

variable (hnum : ∀ c ∈ cells, c.1.IsNumeric)
include hnum

/-- The cells of a group have equal extents: all are equal to the first one. -/
theorem key_eq_of_mem_group (hgroup : group ∈ (onAxis cells axis).groups) (ha : a ∈ group)
    (hb : b ∈ group) : a.1.key = b.1.key := by
  cases group with
  | nil => cases ha
  | cons c group =>
    have hfirst : ∀ d ∈ c :: group, c.1.key = d.1.key := by
      refine List.forall_mem_cons.mpr ⟨rfl, fun d hd => ?_⟩
      have hc := hnum c (mem_of_mem_group hgroup List.mem_cons_self)
      have hd' := hnum d (mem_of_mem_group hgroup (List.mem_cons_of_mem c hd))
      exact (Extent.beq_iff_key_eq hc hd').mp (beq_of_mem_groups hgroup hd)
    exact (hfirst a ha).symm.trans (hfirst b hb)

/-- The groups of cells in order ascend strictly. -/
theorem pairwise_groups (hasc : cells.Pairwise fun a b => a.1.key ≤ b.1.key) :
    (onAxis cells axis).groups.Pairwise fun g g' => ∀ a ∈ g, ∀ b ∈ g', a.1.key < b.1.key := by
  refine pairwise_lt_of_isChain (fun g hg a ha b hb => key_eq_of_mem_group hnum hg ha hb) ?_ ?_
  · rw [← @flatten_groups cells axis] at hasc
    exact (List.pairwise_flatten.mp hasc).2
  · -- the list is cut only where two extents differ
    refine (List.isChain_getLast_head_splitBy _ cells).imp_of_mem_imp ?_
    intro g g' (hg : g ∈ (onAxis cells axis).groups) (hg' : g' ∈ (onAxis cells axis).groups)
    rintro ⟨h, h', hdiff⟩
    refine ⟨h, h', fun hkey => ?_⟩
    have hlast := hnum _ (mem_of_mem_group hg (List.getLast_mem h))
    have hhead := hnum _ (mem_of_mem_group hg' (List.head_mem h'))
    rw [(Extent.beq_iff_key_eq hlast hhead).mpr hkey] at hdiff
    cases hdiff

end Order

section Cells

variable (hcells : Bins.cellsOn? bins axis = some cells) (hnum : ∀ c ∈ cells, c.1.IsNumeric)
include hcells hnum

/-- There are as many groups as distinct extents. -/
theorem length_groups_eq :
    (onAxis (Bins.orderCells cells) axis).groups.length = Bins.distinctOn bins axis := by
  have hnum' := Bins.forall_isNumeric_orderCells hnum
  have hequal : ∀ g ∈ (onAxis (Bins.orderCells cells) axis).groups, ∀ a ∈ g, ∀ b ∈ g,
      a.1.key = b.1.key := fun g hg a ha b hb => key_eq_of_mem_group hnum' hg ha hb
  obtain ⟨keys, hkeys, hmem, hlength⟩ := exists_keys_of_groups hequal
    (fun g hg => List.ne_nil_of_mem_splitBy hg)
    (pairwise_groups hnum' (Bins.pairwise_orderCells hnum))
  have hbeq : ∀ e ∈ cells.map Prod.fst, ∀ f ∈ cells.map Prod.fst,
      (e == f) = true ↔ e.key = f.key :=
    List.forall_mem_map.mpr fun a ha => List.forall_mem_map.mpr fun b hb =>
      Extent.beq_iff_key_eq (hnum a ha) (hnum b hb)
  rw [← hlength, Bins.distinctOn, ← Bins.map_fst_cellsOn? hcells]
  refine (length_eraseDups_eq_length hbeq hkeys fun k => ?_).symm
  rw [hmem, flatten_groups, List.map_map]
  exact ((List.mergeSort_perm cells _).map _).mem_iff

theorem isGrouping_onAxis :
    IsGrouping bins axis (onAxis (Bins.orderCells cells) axis).positions := by
  have hnum' := Bins.forall_isNumeric_orderCells hnum
  have hmem : ∀ g ∈ (onAxis (Bins.orderCells cells) axis).groups, ∀ a ∈ g, a ∈ cells :=
    fun g hg a ha => Bins.mem_orderCells.mp (mem_of_mem_group hg ha)
  refine ⟨?_, List.forall_mem_map.mpr fun g hg => ?_, List.forall_mem_map.mpr fun g hg => ?_,
    List.forall_mem_map.mpr fun g hg => ?_, List.pairwise_map.mpr ?_, ?_⟩
  · rw [positions, ← List.map_flatten, flatten_groups]
    exact (Bins.isAxisOrder_orderCells hcells hnum).perm
  · exact List.map_eq_nil_iff.not.mpr (List.ne_nil_of_mem_splitBy hg)
  · refine List.forall_mem_map.mpr fun a ha => List.forall_mem_map.mpr fun b hb => ?_
    exact Bins.equalOn_of_key_eq hcells hnum (hmem g hg a ha) (hmem g hg b hb)
      (key_eq_of_mem_group hnum' hg ha hb)
  · have hsub := List.sublist_flatten_of_mem hg
    rw [flatten_groups] at hsub
    have hstable := (Bins.pairwise_orderCells_stable hcells hnum).sublist hsub
    refine List.pairwise_map.mpr (hstable.imp_of_mem ?_)
    intro a b ha hb h
    exact (h.resolve_left (key_eq_of_mem_group hnum' hg ha hb).not_lt).2
  · refine (pairwise_groups hnum' (Bins.pairwise_orderCells hnum)).imp_of_mem ?_
    intro g g' hg hg' hlt
    refine List.forall_mem_map.mpr fun a ha => List.forall_mem_map.mpr fun b hb => ?_
    exact Bins.lessOn_of_key_lt hcells hnum (hmem g hg a ha) (hmem g' hg' b hb) (hlt a ha b hb)
  · rw [positions, List.length_map, length_groups_eq hcells hnum]

end Cells

theorem ofBins?_eq_none_iff :
    ofBins? bins = none ↔ ∃ b ∈ bins, b.axisCount < Bins.axisCount bins := by
  rw [← Bins.orderedCells?_eq_none_iff, ofBins?]
  cases Bins.orderedCells? bins <;> simp

/-- Bins are ordered along every axis of the first one and grouped on the first of those with the
most distinct extents, unless some bin has fewer axes than the first one. -/
theorem ofBins?_most_distinct (hnum : ∀ b ∈ bins, b.IsNumeric) :
    (Bins.axisOrders? bins = none ↔ ∃ b ∈ bins, b.axisCount < Bins.axisCount bins) ∧
    (ofBins? bins = none ↔ ∃ b ∈ bins, b.axisCount < Bins.axisCount bins) ∧
    (∀ orders, Bins.axisOrders? bins = some orders → orders.length = Bins.axisCount bins ∧
      ∀ axis order, orders[axis]? = some order → Bins.IsAxisOrder bins axis order) ∧
    ∀ columns, ofBins? bins = some columns → 0 < Bins.axisCount bins →
      columns.axis < Bins.axisCount bins ∧
      IsGrouping bins columns.axis columns.positions ∧
      (∀ axis < Bins.axisCount bins,
        Bins.distinctOn bins axis ≤ Bins.distinctOn bins columns.axis) ∧
      ∀ axis < columns.axis, Bins.distinctOn bins axis < Bins.distinctOn bins columns.axis := by
  refine ⟨Bins.axisOrders?_eq_none_iff, ofBins?_eq_none_iff,
    fun orders => Bins.isAxisOrder_of_axisOrders? hnum, fun columns hcolumns hpos => ?_⟩
  have haxes : ∀ b ∈ bins, Bins.axisCount bins ≤ b.axisCount := by
    intro b hb
    by_contra hlt
    rw [ofBins?_eq_none_iff.mpr ⟨b, hb, not_le.mp hlt⟩] at hcolumns
    cases hcolumns
  obtain ⟨axis, cells, hgroups, haxis, hcells, hmax⟩ := exists_ofBins? hpos haxes
  obtain rfl := Option.some.inj (hgroups.symm.trans hcolumns)
  have hnum' := Bins.isNumeric_of_mem_cellsOn? hcells hnum
  have hdistinct : ∀ other < Bins.axisCount bins,
      Bins.distinctOn bins other ≤ Bins.distinctOn bins axis ∧
        (other < axis → Bins.distinctOn bins other < Bins.distinctOn bins axis) := by
    intro other hother
    obtain ⟨cells', hcells'⟩ : ∃ cells', Bins.cellsOn? bins other = some cells' :=
      Bins.exists_cellsOn? fun b hb => hother.trans_le (haxes b hb)
    have hle := hmax other hother cells' hcells'
    rwa [length_groups_eq hcells hnum',
      length_groups_eq hcells' (Bins.isNumeric_of_mem_cellsOn? hcells' hnum)] at hle
  refine ⟨haxis, isGrouping_onAxis hcells hnum', fun other hother => (hdistinct other hother).1,
    fun other (hlower : other < axis) => ?_⟩
  exact (hdistinct other (hlower.trans haxis)).2 hlower

/-- Four bins that share two extents on the first axis, and on the second one none. -/
theorem ofBins?_most_distinct_second :
    ∃ bins orders columns,
      bins = [⟨[⟨0.0, 1.0⟩, ⟨0.0, 1.0⟩]⟩, ⟨[⟨-0.0, 1.0⟩, ⟨1.0, 2.0⟩]⟩, ⟨[⟨0.0, 1.0⟩, ⟨2.0, 3.0⟩]⟩,
        ⟨[⟨1.0, 2.0⟩, ⟨0.0, 3.0⟩]⟩] ∧
      Bins.axisOrders? bins = some orders ∧ orders.length = 2 ∧ ofBins? bins = some columns ∧
      columns.axis = 1 ∧ IsGrouping bins 1 columns.positions ∧ columns.positions.length = 4 := by
  obtain ⟨bins, hbins⟩ : ∃ bins : List Bin,
      bins = [⟨[⟨0.0, 1.0⟩, ⟨0.0, 1.0⟩]⟩, ⟨[⟨-0.0, 1.0⟩, ⟨1.0, 2.0⟩]⟩, ⟨[⟨0.0, 1.0⟩, ⟨2.0, 3.0⟩]⟩,
        ⟨[⟨1.0, 2.0⟩, ⟨0.0, 3.0⟩]⟩] := ⟨_, rfl⟩
  have hnum : ∀ b ∈ bins, b.IsNumeric := by
    subst hbins
    unfold Bin.IsNumeric Extent.IsNumeric
    decide
  have hfits : ¬∃ b ∈ bins, b.axisCount < Bins.axisCount bins := by
    subst hbins
    decide
  have hcount : Bins.axisCount bins = 2 := by rw [hbins]; rfl
  have hfirst : Bins.distinctOn bins 0 = 2 := by rw [hbins]; decide
  have hsecond : Bins.distinctOn bins 1 = 4 := by rw [hbins]; decide
  obtain ⟨hnoOrders, hnoColumns, horders, hcolumns⟩ := ofBins?_most_distinct hnum
  obtain ⟨orders, hsome⟩ := Option.ne_none_iff_exists'.mp fun h => hfits (hnoOrders.mp h)
  obtain ⟨columns, hsome'⟩ := Option.ne_none_iff_exists'.mp fun h => hfits (hnoColumns.mp h)
  obtain ⟨haxis, hgrouping, hmost, -⟩ := hcolumns columns hsome' (hcount ▸ Nat.two_pos)
  have hchosen : columns.axis = 1 := by
    have hle := hmost 1 (hcount ▸ Nat.one_lt_two)
    have hne : columns.axis ≠ 0 := fun h => by
      rw [h, hfirst, hsecond] at hle
      omega
    omega
  rw [hchosen] at hgrouping
  exact ⟨bins, orders, columns, hbins, hsome, (horders orders hsome).1.trans hcount, hsome',
    hchosen, hgrouping, hgrouping.length_eq.trans hsecond⟩

end Columns

end BoxBinning
