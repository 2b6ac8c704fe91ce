import BoxBinning.Proofs.Combinations
import BoxBinning.Proofs.Projection

/-!
# Projections of combinations

A `Selection` names some of the lists that are combined and some of the axes of each. Projecting the
combinations on the selected axes gives the combinations of the projections
(`Binning.mem_map_onAxes_combinations`), since the bins of lists that are not selected do not matter
and those of different lists can be chosen independently. With the same keys in each list,
combinations have the same keys (`Binning.mem_map_key_combinations_iff`).
-/

namespace BoxBinning

/-! ### Selected axes -/

/-- The number of axes before those of the list at a position, for lists with the given numbers of
axes. -/
def offset (counts : List Nat) (position : Nat) : Nat := (counts.take position).sum

theorem offset_cons (n : Nat) (counts : List Nat) (position : Nat) :
    offset (n :: counts) (position + 1) = n + offset counts position := by
  rw [offset, List.take_succ_cons, List.sum_cons, offset]

theorem offset_append_left {counts rest : List Nat} {position : Nat}
    (h : position ≤ counts.length) : offset (counts ++ rest) position = offset counts position := by
  rw [offset, List.take_append_of_le_length h, offset]

theorem offset_append_right (counts rest : List Nat) (position : Nat) :
    offset (counts ++ rest) (counts.length + position) = counts.sum + offset rest position := by
  rw [offset, List.take_length_add_append, List.sum_append, offset]

section Offset

variable {counts : List Nat} {position n axis : Nat}

/-- Every axis belongs to one of the lists. -/
theorem exists_offset_add (h : axis < counts.sum) :
    ∃ position n j, counts[position]? = some n ∧ j < n ∧ axis = offset counts position + j := by
  induction counts generalizing axis with
  | nil => cases h
  | cons n counts ih =>
    rcases lt_or_ge axis n with hlt | hle
    · exact ⟨0, n, axis, rfl, hlt, (Nat.zero_add axis).symm⟩
    · rw [List.sum_cons] at h
      have hrest : axis - n < counts.sum := by omega
      obtain ⟨position, m, j, hm, hj, hsum⟩ := ih hrest
      refine ⟨position + 1, m, j, hm, hj, ?_⟩
      rw [offset_cons]
      omega

theorem offset_add_lt_sum (hn : counts[position]? = some n) (haxis : axis < n) :
    offset counts position + axis < counts.sum := by
  induction counts generalizing position with
  | nil => cases hn
  | cons m counts ih =>
    rw [List.sum_cons]
    cases position with
    | zero =>
      obtain rfl := Option.some.inj hn
      show 0 + axis < m + counts.sum
      omega
    | succ position =>
      have hlt := ih hn
      rw [offset_cons]
      omega

/-- The members of a list of lists stand at their offsets in the joined list. -/
theorem getElem?_flatMap_offset {α β : Type} {f : α → List β} {l : List α} {a : α} {j : Nat}
    (ha : l[position]? = some a) (hj : j < (f a).length) :
    (l.flatMap f)[offset (l.map fun a => (f a).length) position + j]? = (f a)[j]? := by
  induction l generalizing position with
  | nil => cases ha
  | cons b l ih =>
    rw [List.flatMap_cons, List.map_cons]
    cases position with
    | zero =>
      obtain rfl := Option.some.inj ha
      show (f b ++ _)[0 + j]? = _
      rw [Nat.zero_add, List.getElem?_append_left hj]
    | succ position =>
      rw [offset_cons, Nat.add_assoc, List.getElem?_append_right (Nat.le_add_right _ _),
        Nat.add_sub_cancel_left]
      exact ih ha

end Offset

/-- Positions in a list of lists of bins, with some axes for each position. -/
abbrev Selection : Type := List (Nat × List Nat)

namespace Selection

/-- The selected axes among those of all lists. -/
def axes (counts : List Nat) (selection : Selection) : List Nat :=
  selection.flatMap fun q => q.2.map (offset counts q.1 + ·)

/-- The bins at the selected positions on the selected axes. -/
def bins (cells : List Bin) (selection : Selection) : List Bin :=
  selection.map fun q => (cells[q.1]?.getD ⟨[]⟩).onAxes q.2

/-- The lists at the selected positions with the projections of their bins. -/
def lists (parts : List (List Bin)) (selection : Selection) : List (List Bin) :=
  selection.map fun q => (parts[q.1]?.getD []).map (·.onAxes q.2)

/-- The lists exist and have the axes, for lists with the given numbers of axes. -/
def IsValid (counts : List Nat) (selection : Selection) : Prop :=
  ∀ q ∈ selection, ∃ n, counts[q.1]? = some n ∧ ∀ a ∈ q.2, a < n

end Selection

namespace Bin

variable {cells : List Bin} {c : Bin} {p a : Nat} {selection : Selection}

/-- The axes of a joined bin stand at their offsets. -/
theorem getElem?_join (hc : cells[p]? = some c) (ha : a < c.axisCount) :
    (join cells).extents[offset (cells.map axisCount) p + a]? = c.extents[a]? :=
  getElem?_flatMap_offset hc ha

/-- On selected axes a joined bin is joined from the selected bins on these axes. -/
theorem onAxes_join (h : selection.IsValid (cells.map axisCount)) :
    (join cells).onAxes (selection.axes (cells.map axisCount)) = join (selection.bins cells) := by
  show Bin.mk _ = Bin.mk _
  rw [Bin.mk.injEq, Selection.bins, List.flatMap_map, Selection.axes, BoxBinning.onAxes,
    List.filterMap_flatMap]
  refine List.flatMap_congr fun q hq => ?_
  obtain ⟨n, hn, haxes⟩ := h q hq
  obtain ⟨c, hc, rfl⟩ := Option.map_eq_some_iff.mp (List.getElem?_map .. ▸ hn)
  rw [hc, List.filterMap_map]
  exact List.filterMap_congr fun a ha => getElem?_join hc (haxes a ha)

end Bin

namespace Binning

variable {parts lists uniques : List (List Bin)} {cells chosen : List Bin} {counts : List Nat}
  {selection : Selection} {b c : Bin} {p : Nat}

/-! ### Combinations on selected axes -/

theorem map_axisCount_eq
    (hcount : List.Forall₂ (fun part n => ∀ b ∈ part, b.axisCount = n) parts counts)
    (hcells : List.Forall₂ (· ∈ ·) cells parts) : cells.map Bin.axisCount = counts := by
  induction hcount generalizing cells with
  | nil =>
    obtain rfl := List.forall₂_nil_right_iff.mp hcells
    rfl
  | cons hpart _ ih =>
    obtain ⟨c, rest, hc, hrest, rfl⟩ := List.forall₂_cons_right_iff.mp hcells
    rw [List.map_cons, hpart c hc, ih hrest]

theorem forall₂_set {α β : Type} {R : α → β → Prop} {l : List α} {m : List β} {a : α} {b : β}
    (h : List.Forall₂ R l m) (hb : m[p]? = some b) (hab : R a b) :
    List.Forall₂ R (l.set p a) m := by
  induction h generalizing p with
  | nil => exact .nil
  | cons hcd hrest ih =>
    cases p with
    | zero =>
      obtain rfl := Option.some.inj hb
      exact .cons hab hrest
    | succ p => exact .cons hcd (ih hb)

theorem exists_forall₂ {α β : Type} {R : α → β → Prop} {l : List α} (h : ∀ a ∈ l, ∃ b, R a b) :
    ∃ m, List.Forall₂ R l m := by
  induction l with
  | nil => exact ⟨[], .nil⟩
  | cons a l ih =>
    obtain ⟨ha, hl⟩ := List.forall_mem_cons.mp h
    obtain ⟨b, hb⟩ := ha
    obtain ⟨m, hm⟩ := ih hl
    exact ⟨b :: m, .cons hb hm⟩

/-- Bins that are chosen from different lists, one from each, are those that a choice from all lists
has there. -/
theorem exists_cells_of_chosen (hne : ∀ part ∈ parts, part ≠ [])
    (hnodup : (selection.map Prod.fst).Nodup)
    (h : List.Forall₂ (· ∈ ·) chosen (selection.lists parts)) :
    ∃ cells, List.Forall₂ (· ∈ ·) cells parts ∧ chosen = selection.bins cells := by
  induction selection generalizing chosen with
  | nil =>
    obtain rfl := List.forall₂_nil_right_iff.mp h
    obtain ⟨cells, hcells⟩ := exists_forall₂ (R := fun (part : List Bin) c => c ∈ part)
      fun part hpart => List.exists_mem_of_ne_nil part (hne part hpart)
    exact ⟨cells, hcells.flip, rfl⟩
  | cons q selection ih =>
    obtain ⟨p, axes⟩ := q
    obtain ⟨hp, hnodup⟩ := List.nodup_cons.mp hnodup
    obtain ⟨b, chosen, hb, hchosen, rfl⟩ := List.forall₂_cons_right_iff.mp h
    obtain ⟨cells, hcells, rfl⟩ := ih hnodup hchosen
    obtain ⟨c, hc, rfl⟩ := List.mem_map.mp hb
    obtain ⟨part, hpart⟩ : ∃ part, parts[p]? = some part := by
      cases hpart : parts[p]? with
      | none => simp [hpart] at hc
      | some part => exact ⟨part, rfl⟩
    rw [hpart, Option.getD_some] at hc
    -- the bin that is chosen last replaces the one that stands there
    have hlt : p < cells.length :=
      (List.getElem?_eq_some_iff.mp hpart).1.trans_eq hcells.length_eq.symm
    refine ⟨cells.set p c, forall₂_set hcells hpart hc, ?_⟩
    rw [Selection.bins, Selection.bins, List.map_cons, List.getElem?_set_self hlt,
      Option.getD_some]
    refine congrArg (c.onAxes axes :: ·) (List.map_congr_left fun q hq => ?_)
    have hne : p ≠ q.1 := fun h => hp (List.mem_map.mpr ⟨q, hq, h.symm⟩)
    rw [List.getElem?_set_ne hne]

/-- The projections of the combinations are the combinations of the projections. -/
theorem mem_map_onAxes_combinations (hne : ∀ part ∈ parts, part ≠ [])
    (hcount : List.Forall₂ (fun part n => ∀ b ∈ part, b.axisCount = n) parts counts)
    (hvalid : selection.IsValid counts) (hnodup : (selection.map Prod.fst).Nodup) :
    b ∈ (combinations parts).map (·.onAxes (selection.axes counts)) ↔
      b ∈ combinations (selection.lists parts) := by
  rw [List.mem_map, mem_combinations]
  constructor
  · rintro ⟨_, hc, rfl⟩
    obtain ⟨cells, hcells, rfl⟩ := mem_combinations.mp hc
    obtain rfl := map_axisCount_eq hcount hcells
    refine ⟨selection.bins cells, ?_, Bin.onAxes_join hvalid⟩
    rw [Selection.bins, Selection.lists, List.forall₂_map_left_iff, List.forall₂_map_right_iff,
      List.forall₂_same]
    intro q hq
    obtain ⟨n, hn, -⟩ := hvalid q hq
    obtain ⟨c, hc, -⟩ := Option.map_eq_some_iff.mp (List.getElem?_map .. ▸ hn)
    obtain ⟨hlt, rfl⟩ := List.getElem?_eq_some_iff.mp hc
    have hlt' : q.1 < parts.length := hlt.trans_eq hcells.length_eq
    rw [List.getElem?_eq_getElem hlt, List.getElem?_eq_getElem hlt', Option.getD_some,
      Option.getD_some]
    exact List.mem_map_of_mem (hcells.get hlt hlt')
  · rintro ⟨chosen, hchosen, rfl⟩
    obtain ⟨cells, hcells, rfl⟩ := exists_cells_of_chosen hne hnodup hchosen
    obtain rfl := map_axisCount_eq hcount hcells
    exact ⟨Bin.join cells, mem_combinations.mpr ⟨cells, hcells, rfl⟩, Bin.onAxes_join hvalid⟩

/-! ### Keys of combinations -/

theorem mem_map_key_combinations_cons {part : List Bin} {k : List (Int ×ₗ Int)} :
    k ∈ (combinations (part :: parts)).map Bin.key ↔
      ∃ i ∈ part.map Bin.key, ∃ j ∈ (combinations parts).map Bin.key, k = j ++ i := by
  simp only [List.mem_map, mem_combinations_cons]
  constructor
  · rintro ⟨_, ⟨a, ha, c, hc, rfl⟩, rfl⟩
    exact ⟨a.key, ⟨a, ha, rfl⟩, c.key, ⟨c, hc, rfl⟩, Bin.key_concat a c⟩
  · rintro ⟨_, ⟨a, ha, rfl⟩, _, ⟨c, hc, rfl⟩, rfl⟩
    exact ⟨a.concat c, ⟨a, ha, c, hc, rfl⟩, Bin.key_concat a c⟩

/-- Distinct bins have the same combinations, up to equality, as the lists they are taken from. -/
theorem mem_map_key_combinations_iff (h : List.Forall₂ Bins.IsUnique lists uniques)
    {k : List (Int ×ₗ Int)} :
    k ∈ (combinations lists).map Bin.key ↔ k ∈ (combinations uniques).map Bin.key := by
  induction h generalizing k with
  | nil => rfl
  | cons hunique _ ih =>
    simp only [mem_map_key_combinations_cons, hunique.mem_map_key, ih]

end Binning

end BoxBinning
