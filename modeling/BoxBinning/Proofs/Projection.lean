import BoxBinning.Proofs.Refusal
import BoxBinning.Proofs.Unique

/-!
# Projections

`onAxes` takes the members of a list on some axes, of the coordinates of a point as of the extents
of a bin, in any order and also more than once. `Bins.project` gives the distinct projections of
bins (`Bins.exists_project`). They are a partition if and only if the overlap test finds nothing
(`Bins.isPartition_project_iff`), and they contain the projections of the points of the bins
(`Bins.exists_mem_project`).
-/

namespace BoxBinning

/-! ### Lists on some axes -/

section OnAxes

variable {α : Type} {l m : List α} {axes : List Nat} {n : Nat} {a : α}

/-- The members of a list on the listed axes, in the order of the axes. -/
def onAxes (axes : List Nat) (l : List α) : List α := axes.filterMap (l[·]?)

/-- The listed axes out of `n`; no listed axis means all. -/
def listed (axes : List Nat) (n : Nat) : List Nat := if axes.isEmpty then List.range n else axes

theorem listed_of_ne_nil (h : axes ≠ []) : listed axes n = axes := by
  rw [listed, if_neg fun hempty => h (List.isEmpty_iff.mp hempty)]

theorem lt_of_mem_listed (h : ∀ i ∈ axes, i < n) : ∀ i ∈ listed axes n, i < n := by
  unfold listed
  split_ifs
  · exact fun i => List.mem_range.mp
  · exact h

theorem length_listed_pos (hpos : 0 < n) : 0 < (listed axes n).length := by
  unfold listed
  split_ifs with hempty
  · rwa [List.length_range]
  · exact List.length_pos_iff.mpr fun h => hempty (List.isEmpty_iff.mpr h)

theorem mem_of_mem_onAxes (h : a ∈ onAxes axes l) : a ∈ l := by
  obtain ⟨i, -, hi⟩ := List.mem_filterMap.mp h
  exact List.mem_of_getElem? hi

theorem forall₂_onAxes (h : ∀ i ∈ axes, i < l.length) :
    List.Forall₂ (fun i a => l[i]? = some a) axes (onAxes axes l) := by
  induction axes with
  | nil => exact .nil
  | cons i axes ih =>
    obtain ⟨hi, h⟩ := List.forall_mem_cons.mp h
    rw [onAxes, List.filterMap_cons_some (List.getElem?_eq_getElem hi)]
    exact .cons (List.getElem?_eq_getElem hi) (ih h)

theorem length_onAxes (h : ∀ i ∈ axes, i < l.length) : (onAxes axes l).length = axes.length :=
  (forall₂_onAxes h).length_eq.symm

/-- What stands on an axis of a projection stands on the axis that is listed there. -/
theorem exists_of_getElem?_onAxes {k : Nat} (h : ∀ i ∈ axes, i < l.length)
    (hk : (onAxes axes l)[k]? = some a) : ∃ i, axes[k]? = some i ∧ l[i]? = some a := by
  obtain ⟨hlt, rfl⟩ := List.getElem?_eq_some_iff.mp hk
  have hk' : k < axes.length := hlt.trans_eq (length_onAxes h)
  exact ⟨axes[k], List.getElem?_eq_getElem hk', (forall₂_onAxes h).get hk' hlt⟩

/-- On the first axes stand the first members. -/
theorem onAxes_range (h : n ≤ l.length) : onAxes (List.range n) l = l.take n := by
  have hlen : (onAxes (List.range n) l).length = n := by
    rw [length_onAxes fun i hi => (List.mem_range.mp hi).trans_le h, List.length_range]
  refine List.ext_getElem? fun k => ?_
  rcases lt_or_ge k n with hk | hk
  · have hget := List.getElem?_eq_getElem (hk.trans_eq hlen.symm)
    obtain ⟨i, hi, hik⟩ := exists_of_getElem?_onAxes
      (fun i hi => (List.mem_range.mp hi).trans_le h) hget
    rw [List.getElem?_range hk] at hi
    obtain rfl := Option.some.inj hi
    rw [hget, List.getElem?_take_of_lt hk, hik]
  · rw [List.getElem?_eq_none (hlen.trans_le hk), List.getElem?_take_eq_none hk]

end OnAxes

/-! ### Bins on some axes -/

namespace Bin

variable {a b : Bin} {axes : List Nat} {x : List Float} {n : Nat}

/-- The bin on the listed axes. -/
def onAxes (axes : List Nat) (b : Bin) : Bin := ⟨BoxBinning.onAxes axes b.extents⟩

/-- A bin can be projected on the axes that it has. -/
theorem project_eq_ok (h : ∀ i ∈ axes, i < b.axisCount) : b.project axes = .ok (b.onAxes axes) := by
  have haxes : axes.mapM b.axis = .ok (BoxBinning.onAxes axes b.extents) := by
    refine mapM_eq_ok_iff.mpr ((forall₂_onAxes h).imp fun i e he => ?_)
    rw [axis, he]
  rw [project, haxes]
  rfl

theorem axisCount_onAxes (h : ∀ i ∈ axes, i < b.axisCount) :
    (b.onAxes axes).axisCount = axes.length := length_onAxes h

/-- On all axes the bin is itself. -/
theorem onAxes_listed_nil (h : b.axisCount = n) : b.onAxes (listed [] n) = b := by
  obtain ⟨es⟩ := b
  show Bin.mk (BoxBinning.onAxes (List.range n) es) = ⟨es⟩
  rw [onAxes_range h.ge, List.take_of_length_le h.le]

theorem isNumeric_onAxes (h : b.IsNumeric) : (b.onAxes axes).IsNumeric := fun e he =>
  h e (mem_of_mem_onAxes he)

/-- A projected bin contains the projections of the points of the bin. -/
theorem contains_onAxes (haxes : ∀ i ∈ axes, i < b.axisCount) (hlen : b.axisCount ≤ x.length)
    (h : b.contains x = true) : (b.onAxes axes).contains (BoxBinning.onAxes axes x) = true := by
  rw [contains_iff] at h ⊢
  intro k e v he hv
  obtain ⟨i, hi, he⟩ := exists_of_getElem?_onAxes haxes he
  obtain ⟨j, hj, hv⟩ := exists_of_getElem?_onAxes (fun i hi => (haxes i hi).trans_le hlen) hv
  obtain rfl := Option.some.inj (hi.symm.trans hj)
  exact h i e v he hv

end Bin

namespace Bins

variable {bins s : List Bin} {axes : List Nat} {n : Nat}

/-- Bins can be projected on axes that all of them have, whatever other axes they have. -/
theorem mapM_project_eq_ok (h : ∀ b ∈ bins, ∀ i ∈ axes, i < b.axisCount) :
    bins.mapM (·.project axes) = .ok (bins.map (·.onAxes axes)) := by
  refine mapM_eq_ok_iff.mpr (List.forall₂_map_right_iff.mpr (List.forall₂_same.mpr ?_))
  exact fun b hb => Bin.project_eq_ok (h b hb)

theorem project_eq_unique_of_ne_nil (hne : axes ≠ [])
    (h : ∀ b ∈ bins, ∀ i ∈ axes, i < b.axisCount) :
    project bins axes = unique (bins.map (·.onAxes axes)) := by
  rw [project, if_neg fun hempty => hne (List.isEmpty_iff.mp hempty), mapM_project_eq_ok h]
  rfl

/-- The extents of the bins on one axis, of the bins that have it. -/
def extentsOn (bins : List Bin) (axis : Nat) : List Extent := bins.filterMap (·.extents[axis]?)

theorem mem_extentsOn {axis : Nat} {e : Extent} :
    e ∈ extentsOn bins axis ↔ ∃ b ∈ bins, b.extents[axis]? = some e := List.mem_filterMap

/-- The projections on one axis are its extents, each by itself. -/
theorem map_onAxes_singleton {axis : Nat} (h : ∀ b ∈ bins, axis < b.axisCount) :
    bins.map (·.onAxes [axis]) = (extentsOn bins axis).map fun e => ⟨[e]⟩ := by
  induction bins with
  | nil => rfl
  | cons b bins ih =>
    obtain ⟨hb, h⟩ := List.forall_mem_cons.mp h
    have he := List.getElem?_eq_getElem hb
    have hfirst : b.onAxes [axis] = ⟨[b.extents[axis]]⟩ :=
      congrArg Bin.mk (List.filterMap_cons_some he)
    have hextents : extentsOn (b :: bins) axis = b.extents[axis] :: extentsOn bins axis :=
      List.filterMap_cons_some he
    rw [List.map_cons, ih h, hfirst, hextents, List.map_cons]

theorem map_onAxes_listed_nil (hcount : ∀ b ∈ bins, b.axisCount = n) :
    bins.map (·.onAxes (listed [] n)) = bins := by
  conv_rhs => rw [← List.map_id bins]
  exact List.map_congr_left fun b hb => Bin.onAxes_listed_nil (hcount b hb)

/-- What projecting gives are the distinct projections. -/
theorem project_eq_unique (hcount : ∀ b ∈ bins, b.axisCount = n) (haxes : ∀ i ∈ axes, i < n) :
    project bins axes = unique (bins.map (·.onAxes (listed axes n))) := by
  by_cases hne : axes = []
  · subst hne
    rw [map_onAxes_listed_nil hcount]
    rfl
  · rw [listed_of_ne_nil hne]
    exact project_eq_unique_of_ne_nil hne fun b hb i hi => (haxes i hi).trans_eq (hcount b hb).symm

/-- Among boxes of increasing extents, to overlap and to share a point are the same. -/
theorem pairwise_overlaps_iff (hcount : ∀ b ∈ s, b.axisCount = n)
    (hinc : ∀ b ∈ s, ∀ e ∈ b.extents, e.isIncreasing = true) :
    (s.Pairwise fun a b => a.overlaps b = false) ↔ s.Pairwise fun a b => ¬a.Meets b := by
  refine List.Pairwise.iff_of_mem fun {a b} ha hb => ?_
  rw [← Bin.overlaps_iff ((hcount a ha).trans (hcount b hb).symm) (hinc a ha) (hinc b hb),
    Bool.not_eq_true]

/-- Of the distinct bins no two share a point if and only if bins that share one are equal. -/
theorem IsUnique.pairwise_not_meets_iff (hs : IsUnique bins s)
    (hcount : ∀ b ∈ bins, b.axisCount = n) (hnum : ∀ b ∈ bins, b.IsNumeric) :
    (s.Pairwise fun a b => ¬a.Meets b) ↔
      ∀ p ∈ bins, ∀ q ∈ bins, p.Meets q → (p == q) = true := by
  have hkey : ∀ p ∈ bins, ∀ q ∈ bins, (p == q) = true ↔ p.key = q.key := fun p hp q hq =>
    Bin.beq_iff_key_eq (hnum p hp) (hnum q hq)
  constructor
  · intro h p hp q hq hpq
    obtain ⟨c, hc, hcp⟩ := hs.exists_beq hnum hp
    obtain ⟨d, hd, hdq⟩ := hs.exists_beq hnum hq
    have hcd : c.Meets d := (Bin.meets_congr hcp hdq).mpr hpq
    -- the order of the two does not matter, so they cannot be two members
    have hboth : s.Pairwise fun a b => ¬a.Meets b ∧ ¬b.Meets a := by
      refine h.imp_of_mem fun {a b} ha hb hab => ⟨hab, fun hba => hab ?_⟩
      have hcount' := (hcount a (hs.mem_of_mem a ha)).trans (hcount b (hs.mem_of_mem b hb)).symm
      exact (Bin.meets_comm hcount').mpr hba
    have hsymm : Std.Symm fun a b : Bin => ¬a.Meets b ∧ ¬b.Meets a := ⟨fun _ _ => And.symm⟩
    have heq : c = d := by
      by_contra hne
      exact (hboth.forall hc hd hne).1 hcd
    have hc := hs.mem_of_mem c hc
    rw [hkey p hp q hq, ← (hkey c hc p hp).mp hcp, (hkey c hc q hq).mp (heq ▸ hdq)]
  · intro h
    refine hs.ascending.imp_of_mem fun {p q} hp hq hlt hpq => ?_
    have hp := hs.mem_of_mem p hp
    have hq := hs.mem_of_mem q hq
    exact hlt.ne ((hkey p hp q hq).mp (h p hp q hq hpq))

/-- Among boxes of increasing extents the overlap test is all that is left to check. -/
theorem isPartition_iff_pairwise (hpos : 0 < n) (hne : s ≠ []) (hcount : ∀ b ∈ s, b.axisCount = n)
    (hinc : ∀ b ∈ s, ∀ e ∈ b.extents, e.isIncreasing = true) :
    IsPartition s ↔ s.Pairwise fun a b => a.overlaps b = false := by
  have hlen := List.length_pos_iff.mpr hne
  have hcount' := forall_axisCount_eq hlen hcount
  rw [pairwise_overlaps_iff hcount hinc]
  constructor
  · intro h
    exact h.not_meets (List.Perm.refl s)
  · intro h
    refine ⟨hpos.trans_eq (axisCount_eq_of_forall hlen hcount).symm, hcount', hinc, ?_⟩
    rw [← pairwise_overlaps_iff hcount hinc] at h
    exact h.imp_of_mem fun {a b} ha _ hab => disjoint_of_overlaps (hcount' a ha) hab

theorem hasOverlaps_eq_ok_false_iff (h : project bins axes = .ok s) :
    hasOverlaps bins axes = .ok false ↔ s.Pairwise fun a b => a.overlaps b = false := by
  rw [hasOverlaps, findOverlap, h, ← firstOverlap_eq_none]
  show Except.ok (firstOverlap s).isSome = .ok false ↔ _
  rw [Except.ok.injEq, Option.isSome_eq_false_iff, Option.isNone_iff_eq_none]

theorem forall_isNumeric_onAxes (hnum : ∀ b ∈ bins, b.IsNumeric) :
    ∀ p ∈ bins.map (·.onAxes axes), p.IsNumeric :=
  List.forall_mem_map.mpr fun b hb => Bin.isNumeric_onAxes (hnum b hb)

/-! ### Distinct projections -/

section Project

variable (hcount : ∀ b ∈ bins, b.axisCount = n) (haxes : ∀ i ∈ axes, i < n)
include hcount haxes

theorem forall_axisCount_onAxes :
    ∀ p ∈ bins.map (·.onAxes (listed axes n)), p.axisCount = (listed axes n).length := by
  refine List.forall_mem_map.mpr fun b hb => Bin.axisCount_onAxes fun i hi => ?_
  exact (lt_of_mem_listed haxes i hi).trans_eq (hcount b hb).symm

/-- Bins with numbers as ends can be projected on axes that they have. -/
theorem exists_project (hnum : ∀ b ∈ bins, b.IsNumeric) :
    ∃ s, project bins axes = .ok s ∧ IsUnique (bins.map (·.onAxes (listed axes n))) s := by
  rw [project_eq_unique hcount haxes]
  exact exists_unique (forall_axisCount_onAxes hcount haxes) (forall_isNumeric_onAxes hnum)

variable (hinc : ∀ b ∈ bins, ∀ e ∈ b.extents, e.isIncreasing = true)
include hinc

omit hcount haxes in
theorem forall_isIncreasing_onAxes :
    ∀ p ∈ bins.map (·.onAxes (listed axes n)), ∀ e ∈ p.extents, e.isIncreasing = true :=
  List.forall_mem_map.mpr fun b hb e he => hinc b hb e (mem_of_mem_onAxes he)

/-- The distinct projections of bins are a partition unless the overlap test finds some of them. -/
theorem isPartition_project_iff (hs : IsUnique (bins.map (·.onAxes (listed axes n))) s)
    (hproject : project bins axes = .ok s) (hpos : 0 < n) (hne : bins ≠ []) :
    IsPartition s ↔ hasOverlaps bins axes = .ok false := by
  have hlen : 0 < (listed axes n).length := length_listed_pos hpos
  rw [hasOverlaps_eq_ok_false_iff hproject]
  refine isPartition_iff_pairwise hlen (hs.ne_nil (by simpa using hne)) ?_ ?_
  · exact fun p hp => forall_axisCount_onAxes hcount haxes p (hs.mem_of_mem p hp)
  · exact fun p hp => forall_isIncreasing_onAxes hinc p (hs.mem_of_mem p hp)

/-- The overlap test finds nothing if and only if projections that overlap are equal. -/
theorem not_hasOverlaps_iff :
    hasOverlaps bins axes = .ok false ↔
      ∀ p ∈ bins.map (·.onAxes (listed axes n)), ∀ q ∈ bins.map (·.onAxes (listed axes n)),
        p.overlaps q = true → (p == q) = true := by
  have hcount' := forall_axisCount_onAxes hcount haxes
  have hinc' : ∀ p ∈ bins.map (·.onAxes (listed axes n)), ∀ e ∈ p.extents, e.isIncreasing = true :=
    forall_isIncreasing_onAxes hinc
  have hnum : ∀ b ∈ bins, b.IsNumeric := fun b hb => Bin.isNumeric_of_isIncreasing (hinc b hb)
  obtain ⟨s, hproject, hs⟩ := exists_project hcount haxes hnum
  rw [hasOverlaps_eq_ok_false_iff hproject,
    pairwise_overlaps_iff (fun p hp => hcount' p (hs.mem_of_mem p hp))
      fun p hp => hinc' p (hs.mem_of_mem p hp),
    hs.pairwise_not_meets_iff hcount' (forall_isNumeric_onAxes hnum)]
  refine forall₄_congr fun p hp q hq => ?_
  rw [Bin.overlaps_iff ((hcount' p hp).trans (hcount' q hq).symm) (hinc' p hp) (hinc' q hq)]

variable (hs : IsUnique (bins.map (·.onAxes (listed axes n))) s)
include hs

/-- The projection of a bin is equal to one of the distinct ones, and that contains the projections
of the points of the bin. -/
theorem exists_mem_project {b : Bin} {x : List Float} (hb : b ∈ bins) (hlen : n ≤ x.length)
    (hbx : b.contains x = true) : ∃ d ∈ s, (d == b.onAxes (listed axes n)) = true ∧
      d.contains (onAxes (listed axes n) x) = true := by
  have hnum : ∀ c ∈ bins, c.IsNumeric := fun c hc => Bin.isNumeric_of_isIncreasing (hinc c hc)
  obtain ⟨d, hd, hbeq⟩ :=
    hs.exists_beq (forall_isNumeric_onAxes hnum) (List.mem_map.mpr ⟨b, hb, rfl⟩)
  refine ⟨d, hd, hbeq, ?_⟩
  rw [Bin.contains_congr hbeq]
  refine Bin.contains_onAxes (fun i hi => ?_) ((hcount b hb).trans_le hlen) hbx
  exact (lt_of_mem_listed haxes i hi).trans_eq (hcount b hb).symm

end Project

end Bins

end BoxBinning
