import BoxBinning.Bins.Overlap
import BoxBinning.Proofs.Row

/-!
# Partitions

Lists of bins that are accepted divide a region of space: `Bins.IsPartition` names what the checks
give, and `Bins.isPartition_of_requirePartition` derives it from them. That no two bins share a
point rests on two facts about the sorted list of distinct bins: without repetitions it is a
permutation of the given one, and no two of its members overlap.
-/

namespace BoxBinning

/-! ### Dropping repetitions -/

section EraseReps

variable {α : Type} {r : α → α → Bool}

/-- The list collected so far stands in front of the result. -/
theorem eraseRepsBy_loop (a : α) (as acc : List α) :
    List.eraseRepsBy.loop r a as acc = acc.reverse ++ List.eraseRepsBy.loop r a as [] := by
  induction as generalizing a acc with
  | nil => simp [List.eraseRepsBy.loop]
  | cons b as ih =>
    simp only [List.eraseRepsBy.loop]
    cases r a b with
    | true => exact ih a acc
    | false =>
      dsimp only
      -- both sides collect `a` in front, with or without what was there before
      rw [ih b (a :: acc), ih b [a], List.reverse_cons, List.append_assoc]
      rfl

theorem eraseRepsBy_cons_cons (a b : α) (as : List α) :
    List.eraseRepsBy r (a :: b :: as)
      = if r a b then List.eraseRepsBy r (a :: as) else a :: List.eraseRepsBy r (b :: as) := by
  simp only [List.eraseRepsBy, List.eraseRepsBy.loop]
  cases r a b with
  | true => rfl
  | false => exact eraseRepsBy_loop b as [a]

theorem eraseRepsBy_sublist (as : List α) : (List.eraseRepsBy r as).Sublist as := by
  match as with
  | [] => exact List.Sublist.refl []
  | [a] => exact List.Sublist.refl [a]
  | a :: b :: as =>
    rw [eraseRepsBy_cons_cons]
    split_ifs with h
    · exact (eraseRepsBy_sublist (a :: as)).trans ((List.sublist_cons_self b as).cons_cons a)
    · exact (eraseRepsBy_sublist (b :: as)).cons_cons a
termination_by as.length

end EraseReps

namespace Bins

variable {bins : List Bin} {a b : Bin}

/-! ### The checks -/

/-- What makes bins divide a region of space: they have equally many axes and at least one, all
extents increase, and no two bins share a point. -/
structure IsPartition (bins : List Bin) : Prop where
  /-- There is a bin, and it has an axis. -/
  axisCount_pos : 0 < axisCount bins
  /-- All bins have equally many axes. -/
  axisCount_eq : ∀ b ∈ bins, b.axisCount = axisCount bins
  /-- All extents have points. -/
  isIncreasing : ∀ b ∈ bins, ∀ e ∈ b.extents, e.isIncreasing = true
  /-- No two bins share a point. -/
  disjoint : bins.Pairwise fun a b =>
    ∀ x : List Float, axisCount bins ≤ x.length → ¬(a.contains x = true ∧ b.contains x = true)

theorem axisCount_eq_of_forall {n : Nat} (hpos : 0 < bins.length)
    (h : ∀ b ∈ bins, b.axisCount = n) : axisCount bins = n := by
  obtain ⟨b, rest, rfl⟩ := List.exists_cons_of_length_pos hpos
  exact h b List.mem_cons_self

theorem forall_axisCount_eq {n : Nat} (hpos : 0 < bins.length)
    (h : ∀ b ∈ bins, b.axisCount = n) : ∀ b ∈ bins, b.axisCount = axisCount bins := fun b hb =>
  (h b hb).trans (axisCount_eq_of_forall hpos h).symm

theorem length_pos_of_axisCount_pos (h : 0 < axisCount bins) : 0 < bins.length := by
  cases bins with
  | nil => exact absurd h (lt_irrefl 0)
  | cons b rest => exact Nat.succ_pos _

theorem IsPartition.eq_of_contains {x : List Float} {i j : Nat} (h : IsPartition bins)
    (hx : axisCount bins ≤ x.length) (ha : bins[i]? = some a) (hb : bins[j]? = some b)
    (hax : a.contains x = true) (hbx : b.contains x = true) : i = j := by
  obtain ⟨hi, rfl⟩ := List.getElem?_eq_some_iff.mp ha
  obtain ⟨hj, rfl⟩ := List.getElem?_eq_some_iff.mp hb
  rcases Nat.lt_trichotomy i j with hij | hij | hij
  · exact absurd ⟨hax, hbx⟩ (List.pairwise_iff_getElem.mp h.disjoint i j hi hj hij x hx)
  · exact hij
  · exact absurd ⟨hbx, hax⟩ (List.pairwise_iff_getElem.mp h.disjoint j i hj hi hij x hx)

theorem requireSomeAxes_eq_ok : requireSomeAxes bins = .ok () ↔ 0 < axisCount bins :=
  ite_error_eq_ok.trans Nat.pos_iff_ne_zero.symm

theorem requireSameAxes_eq_ok :
    requireSameAxes bins = .ok () ↔ ∀ b ∈ bins, b.axisCount = axisCount bins := by
  unfold requireSameAxes
  split
  · rename_i b hfind
    have hb := List.find?_some hfind
    simp only [reduceCtorEq, false_iff, not_forall]
    exact ⟨b, List.mem_of_find?_eq_some hfind, by simpa using hb⟩
  · rename_i hfind
    simpa using hfind

theorem requireIncreasing_eq_ok :
    requireIncreasing bins = .ok () ↔ ∀ b ∈ bins, ∀ e ∈ b.extents, e.isIncreasing = true := by
  unfold requireIncreasing
  split
  · rename_i e hfind
    have he := List.find?_some hfind
    obtain ⟨b, hb, heb⟩ := List.mem_flatMap.mp (List.mem_of_find?_eq_some hfind)
    simp only [reduceCtorEq, false_iff, not_forall]
    exact ⟨b, hb, e, heb, by simpa using he⟩
  · rename_i hfind
    simp only [true_iff]
    intro b hb e he
    simpa using List.find?_eq_none.mp hfind e (List.mem_flatMap.mpr ⟨b, hb, he⟩)

theorem unique_eq_ok (h : requireSameAxes bins = .ok ()) :
    unique bins = .ok (sorted bins).eraseReps := by
  rw [unique, h]
  rfl

/-- A list without repetitions is only rearranged by `unique`. -/
theorem unique_eq_sorted (hsame : requireSameAxes bins = .ok ())
    (h : requireDistinct bins = .ok ()) : unique bins = .ok (sorted bins) := by
  obtain ⟨distinct, hunique, h⟩ := bind_eq_ok.mp h
  split_ifs at h with hlen
  have hdistinct : (sorted bins).eraseReps = distinct :=
    Except.ok.inj ((unique_eq_ok hsame).symm.trans hunique)
  rw [hunique, ← hdistinct]
  congr 1
  -- nothing was dropped, as the lengths agree
  refine (eraseRepsBy_sublist (sorted bins)).eq_of_length_le ?_
  show (sorted bins).length ≤ ((sorted bins).eraseReps).length
  rw [hdistinct, hlen, sorted, List.length_mergeSort]

/-- There is no overlapping pair if and only if no member overlaps a later one. -/
theorem firstOverlap_eq_none :
    firstOverlap bins = none ↔ bins.Pairwise fun a b => a.overlaps b = false := by
  induction bins with
  | nil => simp [firstOverlap]
  | cons a rest ih =>
    rw [firstOverlap, List.pairwise_cons, ← ih]
    split
    · rename_i b hfind
      have hb := List.find?_some hfind
      simp only [reduceCtorEq, false_iff, not_and]
      intro h
      rw [h b (List.mem_of_find?_eq_some hfind)] at hb
      cases hb
    · rename_i hfind
      have hrest : ∀ b ∈ rest, a.overlaps b = false := by simpa using hfind
      exact (and_iff_right hrest).symm

theorem disjoint_of_overlaps {n : Nat} (hn : a.axisCount = n) (h : a.overlaps b = false)
    (x : List Float) (hx : n ≤ x.length) : ¬(a.contains x = true ∧ b.contains x = true) := by
  rintro ⟨ha, hb⟩
  rw [Bin.overlaps_of_contains (hn.trans_le hx) ha hb] at h
  cases h

/-- Accepted bins are a partition. -/
theorem isPartition_of_requirePartition (h : requirePartition bins = .ok ()) :
    IsPartition bins := by
  obtain ⟨⟨⟩, hsome, h⟩ := bind_eq_ok.mp h
  obtain ⟨⟨⟩, hsame, h⟩ := bind_eq_ok.mp h
  obtain ⟨⟨⟩, hinc, h⟩ := bind_eq_ok.mp h
  obtain ⟨⟨⟩, hdistinct, hdisjoint⟩ := bind_eq_ok.mp h
  have hcount := requireSameAxes_eq_ok.mp hsame
  refine ⟨requireSomeAxes_eq_ok.mp hsome, hcount, requireIncreasing_eq_ok.mp hinc, ?_⟩
  have hperm : (sorted bins).Perm bins := List.mergeSort_perm bins _
  have hoverlap : (sorted bins).Pairwise fun a b => a.overlaps b = false := by
    obtain ⟨overlap, hfind, hnone⟩ := bind_eq_ok.mp hdisjoint
    rw [findOverlap, project, if_pos List.isEmpty_nil, unique_eq_sorted hsame hdistinct] at hfind
    obtain rfl := Except.ok.inj hfind
    split at hnone
    · cases hnone
    · rename_i hfirst
      exact firstOverlap_eq_none.mp hfirst
  -- having no common point does not depend on the order, unlike the overlap test
  refine (hperm.pairwise_iff fun hab x hx hba => hab x hx hba.symm).mp ?_
  refine hoverlap.imp_of_mem fun {a b} ha _ hab => ?_
  exact disjoint_of_overlaps (hcount a (hperm.mem_iff.mp ha)) hab

end Bins

end BoxBinning
