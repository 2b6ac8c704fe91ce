import BoxBinning.Proofs.Partition

/-!
# The order of bins

The *key* of a bin lists the places of its extents, the last axis first. Among bins with numbers as
ends and equally many axes, the order of bins is the lexicographic order of their keys
(`Bin.order_compares`), and equal bins are those with equal keys (`Bin.beq_iff_key_eq`), so neither
the two zeros nor the encoding of a number matter. From this:

* `pairwise_mergeSort_stable`: sorting by a key leaves members with one key in their order;
* `Bins.pairwise_sorted`: sorting puts bins in the order of their keys;
* `Bins.pairwise_eraseReps_sorted`: dropping repetitions from the sorted list leaves no two equal
  bins, and the order is then strict;
* `Bins.length_eraseReps_sorted`: what is left are as many bins as there are distinct ones.
-/

namespace BoxBinning

/-! ### Lists ordered by a key -/

section Key

variable {α κ : Type} {key : α → κ}

section Sorting

variable [LinearOrder κ] {l : List α} {le : α → α → Bool}
  (h : ∀ a ∈ l, ∀ b ∈ l, le a b = decide (key a ≤ key b))
include h

theorem mergeSort_eq_of_key : l.mergeSort le = l.mergeSort fun a b => decide (key a ≤ key b) := by
  have hmap := List.map_mergeSort (s := fun a b => decide (key a ≤ key b)) (f := id) h
  rwa [List.map_id, List.map_id] at hmap

omit h in
theorem decide_key_le_trans (a b c : α) (hab : decide (key a ≤ key b) = true)
    (hbc : decide (key b ≤ key c) = true) : decide (key a ≤ key c) = true := by
  rw [decide_eq_true_iff] at *
  exact hab.trans hbc

omit h in
theorem decide_key_le_total (a b : α) :
    (decide (key a ≤ key b) || decide (key b ≤ key a)) = true := by
  rw [Bool.or_eq_true, decide_eq_true_iff, decide_eq_true_iff]
  exact le_total _ _

/-- A comparison that is that of the keys sorts by them. -/
theorem pairwise_mergeSort_of_key : (l.mergeSort le).Pairwise fun a b => key a ≤ key b := by
  rw [mergeSort_eq_of_key h]
  exact (List.pairwise_mergeSort decide_key_le_trans decide_key_le_total l).imp of_decide_eq_true

/-- Members with one key stand in the sorted list as they do in the list. -/
theorem filter_mergeSort_of_key (k : κ) :
    (l.mergeSort le).filter (fun a => key a = k) = l.filter fun a => key a = k := by
  have hsub : (l.filter fun a => key a = k).Sublist (l.mergeSort le) := by
    rw [mergeSort_eq_of_key h]
    refine List.sublist_mergeSort decide_key_le_trans decide_key_le_total ?_ List.filter_sublist
    refine List.pairwise_of_forall_mem_list fun a ha b hb => ?_
    rw [decide_eq_true_iff, of_decide_eq_true (List.mem_filter.mp ha).2,
      of_decide_eq_true (List.mem_filter.mp hb).2]
  have hfilter := hsub.filter fun a => decide (key a = k)
  rw [List.filter_filter] at hfilter
  simp only [Bool.and_self] at hfilter
  refine (hfilter.eq_of_length ?_).symm
  exact (((List.mergeSort_perm l le).filter _).length_eq).symm

/-- Sorting is stable: what holds from each member to those behind it still does among members with
one key. -/
theorem pairwise_mergeSort_stable {R : α → α → Prop} (hR : l.Pairwise R) :
    (l.mergeSort le).Pairwise fun a b => key a < key b ∨ key a = key b ∧ R a b := by
  refine List.pairwise_iff_forall_sublist.mpr fun {a b} hab => ?_
  have hle := List.pairwise_iff_forall_sublist.mp (pairwise_mergeSort_of_key h) hab
  refine hle.lt_or_eq.imp_right fun hkey => ⟨hkey, ?_⟩
  have hfilter := hab.filter fun c => decide (key c = key b)
  rw [filter_mergeSort_of_key h] at hfilter
  have hpair : [a, b].filter (fun c => decide (key c = key b)) = [a, b] := by simp [hkey]
  rw [hpair] at hfilter
  exact List.pairwise_iff_forall_sublist.mp hR (hfilter.trans List.filter_sublist)

end Sorting

/-- In a list that ascends by its keys, neighbours with equal keys are all that stands against
strict order. -/
theorem pairwise_eraseRepsBy [LinearOrder κ] {l : List α} {r : α → α → Bool}
    (hr : ∀ a ∈ l, ∀ b ∈ l, r a b = true ↔ key a = key b)
    (h : l.Pairwise fun a b => key a ≤ key b) :
    (l.eraseRepsBy r).Pairwise fun a b => key a < key b := by
  match l with
  | [] => exact List.Pairwise.nil
  | [a] => exact List.pairwise_singleton _ a
  | a :: b :: as =>
    obtain ⟨ha, has⟩ := List.pairwise_cons.mp h
    have hab := hr a List.mem_cons_self b (List.mem_cons_of_mem a List.mem_cons_self)
    rw [eraseRepsBy_cons_cons]
    split_ifs with heq
    · -- `b` is dropped, and what stands after it follows `a`
      have hsub : (a :: as).Sublist (a :: b :: as) := (List.sublist_cons_self b as).cons_cons a
      exact pairwise_eraseRepsBy
        (fun c hc d hd => hr c (hsub.subset hc) d (hsub.subset hd)) (h.sublist hsub)
    · refine List.pairwise_cons.mpr ⟨fun c hc => ?_, pairwise_eraseRepsBy
        (fun c hc d hd => hr c (List.mem_cons_of_mem a hc) d (List.mem_cons_of_mem a hd)) has⟩
      have hlt : key a < key b :=
        lt_of_le_of_ne (ha b List.mem_cons_self) fun hkey => heq (hab.mpr hkey)
      rcases List.mem_cons.mp ((eraseRepsBy_sublist (b :: as)).subset hc) with rfl | hc
      · exact hlt
      · exact hlt.trans_le ((List.pairwise_cons.mp has).1 c hc)
termination_by l.length

/-- Dropping repetitions loses no key. -/
theorem exists_mem_eraseRepsBy {l : List α} {r : α → α → Bool} {a : α}
    (hr : ∀ a ∈ l, ∀ b ∈ l, r a b = true ↔ key a = key b) (ha : a ∈ l) :
    ∃ b ∈ l.eraseRepsBy r, key b = key a := by
  match l with
  | [] => cases ha
  | [c] =>
    obtain rfl := List.mem_singleton.mp ha
    exact ⟨a, List.mem_singleton_self a, rfl⟩
  | c :: d :: as =>
    have hcd := hr c List.mem_cons_self d (List.mem_cons_of_mem c List.mem_cons_self)
    have hsub : (c :: as).Sublist (c :: d :: as) := (List.sublist_cons_self d as).cons_cons c
    rw [eraseRepsBy_cons_cons]
    split_ifs with heq
    · -- `c` stands for the dropped `d`
      have ih : ∀ b ∈ c :: as, ∃ e ∈ List.eraseRepsBy r (c :: as), key e = key b := fun b hb =>
        exists_mem_eraseRepsBy (fun c hc d hd => hr c (hsub.subset hc) d (hsub.subset hd)) hb
      rcases List.mem_cons.mp ha with rfl | ha
      · exact ih a List.mem_cons_self
      rcases List.mem_cons.mp ha with rfl | ha
      · rw [← hcd.mp heq]
        exact ih c List.mem_cons_self
      · exact ih a (List.mem_cons_of_mem c ha)
    · rcases List.mem_cons.mp ha with rfl | ha
      · exact ⟨a, List.mem_cons_self, rfl⟩
      · obtain ⟨b, hb, hkey⟩ := exists_mem_eraseRepsBy (fun e he f hf =>
          hr e (List.mem_cons_of_mem c he) f (List.mem_cons_of_mem c hf)) ha
        exact ⟨b, List.mem_cons_of_mem c hb, hkey⟩
termination_by l.length

/-- If members are equal when their keys are, there are as many distinct members as keys. -/
theorem length_eraseDups_eq_card [BEq α] [DecidableEq κ] {l : List α}
    (h : ∀ a ∈ l, ∀ b ∈ l, (a == b) = true ↔ key a = key b) :
    l.eraseDups.length = (l.map key).toFinset.card := by
  match l with
  | [] => rfl
  | a :: as =>
    have hsub : ∀ b ∈ as.filter fun b => !b == a, b ∈ a :: as := fun b hb =>
      List.mem_cons_of_mem a (List.mem_filter.mp hb).1
    -- the members that are not dropped with `a` are those with another key
    have hkeys : ((as.filter fun b => !b == a).map key).toFinset =
        (((a :: as).map key).toFinset).erase (key a) := by
      ext k
      simp only [List.mem_toFinset, List.mem_map, List.mem_filter, Finset.mem_erase]
      constructor
      · rintro ⟨b, ⟨hb, hba⟩, rfl⟩
        refine ⟨fun hkey => ?_, b, List.mem_cons_of_mem a hb, rfl⟩
        simp [(h b (List.mem_cons_of_mem a hb) a List.mem_cons_self).mpr hkey] at hba
      · rintro ⟨hne, b, hb, rfl⟩
        rcases List.mem_cons.mp hb with rfl | hb
        · exact absurd rfl hne
        have hba := h b (List.mem_cons_of_mem a hb) a List.mem_cons_self
        exact ⟨b, ⟨hb, by simpa [hne] using hba⟩, rfl⟩
    have hmem : key a ∈ ((a :: as).map key).toFinset := by simp
    have ih := length_eraseDups_eq_card (l := as.filter fun b => !b == a)
      fun b hb c hc => h b (hsub b hb) c (hsub c hc)
    rw [List.eraseDups_cons, List.length_cons, ih, hkeys, Finset.card_erase_add_one hmem]
termination_by l.length
decreasing_by exact Nat.lt_succ_of_le (List.length_filter_le _ _)

/-- There are as many distinct members as keys in an ascending list of their keys. -/
theorem length_eraseDups_eq_length [BEq α] [LinearOrder κ] {l : List α} {keys : List κ}
    (h : ∀ a ∈ l, ∀ b ∈ l, (a == b) = true ↔ key a = key b) (hkeys : keys.Pairwise (· < ·))
    (hmem : ∀ k, k ∈ keys ↔ k ∈ l.map key) : l.eraseDups.length = keys.length := by
  have hset : (l.map key).toFinset = keys.toFinset := by
    ext k
    rw [List.mem_toFinset, List.mem_toFinset, hmem]
  rw [length_eraseDups_eq_card h, hset, List.toFinset_card_of_nodup (hkeys.imp ne_of_lt)]

end Key

/-! ### Keys of bins -/

theorem Extent.beq_iff_key_eq {a b : Extent} (ha : a.IsNumeric) (hb : b.IsNumeric) :
    (a == b) = true ↔ a.key = b.key := by
  rw [Extent.beq_iff, Binary64.beq_iff, Binary64.beq_iff, key, key, toLex_inj, Prod.mk.injEq]
  simp only [ha.1, ha.2, hb.1, hb.2, true_and]

/-- The places are in order if one extent starts lower than the other, or at the same number and
ends lower. -/
theorem Extent.key_lt_iff {a b : Extent} (ha : a.IsNumeric) (hb : b.IsNumeric) :
    a.key < b.key ↔ a.low < b.low ∨ (a.low == b.low) = true ∧ a.high < b.high := by
  rw [Binary64.lt_iff, Binary64.beq_iff, Binary64.lt_iff, key, key, Prod.Lex.toLex_lt_toLex]
  simp only [ha.1, ha.2, hb.1, hb.2, true_and]

namespace Bin

variable {a b : Bin}

/-- All ends are numbers. -/
def IsNumeric (b : Bin) : Prop := ∀ e ∈ b.extents, e.IsNumeric

/-- The places of the extents, from the last axis to the first. -/
def key (b : Bin) : List (Int ×ₗ Int) := (b.extents.map Extent.key).reverse

@[simp] theorem length_key : b.key.length = b.axisCount := by simp [key, axisCount]

theorem key_concat (a b : Bin) : (a.concat b).key = b.key ++ a.key := by
  rw [key, concat, List.map_append, List.reverse_append]
  rfl

theorem isNumeric_of_isIncreasing (h : ∀ e ∈ b.extents, e.isIncreasing = true) : b.IsNumeric :=
  fun e he => Extent.isNumeric_of_isIncreasing (h e he)

/-- The first difference decides as in the lexicographic order of the places. -/
theorem firstDifference_compares {as bs : List Extent} (hlen : as.length = bs.length)
    (ha : ∀ e ∈ as, e.IsNumeric) (hb : ∀ e ∈ bs, e.IsNumeric) :
    (firstDifference (as.zip bs)).Compares (as.map Extent.key) (bs.map Extent.key) := by
  induction as generalizing bs with
  | nil =>
    obtain rfl := List.length_eq_zero_iff.mp hlen.symm
    exact rfl
  | cons e as ih =>
    obtain ⟨f, bs, rfl⟩ := List.exists_cons_of_length_eq_add_one hlen.symm
    obtain ⟨he, ha⟩ := List.forall_mem_cons.mp ha
    obtain ⟨hf, hb⟩ := List.forall_mem_cons.mp hb
    have hkey := Extent.beq_iff_key_eq he hf
    rw [List.zip_cons_cons, firstDifference, List.map_cons, List.map_cons,
      Extent.compare?_eq he hf, Option.getD_some]
    rcases lt_trichotomy e.key f.key with hlt | heq | hgt
    · rw [if_neg fun h => hlt.ne (hkey.mp h), compare_lt_iff_lt.mpr hlt]
      exact List.cons_lt_cons_iff.mpr (Or.inl hlt)
    · -- a common first place leaves the order of the others
      rw [if_pos (hkey.mpr heq), heq]
      have ih := ih (Nat.succ.inj hlen) ha hb
      cases hdiff : firstDifference (as.zip bs) with
      | lt => exact List.cons_lt_cons_iff.mpr (Or.inr ⟨rfl, ih.eq_lt.mp hdiff⟩)
      | eq => exact congrArg (f.key :: ·) (ih.eq_eq.mp hdiff)
      | gt => exact List.cons_lt_cons_iff.mpr (Or.inr ⟨rfl, ih.eq_gt.mp hdiff⟩)
    · rw [if_neg fun h => hgt.ne' (hkey.mp h), compare_gt_iff_gt.mpr hgt]
      exact List.cons_lt_cons_iff.mpr (Or.inl hgt)

/-- The last axis on which two bins differ is the first one from the end. -/
theorem order_eq_firstDifference (hcount : a.axisCount = b.axisCount) :
    a.order b = firstDifference (a.extents.reverse.zip b.extents.reverse) := by
  rw [order, List.zip_eq_zipWith, List.zip_eq_zipWith]
  exact congrArg firstDifference (List.reverse_zipWith hcount)

/-- Bins with equally many axes are ordered as their keys are. -/
theorem order_compares (hcount : a.axisCount = b.axisCount) (ha : a.IsNumeric)
    (hb : b.IsNumeric) : (a.order b).Compares a.key b.key := by
  rw [order_eq_firstDifference hcount, key, key, ← List.map_reverse, ← List.map_reverse]
  apply firstDifference_compares
  · rw [List.length_reverse, List.length_reverse]
    exact hcount
  · exact fun e he => ha e (List.mem_reverse.mp he)
  · exact fun e he => hb e (List.mem_reverse.mp he)

/-- Bins of numbers are equal if and only if their keys are. -/
theorem beq_iff_key_eq (ha : a.IsNumeric) (hb : b.IsNumeric) :
    (a == b) = true ↔ a.key = b.key := by
  obtain ⟨as⟩ := a
  obtain ⟨bs⟩ := b
  rw [key, key, List.reverse_inj]
  show (as == bs) = true ↔ as.map Extent.key = bs.map Extent.key
  induction as generalizing bs with
  | nil => cases bs <;> simp
  | cons e as ih =>
    cases bs with
    | nil => simp
    | cons f bs =>
      obtain ⟨he, ha⟩ := List.forall_mem_cons.mp ha
      obtain ⟨hf, hb⟩ := List.forall_mem_cons.mp hb
      rw [List.cons_beq_cons, Bool.and_eq_true, Extent.beq_iff_key_eq he hf, ih ha bs hb,
        List.map_cons, List.map_cons, List.cons.injEq]

end Bin

/-! ### Sorted lists of bins -/

namespace Bins

variable {bins s : List Bin} {n : Nat}

/-- Bins with equally many axes and numbers as ends are put in the order of their keys. -/
theorem pairwise_sorted (hcount : ∀ b ∈ bins, b.axisCount = n) (hnum : ∀ b ∈ bins, b.IsNumeric) :
    (sorted bins).Pairwise fun a b => a.key ≤ b.key := by
  refine pairwise_mergeSort_of_key fun a ha b hb => ?_
  have horder := Bin.order_compares ((hcount a ha).trans (hcount b hb).symm) (hnum a ha) (hnum b hb)
  rw [Bool.eq_iff_iff, bne_iff_ne, decide_eq_true_iff]
  exact horder.ne_gt

theorem mem_sorted {b : Bin} : b ∈ sorted bins ↔ b ∈ bins := (List.mergeSort_perm bins _).mem_iff

theorem beq_iff_of_mem_sorted (hnum : ∀ b ∈ bins, b.IsNumeric) :
    ∀ a ∈ sorted bins, ∀ b ∈ sorted bins, (a == b) = true ↔ a.key = b.key := fun a ha b hb =>
  Bin.beq_iff_key_eq (hnum a (mem_sorted.mp ha)) (hnum b (mem_sorted.mp hb))

/-- The distinct bins ascend strictly. -/
theorem pairwise_eraseReps_sorted (hcount : ∀ b ∈ bins, b.axisCount = n)
    (hnum : ∀ b ∈ bins, b.IsNumeric) :
    ((sorted bins).eraseReps).Pairwise fun a b => a.key < b.key :=
  pairwise_eraseRepsBy (beq_iff_of_mem_sorted hnum) (pairwise_sorted hcount hnum)

/-- Of the sorted list as many bins are left as there are distinct ones. -/
theorem length_eraseReps_sorted (hcount : ∀ b ∈ bins, b.axisCount = n)
    (hnum : ∀ b ∈ bins, b.IsNumeric) :
    ((sorted bins).eraseReps).length = bins.eraseDups.length := by
  have hbeq : ∀ a ∈ bins, ∀ b ∈ bins, (a == b) = true ↔ a.key = b.key := fun a ha b hb =>
    Bin.beq_iff_key_eq (hnum a ha) (hnum b hb)
  have hkeys := List.pairwise_map.mpr (pairwise_eraseReps_sorted hcount hnum)
  rw [length_eraseDups_eq_length hbeq hkeys, List.length_map]
  intro k
  simp only [List.mem_map]
  constructor
  · rintro ⟨b, hb, rfl⟩
    exact ⟨b, mem_sorted.mp ((eraseRepsBy_sublist (sorted bins)).subset hb), rfl⟩
  · rintro ⟨b, hb, rfl⟩
    exact exists_mem_eraseRepsBy (beq_iff_of_mem_sorted hnum) (mem_sorted.mpr hb)

/-- There are as many distinct bins as bins if and only if no two bins are equal. -/
theorem length_eraseDups_eq_length_iff (hnum : ∀ b ∈ bins, b.IsNumeric) :
    bins.eraseDups.length = bins.length ↔ bins.Pairwise fun a b => (a == b) = false := by
  have hbeq : ∀ a ∈ bins, ∀ b ∈ bins, (a == b) = true ↔ a.key = b.key := fun a ha b hb =>
    Bin.beq_iff_key_eq (hnum a ha) (hnum b hb)
  have hpairwise : (bins.Pairwise fun a b => (a == b) = false) ↔ (bins.map Bin.key).Nodup := by
    rw [List.Nodup, List.pairwise_map]
    refine List.Pairwise.iff_of_mem fun {a b} ha hb => ?_
    rw [Ne, ← hbeq a ha b hb, Bool.not_eq_true]
  rw [length_eraseDups_eq_card hbeq, hpairwise, ← List.length_map Bin.key]
  exact Multiset.toFinset_card_eq_card_iff_nodup (m := Multiset.ofList (bins.map Bin.key))

end Bins

end BoxBinning
