import BoxBinning.Binning.Build
import BoxBinning.Proofs.Order

/-!
# Which lists of boxes are refused

A list of boxes is accepted if and only if it is a partition (`Bins.requirePartition_eq_ok`), and
otherwise `Bins.IsRefused` says why: the first of five conditions that fails, with the place where
it fails. What is named is described without the sorting and the overlap test that find it
(`Bins.requirePartition_eq_error`). Both ways of building from boxes accept and refuse alike
(`Binning.ofBins_accepts_iff`).
-/

namespace BoxBinning

section First

variable {α : Type} {l : List α} {a b c d : α}

/-- The first member of a list with a property. -/
def IsFirst (P : α → Prop) (l : List α) (a : α) : Prop :=
  P a ∧ ∃ before after, l = before ++ a :: after ∧ ∀ c ∈ before, ¬P c

/-- The first two members of a list that are related, in the order of the earlier one and then of
the later one. -/
def IsFirstPair (R : α → α → Prop) (l : List α) (a b : α) : Prop :=
  ∃ i j, i < j ∧ l[i]? = some a ∧ l[j]? = some b ∧ R a b ∧
    ∀ (m n : Nat) (c d : α), m < n → m < i ∨ m = i ∧ n < j → l[m]? = some c → l[n]? = some d →
      ¬R c d

theorem find?_eq_some_iff_isFirst {p : α → Bool} {P : α → Prop} (h : ∀ a, p a = true ↔ P a) :
    l.find? p = some a ↔ IsFirst P l a := by
  simp only [List.find?_eq_some_iff_append, IsFirst, ← h, Bool.not_eq_true', Bool.not_eq_true]

/-- There is only one first pair. -/
theorem IsFirstPair.unique {R : α → α → Prop} (h : IsFirstPair R l a b) (h' : IsFirstPair R l c d) :
    a = c ∧ b = d := by
  obtain ⟨i, j, hij, ha, hb, hab, hfirst⟩ := h
  obtain ⟨m, n, hmn, hc, hd, hcd, hfirst'⟩ := h'
  -- neither pair stands before the other
  have hle : ¬(m < i ∨ m = i ∧ n < j) := fun hlt => hfirst m n c d hmn hlt hc hd hcd
  have hge : ¬(i < m ∨ i = m ∧ j < n) := fun hlt => hfirst' i j a b hij hlt ha hb hab
  obtain rfl : i = m := by omega
  obtain rfl : j = n := by omega
  exact ⟨Option.some.inj (ha.symm.trans hc), Option.some.inj (hb.symm.trans hd)⟩

theorem IsFirstPair.not_pairwise {R : α → α → Prop} (h : IsFirstPair R l a b) :
    ¬l.Pairwise fun c d => ¬R c d := by
  obtain ⟨i, j, hij, ha, hb, hab, -⟩ := h
  obtain ⟨hi, rfl⟩ := List.getElem?_eq_some_iff.mp ha
  obtain ⟨hj, rfl⟩ := List.getElem?_eq_some_iff.mp hb
  exact fun hall => List.pairwise_iff_getElem.mp hall i j hi hj hij hab

theorem isFirstPair_congr {R S : α → α → Prop} (h : ∀ c ∈ l, ∀ d ∈ l, R c d ↔ S c d) :
    IsFirstPair R l a b ↔ IsFirstPair S l a b := by
  unfold IsFirstPair
  refine exists_congr fun i => exists_congr fun j => and_congr_right fun _ =>
    and_congr_right fun ha => and_congr_right fun hb => ?_
  rw [h a (List.mem_of_getElem? ha) b (List.mem_of_getElem? hb)]
  refine and_congr_right fun _ => forall₄_congr fun m n c d => forall₄_congr fun _ _ hc hd => ?_
  rw [h c (List.mem_of_getElem? hc) d (List.mem_of_getElem? hd)]

end First

namespace Bins

variable {bins s : List Bin} {a b : Bin} {e : BinningError}

/-! ### The first overlap -/

theorem isFirstPair_of_firstOverlap {l : List Bin} (h : firstOverlap l = some (a, b)) :
    IsFirstPair (fun c d => c.overlaps d = true) l a b := by
  induction l with
  | nil => cases h
  | cons c rest ih =>
    rw [firstOverlap] at h
    split at h
    · rename_i d hfind
      obtain ⟨rfl, rfl⟩ := Prod.mk.inj (Option.some.inj h)
      obtain ⟨hover, j, hj, rfl, hbefore⟩ := List.find?_eq_some_iff_getElem.mp hfind
      refine ⟨0, j + 1, Nat.succ_pos j, rfl, List.getElem?_eq_getElem hj, hover, ?_⟩
      -- an earlier pair has the same first bin and an earlier second one
      intro m n c' d' hmn hlt hc hd
      obtain ⟨rfl, hnj⟩ : m = 0 ∧ n < j + 1 := by omega
      obtain ⟨n, rfl⟩ := Nat.exists_eq_add_one_of_ne_zero hmn.ne'
      obtain rfl := Option.some.inj hc
      obtain ⟨hn, rfl⟩ := List.getElem?_eq_some_iff.mp (List.getElem?_cons_succ ▸ hd)
      simpa using hbefore n (Nat.lt_of_succ_lt_succ hnj)
    · rename_i hfind
      obtain ⟨i, j, hij, ha, hb, hover, hfirst⟩ := ih h
      refine ⟨i + 1, j + 1, Nat.succ_lt_succ hij, ha, hb, hover, ?_⟩
      intro m n c' d' hmn hlt hc hd
      obtain ⟨n, rfl⟩ := Nat.exists_eq_add_one_of_ne_zero (Nat.ne_zero_of_lt hmn)
      rw [List.getElem?_cons_succ] at hd
      -- the first bin overlaps no later one, and pairs of the others are those of the rest
      cases m with
      | zero =>
        obtain rfl := Option.some.inj hc
        exact List.find?_eq_none.mp hfind d' (List.mem_of_getElem? hd)
      | succ m => exact hfirst m n c' d' (by omega) (by omega) hc hd

/-- The overlapping pair found is the first one. -/
theorem firstOverlap_eq_some {l : List Bin} : firstOverlap l = some (a, b) ↔
    IsFirstPair (fun c d => c.overlaps d = true) l a b := by
  refine ⟨isFirstPair_of_firstOverlap, fun h => ?_⟩
  cases hfirst : firstOverlap l with
  | none =>
    refine absurd ((firstOverlap_eq_none.mp hfirst).imp fun hcd => ?_) h.not_pairwise
    rw [hcd]
    exact Bool.false_ne_true
  | some p =>
    obtain ⟨rfl, rfl⟩ := (isFirstPair_of_firstOverlap hfirst).unique h
    rfl

/-- Among bins with increasing extents it is the first pair that shares a point. -/
theorem firstOverlap_eq_some_iff_meets {n : Nat} (hcount : ∀ b ∈ bins, b.axisCount = n)
    (hinc : ∀ b ∈ bins, ∀ e ∈ b.extents, e.isIncreasing = true) :
    firstOverlap bins = some (a, b) ↔ IsFirstPair Bin.Meets bins a b := by
  rw [firstOverlap_eq_some]
  refine isFirstPair_congr fun c hc d hd => ?_
  exact Bin.overlaps_iff ((hcount c hc).trans (hcount d hd).symm) (hinc c hc) (hinc d hd)

/-! ### Reasons -/

/-- Why a list of bins is refused: the first of the conditions on a partition that fails. -/
inductive IsRefused (bins : List Bin) : BinningError → Prop
  /-- There are no bins, or the first one has no axes. -/
  | noBins (count : axisCount bins = 0) : IsRefused bins .noBins
  /-- A bin has another number of axes than the first; the first such bin is named. -/
  | axisCountMismatch {b : Bin} (count : 0 < axisCount bins)
    (first : IsFirst (fun c => c.axisCount ≠ axisCount bins) bins b) :
    IsRefused bins (.axisCountMismatch (axisCount bins) b.axisCount)
  /-- An extent does not increase; the first such extent in the order of the list is named. -/
  | rangeNotIncreasing {e : Extent} (count : 0 < axisCount bins)
    (same : ∀ b ∈ bins, b.axisCount = axisCount bins)
    (first : IsFirst (fun f => ¬f.low < f.high) (bins.flatMap Bin.extents) e) :
    IsRefused bins (.rangeNotIncreasing e.low e.high)
  /-- Two bins are equal; the numbers of distinct bins and of all bins are named. -/
  | repeatedBins (count : 0 < axisCount bins) (same : ∀ b ∈ bins, b.axisCount = axisCount bins)
    (increasing : ∀ b ∈ bins, ∀ e ∈ b.extents, e.low < e.high)
    (repeated : ¬bins.Pairwise fun a b => (a == b) = false) :
    IsRefused bins (.repeatedBins bins.eraseDups.length bins.length)
  /-- Two bins share a point; the first two that do in the strictly ascending list are named. -/
  | overlappingBins {s : List Bin} {a b : Bin} (count : 0 < axisCount bins)
    (same : ∀ b ∈ bins, b.axisCount = axisCount bins)
    (increasing : ∀ b ∈ bins, ∀ e ∈ b.extents, e.low < e.high)
    (distinct : bins.Pairwise fun a b => (a == b) = false)
    (perm : s.Perm bins) (ascending : s.Pairwise fun a b => a.order b = .lt)
    (first : IsFirstPair Bin.Meets s a b) :
    IsRefused bins (.overlappingBins a b)

/-! ### The checks -/

theorem forall_isIncreasing_iff :
    (∀ b ∈ bins, ∀ e ∈ b.extents, e.isIncreasing = true) ↔
      ∀ b ∈ bins, ∀ e ∈ b.extents, e.low < e.high := by
  simp only [Extent.isIncreasing_iff]

theorem requireSomeAxes_eq_error :
    requireSomeAxes bins = .error e ↔ axisCount bins = 0 ∧ e = .noBins :=
  ite_error_eq_error

theorem requireSameAxes_eq_error : requireSameAxes bins = .error e ↔
    ∃ b, IsFirst (fun c => c.axisCount ≠ axisCount bins) bins b ∧
      e = .axisCountMismatch (axisCount bins) b.axisCount := by
  have hfirst : ∀ b, _ ↔ IsFirst (fun c => c.axisCount ≠ axisCount bins) bins b := fun b =>
    find?_eq_some_iff_isFirst fun _ => bne_iff_ne
  simp only [← hfirst]
  unfold requireSameAxes
  split <;> rename_i hfind <;> simp [hfind, eq_comm]

theorem requireIncreasing_eq_error : requireIncreasing bins = .error e ↔
    ∃ f, IsFirst (fun f => ¬f.low < f.high) (bins.flatMap Bin.extents) f ∧
      e = .rangeNotIncreasing f.low f.high := by
  have hfirst : ∀ f, (bins.flatMap Bin.extents).find? (fun e => !e.isIncreasing) = some f ↔
      IsFirst (fun f => ¬f.low < f.high) (bins.flatMap Bin.extents) f := fun f =>
    find?_eq_some_iff_isFirst fun _ => by
      rw [Bool.not_eq_true', ← Extent.isIncreasing_iff, Bool.not_eq_true]
  simp only [← hfirst]
  unfold requireIncreasing
  split <;> rename_i hfind <;> simp [hfind, eq_comm]

section Distinct

variable (same : ∀ b ∈ bins, b.axisCount = axisCount bins)
  (increasing : ∀ b ∈ bins, ∀ e ∈ b.extents, e.isIncreasing = true)

include same increasing

theorem requireDistinct_eq : requireDistinct bins =
    if bins.eraseDups.length = bins.length then .ok ()
    else .error (.repeatedBins bins.eraseDups.length bins.length) := by
  have hnum : ∀ b ∈ bins, b.IsNumeric := fun b hb =>
    Bin.isNumeric_of_isIncreasing (increasing b hb)
  rw [requireDistinct, unique_eq_ok (requireSameAxes_eq_ok.mpr same),
    ← length_eraseReps_sorted same hnum]
  rfl

theorem requireDistinct_eq_ok :
    requireDistinct bins = .ok () ↔ bins.Pairwise fun a b => (a == b) = false := by
  rw [requireDistinct_eq same increasing, ← length_eraseDups_eq_length_iff fun b hb =>
    Bin.isNumeric_of_isIncreasing (increasing b hb)]
  split_ifs with h
  · simp [h]
  · simp [h]

theorem requireDistinct_eq_error : requireDistinct bins = .error e ↔
    (¬bins.Pairwise fun a b => (a == b) = false) ∧
      e = .repeatedBins bins.eraseDups.length bins.length := by
  rw [requireDistinct_eq same increasing, ← length_eraseDups_eq_length_iff fun b hb =>
    Bin.isNumeric_of_isIncreasing (increasing b hb)]
  split_ifs with h
  · simp [h]
  · simp [h, eq_comm]

/-- Distinct bins have one strictly ascending arrangement, the sorted list. -/
theorem eq_sorted_iff (distinct : bins.Pairwise fun a b => (a == b) = false) :
    s = sorted bins ↔ s.Perm bins ∧ s.Pairwise fun a b => a.order b = .lt := by
  have hnum : ∀ b ∈ bins, b.IsNumeric := fun b hb =>
    Bin.isNumeric_of_isIncreasing (increasing b hb)
  have horder : ∀ a ∈ bins, ∀ b ∈ bins, a.order b = .lt ↔ a.key < b.key := fun a ha b hb =>
    (Bin.order_compares ((same a ha).trans (same b hb).symm) (hnum a ha) (hnum b hb)).eq_lt
  have hperm : (sorted bins).Perm bins := List.mergeSort_perm bins _
  -- nothing is dropped from the sorted list, so its order is strict
  have hstrict : (sorted bins).Pairwise fun a b => a.key < b.key := by
    have hreps := pairwise_eraseReps_sorted same hnum
    rwa [Except.ok.inj ((unique_eq_ok (requireSameAxes_eq_ok.mpr same)).symm.trans
      (unique_eq_sorted (requireSameAxes_eq_ok.mpr same)
        ((requireDistinct_eq_ok same increasing).mpr distinct)))] at hreps
  constructor
  · rintro rfl
    refine ⟨hperm, hstrict.imp_of_mem fun {a b} ha hb hab => ?_⟩
    exact (horder a (hperm.mem_iff.mp ha) b (hperm.mem_iff.mp hb)).mpr hab
  · rintro ⟨hs, hlt⟩
    have hkeys : s.Pairwise fun a b => a.key < b.key := hlt.imp_of_mem fun {a b} ha hb hab =>
      (horder a (hs.mem_iff.mp ha) b (hs.mem_iff.mp hb)).mp hab
    refine List.Perm.eq_of_pairwise (fun a b _ _ hab hba => ?_) hkeys hstrict (hs.trans hperm.symm)
    exact absurd hba hab.asymm

theorem requireDisjoint_eq_error (distinct : bins.Pairwise fun a b => (a == b) = false) :
    requireDisjoint bins = .error e ↔
      ∃ s a b, s.Perm bins ∧ (s.Pairwise fun a b => a.order b = .lt) ∧ IsFirstPair Bin.Meets s a b ∧
        e = .overlappingBins a b := by
  have hsorted := unique_eq_sorted (requireSameAxes_eq_ok.mpr same)
    ((requireDistinct_eq_ok same increasing).mpr distinct)
  have hmeets : ∀ a b, firstOverlap (sorted bins) = some (a, b) ↔
      IsFirstPair Bin.Meets (sorted bins) a b := fun _ _ =>
    firstOverlap_eq_some_iff_meets (fun c hc => same c (mem_sorted.mp hc))
      fun c hc => increasing c (mem_sorted.mp hc)
  have hreason : requireDisjoint bins = .error e ↔
      ∃ a b, firstOverlap (sorted bins) = some (a, b) ∧ e = .overlappingBins a b := by
    have hfind : findOverlap bins [] = .ok (firstOverlap (sorted bins)) := by
      rw [findOverlap, project, if_pos List.isEmpty_nil, hsorted]
      rfl
    rw [requireDisjoint, hfind]
    cases firstOverlap (sorted bins) with
    | none => simp [bind, Except.bind]
    | some pair => simp [bind, Except.bind, Prod.ext_iff, eq_comm]
  rw [hreason]
  constructor
  · rintro ⟨a, b, hab, rfl⟩
    obtain ⟨hperm, hlt⟩ := (eq_sorted_iff same increasing distinct).mp rfl
    exact ⟨_, a, b, hperm, hlt, (hmeets a b).mp hab, rfl⟩
  · rintro ⟨s, a, b, hperm, hlt, hab, rfl⟩
    obtain rfl := (eq_sorted_iff same increasing distinct).mpr ⟨hperm, hlt⟩
    exact ⟨a, b, (hmeets a b).mpr hab, rfl⟩

end Distinct

/-! ### All checks -/

/-- In a partition no point with one coordinate for each axis lies in two bins; this is enough, as
further coordinates do not matter. -/
theorem isPartition_iff : IsPartition bins ↔ 0 < axisCount bins ∧
    (∀ b ∈ bins, b.axisCount = axisCount bins) ∧
    (∀ b ∈ bins, ∀ e ∈ b.extents, e.low < e.high) ∧
    ∀ (i j : Nat) (a b : Bin) (x : List Float), bins[i]? = some a → bins[j]? = some b →
      x.length = axisCount bins → a.contains x = true → b.contains x = true → i = j := by
  rw [← forall_isIncreasing_iff]
  constructor
  · intro h
    exact ⟨h.axisCount_pos, h.axisCount_eq, h.isIncreasing, fun i j a b x ha hb hlen hax hbx =>
      h.eq_of_contains hlen.ge ha hb hax hbx⟩
  · rintro ⟨count, same, increasing, hinj⟩
    refine ⟨count, same, increasing, List.pairwise_iff_getElem.mpr ?_⟩
    rintro i j hi hj hij x hlen ⟨hax, hbx⟩
    -- two bins with a common point overlap, so they also share one without further coordinates
    have ha := List.getElem_mem hi
    have hb := List.getElem_mem hj
    have hover := Bin.overlaps_of_contains ((same _ ha).trans_le hlen) hax hbx
    obtain ⟨y, hlen, hay, hby⟩ := (Bin.overlaps_iff ((same _ ha).trans (same _ hb).symm)
      (increasing _ ha) (increasing _ hb)).mp hover
    exact hij.ne (hinj i j _ _ y (List.getElem?_eq_getElem hi) (List.getElem?_eq_getElem hj)
      (hlen.trans (same _ ha)) hay hby)

/-- No two bins of a partition share a point, in whatever order they are listed. -/
theorem IsPartition.not_meets (h : IsPartition bins) (hperm : s.Perm bins) :
    s.Pairwise fun a b => ¬a.Meets b := by
  have hdisjoint := h.disjoint.perm hperm.symm fun hab x hx hba => hab x hx hba.symm
  refine hdisjoint.imp_of_mem fun {a b} ha _ hab ⟨x, hlen, hax, hbx⟩ => ?_
  exact hab x (hlen.trans (h.axisCount_eq a (hperm.mem_iff.mp ha))).ge ⟨hax, hbx⟩

theorem IsPartition.distinct (h : IsPartition bins) :
    bins.Pairwise fun a b => (a == b) = false :=
  (h.not_meets (List.Perm.refl bins)).imp_of_mem fun {a b} ha _ hab => by
    by_contra hbeq
    exact hab (Bin.meets_of_beq (h.isIncreasing a ha) (Bool.eq_true_of_not_eq_false hbeq))

/-- Exactly the partitions are accepted. -/
theorem requirePartition_eq_ok : requirePartition bins = .ok () ↔ IsPartition bins := by
  refine ⟨isPartition_of_requirePartition, fun h => ?_⟩
  have hdistinct := (requireDistinct_eq_ok h.axisCount_eq h.isIncreasing).mpr h.distinct
  have hdisjoint : requireDisjoint bins = .ok () := by
    cases hresult : requireDisjoint bins with
    | ok => rfl
    | error e =>
      obtain ⟨s, a, b, hperm, -, hfirst, -⟩ :=
        (requireDisjoint_eq_error h.axisCount_eq h.isIncreasing h.distinct).mp hresult
      exact absurd (h.not_meets hperm) hfirst.not_pairwise
  unfold requirePartition
  rw [requireSomeAxes_eq_ok.mpr h.axisCount_pos, requireSameAxes_eq_ok.mpr h.axisCount_eq,
    requireIncreasing_eq_ok.mpr h.isIncreasing, hdistinct, hdisjoint]
  rfl

/-- The reason for refusing a list is the first condition on a partition that fails. -/
theorem requirePartition_eq_error : requirePartition bins = .error e ↔ IsRefused bins e := by
  constructor
  · intro h
    rcases bind_eq_error.mp h with h | ⟨⟨⟩, hsome, h⟩
    · obtain ⟨hcount, rfl⟩ := requireSomeAxes_eq_error.mp h
      exact .noBins hcount
    have hcount := requireSomeAxes_eq_ok.mp hsome
    rcases bind_eq_error.mp h with h | ⟨⟨⟩, hsame, h⟩
    · obtain ⟨b, hfirst, rfl⟩ := requireSameAxes_eq_error.mp h
      exact .axisCountMismatch hcount hfirst
    have hsame := requireSameAxes_eq_ok.mp hsame
    rcases bind_eq_error.mp h with h | ⟨⟨⟩, hinc, h⟩
    · obtain ⟨f, hfirst, rfl⟩ := requireIncreasing_eq_error.mp h
      exact .rangeNotIncreasing hcount hsame hfirst
    have hinc := requireIncreasing_eq_ok.mp hinc
    have hlt := forall_isIncreasing_iff.mp hinc
    rcases bind_eq_error.mp h with h | ⟨⟨⟩, hdistinct, h⟩
    · obtain ⟨hrep, rfl⟩ := (requireDistinct_eq_error hsame hinc).mp h
      exact .repeatedBins hcount hsame hlt hrep
    have hdistinct := (requireDistinct_eq_ok hsame hinc).mp hdistinct
    obtain ⟨s, a, b, hperm, hasc, hfirst, rfl⟩ :=
      (requireDisjoint_eq_error hsame hinc hdistinct).mp h
    exact .overlappingBins hcount hsame hlt hdistinct hperm hasc hfirst
  · intro h
    unfold requirePartition
    cases h with
    | noBins hcount =>
      rw [requireSomeAxes_eq_error.mpr ⟨hcount, rfl⟩]
      rfl
    | axisCountMismatch hcount hfirst =>
      rw [requireSomeAxes_eq_ok.mpr hcount, requireSameAxes_eq_error.mpr ⟨_, hfirst, rfl⟩]
      rfl
    | rangeNotIncreasing hcount hsame hfirst =>
      rw [requireSomeAxes_eq_ok.mpr hcount, requireSameAxes_eq_ok.mpr hsame,
        requireIncreasing_eq_error.mpr ⟨_, hfirst, rfl⟩]
      rfl
    | repeatedBins hcount hsame hlt hrep =>
      have hinc := forall_isIncreasing_iff.mpr hlt
      rw [requireSomeAxes_eq_ok.mpr hcount, requireSameAxes_eq_ok.mpr hsame,
        requireIncreasing_eq_ok.mpr hinc, (requireDistinct_eq_error hsame hinc).mpr ⟨hrep, rfl⟩]
      rfl
    | overlappingBins hcount hsame hlt hdistinct hperm hasc hfirst =>
      have hinc := forall_isIncreasing_iff.mpr hlt
      rw [requireSomeAxes_eq_ok.mpr hcount, requireSameAxes_eq_ok.mpr hsame,
        requireIncreasing_eq_ok.mpr hinc, (requireDistinct_eq_ok hsame hinc).mpr hdistinct,
        (requireDisjoint_eq_error hsame hinc hdistinct).mpr ⟨_, _, _, hperm, hasc, hfirst, rfl⟩]
      rfl

end Bins

namespace Binning

variable {policy : InputPolicy} {bins : List Bin} {labels : List String}

theorem ofBins_eq_map (h : bins.length < binLimit) :
    ofBins policy bins labels = (Bins.requirePartition bins).map fun _ =>
      columns ⟨Layout.padLabels labels (Bins.axisCount bins), bins, policy⟩
        (ColumnIndex.ofBins bins) := by
  rw [ofBins, Layout.ofBins, if_pos h]
  exact bind_pure_eq_map _ _

theorem ofBinsByScan_eq_map (h : bins.length < binLimit) :
    ofBinsByScan policy bins labels = (Bins.requirePartition bins).map fun _ =>
      scan ⟨Layout.padLabels labels (Bins.axisCount bins), bins, policy⟩ := by
  rw [ofBinsByScan, Layout.ofBins, if_pos h]
  exact bind_pure_eq_map _ _

/-- Both ways of building from boxes accept exactly the partitions and refuse other lists with the
same reason. -/
theorem ofBins_accepts_iff (policy : InputPolicy) (bins : List Bin) (labels : List String)
    (hlen : bins.length < binLimit) :
    ((∃ b, ofBins policy bins labels = .ok b) ↔ 0 < Bins.axisCount bins ∧
      (∀ b ∈ bins, b.axisCount = Bins.axisCount bins) ∧
      (∀ b ∈ bins, ∀ e ∈ b.extents, e.low < e.high) ∧
      ∀ (i j : Nat) (a b : Bin) (x : List Float), bins[i]? = some a → bins[j]? = some b →
        x.length = Bins.axisCount bins → a.contains x = true → b.contains x = true → i = j) ∧
    ((∃ b, ofBinsByScan policy bins labels = .ok b) ↔ ∃ b, ofBins policy bins labels = .ok b) ∧
    (∀ e, ofBins policy bins labels = .error e ↔ Bins.IsRefused bins e) ∧
    ∀ e, ofBinsByScan policy bins labels = .error e ↔ Bins.IsRefused bins e := by
  simp only [← Bins.isPartition_iff, ← Bins.requirePartition_eq_ok,
    ← Bins.requirePartition_eq_error, ofBins_eq_map hlen, ofBinsByScan_eq_map hlen]
  cases Bins.requirePartition bins with
  | ok => simp [Except.map]
  | error e => simp [Except.map]

/-- Three boxes of which two overlap: they are named in ascending order, not in that of the list. -/
theorem ofBins_accepts_iff_staircase :
    [Bin.mk [⟨1.0, 3.0⟩, ⟨-0.0, 1.0⟩], ⟨[⟨5.0, 6.0⟩, ⟨0.0, 1.0⟩]⟩, ⟨[⟨0.0, 2.0⟩, ⟨0.0, 0.5⟩]⟩].length
      < binLimit ∧
    ofBins .strict
      [⟨[⟨1.0, 3.0⟩, ⟨-0.0, 1.0⟩]⟩, ⟨[⟨5.0, 6.0⟩, ⟨0.0, 1.0⟩]⟩, ⟨[⟨0.0, 2.0⟩, ⟨0.0, 0.5⟩]⟩] []
      = .error (.overlappingBins ⟨[⟨0.0, 2.0⟩, ⟨0.0, 0.5⟩]⟩ ⟨[⟨1.0, 3.0⟩, ⟨-0.0, 1.0⟩]⟩) := by
  have hlen : [Bin.mk [⟨1.0, 3.0⟩, ⟨-0.0, 1.0⟩], ⟨[⟨5.0, 6.0⟩, ⟨0.0, 1.0⟩]⟩,
      ⟨[⟨0.0, 2.0⟩, ⟨0.0, 0.5⟩]⟩].length < binLimit := by decide
  obtain ⟨-, -, hreason, -⟩ := ofBins_accepts_iff .strict _ [] hlen
  have hmeets : Bin.Meets ⟨[⟨0.0, 2.0⟩, ⟨0.0, 0.5⟩]⟩ ⟨[⟨1.0, 3.0⟩, ⟨-0.0, 1.0⟩]⟩ :=
    ⟨[1.5, 0.25], rfl, rfl, rfl⟩
  have hperm : [Bin.mk [⟨0.0, 2.0⟩, ⟨0.0, 0.5⟩], ⟨[⟨1.0, 3.0⟩, ⟨-0.0, 1.0⟩]⟩,
      ⟨[⟨5.0, 6.0⟩, ⟨0.0, 1.0⟩]⟩].Perm _ := (List.perm_append_singleton _ _).symm
  refine ⟨hlen, (hreason _).mpr (.overlappingBins (by decide) (by decide) (by decide) (by decide)
    hperm (by decide) ?_)⟩
  exact ⟨0, 1, Nat.zero_lt_one, rfl, rfl, hmeets, fun m n _ _ hmn hlt => by omega⟩

end Binning

end BoxBinning
