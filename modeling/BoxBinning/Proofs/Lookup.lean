import BoxBinning.Binning.Find
import BoxBinning.Proofs.Boxes
import BoxBinning.Proofs.Combinations

/-!
# Lookups side by side

A grid and a product both hand the pieces of a point to several lookups and combine the answers.
`Lookup` is a lookup together with its bins, `Lookup.results` are the answers of several lookups to
the pieces of a point, and `Lookup.combine` makes one answer of them: the first one that is not a
bin, or else the number with the indices that were found as digits.

A combination of lookups finds only bins if they do (`Lookup.bounded_combined`), and it agrees with
containment if they do (`Lookup.agrees_combined`). Two combinations answer alike if their lookups do
(`Lookup.rel_combine`, `Lookup.rel_results`).
-/

namespace BoxBinning

open Binary64 MixedRadix

/-- What a lookup answers: the index of a bin, no bin, or an error. -/
abbrev Answer : Type := Except BinningError (Option BinIndex)

/-- A lookup among bins with equally many axes. -/
structure Lookup where
  /-- The number of axes. -/
  axisCount : Nat
  /-- The bins in the order of their indices. -/
  bins : List Bin
  /-- The index of the bin that holds a point. -/
  find : List Float → Answer

namespace Lookup

variable {p : Lookup} {ps : List Lookup} {x : List Float} {strides ds : List BinIndex}
  {r : Answer} {rs rest : List Answer} {i : BinIndex}

/-! ### Answers -/

/-- The answer that is a bin. -/
def found (i : BinIndex) : Answer := .ok (some i)

/-- The indices of all answers, or the first answer that is not a bin. -/
def collect : List Answer → Except BinningError (Option (List BinIndex))
  | [] => .ok (some [])
  | .ok (some i) :: rest => (collect rest).map (Option.map (i :: ·))
  | .ok none :: _ => .ok none
  | .error e :: _ => .error e

/-- The index that the answers combine to, or the first answer that is not a bin. -/
def combine (strides : List BinIndex) (rs : List Answer) : Answer :=
  (collect rs).map (Option.map (encode strides))

theorem found_inj {j : BinIndex} : found i = found j ↔ i = j := by simp [found]

theorem none_ne_found (i : BinIndex) : (.ok none : Answer) ≠ found i := by simp [found]

/-- Answers are bins up to the first one that is not. -/
theorem exists_first_not_found (rs : List Answer) :
    (∃ ds : List BinIndex, rs = ds.map found) ∨
      ∃ (ds : List BinIndex) (r : Answer) (rest : List Answer),
        rs = ds.map found ++ r :: rest ∧ ∀ i, r ≠ found i := by
  induction rs with
  | nil => exact Or.inl ⟨[], rfl⟩
  | cons r rs ih =>
    -- the first answer is a bin and stands before those of the others, or it ends them
    by_cases hr : ∃ i, r = found i
    · obtain ⟨i, rfl⟩ := hr
      rcases ih with ⟨ds, rfl⟩ | ⟨ds, r, rest, rfl, hr⟩
      · exact Or.inl ⟨i :: ds, rfl⟩
      · exact Or.inr ⟨i :: ds, r, rest, rfl, hr⟩
    · exact Or.inr ⟨[], r, rs, rfl, fun i hi => hr ⟨i, hi⟩⟩

theorem collect_append (ds : List BinIndex) (rs : List Answer) :
    collect (ds.map found ++ rs) = (collect rs).map (Option.map (ds ++ ·)) := by
  induction ds with
  | nil => rcases h : collect rs with e | _ | ds <;> simp [h, Except.map]
  | cons d ds ih =>
    show (collect (ds.map found ++ rs)).map (Option.map (d :: ·)) = _
    rw [ih]
    rcases collect rs with e | _ | ds <;> rfl

@[simp] theorem combine_map_found (strides ds : List BinIndex) :
    combine strides (ds.map found) = found (encode strides ds) := by
  have h := collect_append ds []
  rw [List.append_nil] at h
  rw [combine, h]
  simp [collect, found, Except.map]

theorem combine_of_ne_found (hr : ∀ i, r ≠ found i) :
    combine strides (ds.map found ++ r :: rest) = r := by
  rw [combine, collect_append]
  rcases r with e | _ | i
  · rfl
  · rfl
  · exact absurd rfl (hr i)

theorem combine_eq_found : combine strides rs = found i ↔
    ∃ ds, rs = ds.map found ∧ encode strides ds = i := by
  constructor
  · intro h
    rcases exists_first_not_found rs with ⟨ds, rfl⟩ | ⟨ds, r, rest, rfl, hr⟩
    · rw [combine_map_found, found_inj] at h
      exact ⟨ds, rfl, h⟩
    · rw [combine_of_ne_found hr] at h
      exact absurd h (hr i)
  · rintro ⟨ds, rfl, rfl⟩
    exact combine_map_found strides ds

theorem exists_of_combine_eq (hr : ∀ i, r ≠ found i) (h : combine strides rs = r) :
    ∃ (ds : List BinIndex) (rest : List Answer), rs = ds.map found ++ r :: rest := by
  rcases exists_first_not_found rs with ⟨ds, rfl⟩ | ⟨ds, r', rest, rfl, hr'⟩
  · rw [combine_map_found] at h
    exact absurd h.symm (hr _)
  · rw [combine_of_ne_found hr'] at h
    exact ⟨ds, rest, h ▸ rfl⟩

/-- A relation of answers under which the same bins are found is kept when answers are combined: the
first ones that are not bins stand at the same position. -/
theorem rel_combine {R : Answer → Answer → Prop} {ss : List Answer}
    (hfound : ∀ i, R (found i) (found i)) (hR : ∀ r s i, R r s → (r = found i ↔ s = found i))
    (strides : List BinIndex) (h : List.Forall₂ R rs ss) :
    R (combine strides rs) (combine strides ss) := by
  have hprefixed : ∀ ds : List BinIndex,
      R (combine strides (ds.map found ++ rs)) (combine strides (ds.map found ++ ss)) := by
    induction h with
    | nil =>
      intro ds
      rw [List.append_nil, combine_map_found]
      exact hfound _
    | @cons r s rs ss hrs _ ih =>
      intro ds
      by_cases hr : ∃ i, r = found i
      · -- both find the bin, and its index becomes another digit
        obtain ⟨i, hi⟩ := hr
        have hs := (hR r s i hrs).mp hi
        have hdigits := ih (ds ++ [i])
        rw [List.map_append, List.map_singleton, List.append_assoc, List.append_assoc] at hdigits
        rwa [hi, hs]
      · have hr : ∀ i, r ≠ found i := fun i hi => hr ⟨i, hi⟩
        have hs : ∀ i, s ≠ found i := fun i hi => hr i ((hR r s i hrs).mpr hi)
        rw [combine_of_ne_found hr, combine_of_ne_found hs]
        exact hrs
  exact hprefixed []

/-! ### Pieces of a point -/

/-- The answers of the lookups to the pieces of a point, which they take one after the other. -/
def results (ps : List Lookup) (x : List Float) : List Answer :=
  List.zipWith find ps ((ps.map axisCount).splitLengths x)

@[simp] theorem results_nil : results [] x = [] := rfl

@[simp] theorem results_cons :
    results (p :: ps) x = p.find (x.take p.axisCount) :: results ps (x.drop p.axisCount) := by
  simp [results]

@[simp] theorem length_results : (results ps x).length = ps.length := by simp [results]

/-- Lookups that give related answers on equally many axes do so for the pieces of a point. -/
theorem rel_results {R : Answer → Answer → Prop} {qs : List Lookup} (h : List.Forall₂
      (fun p q : Lookup => p.axisCount = q.axisCount ∧ ∀ x, R (p.find x) (q.find x)) ps qs)
    (x : List Float) : List.Forall₂ R (results ps x) (results qs x) := by
  induction h generalizing x with
  | nil => exact .nil
  | @cons p q _ _ hpq _ ih =>
    rw [results_cons, results_cons, ← hpq.1]
    exact .cons (hpq.2 _) (ih _)

/-- Only bins are found. -/
def Bounded (p : Lookup) : Prop := ∀ x i, p.find x = found i → i.toNat < p.bins.length

/-- The indices found first are digits. -/
theorem forall₂_of_results (hb : ∀ p ∈ ps, p.Bounded) (hr : results ps x = ds.map found ++ rest) :
    List.Forall₂ (· < ·) (ds.map UInt32.toNat)
      ((ps.map fun p => p.bins.length).take ds.length) := by
  induction ps generalizing x ds with
  | nil =>
    rw [results_nil, eq_comm, List.append_eq_nil_iff, List.map_eq_nil_iff] at hr
    rw [hr.1]
    exact .nil
  | cons p ps ih =>
    cases ds with
    | nil => exact .nil
    | cons d ds =>
      obtain ⟨hp, hps⟩ := List.forall_mem_cons.mp hb
      rw [results_cons, List.map_cons, List.cons_append, List.cons.injEq] at hr
      exact .cons (hp _ _ hr.1) (ih hps hr.2)

theorem forall₂_of_results_eq (hb : ∀ p ∈ ps, p.Bounded) (hr : results ps x = ds.map found) :
    List.Forall₂ (· < ·) (ds.map UInt32.toNat)
      ((ps.map fun p => p.bins.length).take ds.length) :=
  forall₂_of_results hb (hr.trans (List.append_nil _).symm)

/-! ### Agreement with containment -/

/-- The lookup finds a bin that contains the point, none contains a point for which it finds none,
and no point lies in two bins. -/
structure Agrees (p : Lookup) : Prop where
  /-- All bins have the axes of the lookup. -/
  axisCount_eq : ∀ b ∈ p.bins, b.axisCount = p.axisCount
  /-- What is found contains the point. -/
  sound : ∀ x i, p.find x = found i →
    p.axisCount ≤ x.length ∧ ∃ b, p.bins[i.toNat]? = some b ∧ b.contains x = true
  /-- Nothing is missed, if the coordinates are ordinary numbers. -/
  complete : ∀ x : List Float, p.axisCount ≤ x.length →
    (∀ v ∈ x.take p.axisCount, isBinnable v = true) → p.find x = .ok none →
    ∀ b ∈ p.bins, b.contains x = false
  /-- A point lies in at most one bin. -/
  eq_of_contains : ∀ (x : List Float) (i j : Nat) (a b : Bin), p.axisCount ≤ x.length →
    p.bins[i]? = some a → p.bins[j]? = some b → a.contains x = true → b.contains x = true → i = j

theorem Agrees.bounded (h : p.Agrees) : p.Bounded := fun x i hi => by
  obtain ⟨-, b, hb, -⟩ := h.sound x i hi
  exact (List.getElem?_eq_some_iff.mp hb).1

/-- A lookup that answers gives the bin that contains the point. -/
theorem Agrees.exists_found_iff {i : Nat} {b : Bin} (h : p.Agrees) (hlen : p.axisCount ≤ x.length)
    (hx : ∀ v ∈ x, isBinnable v = true) (hanswer : ∃ r, p.find x = .ok r)
    (hi : p.bins[i]? = some b) :
    (∃ j : BinIndex, j.toNat = i ∧ p.find x = found j) ↔ b.contains x = true := by
  constructor
  · rintro ⟨j, rfl, hfind⟩
    obtain ⟨-, c, hc, hcx⟩ := h.sound x j hfind
    rwa [Option.some.inj (hi.symm.trans hc)]
  · intro hbx
    obtain ⟨_ | j, hr⟩ := hanswer
    · -- the bin contains the point, so it is not missed
      have hnone := h.complete x hlen (fun v hv => hx v (List.mem_of_mem_take hv)) hr b
        (List.mem_of_getElem? hi)
      rw [hbx] at hnone
      cases hnone
    · obtain ⟨-, c, hc, hcx⟩ := h.sound x j hr
      exact ⟨j, h.eq_of_contains x _ _ c b hlen hc hi hcx hbx, hr⟩

/-- The lookup that hands the pieces of a point to several ones and numbers the combinations of
their bins; `short` answers points with too few coordinates. -/
def combined (short : List Float → Answer) (strides : List BinIndex) (ps : List Lookup) :
    Lookup where
  axisCount := (ps.map axisCount).sum
  bins := Binning.combinations (ps.map bins)
  find x := if x.length < (ps.map axisCount).sum then short x else combine strides (results ps x)

variable {short : List Float → Answer}

/-- The digits that are found belong to a bin that contains the point. -/
theorem exists_combination_of_results (h : ∀ p ∈ ps, p.Agrees)
    (hr : results ps x = ds.map found) :
    ∃ b, (Binning.combinations (ps.map bins))[number (weights 1 (ps.map fun p => p.bins.length))
      (ds.map UInt32.toNat)]? = some b ∧ b.contains x = true := by
  induction ps generalizing x ds with
  | nil =>
    rw [results_nil, eq_comm, List.map_eq_nil_iff] at hr
    rw [hr]
    exact ⟨⟨[]⟩, rfl, rfl⟩
  | cons p ps ih =>
    obtain ⟨hp, hps⟩ := List.forall_mem_cons.mp h
    rw [results_cons] at hr
    obtain ⟨d, ds, rfl, hd, hds⟩ := List.map_eq_cons_iff.mp hr.symm
    obtain ⟨-, a, ha, hax⟩ := hp.sound _ d hd.symm
    obtain ⟨c, hc, hcx⟩ := ih hps hds.symm
    -- the bin for the first piece, joined with the combination for the others
    refine ⟨a.concat c, ?_, ?_⟩
    · rw [List.map_cons, List.map_cons, List.map_cons, number_weights_cons]
      exact Binning.getElem?_combinations_add ha hc
    · rw [Bin.contains_concat, hp.axisCount_eq a (List.mem_of_getElem? ha), hax, hcx]
      rfl

/-- No combination contains a point if a lookup finds no bin for its piece. -/
theorem contains_eq_false_of_results (h : ∀ p ∈ ps, p.Agrees)
    (hlen : (ps.map axisCount).sum ≤ x.length)
    (hx : ∀ v ∈ x.take (ps.map axisCount).sum, isBinnable v = true)
    (hr : results ps x = ds.map found ++ .ok none :: rest) :
    ∀ b ∈ Binning.combinations (ps.map bins), b.contains x = false := by
  induction ps generalizing x ds with
  | nil => simp at hr
  | cons p ps ih =>
    obtain ⟨hp, hps⟩ := List.forall_mem_cons.mp h
    rw [List.map_cons, List.sum_cons] at hlen
    rw [List.map_cons, List.sum_cons, List.take_add] at hx
    intro b hb
    obtain ⟨a, ha, c, hc, rfl⟩ := Binning.mem_combinations_cons.mp hb
    rw [Bin.contains_concat, hp.axisCount_eq a ha, Bool.and_eq_false_iff]
    rw [results_cons] at hr
    -- the first lookup finds no bin, or a later one does not
    cases ds with
    | nil =>
      left
      have hpiece : p.axisCount ≤ (x.take p.axisCount).length := by
        rw [List.length_take]
        omega
      refine hp.complete _ hpiece (fun v hv => hx v ?_) (List.cons.inj hr).1 a ha
      rw [List.take_take, Nat.min_self] at hv
      exact List.mem_append_left _ hv
    | cons d ds =>
      right
      have hpieces : (ps.map axisCount).sum ≤ (x.drop p.axisCount).length := by
        rw [List.length_drop]
        omega
      exact ih hps hpieces (fun v hv => hx v (List.mem_append_right _ hv)) (List.cons.inj hr).2 c hc

theorem eq_of_contains_combinations {i j : Nat} {a b : Bin} (h : ∀ p ∈ ps, p.Agrees)
    (hlen : (ps.map axisCount).sum ≤ x.length)
    (ha : (Binning.combinations (ps.map bins))[i]? = some a)
    (hb : (Binning.combinations (ps.map bins))[j]? = some b)
    (hax : a.contains x = true) (hbx : b.contains x = true) : i = j := by
  induction ps generalizing x i j a b with
  | nil =>
    have hi := (List.getElem?_eq_some_iff.mp ha).1
    have hj := (List.getElem?_eq_some_iff.mp hb).1
    exact (Nat.lt_one_iff.mp hi).trans (Nat.lt_one_iff.mp hj).symm
  | cons p ps ih =>
    obtain ⟨hp, hps⟩ := List.forall_mem_cons.mp h
    rw [List.map_cons, List.sum_cons] at hlen
    obtain ⟨a, c, ha', hc, rfl⟩ := Binning.getElem?_combinations_cons.mp ha
    obtain ⟨b, d, hb', hd, rfl⟩ := Binning.getElem?_combinations_cons.mp hb
    rw [Bin.contains_concat, Bool.and_eq_true,
      hp.axisCount_eq a (List.mem_of_getElem? ha')] at hax
    rw [Bin.contains_concat, Bool.and_eq_true,
      hp.axisCount_eq b (List.mem_of_getElem? hb')] at hbx
    have hpiece : p.axisCount ≤ (x.take p.axisCount).length := by
      rw [List.length_take]
      omega
    have hpieces : (ps.map axisCount).sum ≤ (x.drop p.axisCount).length := by
      rw [List.length_drop]
      omega
    -- the positions agree in the first digit and in the rest
    have hmod := hp.eq_of_contains _ _ _ a b hpiece ha' hb' hax.1 hbx.1
    have hdiv := ih hps hpieces hc hd hax.2 hbx.2
    rw [← Nat.div_add_mod i p.bins.length, hmod, hdiv, Nat.div_add_mod]

/-- A combination of lookups that agree with containment agrees with containment. -/
theorem agrees_combined (hshort : ∀ x i, short x ≠ found i) (h : ∀ p ∈ ps, p.Agrees)
    (hnum : IsNumbering strides (ps.map fun p => p.bins.length)) :
    (combined short strides ps).Agrees where
  axisCount_eq := Binning.axisCount_of_mem_combinations fun p hp => (h p hp).axisCount_eq
  sound x i hi := by
    dsimp only [combined] at hi ⊢
    split_ifs at hi with hlen
    · exact absurd hi (hshort x i)
    · obtain ⟨ds, hds, rfl⟩ := combine_eq_found.mp hi
      have hdigits := forall₂_of_results_eq (fun p hp => (h p hp).bounded) hds
      rw [hnum.toNat_encode hdigits]
      exact ⟨not_lt.mp hlen, exists_combination_of_results h hds⟩
  complete x hlen hx hnone := by
    dsimp only [combined] at hlen hx hnone ⊢
    rw [if_neg (not_lt.mpr hlen)] at hnone
    obtain ⟨ds, rest, hds⟩ := exists_of_combine_eq none_ne_found hnone
    exact contains_eq_false_of_results h hlen hx hds
  eq_of_contains x i j a b hlen ha hb hax hbx := eq_of_contains_combinations h hlen ha hb hax hbx

/-- A combination of lookups finds only bins if they do. -/
theorem bounded_combined (hshort : ∀ x i, short x ≠ found i) (h : ∀ p ∈ ps, p.Bounded)
    (hnum : IsNumbering strides (ps.map fun p => p.bins.length)) :
    (combined short strides ps).Bounded := by
  intro x i hi
  dsimp only [combined] at hi ⊢
  split_ifs at hi
  · exact absurd hi (hshort x i)
  · obtain ⟨ds, hds, rfl⟩ := combine_eq_found.mp hi
    have hlt := hnum.encode_lt (forall₂_of_results_eq h hds)
    rwa [Binning.length_combinations, List.map_map]

end Lookup

end BoxBinning
