import BoxBinning.Proofs.Binning.Build
import BoxBinning.Proofs.Unique

/-!
# Joined edges

`Edges.joined` strings series of edges together and drops every edge that repeats the one before it.
The series are accepted if and only if none of their edges is below the one before it and not all
of them are equal, for what is left strictly increases if and only if nothing descended before
(`Edges.isChain_eraseReps`). The edges that are left are the only strictly increasing ones with the
values of the series, and positions in an error are those in the list without repetitions
(`Edges.joined_exact`).
-/

namespace BoxBinning

open Binary64

/-! ### Dropping repetitions -/

section EraseReps

variable {α : Type} {r : α → α → Bool} {R : α → α → Prop} {a b : α} {as : List α}

/-- The first member is kept. -/
theorem exists_eraseRepsBy_cons (a : α) (as : List α) :
    ∃ rest, (a :: as).eraseRepsBy r = a :: rest := by
  match as with
  | [] => exact ⟨[], rfl⟩
  | b :: as =>
    rw [eraseRepsBy_cons_cons]
    split_ifs with h
    · exact exists_eraseRepsBy_cons a as
    · exact ⟨_, rfl⟩
termination_by as.length

/-- Repetitions in the front part may be dropped first. -/
theorem eraseRepsBy_append (l m : List α) :
    (l.eraseRepsBy r ++ m).eraseRepsBy r = (l ++ m).eraseRepsBy r := by
  match l with
  | [] => rfl
  | [a] => rfl
  | a :: b :: as =>
    have happend : (a :: b :: as ++ m).eraseRepsBy r = if r a b then (a :: as ++ m).eraseRepsBy r
        else a :: (b :: as ++ m).eraseRepsBy r := eraseRepsBy_cons_cons a b (as ++ m)
    rw [happend, eraseRepsBy_cons_cons]
    split_ifs with h
    · exact eraseRepsBy_append (a :: as) m
    · -- `b` stays in front of what is left, so the first two members are the same as before
      obtain ⟨rest, hrest⟩ := exists_eraseRepsBy_cons (r := r) b as
      rw [← eraseRepsBy_append (b :: as) m, hrest, List.cons_append, List.cons_append,
        eraseRepsBy_cons_cons, if_neg h]
termination_by l.length

theorem isChain_cons_congr (h : ∀ c, R a c ↔ R b c) :
    (a :: as).IsChain R ↔ (b :: as).IsChain R := by
  cases as with
  | nil => simp
  | cons c as => rw [List.isChain_cons_cons, List.isChain_cons_cons, h c]

/-- Neighbours that are left are related as they should if and only if all neighbours were, where
repetitions count as related and are alike. -/
theorem isChain_eraseRepsBy {S : α → α → Prop} (hr : ∀ a b, r a b = true → R a b)
    (hcongr : ∀ a b, r a b = true → ∀ c, R a c ↔ R b c)
    (hS : ∀ a b, r a b = false → (S a b ↔ R a b)) (l : List α) :
    (l.eraseRepsBy r).IsChain S ↔ l.IsChain R := by
  match l with
  | [] => exact iff_of_true .nil .nil
  | [a] => exact iff_of_true (.singleton a) (.singleton a)
  | a :: b :: as =>
    rw [eraseRepsBy_cons_cons, List.isChain_cons_cons]
    split_ifs with h
    · rw [isChain_eraseRepsBy hr hcongr hS (a :: as), isChain_cons_congr (hcongr a b h),
        and_iff_right (hr a b h)]
    · have ih := isChain_eraseRepsBy hr hcongr hS (b :: as)
      obtain ⟨rest, hrest⟩ := exists_eraseRepsBy_cons (r := r) b as
      rw [hrest] at ih
      rw [hrest, List.isChain_cons_cons, ih, hS a b (Bool.eq_false_of_not_eq_true h)]
termination_by l.length

end EraseReps

namespace Edges

variable {edges others l m : List Float} {series rest : List (List Float)} {e : BinningError}
  {v w : Float}

/-! ### Values -/

theorem le_congr_of_beq (h : (v == w) = true) (u : Float) : v ≤ u ↔ w ≤ u := by
  obtain ⟨hv, hw, heq⟩ := beq_iff.mp h
  rw [le_iff, le_iff, hv, hw, heq]

theorem beq_congr_of_beq (h : (v == w) = true) (u : Float) :
    (v == u) = true ↔ (w == u) = true :=
  ⟨beq_trans (beq_symm h), beq_trans h⟩

theorem lt_iff_le_of_not_beq (h : (v == w) = false) : v < w ↔ v ≤ w := by
  rw [lt_iff, le_iff]
  refine and_congr_right fun hv => and_congr_right fun hw => ?_
  refine ⟨le_of_lt, fun hle => hle.lt_of_ne fun heq => ?_⟩
  rw [beq_iff.mpr ⟨hv, hw, heq⟩] at h
  cases h

/-- What is left strictly increases if and only if nothing descended. -/
theorem isChain_eraseReps : l.eraseReps.IsChain (· < ·) ↔ l.IsChain (· ≤ ·) :=
  isChain_eraseRepsBy (r := (· == ·)) (R := (· ≤ ·)) (S := (· < ·)) (fun _ _ => le_of_beq)
    (fun _ _ => le_congr_of_beq) (fun _ _ => lt_iff_le_of_not_beq) l

theorem pairwise_eraseReps : l.eraseReps.Pairwise (· < ·) ↔ l.IsChain (· ≤ ·) := by
  rw [← isChain_eraseReps]
  exact ⟨List.Pairwise.isChain, fun h => h.pairwise⟩

/-- At most one edge is left if and only if all are equal. -/
theorem length_eraseReps_lt_two :
    l.eraseReps.length < 2 ↔ l.Pairwise fun v w => (v == w) = true := by
  have hchain : (l.eraseReps.IsChain fun _ _ => False) ↔ l.IsChain fun v w => (v == w) = true :=
    isChain_eraseRepsBy (r := (· == ·)) (R := fun v w => (v == w) = true) (fun _ _ h => h)
      (fun _ _ => beq_congr_of_beq) (fun _ _ h => by rw [h, Bool.false_eq_true]) l
  have htrans : IsTrans Float fun v w => (v == w) = true := ⟨fun _ _ _ => beq_trans⟩
  rw [← List.isChain_iff_pairwise, ← hchain]
  match l.eraseReps with
  | [] => simp
  | [v] => simp
  | v :: w :: edges => simp

/-- Every value of one list is a value of the other. -/
def SameValues (edges others : List Float) : Prop :=
  (∀ v ∈ edges, ∃ w ∈ others, (v == w) = true) ∧ ∀ w ∈ others, ∃ v ∈ edges, (v == w) = true

/-- Only numbers are comparable with a neighbour. -/
theorem isNaN_of_isChain (h : l.IsChain (· ≤ ·)) (hlen : 2 ≤ l.length) :
    ∀ v ∈ l, v.isNaN = false := by
  induction l with
  | nil => exact List.forall_mem_nil _
  | cons a as ih =>
    obtain ⟨b, as, rfl⟩ := List.exists_cons_of_length_pos (Nat.le_of_succ_le_succ hlen)
    obtain ⟨hab, h⟩ := List.isChain_cons_cons.mp h
    obtain ⟨ha, hb, -⟩ := le_iff.mp hab
    refine List.forall_mem_cons.mpr ⟨ha, ?_⟩
    cases as with
    | nil => exact List.forall_mem_singleton.mpr hb
    | cons c as => exact ih h (Nat.le_add_left 2 as.length)

theorem sameValues_eraseReps (h : ∀ v ∈ l, v.isNaN = false) : SameValues l.eraseReps l := by
  have hbeq : ∀ v ∈ l, ∀ w ∈ l, (v == w) = true ↔ ordinal v = ordinal w := fun v hv w hw => by
    rw [beq_iff, and_iff_right (h v hv), and_iff_right (h w hw)]
  have hsub := (eraseRepsBy_sublist (r := (· == ·)) l).subset
  refine ⟨fun v hv => ⟨v, hsub hv, (hbeq v (hsub hv) v (hsub hv)).mpr rfl⟩, fun w hw => ?_⟩
  obtain ⟨v, hv, hvw⟩ := exists_mem_eraseRepsBy hbeq hw
  exact ⟨v, hv, (hbeq v (hsub hv) w hw).mpr hvw⟩

/-- Strictly increasing edges are determined by their values. -/
theorem forall₂_beq_of_sameValues (hedges : edges.Pairwise (· < ·))
    (hothers : others.Pairwise (· < ·)) (hl : SameValues edges l) (hm : SameValues others l) :
    List.Forall₂ (fun v w => (v == w) = true) edges others := by
  have hmap : ∀ {es}, SameValues es l → ∀ k, k ∈ es.map ordinal ↔ k ∈ l.map ordinal := by
    intro es hes k
    rw [List.mem_map, List.mem_map]
    constructor
    · rintro ⟨v, hv, rfl⟩
      obtain ⟨w, hw, hvw⟩ := hes.1 v hv
      exact ⟨w, hw, (beq_iff.mp hvw).2.2.symm⟩
    · rintro ⟨w, hw, rfl⟩
      obtain ⟨v, hv, hvw⟩ := hes.2 w hw
      exact ⟨v, hv, (beq_iff.mp hvw).2.2⟩
  have hasc : ∀ {es : List Float}, es.Pairwise (· < ·) → (es.map ordinal).Pairwise (· < ·) :=
    fun h => List.pairwise_map.mpr (h.imp fun hlt => (lt_iff.mp hlt).2.2)
  have hnum : ∀ {es}, SameValues es l → ∀ v ∈ es, v.isNaN = false := fun hes v hv => by
    obtain ⟨w, -, hvw⟩ := hes.1 v hv
    exact (beq_iff.mp hvw).1
  have heq : edges.map ordinal = others.map ordinal :=
    (hasc hedges).eq_of_mem_iff (hasc hothers) fun k => (hmap hl k).trans (hmap hm k).symm
  exact forall₂_of_map_eq heq fun v hv w hw hvw => beq_iff.mpr ⟨hnum hl v hv, hnum hm w hw, hvw⟩

/-! ### The checks -/

/-- The first edge that is not above the one before it stands at `i + 1`. -/
def IsFirstDescent (edges : List Float) (i : Nat) (v w : Float) : Prop :=
  edges[i]? = some v ∧ edges[i + 1]? = some w ∧ ¬v < w ∧
    ∀ (j : Nat) (a b : Float), j < i → edges[j]? = some a → edges[j + 1]? = some b → a < b

theorem requireTwo_eq_error :
    requireTwo edges = .error e ↔ edges.length < 2 ∧ e = .tooFewEdges edges.length :=
  ite_error_eq_error

theorem find?_cells_eq_some_iff {c : Extent} {i : Nat} :
    ((cells edges).zipIdx.find? fun (cell, _) => !cell.isIncreasing) = some (c, i) ↔
      IsFirstDescent edges i c.low c.high := by
  have hinc : ∀ c : Extent, (!c.isIncreasing) = true ↔ ¬c.low < c.high := fun c => by
    rw [Bool.not_eq_true', ← Extent.isIncreasing_iff, Bool.not_eq_true]
  rw [List.find?_eq_some_iff_getElem, IsFirstDescent, hinc, ← and_assoc, ← getElem?_cells,
    and_left_comm]
  refine and_congr_right fun _ => ?_
  constructor
  · rintro ⟨k, hk, hc, hbefore⟩
    rw [List.getElem_zipIdx, Nat.zero_add] at hc
    obtain ⟨rfl, rfl⟩ := Prod.mk.inj hc
    rw [List.length_zipIdx] at hk
    refine ⟨List.getElem?_eq_getElem hk, fun j a b hj ha hb => ?_⟩
    have hcell := getElem?_cells (c := ⟨a, b⟩).mpr ⟨ha, hb⟩
    obtain ⟨hlt, hcell⟩ := List.getElem?_eq_some_iff.mp hcell
    have hj := hbefore j hj
    simp only [List.getElem_zipIdx, hcell, Bool.not_not] at hj
    rwa [Extent.isIncreasing_iff] at hj
  · rintro ⟨hc, hbefore⟩
    obtain ⟨hi, rfl⟩ := List.getElem?_eq_some_iff.mp hc
    refine ⟨i, by rwa [List.length_zipIdx], by rw [List.getElem_zipIdx, Nat.zero_add], ?_⟩
    intro j hj
    have hcell := getElem?_cells.mp (List.getElem?_eq_getElem (l := cells edges) (hj.trans hi))
    simp only [List.getElem_zipIdx, Bool.not_not]
    rw [Extent.isIncreasing_iff]
    exact hbefore j _ _ hj hcell.1 hcell.2

theorem requireIncreasing_eq_error : requireIncreasing edges = .error e ↔
    ∃ i v w, IsFirstDescent edges i v w ∧ e = .edgesNotIncreasing (i + 1) v w := by
  unfold requireIncreasing
  split
  · rename_i c k hfind
    have hfirst := find?_cells_eq_some_iff.mp hfind
    constructor
    · intro h
      exact ⟨k, c.low, c.high, hfirst, (Except.error.inj h).symm⟩
    · rintro ⟨i, v, w, hdescent, rfl⟩
      have hfind' := find?_cells_eq_some_iff (c := ⟨v, w⟩).mpr hdescent
      obtain ⟨rfl, rfl⟩ := Prod.mk.inj (Option.some.inj (hfind.symm.trans hfind'))
      rfl
  · rename_i hfind
    refine iff_of_false nofun ?_
    rintro ⟨i, v, w, hdescent, -⟩
    rw [find?_cells_eq_some_iff (c := ⟨v, w⟩).mpr hdescent] at hfind
    cases hfind

/-! ### Joining -/

theorem joined_eq_ok : joined series = .ok edges ↔
    edges = series.flatten.eraseReps ∧ 2 ≤ edges.length ∧ edges.Pairwise (· < ·) := by
  unfold joined
  constructor
  · intro h
    obtain ⟨⟨⟩, htwo, h⟩ := bind_eq_ok.mp h
    obtain ⟨⟨⟩, hinc, h⟩ := bind_eq_ok.mp h
    obtain rfl := Except.ok.inj h
    exact ⟨rfl, requireTwo_eq_ok.mp htwo, requireIncreasing_eq_ok.mp hinc⟩
  · rintro ⟨rfl, htwo, hinc⟩
    simp only [requireTwo_eq_ok.mpr htwo, requireIncreasing_eq_ok.mpr hinc]
    rfl

theorem exists_joined_iff : (∃ edges, joined series = .ok edges) ↔
    series.flatten.IsChain (· ≤ ·) ∧ ¬series.flatten.Pairwise fun v w => (v == w) = true := by
  simp only [joined_eq_ok, exists_eq_left]
  rw [pairwise_eraseReps, ← length_eraseReps_lt_two, not_lt, and_comm]

theorem joined_eq_error : joined series = .error e ↔
    series.flatten.eraseReps.length < 2 ∧ e = .tooFewEdges series.flatten.eraseReps.length ∨
      2 ≤ series.flatten.eraseReps.length ∧ ∃ i v w,
        IsFirstDescent series.flatten.eraseReps i v w ∧ e = .edgesNotIncreasing (i + 1) v w := by
  unfold joined
  rw [bind_eq_error, requireTwo_eq_error]
  refine or_congr_right ?_
  rw [← requireTwo_eq_ok, ← requireIncreasing_eq_error]
  constructor
  · rintro ⟨⟨⟩, htwo, h⟩
    rcases bind_eq_error.mp h with h | ⟨⟨⟩, -, h⟩
    · exact ⟨htwo, h⟩
    · cases h
  · rintro ⟨htwo, h⟩
    exact ⟨(), htwo, bind_eq_error.mpr (.inl h)⟩

theorem joined_congr (h : others.eraseReps = series.flatten.eraseReps)
    (hrest : rest.flatten = others) : joined rest = joined series := by
  subst hrest
  unfold joined
  rw [h]

/-- Edges of a result have the values of the series, as none of these is undefined. -/
theorem sameValues_of_joined (h : joined series = .ok edges) : SameValues edges series.flatten := by
  obtain ⟨hchain, hne⟩ := exists_joined_iff.mp ⟨edges, h⟩
  obtain ⟨rfl, -, -⟩ := joined_eq_ok.mp h
  have hlen : 2 ≤ series.flatten.length := by
    rw [← length_eraseReps_lt_two, not_lt] at hne
    exact hne.trans (eraseRepsBy_sublist _).length_le
  exact sameValues_eraseReps (isNaN_of_isChain hchain hlen)

/-- Distinct ascending edges are accepted as those of a row, unless there are too many of them. -/
theorem exists_ofEdges (policy : InputPolicy) (label : String) (hlen : 2 ≤ edges.length)
    (hinc : edges.Pairwise (· < ·)) (hlt : edges.length - 1 < binLimit) :
    ∃ b, Binning.ofEdges policy edges label = .ok b := by
  unfold Binning.ofEdges
  refine exists_bind_eq_ok.mpr ⟨_, toBins_eq_ok.mpr ⟨hlen, hinc, rfl⟩, ?_⟩
  exact exists_bind_eq_ok.mpr
    ⟨_, Binning.layout_ofBins_eq_ok.mpr ⟨by rwa [length_bins], rfl⟩, _, rfl⟩

/-- Series are joined if and only if no edge is below the one before it and not all are equal. The
result strictly increases, has the values of the series, is up to equality the only such list, and
makes a row unless it is too long. Otherwise there are too few edges without repetitions, or the
first descent among them is named. The result does not depend on how the edges are divided into
series, nor on whether the first series have been joined before. -/
theorem joined_exact (policy : InputPolicy) (label : String) (series : List (List Float)) :
    ((∃ edges, joined series = .ok edges) ↔ series.flatten.IsChain (· ≤ ·) ∧
      ¬series.flatten.Pairwise fun v w => (v == w) = true) ∧
    (∀ edges, joined series = .ok edges →
      edges.Pairwise (· < ·) ∧ SameValues edges series.flatten ∧
      (∀ others : List Float, others.Pairwise (· < ·) → SameValues others series.flatten →
        List.Forall₂ (fun v w => (v == w) = true) edges others) ∧
      (edges.length - 1 < binLimit → ∃ b, Binning.ofEdges policy edges label = .ok b)) ∧
    (∀ e, joined series = .error e ↔
      series.flatten.eraseReps.length < 2 ∧ e = .tooFewEdges series.flatten.eraseReps.length ∨
        2 ≤ series.flatten.eraseReps.length ∧ ∃ i v w,
          IsFirstDescent series.flatten.eraseReps i v w ∧ e = .edgesNotIncreasing (i + 1) v w) ∧
    (∀ others : List (List Float), others.flatten = series.flatten →
      joined others = joined series) ∧
    ∀ first rest edges, series = first ++ rest → joined first = .ok edges →
      joined (edges :: rest) = joined series := by
  refine ⟨exists_joined_iff, fun edges h => ?_, fun e => joined_eq_error, fun others h => ?_, ?_⟩
  · obtain ⟨-, hlen, hinc⟩ := joined_eq_ok.mp h
    have hsame := sameValues_of_joined h
    exact ⟨hinc, hsame, fun others hothers hsame' =>
      forall₂_beq_of_sameValues hinc hothers hsame hsame', exists_ofEdges policy label hlen hinc⟩
  · exact joined_congr rfl h
  · rintro first rest edges rfl h
    obtain ⟨rfl, -, -⟩ := joined_eq_ok.mp h
    refine joined_congr ?_ List.flatten_cons
    rw [List.flatten_append]
    exact eraseRepsBy_append first.flatten rest.flatten

/-- Two series that meet at one edge, and a zero of either sign; then a value that comes back. -/
theorem joined_exact_seam :
    (∃ edges, joined [[-0.0, 0.0, 1.0], [], [1.0, 2.0]] = .ok edges ∧ edges.Pairwise (· < ·) ∧
      (∃ b, Binning.ofEdges .strict edges "x" = .ok b) ∧
      joined (edges :: [[2.0, 3.0]]) = joined [[-0.0, 0.0, 1.0], [], [1.0, 2.0], [2.0, 3.0]]) ∧
    joined [[0.0, 1.0, 1.0], [0.0]] = .error (.edgesNotIncreasing 2 1.0 0.0) := by
  obtain ⟨hiff, hok, -⟩ := joined_exact .strict "x" [[-0.0, 0.0, 1.0], [], [1.0, 2.0]]
  obtain ⟨-, -, -, -, hprefix⟩ :=
    joined_exact .strict "x" [[-0.0, 0.0, 1.0], [], [1.0, 2.0], [2.0, 3.0]]
  obtain ⟨-, -, herror, -⟩ := joined_exact .strict "x" [[0.0, 1.0, 1.0], [0.0]]
  obtain ⟨edges, h⟩ := hiff.mpr (by decide)
  obtain ⟨hinc, -, -, hbuild⟩ := hok edges h
  refine ⟨⟨edges, h, hinc, hbuild ?_, hprefix _ _ edges rfl h⟩, ?_⟩
  · obtain ⟨rfl, -, -⟩ := joined_eq_ok.mp h
    decide
  · refine (herror _).mpr (.inr ⟨by decide, 1, 1.0, 0.0, ⟨rfl, rfl, by decide, ?_⟩, rfl⟩)
    intro j a b hj ha hb
    obtain rfl := Nat.lt_one_iff.mp hj
    rw [← Option.some.inj ha, ← Option.some.inj hb]
    decide

end Edges

end BoxBinning
