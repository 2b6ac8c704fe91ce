import BoxBinning.Proofs.Refusal

/-!
# Comparing any two bins

Bins are compared whatever numbers their ends are, also if one of them is undefined. The comparison
is decided by the last axis on which two bins differ (`Bin.IsLastDifference`), and extents that
cannot be compared there make the bins count as equal, although they are not. So the comparison says
that bins are equal for more bins than equality does, while to be less is the converse of to be
greater and transitive as in any order (`Bin.compare?_lawful`).
-/

namespace BoxBinning

open Binary64

section First

variable {α : Type} {P : α → Prop} {l : List α} {a b : α}

theorem isFirst_cons : IsFirst P (a :: l) b ↔ P a ∧ b = a ∨ ¬P a ∧ IsFirst P l b := by
  constructor
  · rintro ⟨hb, before, after, heq, hbefore⟩
    cases before with
    | nil =>
      obtain ⟨rfl, rfl⟩ := List.cons.inj heq
      exact .inl ⟨hb, rfl⟩
    | cons c before =>
      obtain ⟨rfl, rfl⟩ := List.cons.inj heq
      obtain ⟨ha, hbefore⟩ := List.forall_mem_cons.mp hbefore
      exact .inr ⟨ha, hb, before, after, rfl, hbefore⟩
  · rintro (⟨ha, rfl⟩ | ⟨ha, hb, before, after, rfl, hbefore⟩)
    · exact ⟨ha, [], l, rfl, List.forall_mem_nil _⟩
    · exact ⟨hb, a :: before, after, rfl, List.forall_mem_cons.mpr ⟨ha, hbefore⟩⟩

/-- The first member of the reversed list is the last one of the list. -/
theorem isFirst_reverse : IsFirst P l.reverse a ↔
    P a ∧ ∃ k : Nat, l[k]? = some a ∧ ∀ (j : Nat) (b : α), k < j → l[j]? = some b → ¬P b := by
  refine and_congr_right fun ha => ?_
  constructor
  · rintro ⟨before, after, heq, hbefore⟩
    obtain rfl : l = after.reverse ++ a :: before.reverse := by
      simpa using congrArg List.reverse heq
    refine ⟨after.length, by simp, fun j b hj hb => hbefore b ?_⟩
    obtain ⟨i, rfl⟩ := Nat.exists_eq_add_of_lt hj
    rw [List.getElem?_append_right (by simp; omega), List.length_reverse,
      show after.length + i + 1 - after.length = i + 1 by omega, List.getElem?_cons_succ] at hb
    exact List.mem_reverse.mp (List.mem_of_getElem? hb)
  · rintro ⟨k, hk, hlast⟩
    obtain ⟨hlt, rfl⟩ := List.getElem?_eq_some_iff.mp hk
    refine ⟨(l.drop (k + 1)).reverse, (l.take k).reverse, ?_, fun b hb => ?_⟩
    · have hsplit : l = l.take k ++ l[k] :: l.drop (k + 1) := by
        rw [← List.drop_eq_getElem_cons, List.take_append_drop]
      simpa only [List.reverse_append, List.reverse_cons, List.append_assoc, List.singleton_append]
        using congrArg List.reverse hsplit
    · obtain ⟨i, hi⟩ := List.mem_iff_getElem?.mp (List.mem_reverse.mp hb)
      rw [List.getElem?_drop] at hi
      exact hlast _ b (by omega) hi

end First

/-! ### Numbers -/

namespace Binary64

variable {u v w : Float}

theorem compare?_eq_some_lt : compare? u v = some .lt ↔ u < v := by
  unfold compare?
  split_ifs with hlt <;> simp [hlt]

theorem compare?_eq_some_eq : compare? u v = some .eq ↔ (u == v) = true := by
  unfold compare?
  split_ifs with hlt hgt heq
  · refine iff_of_false nofun fun heq => ?_
    have := (lt_iff.mp hlt).2.2
    have := (beq_iff.mp heq).2.2
    omega
  · refine iff_of_false nofun fun heq => ?_
    have := (lt_iff.mp hgt).2.2
    have := (beq_iff.mp heq).2.2
    omega
  · exact iff_of_true rfl heq
  · exact iff_of_false not_false heq

theorem compare?_swap (u v : Float) : compare? v u = (compare? u v).map Ordering.swap := by
  have hcomm : (v == u) = (u == v) := Bool.eq_iff_iff.mpr ⟨beq_symm, beq_symm⟩
  unfold compare?
  rw [hcomm]
  by_cases hlt : u < v
  · have hgt : ¬v < u := fun h => by
      have := (lt_iff.mp h).2.2
      have := (lt_iff.mp hlt).2.2
      omega
    simp [hlt, hgt]
  · by_cases hgt : v < u <;> by_cases heq : (u == v) = true <;> simp [hlt, hgt, heq]

theorem lt_of_beq_of_lt (huv : (u == v) = true) (hvw : v < w) : u < w := by
  rw [beq_iff] at huv
  rw [lt_iff] at hvw ⊢
  exact ⟨huv.1, hvw.2.1, huv.2.2.trans_lt hvw.2.2⟩

theorem lt_of_lt_of_beq (huv : u < v) (hvw : (v == w) = true) : u < w := by
  rw [beq_iff] at hvw
  rw [lt_iff] at huv ⊢
  exact ⟨huv.1, hvw.2.1, huv.2.2.trans_eq hvw.2.2⟩

end Binary64

/-! ### Extents -/

namespace Extent

variable {e f g : Extent}

theorem beq_comm (e f : Extent) : (f == e) = (e == f) :=
  Bool.eq_iff_iff.mpr ⟨beq_symm, beq_symm⟩

theorem compare?_eq_some_lt : e.compare? f = some .lt ↔
    e.low < f.low ∨ (e.low == f.low) = true ∧ e.high < f.high := by
  rw [← Binary64.compare?_eq_some_lt, ← Binary64.compare?_eq_some_lt,
    ← Binary64.compare?_eq_some_eq, compare?]
  rcases Binary64.compare? e.low f.low with _ | (_ | _ | _) <;> simp

theorem compare?_eq_some_eq : e.compare? f = some .eq ↔ (e == f) = true := by
  rw [beq_iff, ← Binary64.compare?_eq_some_eq, ← Binary64.compare?_eq_some_eq, compare?]
  rcases Binary64.compare? e.low f.low with _ | (_ | _ | _) <;> simp

theorem compare?_swap (e f : Extent) : f.compare? e = (e.compare? f).map Ordering.swap := by
  rw [compare?, compare?, Binary64.compare?_swap e.low, Binary64.compare?_swap e.high]
  cases Binary64.compare? e.low f.low with
  | none => rfl
  | some order => cases order <;> rfl

theorem compare?_trans (hef : e.compare? f = some .lt) (hfg : f.compare? g = some .lt) :
    e.compare? g = some .lt := by
  rw [compare?_eq_some_lt] at *
  rcases hef with hef | ⟨hef, hhigh⟩ <;> rcases hfg with hfg | ⟨hfg, hhigh'⟩
  · exact .inl (lt_trans hef hfg)
  · exact .inl (lt_of_lt_of_beq hef hfg)
  · exact .inl (lt_of_beq_of_lt hef hfg)
  · exact .inr ⟨Binary64.beq_trans hef hfg, lt_trans hhigh hhigh'⟩

theorem compare?_of_beq_of_lt (hef : (e == f) = true) (hfg : f.compare? g = some .lt) :
    e.compare? g = some .lt := by
  rw [beq_iff] at hef
  rw [compare?_eq_some_lt] at *
  exact hfg.imp (lt_of_beq_of_lt hef.1)
    fun h => ⟨Binary64.beq_trans hef.1 h.1, lt_of_beq_of_lt hef.2 h.2⟩

theorem compare?_of_lt_of_beq (hef : e.compare? f = some .lt) (hfg : (f == g) = true) :
    e.compare? g = some .lt := by
  rw [beq_iff] at hfg
  rw [compare?_eq_some_lt] at *
  exact hef.imp (fun h => lt_of_lt_of_beq h hfg.1)
    fun h => ⟨Binary64.beq_trans h.1 hfg.1, lt_of_lt_of_beq h.2 hfg.2⟩

end Extent

namespace Bin

variable {a b c : Bin} {e f : Extent}

/-! ### The first difference -/

theorem firstDifference_swap {es fs : List Extent} :
    firstDifference (fs.zip es) = (firstDifference (es.zip fs)).swap := by
  induction es generalizing fs with
  | nil => cases fs <;> rfl
  | cons e es ih =>
    cases fs with
    | nil => rfl
    | cons f fs =>
      rw [List.zip_cons_cons, List.zip_cons_cons, firstDifference, firstDifference,
        Extent.beq_comm e f, Extent.compare?_swap e f, ih]
      split_ifs
      · rfl
      · cases e.compare? f <;> rfl

/-- Extents that cannot be compared count as equal, so what is less is compared. -/
theorem firstDifference_cons_eq_lt {ps : List (Extent × Extent)} :
    firstDifference ((e, f) :: ps) = .lt ↔
      e.compare? f = some .lt ∨ (e == f) = true ∧ firstDifference ps = .lt := by
  simp only [firstDifference, ← Extent.compare?_eq_some_eq]
  rcases e.compare? f with _ | (_ | _ | _) <;> simp

theorem firstDifference_trans {es fs gs : List Extent} (hlen : es.length = fs.length)
    (hlen' : fs.length = gs.length) (hef : firstDifference (es.zip fs) = .lt)
    (hfg : firstDifference (fs.zip gs) = .lt) : firstDifference (es.zip gs) = .lt := by
  induction es generalizing fs gs with
  | nil => cases hef
  | cons e es ih =>
    obtain ⟨f, fs, rfl⟩ := List.exists_cons_of_length_eq_add_one hlen.symm
    obtain ⟨g, gs, rfl⟩ := List.exists_cons_of_length_eq_add_one hlen'.symm
    rw [List.zip_cons_cons, firstDifference_cons_eq_lt] at hef hfg ⊢
    rcases hef with hef | ⟨hef, hrest⟩ <;> rcases hfg with hfg | ⟨hfg, hrest'⟩
    · exact .inl (Extent.compare?_trans hef hfg)
    · exact .inl (Extent.compare?_of_lt_of_beq hef hfg)
    · exact .inl (Extent.compare?_of_beq_of_lt hef hfg)
    · exact .inr ⟨Extent.beq_trans hef hfg, ih (Nat.succ.inj hlen) (Nat.succ.inj hlen') hrest hrest'⟩

/-- The members of the first pair that differs cannot be compared, if there is one. -/
theorem firstDifference_eq_eq {ps : List (Extent × Extent)} : firstDifference ps = .eq ↔
    (∀ p ∈ ps, (p.1 == p.2) = true) ∨
      ∃ e f, IsFirst (fun p => (p.1 == p.2) = false) ps (e, f) ∧ e.compare? f = none := by
  induction ps with
  | nil => simp [firstDifference]
  | cons p ps ih =>
    obtain ⟨e, f⟩ := p
    by_cases hef : (e == f) = true
    · rw [firstDifference, if_pos hef, ih]
      simp [isFirst_cons, hef]
    · have hne : e.compare? f ≠ some .eq := fun h => hef (Extent.compare?_eq_some_eq.mp h)
      rw [firstDifference, if_neg hef]
      rcases hcompare : e.compare? f with _ | (_ | _ | _) <;>
        simp_all [isFirst_cons]

/-! ### Bins -/

/-- The extents of two bins on the last axis on which they differ. -/
def IsLastDifference (a b : Bin) (e f : Extent) : Prop :=
  (e == f) = false ∧ ∃ k : Nat, (a.extents[k]? = some e ∧ b.extents[k]? = some f) ∧
    ∀ (j : Nat) (e' f' : Extent), k < j → a.extents[j]? = some e' → b.extents[j]? = some f' →
      (e' == f') = true

theorem isFirst_reverse_zip :
    IsFirst (fun p => (p.1 == p.2) = false) (a.extents.zip b.extents).reverse (e, f) ↔
      a.IsLastDifference b e f := by
  rw [isFirst_reverse, IsLastDifference]
  simp only [Prod.forall, List.getElem?_zip_eq_some, Bool.not_eq_false, and_imp]

theorem beq_iff_forall_zip : (a == b) = true ↔
    a.axisCount = b.axisCount ∧ ∀ p ∈ a.extents.zip b.extents, (p.1 == p.2) = true := by
  have hiff : (a == b) = true ↔
      List.Forall₂ (fun e f => (e == f) = true) a.extents b.extents := by
    refine ⟨forall₂_extents_of_beq, fun h => ?_⟩
    obtain ⟨as⟩ := a
    obtain ⟨bs⟩ := b
    show (as == bs) = true
    replace h : List.Forall₂ (fun e f => (e == f) = true) as bs := h
    induction h with
    | nil => rfl
    | cons hef _ ih => rw [List.cons_beq_cons, hef, ih, Bool.and_self]
  rw [hiff, List.forall₂_iff_zip]
  simp [axisCount]

/-- The comparison says that two bins are equal if they are, or if the last difference between them
cannot be compared. -/
theorem compare?_eq_some_eq : a.compare? b = some .eq ↔ a.axisCount = b.axisCount ∧
    ((a == b) = true ∨ ∃ e f, a.IsLastDifference b e f ∧ e.compare? f = none) := by
  unfold compare?
  split_ifs with hcount
  · rw [Option.some.injEq, order, firstDifference_eq_eq, beq_iff_forall_zip]
    simp only [List.mem_reverse, isFirst_reverse_zip, hcount, true_and]
  · exact iff_of_false not_false fun h => hcount h.1

theorem compare?_eq_some_lt : a.compare? b = some .lt ↔ a.axisCount = b.axisCount ∧
    firstDifference (a.extents.reverse.zip b.extents.reverse) = .lt := by
  unfold compare?
  split_ifs with hcount
  · rw [Option.some.injEq, order_eq_firstDifference hcount, and_iff_right hcount]
  · exact iff_of_false not_false fun h => hcount h.1

theorem compare?_swap (a b : Bin) : b.compare? a = (a.compare? b).map Ordering.swap := by
  unfold compare?
  by_cases hcount : a.axisCount = b.axisCount
  · rw [if_pos hcount, if_pos hcount.symm, order_eq_firstDifference hcount,
      order_eq_firstDifference hcount.symm, firstDifference_swap, Option.map_some]
  · rw [if_neg hcount, if_neg fun h => hcount h.symm, Option.map_none]

theorem compare?_trans (hab : a.compare? b = some .lt) (hbc : b.compare? c = some .lt) :
    a.compare? c = some .lt := by
  rw [compare?_eq_some_lt] at *
  refine ⟨hab.1.trans hbc.1, firstDifference_trans ?_ ?_ hab.2 hbc.2⟩
  · rw [List.length_reverse, List.length_reverse]
    exact hab.1
  · rw [List.length_reverse, List.length_reverse]
    exact hbc.1

/-- Ends that are numbers can be compared. -/
theorem IsLastDifference.compare?_ne_none (h : a.IsLastDifference b e f) (ha : a.IsNumeric)
    (hb : b.IsNumeric) : e.compare? f ≠ none := by
  obtain ⟨-, k, ⟨he, hf⟩, -⟩ := h
  rw [Extent.compare?_eq (ha e (List.mem_of_getElem? he)) (hb f (List.mem_of_getElem? hf))]
  exact Option.some_ne_none _

/-- Among any bins, to be less is the converse of to be greater, and it is transitive. Bins compare
as equal if and only if they have equally many axes and either are equal or have a last difference
that cannot be compared, which takes an end that is not a number. -/
theorem compare?_lawful (a b c : Bin) :
    (a.compare? b = some .eq ↔ a.axisCount = b.axisCount ∧
      ((a == b) = true ∨ ∃ e f, a.IsLastDifference b e f ∧ e.compare? f = none)) ∧
    (a.IsNumeric → b.IsNumeric → (a.compare? b = some .eq ↔ (a == b) = true)) ∧
    (a.compare? b = some .lt ↔ b.compare? a = some .gt) ∧
    (a.compare? b = some .lt → b.compare? c = some .lt → a.compare? c = some .lt) := by
  refine ⟨compare?_eq_some_eq, fun ha hb => ?_, ?_, compare?_trans⟩
  · rw [compare?_eq_some_eq]
    constructor
    · rintro ⟨-, h | ⟨e, f, hdifference, hnone⟩⟩
      · exact h
      · exact absurd hnone (hdifference.compare?_ne_none ha hb)
    · intro h
      exact ⟨axisCount_of_beq h, .inl h⟩
  · rw [compare?_swap]
    rcases a.compare? b with _ | (_ | _ | _) <;> simp

/-- Three bins in order, although the first and the last one have ends that are not numbers. -/
theorem compare?_lawful_undefined :
    (Bin.mk [⟨0.0 / 0.0, 1.0⟩, ⟨0.0, 0.0 / 0.0⟩]).compare? ⟨[⟨2.0, 3.0⟩, ⟨1.0, 2.0⟩]⟩ = some .lt ∧
    (Bin.mk [⟨2.0, 3.0⟩, ⟨1.0, 2.0⟩]).compare? ⟨[⟨5.0, 0.0 / 0.0⟩, ⟨1.0, 2.0⟩]⟩ = some .lt ∧
    (Bin.mk [⟨0.0 / 0.0, 1.0⟩, ⟨0.0, 0.0 / 0.0⟩]).compare? ⟨[⟨5.0, 0.0 / 0.0⟩, ⟨1.0, 2.0⟩]⟩
      = some .lt := by
  obtain ⟨-, -, -, htrans⟩ := compare?_lawful ⟨[⟨0.0 / 0.0, 1.0⟩, ⟨0.0, 0.0 / 0.0⟩]⟩
    ⟨[⟨2.0, 3.0⟩, ⟨1.0, 2.0⟩]⟩ ⟨[⟨5.0, 0.0 / 0.0⟩, ⟨1.0, 2.0⟩]⟩
  exact ⟨by decide, by decide, htrans (by decide) (by decide)⟩

/-- A bin with an end that is not a number compares as equal with itself, although it differs from
itself. -/
theorem compare?_undefined :
    (Bin.mk [⟨0.0 / 0.0, 1.0⟩]).compare? ⟨[⟨0.0 / 0.0, 1.0⟩]⟩ = some .eq ∧
      ((⟨[⟨0.0 / 0.0, 1.0⟩]⟩ : Bin) == ⟨[⟨0.0 / 0.0, 1.0⟩]⟩) = false := by
  decide

end Bin

end BoxBinning
