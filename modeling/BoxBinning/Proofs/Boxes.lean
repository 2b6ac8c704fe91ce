import BoxBinning.Bin.Basic
import BoxBinning.Proofs.Binary64.Order

/-!
# Points and order of boxes

What it means for a point to lie in an extent or in a bin, and how extents are ordered, in terms of
the order of doubles:

* `Extent.overlaps_iff`: for increasing extents the overlap test is exact;
* `Extent.compare?_eq`: extents with numbers as ends are ordered by their `Extent.key`;
* `Bin.overlaps_iff`: increasing boxes overlap if and only if they share a point;
* `Bin.contains_concat`: a joined bin contains a point if its parts contain the two pieces.
-/

namespace BoxBinning

open Binary64

namespace Extent

variable {a b c : Extent} {v : Float}

/-! ### Points -/

theorem overlaps_of_contains (ha : a.contains v = true) (hb : b.contains v = true) :
    a.overlaps b = true := by
  rw [contains_iff, le_iff, lt_iff] at ha hb
  unfold overlaps
  split_ifs with h1 h2
  · rw [decide_eq_true_iff, lt_iff]
    exact ⟨ha.1.1, hb.2.2.1, by omega⟩
  · rw [decide_eq_true_iff, lt_iff]
    exact ⟨hb.1.1, ha.2.2.1, by omega⟩
  · rfl

/-- The overlap test is exact: increasing extents overlap if and only if they share a point, and
then the larger of the two lower ends is one. -/
theorem overlaps_iff (ha : a.isIncreasing = true) (hb : b.isIncreasing = true) :
    a.overlaps b = true ↔ ∃ v, a.contains v = true ∧ b.contains v = true := by
  refine ⟨fun h => ?_, fun ⟨v, hav, hbv⟩ => overlaps_of_contains hav hbv⟩
  rw [isIncreasing_iff, lt_iff] at ha hb
  -- the extent that starts later starts inside the other one
  by_cases hlow : ordinal b.low < ordinal a.low
  · refine ⟨a.low, ?_⟩
    have hba : b.low < a.low := lt_iff.mpr ⟨hb.1, ha.1, hlow⟩
    rw [overlaps, if_pos hba, decide_eq_true_iff, lt_iff] at h
    rw [contains_iff, contains_iff, le_iff, le_iff, lt_iff, lt_iff]
    exact ⟨⟨⟨ha.1, ha.1, le_rfl⟩, ha⟩, ⟨hb.1, ha.1, hlow.le⟩, h⟩
  · refine ⟨b.low, ?_⟩
    have hba : ¬b.low < a.low := fun h => hlow (lt_iff.mp h).2.2
    have hreach : ordinal b.low < ordinal a.high := by
      by_cases hhigh : ordinal a.high < ordinal b.high
      · have hab : a.high < b.high := lt_iff.mpr ⟨ha.2.1, hb.2.1, hhigh⟩
        rw [overlaps, if_neg hba, if_pos hab, decide_eq_true_iff, lt_iff] at h
        exact h.2.2
      · omega
    rw [contains_iff, contains_iff, le_iff, le_iff, lt_iff, lt_iff]
    exact ⟨⟨⟨ha.1, hb.1, by omega⟩, hb.1, ha.2.1, hreach⟩, ⟨hb.1, hb.1, le_rfl⟩, hb⟩

theorem contains_congr (h : (a == b) = true) : a.contains v = b.contains v := by
  rw [Extent.beq_iff, Binary64.beq_iff, Binary64.beq_iff] at h
  rw [Bool.eq_iff_iff, contains_iff, contains_iff]
  simp only [le_iff, lt_iff, h]

theorem isIncreasing_congr (h : (a == b) = true) : a.isIncreasing = b.isIncreasing := by
  rw [Extent.beq_iff, Binary64.beq_iff, Binary64.beq_iff] at h
  rw [Bool.eq_iff_iff, isIncreasing_iff, isIncreasing_iff]
  simp only [lt_iff, h]

theorem overlaps_congr {d : Extent} (hac : (a == c) = true) (hbd : (b == d) = true) :
    a.overlaps b = c.overlaps d := by
  rw [Extent.beq_iff, Binary64.beq_iff, Binary64.beq_iff] at hac hbd
  unfold overlaps
  simp only [lt_iff, hac, hbd]

/-! ### Order -/

/-- Both ends are numbers. -/
def IsNumeric (e : Extent) : Prop := e.low.isNaN = false ∧ e.high.isNaN = false

/-- Both ends are finite. -/
def IsFinite (e : Extent) : Prop := e.low.isFinite = true ∧ e.high.isFinite = true

instance decidableIsFinite (e : Extent) : Decidable e.IsFinite :=
  inferInstanceAs (Decidable (e.low.isFinite = true ∧ e.high.isFinite = true))

/-- The place of an extent in the order by lower end and then by upper end. -/
def key (e : Extent) : Int ×ₗ Int := toLex (ordinal e.low, ordinal e.high)

theorem isNumeric_of_isIncreasing (h : a.isIncreasing = true) : a.IsNumeric :=
  isNaN_of_lt (isIncreasing_iff.mp h)

/-- Extents with numbers as ends are compared by their places. -/
theorem compare?_eq (ha : a.IsNumeric) (hb : b.IsNumeric) :
    a.compare? b = some (compare a.key b.key) := by
  unfold compare?
  rw [Binary64.compare?_eq ha.1 hb.1, Binary64.compare?_eq ha.2 hb.2]
  show _ = some ((compare (ordinal a.low) (ordinal b.low)).then
    (compare (ordinal a.high) (ordinal b.high)))
  cases compare (ordinal a.low) (ordinal b.low) <;> rfl

theorem ordinal_low_le_of_key_le (h : a.key ≤ b.key) : ordinal a.low ≤ ordinal b.low := by
  rcases Prod.Lex.toLex_le_toLex.mp h with h | h
  · exact h.le
  · exact h.1.le

theorem beq_refl (h : a.IsNumeric) : (a == a) = true := by
  rw [Extent.beq_iff, Binary64.beq_iff, Binary64.beq_iff]
  exact ⟨⟨h.1, h.1, rfl⟩, h.2, h.2, rfl⟩

theorem beq_symm (h : (a == b) = true) : (b == a) = true := by
  rw [Extent.beq_iff] at *
  exact ⟨Binary64.beq_symm h.1, Binary64.beq_symm h.2⟩

theorem beq_trans (hab : (a == b) = true) (hbc : (b == c) = true) : (a == c) = true := by
  rw [Extent.beq_iff] at *
  exact ⟨Binary64.beq_trans hab.1 hbc.1, Binary64.beq_trans hab.2 hbc.2⟩

end Extent

namespace Bin

variable {a b : Bin} {x : List Float}

/-- All ends are finite. -/
def IsFinite (b : Bin) : Prop := ∀ e ∈ b.extents, e.IsFinite

instance decidableIsFinite (b : Bin) : Decidable b.IsFinite :=
  inferInstanceAs (Decidable (∀ e ∈ b.extents, e.IsFinite))

/-- A bin contains a point if and only if every extent contains the coordinate of its axis. -/
theorem contains_iff : b.contains x = true ↔
    ∀ (k : Nat) (e : Extent) (v : Float), b.extents[k]? = some e → x[k]? = some v →
      e.contains v = true := by
  unfold contains
  rw [List.all_eq_true]
  constructor
  · intro h k e v he hv
    exact h (e, v) (List.mem_of_getElem? (List.getElem?_zip_eq_some.mpr ⟨he, hv⟩))
  · rintro h ⟨e, v⟩ hmem
    obtain ⟨k, hk⟩ := List.mem_iff_getElem?.mp hmem
    obtain ⟨he, hv⟩ := List.getElem?_zip_eq_some.mp hk
    exact h k e v he hv

/-- A joined bin contains a point if and only if its parts contain the two pieces of the point. -/
theorem contains_concat (a b : Bin) (x : List Float) :
    (a.concat b).contains x =
      (a.contains (x.take a.axisCount) && b.contains (x.drop a.axisCount)) := by
  obtain ⟨es⟩ := a
  induction es generalizing x with
  | nil => rfl
  | cons e es ih =>
    cases x with
    | nil => simp [contains]
    | cons v x =>
      show (e.contains v && _) = ((e.contains v && _) && _)
      rw [Bool.and_assoc]
      exact congrArg (e.contains v && ·) (ih x)

/-- Bins that share a point overlap, provided that the point has a coordinate for each axis. -/
theorem overlaps_of_contains (hlen : a.axisCount ≤ x.length) (ha : a.contains x = true)
    (hb : b.contains x = true) : a.overlaps b = true := by
  unfold overlaps
  rw [List.all_eq_true]
  rintro ⟨e, f⟩ hmem
  obtain ⟨k, hk⟩ := List.mem_iff_getElem?.mp hmem
  obtain ⟨he, hf⟩ := List.getElem?_zip_eq_some.mp hk
  have hkx : k < x.length := (List.getElem?_eq_some_iff.mp he).1.trans_le hlen
  have hv : x[k]? = some x[k] := List.getElem?_eq_getElem hkx
  have hev : e.contains x[k] = true := contains_iff.mp ha k e _ he hv
  have hfv : f.contains x[k] = true := contains_iff.mp hb k f _ hf hv
  exact Extent.overlaps_of_contains hev hfv

/-- The two bins share a point. -/
def Meets (a b : Bin) : Prop :=
  ∃ x : List Float, x.length = a.axisCount ∧ a.contains x = true ∧ b.contains x = true

/-- The overlap test is exact: a common point is found axis by axis. -/
theorem overlaps_iff (hcount : a.axisCount = b.axisCount)
    (ha : ∀ e ∈ a.extents, e.isIncreasing = true) (hb : ∀ e ∈ b.extents, e.isIncreasing = true) :
    a.overlaps b = true ↔ a.Meets b := by
  refine ⟨fun h => ?_, fun ⟨x, hlen, hax, hbx⟩ => overlaps_of_contains hlen.ge hax hbx⟩
  obtain ⟨as⟩ := a
  obtain ⟨bs⟩ := b
  induction as generalizing bs with
  | nil =>
    obtain rfl := List.length_eq_zero_iff.mp hcount.symm
    exact ⟨[], rfl, rfl, rfl⟩
  | cons e as ih =>
    obtain ⟨f, bs, rfl⟩ := List.exists_cons_of_length_eq_add_one hcount.symm
    obtain ⟨he, ha⟩ := List.forall_mem_cons.mp ha
    obtain ⟨hf, hb⟩ := List.forall_mem_cons.mp hb
    have hsplit : e.overlaps f = true ∧ (Bin.mk as).overlaps ⟨bs⟩ = true :=
      Bool.and_eq_true_iff.mp h
    obtain ⟨v, hev, hfv⟩ := (Extent.overlaps_iff he hf).mp hsplit.1
    obtain ⟨x, hlen, hax, hbx⟩ := ih ha bs hb (Nat.succ.inj hcount) hsplit.2
    refine ⟨v :: x, congrArg Nat.succ hlen, ?_, ?_⟩
    · rw [contains_cons, hev, hax]
      rfl
    · rw [contains_cons, hfv, hbx]
      rfl

/-- Equal bins have equal extents. -/
theorem forall₂_extents_of_beq (h : (a == b) = true) :
    List.Forall₂ (fun e f => (e == f) = true) a.extents b.extents := by
  obtain ⟨as⟩ := a
  obtain ⟨bs⟩ := b
  replace h : (as == bs) = true := h
  induction as generalizing bs with
  | nil =>
    cases bs with
    | nil => exact .nil
    | cons f bs => cases h
  | cons e as ih =>
    cases bs with
    | nil => cases h
    | cons f bs =>
      rw [List.cons_beq_cons, Bool.and_eq_true] at h
      exact .cons h.1 (ih bs h.2)

theorem axisCount_of_beq (h : (a == b) = true) : a.axisCount = b.axisCount :=
  (forall₂_extents_of_beq h).length_eq

/-- Equal bins contain the same points. -/
theorem contains_congr (h : (a == b) = true) : a.contains x = b.contains x := by
  obtain ⟨as⟩ := a
  obtain ⟨bs⟩ := b
  have hextents : List.Forall₂ (fun e f => (e == f) = true) as bs := forall₂_extents_of_beq h
  clear h
  induction hextents generalizing x with
  | nil => rfl
  | cons hef _ ih =>
    cases x with
    | nil => rfl
    | cons v x => rw [contains_cons, contains_cons, Extent.contains_congr hef, ih]

/-- Equal bins overlap the same bins. -/
theorem overlaps_congr {c d : Bin} (hac : (a == c) = true) (hbd : (b == d) = true) :
    a.overlaps b = c.overlaps d := by
  have hfirst := forall₂_extents_of_beq hac
  have hsecond := forall₂_extents_of_beq hbd
  unfold overlaps
  generalize a.extents = as, b.extents = bs, c.extents = cs, d.extents = ds at hfirst hsecond ⊢
  induction hfirst generalizing bs ds with
  | nil => rfl
  | cons hef _ ih =>
    cases hsecond with
    | nil => rfl
    | cons hgh hrest => exact congrArg₂ (· && ·) (Extent.overlaps_congr hef hgh) (ih _ _ hrest)

/-- Equal bins share points with the same bins. -/
theorem meets_congr {c d : Bin} (hac : (a == c) = true) (hbd : (b == d) = true) :
    a.Meets b ↔ c.Meets d := by
  unfold Meets
  simp only [axisCount_of_beq hac, contains_congr hac, contains_congr hbd]

theorem meets_comm (hcount : a.axisCount = b.axisCount) : a.Meets b ↔ b.Meets a := by
  unfold Meets
  simp only [hcount, and_comm (a := a.contains _ = true)]

/-- A box of increasing extents contains its lowest corner, and so do all bins equal to it. -/
theorem meets_of_beq (ha : ∀ e ∈ a.extents, e.isIncreasing = true) (h : (a == b) = true) :
    a.Meets b := by
  have hself : a.contains (a.extents.map Extent.low) = true := by
    obtain ⟨as⟩ := a
    clear h
    induction as with
    | nil => rfl
    | cons e as ih =>
      obtain ⟨he, ha⟩ := List.forall_mem_cons.mp ha
      have hlow : e.contains e.low = true := by
        rw [Extent.isIncreasing_iff, lt_iff] at he
        rw [Extent.contains_iff, le_iff, lt_iff]
        exact ⟨⟨he.1, he.1, le_rfl⟩, he⟩
      rw [List.map_cons, contains_cons, hlow, ih ha]
      rfl
  exact ⟨a.extents.map Extent.low, List.length_map Extent.low, hself, contains_congr h ▸ hself⟩

end Bin

end BoxBinning
