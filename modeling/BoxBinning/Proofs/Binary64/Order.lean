import Mathlib
import BoxBinning.Binary64.Fields

/-!
# The order of doubles

`ordinal x` is the place of `x` among the doubles: the bits below the sign, read as a number, with
the sign of `x`. Away from what is not a number, the order of doubles is the order of their places:

* `lt_iff`, `le_iff` and `beq_iff` reduce the three comparisons to integers;
* `compare?_eq` does the same for the comparison with three outcomes.

Neighbouring doubles have neighbouring places and both zeros have place zero, so nothing about
exponents and fractions is needed beyond this module.
-/

namespace BoxBinning.Binary64

open Float.Model

/-- The place of a double in the order of doubles; zero for both zeros. -/
def ordinal (x : Float) : Int :=
  if (fields x).negative then -Int.ofNat (x.toBits.toNat % twoPow 63)
  else Int.ofNat (x.toBits.toNat % twoPow 63)

/-! ### Unpacked numbers -/

/-- The place of an unpacked number. -/
def unpackedOrdinal : UnpackedFloat → Int
  | .notANumber => 0
  | .infinity s => s.apply (2047 * 2 ^ 52)
  | .zero _ => 0
  | .finite s m e _ => s.apply ((e + 1074) * 2 ^ 52 + m)

/-- The significand has 53 bits, or fewer at the least exponent. -/
def IsCanonical : UnpackedFloat → Prop
  | .finite _ m e _ => m < 2 ^ 53 ∧ (2 ^ 52 ≤ m ∨ e = -1074) ∧ -1074 ≤ e ∧ e ≤ 971
  | _ => True

/-- The lexicographic order of exponent and significand is the order of the places. -/
theorem compare_place {m n : Nat} {d e : Int} (hm : m < 2 ^ 53) (hn : n < 2 ^ 53)
    (hd : 2 ^ 52 ≤ m ∨ d = -1074) (he : 2 ^ 52 ≤ n ∨ e = -1074) (hd' : -1074 ≤ d)
    (he' : -1074 ≤ e) :
    (compare d e).then (compare m n) =
      compare ((d + 1074) * 2 ^ 52 + (m : Int)) ((e + 1074) * 2 ^ 52 + n) := by
  rcases lt_trichotomy d e with h | h | h
  · rw [compare_lt_iff_lt.mpr h, Ordering.lt_then, eq_comm, compare_lt_iff_lt]
    omega
  · subst h
    rw [compare_eq_iff_eq.mpr rfl, Ordering.eq_then]
    rcases lt_trichotomy m n with h | h | h
    · rw [compare_lt_iff_lt.mpr h, eq_comm, compare_lt_iff_lt]
      omega
    · rw [compare_eq_iff_eq.mpr h, eq_comm, compare_eq_iff_eq]
      omega
    · rw [compare_gt_iff_gt.mpr h, eq_comm, compare_gt_iff_gt]
      omega
  · rw [compare_gt_iff_gt.mpr h, Ordering.gt_then, eq_comm, compare_gt_iff_gt]
    omega

theorem swap_compare (a b : Int) : (compare a b).swap = compare (-a) (-b) := by
  rcases lt_trichotomy a b with h | h | h
  · rw [compare_lt_iff_lt.mpr h, eq_comm, Ordering.swap, compare_gt_iff_gt]
    omega
  · rw [compare_eq_iff_eq.mpr h, eq_comm, Ordering.swap, compare_eq_iff_eq]
    omega
  · rw [compare_gt_iff_gt.mpr h, eq_comm, Ordering.swap, compare_lt_iff_lt]
    omega

theorem lt_eq_compare {a b : Int} (h : a < b) : some Ordering.lt = some (compare a b) :=
  congrArg some (compare_lt_iff_lt.mpr h).symm

theorem gt_eq_compare {a b : Int} (h : b < a) : some Ordering.gt = some (compare a b) :=
  congrArg some (compare_gt_iff_gt.mpr h).symm

section Canonical

variable {u v : UnpackedFloat} (hu : IsCanonical u) (hv : IsCanonical v) (hv' : v.isNaN = false)

include hv hv'

theorem compare_infinity (s : UnpackedFloat.Sign) :
    (UnpackedFloat.infinity s).compare v =
      some (compare (unpackedOrdinal (.infinity s)) (unpackedOrdinal v)) := by
  cases v with
  | notANumber => cases hv'
  | infinity t => cases s <;> cases t <;> rfl
  | zero t => cases s <;> rfl
  | finite t n e hn =>
    obtain ⟨hn', -, he, he'⟩ := hv
    cases s with
    | negative =>
      apply lt_eq_compare
      cases t <;> simp only [unpackedOrdinal, UnpackedFloat.Sign.apply] <;> omega
    | positive =>
      apply gt_eq_compare
      cases t <;> simp only [unpackedOrdinal, UnpackedFloat.Sign.apply] <;> omega

theorem compare_zero (s : UnpackedFloat.Sign) :
    (UnpackedFloat.zero s).compare v =
      some (compare (unpackedOrdinal (.zero s)) (unpackedOrdinal v)) := by
  cases v with
  | notANumber => cases hv'
  | infinity t => cases t <;> rfl
  | zero t => rfl
  | finite t n e hn =>
    obtain ⟨-, -, he, -⟩ := hv
    cases t with
    | negative =>
      apply gt_eq_compare
      simp only [unpackedOrdinal, UnpackedFloat.Sign.apply]
      omega
    | positive =>
      apply lt_eq_compare
      simp only [unpackedOrdinal, UnpackedFloat.Sign.apply]
      omega

include hu

/-- Canonical numbers compare as their places do. -/
theorem compare_unpacked (hu' : u.isNaN = false) :
    u.compare v = some (compare (unpackedOrdinal u) (unpackedOrdinal v)) := by
  cases u with
  | notANumber => cases hu'
  | infinity s => exact compare_infinity hv hv' s
  | zero s => exact compare_zero hv hv' s
  | finite s m d hm =>
    obtain ⟨hm', hmd, hd, hd'⟩ := hu
    cases v with
    | notANumber => cases hv'
    | infinity t =>
      cases t with
      | negative =>
        apply gt_eq_compare
        cases s <;> simp only [unpackedOrdinal, UnpackedFloat.Sign.apply] <;> omega
      | positive =>
        apply lt_eq_compare
        cases s <;> simp only [unpackedOrdinal, UnpackedFloat.Sign.apply] <;> omega
    | zero t =>
      cases s with
      | negative =>
        apply lt_eq_compare
        simp only [unpackedOrdinal, UnpackedFloat.Sign.apply]
        omega
      | positive =>
        apply gt_eq_compare
        simp only [unpackedOrdinal, UnpackedFloat.Sign.apply]
        omega
    | finite t n e hn =>
      obtain ⟨hn', hne, he, he'⟩ := hv
      have h := compare_place hm' hn' hmd hne hd he
      cases s <;> cases t
      · -- the order of negative numbers is that of their magnitudes, reversed
        exact congrArg some ((congrArg Ordering.swap h).trans (swap_compare _ _))
      · apply lt_eq_compare
        simp only [unpackedOrdinal, UnpackedFloat.Sign.apply]
        omega
      · apply gt_eq_compare
        simp only [unpackedOrdinal, UnpackedFloat.Sign.apply]
        omega
      · exact congrArg some h

end Canonical

theorem compare_notANumber {u v : UnpackedFloat} (h : u.isNaN = true ∨ v.isNaN = true) :
    u.compare v = none := by
  cases u <;> cases v <;> simp_all [UnpackedFloat.isNaN, UnpackedFloat.compare]

/-! ### Bit patterns -/

section Bits

variable (b : BitVec Format.binary64.numBits)

theorem toNat_unpackExponent :
    (@UnpackedFloat.unpackExponent Format.binary64 b).toNat
      = b.toNat / 2 ^ 52 % 2 ^ 11 := by
  simp [UnpackedFloat.unpackExponent, Nat.shiftRight_eq_div_pow]

theorem toNat_unpackMantissa :
    (@UnpackedFloat.unpackMantissa Format.binary64 b).toNat = b.toNat % 2 ^ 52 := by
  simp [UnpackedFloat.unpackMantissa]

theorem sign_unpack :
    UnpackedFloat.Sign.ofBitVec (@UnpackedFloat.unpackSign Format.binary64 b)
      = if b.toNat / 2 ^ 63 = 1 then .negative else .positive := by
  have hb : b.toNat < 2 ^ 64 := b.isLt
  have h : @UnpackedFloat.unpackSign Format.binary64 b = 0#1 ↔ ¬b.toNat / 2 ^ 63 = 1 := by
    rw [← BitVec.toNat_inj]
    simp [UnpackedFloat.unpackSign, Nat.shiftRight_eq_div_pow]
    omega
  simp only [UnpackedFloat.Sign.ofBitVec, h, ite_not]

theorem toNat_hiddenBit (v : BitVec 52) : (1#1 ++ v).toNat = v.toNat + 2 ^ 52 := by
  have h := Nat.two_pow_add_eq_or_of_lt v.isLt 1
  rw [BitVec.toNat_append, Nat.shiftLeft_eq]
  simp at h ⊢
  omega

/-- Unpacking gives a canonical number whose place is read off the bits. -/
theorem unpack_spec :
    IsCanonical (UnpackedFloat.unpack Format.binary64 b) ∧
    ((UnpackedFloat.unpack Format.binary64 b).isNaN = false →
      unpackedOrdinal (UnpackedFloat.unpack Format.binary64 b)
        = (if b.toNat / 2 ^ 63 = 1 then UnpackedFloat.Sign.negative else .positive).apply
            (b.toNat % 2 ^ 63 : Nat)) := by
  have hm := toNat_unpackMantissa b
  have he := toNat_unpackExponent b
  have hbias : ((Format.binary64.exponentBias : Nat) : Int) = 1023 := rfl
  have hlt : (@UnpackedFloat.unpackMantissa Format.binary64 b).toNat < 2 ^ 52 :=
    (@UnpackedFloat.unpackMantissa Format.binary64 b).isLt
  have hhidden := toNat_hiddenBit (@UnpackedFloat.unpackMantissa Format.binary64 b)
  unfold UnpackedFloat.unpack
  dsimp only
  rw [sign_unpack b]
  generalize (if b.toNat / 2 ^ 63 = 1 then UnpackedFloat.Sign.negative else .positive) = s
  -- the tests on bit fields, as tests on numbers
  simp only [← BitVec.toNat_inj]
  have hones : (-1#11).toNat = 2047 := rfl
  have hzero : (0#11).toNat = 0 := rfl
  have hzero' : (0#52).toNat = 0 := rfl
  split_ifs with h1 h2 h3 h4
  · refine ⟨trivial, fun _ => congrArg s.apply ?_⟩
    omega
  · exact ⟨trivial, fun h => by cases h⟩
  · have h0 : b.toNat % 2 ^ 63 = 0 := by omega
    rw [h0]
    exact ⟨trivial, fun _ => by cases s <;> rfl⟩
  · refine ⟨⟨by omega, Or.inr ?_, ?_, ?_⟩, fun _ => congrArg s.apply ?_⟩ <;> omega
  · refine ⟨⟨?_, Or.inl ?_, ?_, ?_⟩, fun _ => congrArg s.apply ?_⟩ <;> omega

/-- The greatest exponent field is that of infinities and of what is not a number. -/
theorem exponent_eq_iff :
    b.toNat / 2 ^ 52 % 2 ^ 11 = 2047 ↔
      (UnpackedFloat.unpack Format.binary64 b).isInf = true ∨
        (UnpackedFloat.unpack Format.binary64 b).isNaN = true := by
  rw [← toNat_unpackExponent b]
  unfold UnpackedFloat.unpack
  dsimp only
  simp only [← BitVec.toNat_inj]
  have hones : (-1#11).toNat = 2047 := rfl
  split_ifs with h1 h2 h3 h4
  · exact iff_of_true h1 (.inl rfl)
  · exact iff_of_true h1 (.inr rfl)
  all_goals exact iff_of_false h1 (by simp [UnpackedFloat.isNaN, UnpackedFloat.isInf])

end Bits

/-! ### Comparisons -/

variable {x y : Float}

theorem unpackedOrdinal_unpack (hx : x.isNaN = false) :
    unpackedOrdinal x.toModel.unpack = ordinal x := by
  refine ((unpack_spec x.toModel.toBits.toBitVec).2 hx).trans ?_
  show _ = ite ((x.toModel.toBits.toBitVec.toNat / 2 ^ 63 == 1) = true) _ _
  simp only [beq_iff_eq]
  split_ifs <;> rfl

theorem compare_toModel (hx : x.isNaN = false) (hy : y.isNaN = false) :
    x.toModel.unpack.compare y.toModel.unpack = some (compare (ordinal x) (ordinal y)) := by
  rw [← unpackedOrdinal_unpack hx, ← unpackedOrdinal_unpack hy]
  exact compare_unpacked (unpack_spec _).1 (unpack_spec _).1 hy hx

theorem compare_toModel_eq_none (h : ¬(x.isNaN = false ∧ y.isNaN = false)) :
    x.toModel.unpack.compare y.toModel.unpack = none := by
  apply compare_notANumber
  show x.isNaN = true ∨ y.isNaN = true
  exact (not_and_or.mp h).imp Bool.eq_true_of_not_eq_false Bool.eq_true_of_not_eq_false

theorem lt_iff : x < y ↔ x.isNaN = false ∧ y.isNaN = false ∧ ordinal x < ordinal y := by
  show decide ((x.toModel.unpack.compare y.toModel.unpack == some .lt) = true) = true ↔ _
  rw [decide_eq_true_iff]
  by_cases h : x.isNaN = false ∧ y.isNaN = false
  · rw [compare_toModel h.1 h.2, beq_iff_eq, Option.some.injEq, compare_lt_iff_lt]
    simp only [h, true_and]
  · rw [compare_toModel_eq_none h]
    exact iff_of_false (by decide) fun hx => h ⟨hx.1, hx.2.1⟩

theorem le_iff : x ≤ y ↔ x.isNaN = false ∧ y.isNaN = false ∧ ordinal x ≤ ordinal y := by
  show decide ((x.toModel.unpack.compare y.toModel.unpack).any (·.isLE) = true) = true ↔ _
  rw [decide_eq_true_iff]
  by_cases h : x.isNaN = false ∧ y.isNaN = false
  · rw [compare_toModel h.1 h.2, Option.any_some, Std.isLE_compare]
    simp only [h, true_and]
  · rw [compare_toModel_eq_none h]
    exact iff_of_false (by decide) fun hx => h ⟨hx.1, hx.2.1⟩

theorem beq_iff : (x == y) = true ↔ x.isNaN = false ∧ y.isNaN = false ∧ ordinal x = ordinal y := by
  show (x.toModel.unpack.compare y.toModel.unpack == some .eq) = true ↔ _
  by_cases h : x.isNaN = false ∧ y.isNaN = false
  · rw [compare_toModel h.1 h.2, beq_iff_eq, Option.some.injEq, compare_eq_iff_eq]
    simp only [h, true_and]
  · rw [compare_toModel_eq_none h]
    exact iff_of_false (by decide) fun hx => h ⟨hx.1, hx.2.1⟩

theorem beq_trans {u v w : Float} (huv : (u == v) = true) (hvw : (v == w) = true) :
    (u == w) = true := by
  rw [beq_iff] at huv hvw ⊢
  exact ⟨huv.1, hvw.2.1, huv.2.2.trans hvw.2.2⟩

theorem beq_symm {v w : Float} (h : (v == w) = true) : (w == v) = true := by
  rw [beq_iff] at h ⊢
  exact ⟨h.2.1, h.1, h.2.2.symm⟩

theorem le_of_beq (h : (x == y) = true) : x ≤ y := by
  obtain ⟨hx, hy, heq⟩ := beq_iff.mp h
  exact le_iff.mpr ⟨hx, hy, heq.le⟩

theorem le_of_le_of_le {z : Float} (hxy : x ≤ y) (hyz : y ≤ z) : x ≤ z := by
  rw [le_iff] at *
  exact ⟨hxy.1, hyz.2.1, hxy.2.2.trans hyz.2.2⟩

/-- Two numbers are compared by their places; what is not a number compares with nothing. -/
theorem compare?_eq (hx : x.isNaN = false) (hy : y.isNaN = false) :
    compare? x y = some (compare (ordinal x) (ordinal y)) := by
  simp only [compare?, lt_iff, beq_iff, hx, hy, true_and]
  rcases lt_trichotomy (ordinal x) (ordinal y) with h | h | h
  · rw [if_pos h, compare_lt_iff_lt.mpr h]
  · simp [h]
  · rw [if_neg (not_lt.mpr h.le), if_pos h, compare_gt_iff_gt.mpr h]

theorem isNaN_of_lt (h : x < y) : x.isNaN = false ∧ y.isNaN = false :=
  ⟨(lt_iff.mp h).1, (lt_iff.mp h).2.1⟩

theorem lt_trans {z : Float} (hxy : x < y) (hyz : y < z) : x < z := by
  rw [lt_iff] at *
  exact ⟨hxy.1, hyz.2.1, hxy.2.2.trans hyz.2.2⟩

instance transLt : Trans (α := Float) (· < ·) (· < ·) (· < ·) where
  trans := lt_trans

theorem exponent_eq_maxExponent_iff :
    (fields x).exponent = maxExponent ↔ x.isInf = true ∨ x.isNaN = true :=
  exponent_eq_iff x.toModel.toBits.toBitVec

theorem isNaN_of_isBinnable (h : isBinnable x = true) : x.isNaN = false := by
  rw [isBinnable, Bool.or_eq_true] at h
  rcases h with h | h
  · exact (beq_iff.mp h).1
  · by_contra hx
    have he : (fields x).exponent = maxExponent :=
      exponent_eq_maxExponent_iff.mpr (.inr (Bool.eq_true_of_not_eq_false hx))
    simp [isNormal, he] at h

theorem ordinal_zero : ordinal 0.0 = 0 := by decide

theorem ordinal_eq_zero_iff : ordinal x = 0 ↔ x.toBits.toNat % 2 ^ 63 = 0 := by
  show ite _ (-Int.ofNat (x.toBits.toNat % 2 ^ 63)) (Int.ofNat (x.toBits.toNat % 2 ^ 63)) = 0 ↔ _
  split_ifs
  · rw [Int.neg_eq_zero]
    exact Int.ofNat_eq_zero
  · exact Int.ofNat_eq_zero

/-- Zero has neither exponent nor fraction. -/
theorem beq_zero_iff : (x == 0.0) = true ↔ (fields x).exponent = 0 ∧ (fields x).fraction = 0 := by
  rw [beq_iff, ordinal_zero, ordinal_eq_zero_iff]
  show _ ↔ x.toBits.toNat / 2 ^ 52 % 2 ^ 11 = 0 ∧ x.toBits.toNat % 2 ^ 52 = 0
  constructor
  · rintro ⟨-, -, hbits⟩
    omega
  · rintro ⟨hexponent, hfraction⟩
    have hnumber : ¬x.isNaN = true := fun h => by
      have hmax : x.toBits.toNat / 2 ^ 52 % 2 ^ 11 = 2047 :=
        exponent_eq_maxExponent_iff.mpr (.inr h)
      omega
    exact ⟨Bool.eq_false_of_not_eq_true hnumber, rfl, by omega⟩

/-- Neither zero is normal. -/
theorem isNormal_of_beq_zero (h : (x == 0.0) = true) : isNormal x = false := by
  simp [isNormal, (beq_zero_iff.mp h).1]

end BoxBinning.Binary64
