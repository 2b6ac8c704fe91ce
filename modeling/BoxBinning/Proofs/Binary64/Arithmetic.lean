import BoxBinning.LogBase
import BoxBinning.Proofs.Binary64.Amount

/-!
# Arithmetic

Sums, differences, products and quotients of finite doubles are rounded from the exact results
(`isRounded_add`, `isRounded_sub`, `isRounded_mul`, `isRounded_div`), and so are converted counts
(`isRounded_ofCount`).
-/

namespace BoxBinning.Binary64

open Float.Model Float.Model.UnpackedFloat

variable {x y z : Float} {u v : UnpackedFloat}

/-! ### Unpacked numbers -/

theorem cast_unitsPerOne : (unitsPerOne : ℚ) = 2 ^ (1074 : ℤ) :=
  (cast_twoPow 1074).trans (zpow_natCast 2 1074).symm

section Finite

variable {s t : Sign} {m n : ℕ} {d e : ℤ}

theorem signed_mul (s : Sign) (a b : ℚ) : signed s a * b = signed s (a * b) := by
  cases s <;> simp [signed]

theorem signed_mul_signed (s t : Sign) (a b : ℚ) :
    signed s a * signed t b = signed (s * t) (a * b) := by
  cases s with
  | negative => cases t with
    | negative => exact neg_mul_neg a b
    | positive => exact neg_mul a b
  | positive => cases t with
    | negative => exact mul_neg a b
    | positive => rfl

theorem signed_div_signed (s t : Sign) (a b : ℚ) :
    signed s a / signed t b = signed (s / t) (a / b) := by
  cases s with
  | negative => cases t with
    | negative => exact neg_div_neg_eq a b
    | positive => exact neg_div b a
  | positive => cases t with
    | negative => exact div_neg a
    | positive => rfl

theorem cast_unpackedUnits (hm : 0 < m) (he : -1074 ≤ e) :
    (unpackedUnits (.finite s m e hm) : ℚ) = signed s (m * 2 ^ (e + 1074)) := by
  obtain ⟨k, hk⟩ := Int.eq_ofNat_of_zero_le (show 0 ≤ e + 1074 by omega)
  rw [unpackedUnits, cast_apply, hk, Int.toNat_natCast, zpow_natCast]
  push_cast
  rfl

/-- Decreasing the exponent does not change the number. -/
theorem cast_decreaseExponent (hm : 0 < m) (hd : -1074 ≤ d) (hde : d ≤ e) :
    ((s.apply (decreaseExponent m e d).1 : ℤ) : ℚ) * 2 ^ (d + 1074) =
      unpackedUnits (.finite s m e hm) := by
  obtain ⟨k, hk⟩ := Int.eq_ofNat_of_zero_le (show 0 ≤ e - d by omega)
  rw [cast_unpackedUnits hm (by omega), decreaseExponent, hk, Int.toNat_natCast, Nat.shiftLeft_eq,
    cast_apply, signed_mul]
  push_cast
  rw [mul_assoc, ← zpow_natCast, ← zpow_add₀ two_ne_zero]
  congr 3
  omega

/-- The quotient with its rest stands for the exact quotient. -/
theorem represents_quotient (m : ℕ) (hn : 0 < n) :
    Represents (.ofMantissaAndAccuracy (m / n) (accuracyOfFraction (m % n) n)) (m / n) := by
  have hsplit : (m : ℚ) / n = (m / n : ℕ) + (m % n : ℕ) / n := by
    have hpos : (n : ℚ) ≠ 0 := by exact_mod_cast hn.ne'
    have hdivmod : (n * (m / n : ℕ) + (m % n : ℕ) : ℚ) = m := by exact_mod_cast Nat.div_add_mod m n
    rw [div_eq_iff hpos, add_mul, div_mul_cancel₀ _ hpos, ← hdivmod]
    ring
  rw [hsplit]
  exact represents_fraction (m / n) (Nat.mod_lt m hn)

/-- The dividend is shifted up until the quotient has 53 bits or the least exponent is reached. -/
theorem divCore_spec (hm : 0 < m) (hn : 0 < n) (d e : ℤ) : ∃ (c : ℤ) (j : ℕ),
    divCore Format.binary64 m d n e =
      (m * 2 ^ j / n, c, accuracyOfFraction (m * 2 ^ j % n) n) ∧
    (j : ℤ) + c = d - e ∧ (2 ^ 52 ≤ m * 2 ^ j / n ∨ c ≤ -1074) := by
  generalize hc : min (d - e)
    (max ((m.log2 : ℤ) + 1 + d - (n.log2 + 1 + e) - 53) (-1074)) = c
  obtain ⟨j, hj⟩ := Int.eq_ofNat_of_zero_le (show 0 ≤ d - e - c by omega)
  refine ⟨c, j, ?_, by omega, ?_⟩
  · rw [divCore, targetExponent_eq, totalExponent, totalExponent, hc, hj, Int.toNat_natCast,
      Nat.shiftLeft_eq]
  · by_cases hleast : c ≤ -1074
    · exact .inr hleast
    · left
      rw [Nat.le_div_iff_mul_le hn]
      calc 2 ^ 52 * n ≤ 2 ^ 52 * 2 ^ (n.log2 + 1) := Nat.mul_le_mul_left _ Nat.lt_log2_self.le
        _ = 2 ^ (52 + (n.log2 + 1)) := (pow_add 2 52 _).symm
        _ ≤ 2 ^ (m.log2 + j) := Nat.pow_le_pow_right two_pos (by omega)
        _ = 2 ^ m.log2 * 2 ^ j := pow_add 2 _ _
        _ ≤ m * 2 ^ j := Nat.mul_le_mul_right _ (Nat.log2_self_le hm.ne')

theorem rounds_zero (s : Sign) : Rounds (.zero s) 0 := ⟨trivial, nearest_zero.symm⟩

theorem cast_unpackedUnits_zero (s : Sign) : (unpackedUnits (.zero s) : ℚ) = 0 := Int.cast_zero

theorem eq_zero_or_eq_finite (hu : u.isFinite = true) :
    (∃ s, u = .zero s) ∨ ∃ s m e hm, u = .finite s m e hm := by
  cases u with
  | notANumber => cases hu
  | infinity s => cases hu
  | zero s => exact .inl ⟨s, rfl⟩
  | finite s m e hm => exact .inr ⟨s, m, e, hm, rfl⟩

end Finite

theorem unpacked_sub_eq_add_neg (u v : UnpackedFloat) :
    UnpackedFloat.sub Format.binary64 u v = UnpackedFloat.add Format.binary64 u v.neg := by
  cases u with
  | finite s m d hm => cases v with
    | finite t n e hn => cases t with
      | negative => exact congrArg (fun a => UnpackedFloat.normalize _ a _ _) (Int.sub_neg _ _)
      | positive => rfl
    | _ => rfl
  | _ => cases v <;> rfl

theorem isCanonical_neg (hv : IsCanonical v) : IsCanonical v.neg := by
  cases v with
  | finite s m e hm => exact hv
  | _ => trivial

theorem isFinite_neg (v : UnpackedFloat) : v.neg.isFinite = v.isFinite := by
  cases v <;> rfl

theorem unpackedUnits_neg (v : UnpackedFloat) : unpackedUnits v.neg = -unpackedUnits v := by
  have happly : ∀ (s : Sign) (n : ℤ), (-s).apply n = -s.apply n := fun s n => by
    cases s with
    | negative => exact (Int.neg_neg n).symm
    | positive => rfl
  cases v with
  | finite s m e hm => exact happly s _
  | infinity s => exact happly s _
  | _ => rfl

section Operations

variable (hu : IsCanonical u) (hv : IsCanonical v) (hu' : u.isFinite = true)
  (hv' : v.isFinite = true)

include hu hv hu' hv'

theorem rounds_add :
    Rounds (UnpackedFloat.add Format.binary64 u v) (unpackedUnits u + unpackedUnits v) := by
  have hleft := rounds_self hu hu'
  have hright := rounds_self hv hv'
  rcases eq_zero_or_eq_finite hu' with ⟨s, rfl⟩ | ⟨s, m, d, hm, rfl⟩
  · rw [cast_unpackedUnits_zero, zero_add]
    rcases eq_zero_or_eq_finite hv' with ⟨t, rfl⟩ | ⟨t, n, e, hn, rfl⟩
    · cases s <;> cases t <;> exact hleft
    · exact hright
  rcases eq_zero_or_eq_finite hv' with ⟨t, rfl⟩ | ⟨t, n, e, hn, rfl⟩
  · rw [cast_unpackedUnits_zero, add_zero]
    exact hleft
  · have hleast : -1074 ≤ min d e := le_min hu.2.2.1 hv.2.2.1
    have h := rounds_normalize (s.apply (decreaseExponent m d (min d e)).1 +
      t.apply (decreaseExponent n e (min d e)).1) (min d e) .positive
    rw [Int.cast_add, add_mul, cast_decreaseExponent hm hleast (min_le_left d e),
      cast_decreaseExponent hn hleast (min_le_right d e)] at h
    exact h

theorem rounds_sub :
    Rounds (UnpackedFloat.sub Format.binary64 u v) (unpackedUnits u - unpackedUnits v) := by
  have h := rounds_add hu (isCanonical_neg hv) hu' ((isFinite_neg v).trans hv')
  rw [unpackedUnits_neg, Int.cast_neg, ← sub_eq_add_neg] at h
  rwa [unpacked_sub_eq_add_neg]

/-- The product of two significands is long enough to be rounded, unless both numbers are
subnormal. -/
theorem rounds_mul : Rounds (UnpackedFloat.mul Format.binary64 u v)
    (unpackedUnits u * unpackedUnits v / unitsPerOne) := by
  rcases eq_zero_or_eq_finite hu' with ⟨s, rfl⟩ | ⟨s, m, d, hm, rfl⟩
  · rw [cast_unpackedUnits_zero, zero_mul, zero_div]
    rcases eq_zero_or_eq_finite hv' with ⟨t, rfl⟩ | ⟨t, n, e, hn, rfl⟩
    · exact rounds_zero _
    · exact rounds_zero _
  rcases eq_zero_or_eq_finite hv' with ⟨t, rfl⟩ | ⟨t, n, e, hn, rfl⟩
  · rw [cast_unpackedUnits_zero, mul_zero, zero_div]
    exact rounds_zero _
  obtain ⟨-, hmnormal, hd, -⟩ := hu
  obtain ⟨-, hnnormal, he, -⟩ := hv
  have hlong : 2 ^ 52 ≤ m * n ∨ d + e ≤ -1074 := by
    rcases hmnormal with hm' | hm'
    · exact .inl (hm'.trans (Nat.le_mul_of_pos_right m hn))
    rcases hnnormal with hn' | hn'
    · exact .inl (hn'.trans (Nat.le_mul_of_pos_left n hm))
    · omega
  have hpow : (2 : ℚ) ^ (d + e + 1074) = 2 ^ (d + 1074) * 2 ^ (e + 1074) / unitsPerOne := by
    rw [cast_unitsPerOne, ← zpow_add₀ two_ne_zero, ← zpow_sub₀ two_ne_zero]
    congr 1
    ring
  have hvalue : (unpackedUnits (.finite s m d hm) * unpackedUnits (.finite t n e hn) /
      unitsPerOne : ℚ) = signed (s * t) ((m * n : ℕ) * 2 ^ (d + e + 1074)) := by
    rw [cast_unpackedUnits hm hd, cast_unpackedUnits hn he, signed_mul_signed, div_eq_mul_inv,
      signed_mul, hpow, Nat.cast_mul]
    congr 1
    ring
  rw [hvalue]
  exact rounds_roundWithAccuracy (s * t) (represents_exact (m * n)) hlong

/-- The dividend is shifted up until the quotient is long enough to be rounded. -/
theorem rounds_div (hne : unpackedUnits v ≠ 0) : Rounds (UnpackedFloat.div Format.binary64 u v)
    (unpackedUnits u / unpackedUnits v * unitsPerOne) := by
  rcases eq_zero_or_eq_finite hv' with ⟨t, rfl⟩ | ⟨t, n, e, hn, rfl⟩
  · exact absurd rfl hne
  rcases eq_zero_or_eq_finite hu' with ⟨s, rfl⟩ | ⟨s, m, d, hm, rfl⟩
  · rw [cast_unpackedUnits_zero, zero_div, zero_mul]
    exact rounds_zero _
  obtain ⟨-, -, hd, -⟩ := hu
  obtain ⟨-, -, he, -⟩ := hv
  obtain ⟨c, j, hcore, hj, hlong⟩ := divCore_spec hm hn d e
  have hpow : (2 : ℚ) ^ j * 2 ^ (c + 1074) = 2 ^ (d + 1074) / 2 ^ (e + 1074) * unitsPerOne := by
    rw [cast_unitsPerOne, ← zpow_sub₀ two_ne_zero, ← zpow_natCast, ← zpow_add₀ two_ne_zero,
      ← zpow_add₀ two_ne_zero]
    congr 1
    omega
  have hvalue : (unpackedUnits (.finite s m d hm) / unpackedUnits (.finite t n e hn) *
      unitsPerOne : ℚ) = signed (s / t) ((m * 2 ^ j : ℕ) / n * 2 ^ (c + 1074)) := by
    rw [cast_unpackedUnits hm hd, cast_unpackedUnits hn he, signed_div_signed, signed_mul,
      Nat.cast_mul, Nat.cast_pow, Nat.cast_two, mul_div_mul_comm, mul_assoc, ← hpow]
    congr 1
    ring
  rw [hvalue, UnpackedFloat.div, hcore]
  exact rounds_roundWithAccuracy (s / t) (represents_quotient (m * 2 ^ j) hn) hlong

end Operations

/-! ### Doubles -/

theorem unpack_sub (x y : Float) : (x - y).toModel.unpack =
    UnpackedFloat.unpack Format.binary64 (UnpackedFloat.pack Format.binary64
      (UnpackedFloat.sub Format.binary64 x.toModel.unpack y.toModel.unpack)) := rfl

theorem unpack_div (x y : Float) : (x / y).toModel.unpack =
    UnpackedFloat.unpack Format.binary64 (UnpackedFloat.pack Format.binary64
      (UnpackedFloat.div Format.binary64 x.toModel.unpack y.toModel.unpack)) := rfl

section Finite

variable (hx : x.isFinite = true) (hy : y.isFinite = true)

include hx hy

theorem isRounded_add : IsRounded (x + y) (amount x + amount y) := by
  rw [amount_eq_unpackedUnits (isFinite_iff.mp hx).1, amount_eq_unpackedUnits (isFinite_iff.mp hy).1]
  exact isRounded_of_rounds (unpack_add x y)
    (rounds_add (isCanonical_unpack x) (isCanonical_unpack y) hx hy)

theorem isRounded_sub : IsRounded (x - y) (amount x - amount y) := by
  rw [amount_eq_unpackedUnits (isFinite_iff.mp hx).1, amount_eq_unpackedUnits (isFinite_iff.mp hy).1]
  exact isRounded_of_rounds (unpack_sub x y)
    (rounds_sub (isCanonical_unpack x) (isCanonical_unpack y) hx hy)

theorem isRounded_mul : IsRounded (x * y) (amount x * amount y / unitsPerOne) := by
  rw [amount_eq_unpackedUnits (isFinite_iff.mp hx).1, amount_eq_unpackedUnits (isFinite_iff.mp hy).1]
  exact isRounded_of_rounds (unpack_mul x y)
    (rounds_mul (isCanonical_unpack x) (isCanonical_unpack y) hx hy)

theorem isRounded_div (hne : amount y ≠ 0) :
    IsRounded (x / y) (amount x / amount y * unitsPerOne) := by
  rw [amount_eq_unpackedUnits (isFinite_iff.mp hy).1] at hne ⊢
  rw [amount_eq_unpackedUnits (isFinite_iff.mp hx).1]
  exact isRounded_of_rounds (unpack_div x y)
    (rounds_div (isCanonical_unpack x) (isCanonical_unpack y) hx hy hne)

end Finite

/-- Counts are converted to the nearest number. -/
theorem isRounded_ofCount {n : ℕ} (hn : n < 2 ^ 64) : IsRounded (ofCount n) (n * unitsPerOne) := by
  have hvalue : UnpackedFloat.ofUInt64 Format.binary64 n.toUInt64 =
      UnpackedFloat.normalize Format.binary64 n 0 .positive := by
    have htoNat : n.toUInt64.toNat = n := Nat.mod_eq_of_lt hn
    rw [UnpackedFloat.ofUInt64, htoNat]
    rfl
  have h := rounds_normalize (n : ℤ) 0 .positive
  rw [← hvalue, zero_add, ← cast_unitsPerOne] at h
  exact isRounded_of_rounds rfl h

theorem amount_ofCount {n : ℕ} (hn : n < 2 ^ 53) : amount (ofCount n) = n * unitsPerOne := by
  have hrounded := (isRounded_ofCount (hn.trans (by norm_num))).2
  have hkept := nearest_mul_twoPow (m := n) (by rw [Nat.abs_cast]; exact_mod_cast hn) 1074
  have hlt : n * twoPow 1074 < twoPow 2098 := mul_twoPow_lt hn (by norm_num)
  rw [Int.cast_natCast] at hkept
  rw [hrounded, unitsPerOne, hkept, saturate_eq_self]
  · exact (neg_nonpos.mpr (Int.natCast_nonneg _)).trans (by exact_mod_cast Nat.zero_le _)
  · exact_mod_cast hlt.le

/-- Counts are in order when they are converted. -/
theorem ofCount_le {m n : ℕ} (h : m ≤ n) (hn : n < 2 ^ 64) : ofCount m ≤ ofCount n := by
  refine (isRounded_ofCount (h.trans_lt hn)).le_of_le (isRounded_ofCount hn) ?_
  exact mul_le_mul_of_nonneg_right (by exact_mod_cast h) (Nat.cast_nonneg _)

theorem amount_ofCount_nonneg {n : ℕ} (hn : n < 2 ^ 64) : 0 ≤ amount (ofCount n) :=
  (le_iff_amount.mp (ofCount_le (Nat.zero_le n) hn)).2.2

theorem unitsPerOne_le_amount_ofCount {n : ℕ} (hpos : 0 < n) (hn : n < 2 ^ 64) :
    (unitsPerOne : ℤ) ≤ amount (ofCount n) := by
  have h := (le_iff_amount.mp (ofCount_le hpos hn)).2.2
  have hone : amount (ofCount 1) = (1 : ℕ) * unitsPerOne := amount_ofCount (by norm_num)
  rwa [hone, Nat.cast_one, one_mul] at h

theorem isFinite_ofCount {n : ℕ} (hn : n < 2 ^ 64) : (ofCount n).isFinite = true := by
  have hrounded := isRounded_ofCount hn
  have hle : (n * unitsPerOne : ℚ) ≤ ((1 : ℤ) : ℚ) * twoPow 1138 := by
    have hlt : n * unitsPerOne < twoPow 1138 := mul_twoPow_lt hn (by norm_num)
    rw [Int.cast_one, one_mul]
    exact_mod_cast hlt.le
  have hlt : twoPow 1138 < twoPow 2098 := twoPow_lt_twoPow (by norm_num)
  have hnonneg : (0 : ℚ) ≤ n * unitsPerOne := by exact_mod_cast Nat.zero_le _
  have hbound := (hrounded.amount_le hnonneg).trans (nearest_mono hle)
  rw [nearest_mul_twoPow (by norm_num), one_mul] at hbound
  rw [isFinite_iff_amount, abs_of_nonneg (amount_ofCount_nonneg hn)]
  exact ⟨hrounded.1, hbound.trans_lt (by exact_mod_cast hlt)⟩

theorem cast_amount_ofCount {n : ℕ} (hn : n < 2 ^ 53) :
    (amount (ofCount n) : ℚ) = n * unitsPerOne := by
  exact_mod_cast amount_ofCount hn

theorem cast_unitsPerOne_ne_zero : (unitsPerOne : ℚ) ≠ 0 := by
  exact_mod_cast (twoPow_pos 1074).ne'

/-- A multiple is rounded once. -/
theorem isRounded_ofCount_mul {n : ℕ} (hn : n < 2 ^ 53) (hx : x.isFinite = true) :
    IsRounded (ofCount n * x) (n * amount x) := by
  have hproduct := isRounded_mul (isFinite_ofCount (hn.trans (by norm_num))) hx
  rwa [cast_amount_ofCount hn, mul_right_comm, mul_div_cancel_right₀ _ cast_unitsPerOne_ne_zero]
    at hproduct

/-- A share is rounded once. -/
theorem isRounded_div_ofCount {n : ℕ} (hpos : 0 < n) (hn : n < 2 ^ 53) (hx : x.isFinite = true) :
    IsRounded (x / ofCount n) (amount x / n) := by
  have hne : (amount (ofCount n) : ℚ) ≠ 0 := by
    rw [cast_amount_ofCount hn]
    exact mul_ne_zero (by exact_mod_cast hpos.ne') cast_unitsPerOne_ne_zero
  have hshare := isRounded_div hx (isFinite_ofCount (hn.trans (by norm_num))) (by exact_mod_cast hne)
  rwa [cast_amount_ofCount hn, div_mul_eq_mul_div,
    mul_div_mul_right _ _ cast_unitsPerOne_ne_zero] at hshare

/-! ### Order and infinities -/

/-- Products with a number that is not negative keep the order. -/
theorem mul_le_mul_of_le (hx : x.isFinite = true) (hy : y.isFinite = true) (hz : z.isFinite = true)
    (hnonneg : 0 ≤ amount z) (h : x ≤ y) : x * z ≤ y * z := by
  have hle : (amount x : ℚ) ≤ amount y := by exact_mod_cast (le_iff_amount.mp h).2.2
  have hz' : (0 : ℚ) ≤ amount z := by exact_mod_cast hnonneg
  refine (isRounded_mul hx hz).le_of_le (isRounded_mul hy hz) ?_
  exact div_le_div_of_nonneg_right (mul_le_mul_of_nonneg_right hle hz') (Nat.cast_nonneg _)

theorem isInf_of_isNaN_of_isFinite (hx : x.isNaN = false) (h : ¬x.isFinite = true) :
    x.isInf = true := by
  by_contra hinf
  exact h (isFinite_iff.mpr ⟨hx, Bool.eq_false_of_not_eq_true hinf⟩)

/-- A finite number does not change an infinite one. -/
theorem unpack_add_of_isInf (hx : x.isFinite = true) (hy : y.isInf = true) :
    (x + y).toModel.unpack = y.toModel.unpack := by
  obtain ⟨s, hs⟩ := isInf_iff_unpack.mp hy
  have hsum : UnpackedFloat.add Format.binary64 x.toModel.unpack (.infinity s) = .infinity s := by
    revert hx
    show x.toModel.unpack.isFinite = true → _
    cases x.toModel.unpack with
    | notANumber => exact nofun
    | infinity t => exact nofun
    | _ => exact fun _ => rfl
  rw [unpack_add, hs, hsum, unpack_pack (u := .infinity s) trivial]

theorem isNaN_add (hx : x.isFinite = true) (hy : y.isNaN = false) : (x + y).isNaN = false := by
  by_cases hfinite : y.isFinite = true
  · exact (isRounded_add hx hfinite).1
  · show (x + y).toModel.unpack.isNaN = false
    rw [unpack_add_of_isInf hx (isInf_of_isNaN_of_isFinite hy hfinite)]
    exact hy

theorem amount_add_of_isInf (hx : x.isFinite = true) (hy : y.isInf = true) :
    amount (x + y) = amount y := by
  have hnumber := isNaN_of_isInf hy
  rw [amount_eq_unpackedUnits (isNaN_add hx hnumber), unpack_add_of_isInf hx hy,
    amount_eq_unpackedUnits hnumber]

/-- Sums with a finite number keep the order. -/
theorem add_le_add_of_le (hx : x.isFinite = true) (h : y ≤ z) : x + y ≤ x + z := by
  obtain ⟨hy, hz, hle⟩ := le_iff_amount.mp h
  by_cases hyf : y.isFinite = true
  · by_cases hzf : z.isFinite = true
    · refine (isRounded_add hx hyf).le_of_le (isRounded_add hx hzf) ?_
      gcongr
    · -- the greater number is the positive infinity, and no sum is above it
      have hzi := isInf_of_isNaN_of_isFinite hz hzf
      have hyz := (abs_lt.mp (isFinite_iff_amount.mp hyf).2).1
      have hsum := (abs_le.mp (abs_amount_le (isNaN_add hx hy))).2
      rw [le_iff_amount, amount_add_of_isInf hx hzi]
      refine ⟨isNaN_add hx hy, isNaN_add hx hz, ?_⟩
      rcases eq_or_eq_neg_of_abs_eq (abs_amount_of_isInf hzi) with hlimit | hlimit
      · rwa [hlimit]
      · rw [hlimit] at hle
        omega
  · have hyi := isInf_of_isNaN_of_isFinite hy hyf
    rw [le_iff_amount, amount_add_of_isInf hx hyi]
    refine ⟨isNaN_add hx hy, isNaN_add hx hz, ?_⟩
    by_cases hzf : z.isFinite = true
    · have hyz := (abs_lt.mp (isFinite_iff_amount.mp hzf).2).2
      have hsum := (abs_le.mp (abs_amount_le (isNaN_add hx hz))).1
      rcases eq_or_eq_neg_of_abs_eq (abs_amount_of_isInf hyi) with hlimit | hlimit
      · rw [hlimit] at hle
        omega
      · rwa [hlimit]
    · rw [amount_add_of_isInf hx (isInf_of_isNaN_of_isFinite hz hzf)]
      exact hle

theorem isInf_div (hx : x.isInf = true) (hy : y.isFinite = true) : (x / y).isInf = true := by
  obtain ⟨s, hs⟩ := isInf_iff_unpack.mp hx
  have hquot : ∃ t, UnpackedFloat.div Format.binary64 (.infinity s) y.toModel.unpack
      = .infinity t := by
    revert hy
    show y.toModel.unpack.isFinite = true → _
    cases y.toModel.unpack with
    | notANumber => exact nofun
    | infinity t => exact nofun
    | _ => exact fun _ => ⟨_, rfl⟩
  obtain ⟨t, ht⟩ := hquot
  refine isInf_iff_unpack.mpr ⟨t, ?_⟩
  rw [unpack_div, hs, ht, unpack_pack (u := .infinity t) trivial]

theorem isNaN_mul (hx : (x == 0.0) = true) (hy : y.isInf = true) : (x * y).isNaN = true := by
  obtain ⟨s, hs⟩ := beq_zero_iff_unpack.mp hx
  obtain ⟨t, ht⟩ := isInf_iff_unpack.mp hy
  have hproduct : UnpackedFloat.mul Format.binary64 (.zero s) (.infinity t) = .notANumber := rfl
  rw [isNaN_iff_unpack, unpack_mul, hs, ht, hproduct, unpack_pack (u := .notANumber) trivial]

end BoxBinning.Binary64
