import BoxBinning.Proofs.Binary64.Special

/-!
# Rounding

Magnitudes are counted in units of `2 ^ -1074`. A rational number of units is rounded to the nearest
multiple of a power of two that leaves at most 53 bits, and of two equally near ones to the one with
an even significand: `nearest v` is the result, with no bound on the exponent.

* `nearest_mono`, `nearest_neg`, `nearest_mul_two_pow`: rounding keeps the order and the sign, and
  it keeps what has 53 bits;
* `nearest_le` and `nearest_intCast_le` bound its error;
* `rounds_roundWithAccuracy`: shifting a significand down, with two bits for what is shifted out,
  and rounding it by these bits gives the nearest number.
-/

namespace BoxBinning.Binary64

open Float.Model Float.Model.UnpackedFloat

/-! ### The nearest integer -/

/-- The integer is nearest to `v`, and even if another one is equally near. -/
def IsNearestEven (v : ℚ) (n : ℤ) : Prop := |v - n| < 1 / 2 ∨ |v - n| = 1 / 2 ∧ Even n

/-- The integer that is nearest to `v`; of two equally near ones it is the even one. -/
def roundEven (v : ℚ) : ℤ :=
  if Int.fract v < 1 / 2 then ⌊v⌋
  else if Int.fract v = 1 / 2 then ⌊v⌋ + ⌊v⌋ % 2
  else ⌊v⌋ + 1

section Even

variable {v w : ℚ} {m n : ℤ}

theorem IsNearestEven.abs_sub_le (h : IsNearestEven v n) : |v - n| ≤ 1 / 2 := by
  rcases h with h | ⟨h, -⟩
  · exact h.le
  · exact h.le

/-- Nearest integers are in the order of the numbers. -/
theorem IsNearestEven.le_of_le (hv : IsNearestEven v m) (hw : IsNearestEven w n) (h : v ≤ w) :
    m ≤ n := by
  by_contra hlt
  have hlow := (abs_le.mp hv.abs_sub_le).1
  have hhigh := (abs_le.mp hw.abs_sub_le).2
  have hcast : (n : ℚ) + 1 ≤ m := by exact_mod_cast Int.add_one_le_of_lt (not_le.mp hlt)
  -- both numbers lie half way between `n` and `m`, and then both of these are even
  have hm : (m : ℚ) = n + 1 := by linarith
  have hvn : v = n + 1 / 2 := by linarith
  have hwn : w = n + 1 / 2 := by linarith
  have heven : Even m := by
    rcases hv with hv | ⟨-, heven⟩
    · rw [hvn, hm] at hv
      norm_num at hv
    · exact heven
  have heven' : Even n := by
    rcases hw with hw | ⟨-, heven'⟩
    · rw [hwn] at hw
      norm_num at hw
    · exact heven'
  obtain rfl : m = n + 1 := by exact_mod_cast hm
  exact (Int.even_add_one.mp heven) heven'

theorem isNearestEven_roundEven (v : ℚ) : IsNearestEven v (roundEven v) := by
  have hv := Int.floor_add_fract v
  have hnonneg := Int.fract_nonneg v
  have hlt := Int.fract_lt_one v
  unfold roundEven IsNearestEven
  split_ifs with hbelow hhalf
  · left
    rw [abs_lt]
    constructor <;> linarith
  · right
    have hmod := Int.emod_two_eq_zero_or_one ⌊v⌋
    rcases hmod with hmod | hmod
    · rw [hmod, Int.add_zero, Int.even_iff]
      refine ⟨?_, hmod⟩
      rw [show v - ⌊v⌋ = 1 / 2 by linarith]
      norm_num
    · rw [hmod, Int.even_iff]
      refine ⟨?_, by omega⟩
      push_cast
      rw [show v - (⌊v⌋ + 1) = -(1 / 2) by linarith]
      norm_num
  · left
    have habove : 1 / 2 < Int.fract v := lt_of_le_of_ne (not_lt.mp hbelow) (Ne.symm hhalf)
    push_cast
    rw [abs_lt]
    constructor <;> linarith

theorem roundEven_eq_of_isNearestEven (h : IsNearestEven v n) : roundEven v = n :=
  le_antisymm ((isNearestEven_roundEven v).le_of_le h le_rfl)
    (h.le_of_le (isNearestEven_roundEven v) le_rfl)

theorem roundEven_mono (h : v ≤ w) : roundEven v ≤ roundEven w :=
  (isNearestEven_roundEven v).le_of_le (isNearestEven_roundEven w) h

@[simp] theorem roundEven_intCast (n : ℤ) : roundEven n = n :=
  roundEven_eq_of_isNearestEven (.inl (by simp))

theorem roundEven_le (h : v ≤ n) : roundEven v ≤ n :=
  (roundEven_mono h).trans_eq (roundEven_intCast n)

theorem le_roundEven (h : n ≤ v) : n ≤ roundEven v :=
  (roundEven_intCast n).symm.trans_le (roundEven_mono h)

theorem roundEven_neg (v : ℚ) : roundEven (-v) = -roundEven v := by
  apply roundEven_eq_of_isNearestEven
  have habs : |-v - ((-roundEven v : ℤ) : ℚ)| = |v - roundEven v| := by
    push_cast
    rw [← abs_neg]
    congr 1
    ring
  rw [IsNearestEven, habs, even_neg]
  exact isNearestEven_roundEven v

theorem abs_roundEven_sub_le (v : ℚ) : |roundEven v - v| ≤ 1 / 2 := by
  rw [abs_sub_comm]
  exact (isNearestEven_roundEven v).abs_sub_le

end Even

/-! ### The nearest number of 53 bits -/

/-- How many bits of a number of units are below the 53 that are kept. -/
def scale (v : ℚ) : ℕ := (Int.log 2 |v| - 52).toNat

/-- The multiple of a power of two that is nearest to `v` and has at most 53 bits. -/
def nearest (v : ℚ) : ℤ := roundEven (v / 2 ^ scale v) * 2 ^ scale v

section Nearest

variable {v w : ℚ} {k : ℕ}

theorem two_zpow_pos (j : ℤ) : (0 : ℚ) < 2 ^ j := zpow_pos two_pos j

theorem abs_lt_scale (v : ℚ) : |v| < 2 ^ 53 * 2 ^ scale v := by
  calc |v| < (2 : ℚ) ^ (Int.log 2 |v| + 1) := by
        exact_mod_cast Int.lt_zpow_succ_log_self one_lt_two |v|
    _ ≤ (2 : ℚ) ^ ((53 + scale v : ℕ) : ℤ) := by
        refine zpow_le_zpow_right₀ one_le_two ?_
        unfold scale
        omega
    _ = 2 ^ 53 * 2 ^ scale v := by rw [zpow_natCast, pow_add]

theorem scale_le_abs (h : scale v ≠ 0) : 2 ^ 52 * 2 ^ scale v ≤ |v| := by
  have hpos : 0 < |v| := by
    rw [abs_pos]
    rintro rfl
    exact h (by simp [scale])
  calc (2 : ℚ) ^ 52 * 2 ^ scale v = (2 : ℚ) ^ ((52 + scale v : ℕ) : ℤ) := by
        rw [zpow_natCast, pow_add]
    _ ≤ (2 : ℚ) ^ Int.log 2 |v| := by
        refine zpow_le_zpow_right₀ one_le_two ?_
        unfold scale at h ⊢
        omega
    _ ≤ |v| := by exact_mod_cast Int.zpow_log_le_self one_lt_two hpos

/-- The number of bits that go is determined by the bounds of what is kept. -/
theorem scale_le (h : |v| < 2 ^ 53 * 2 ^ k) : scale v ≤ k := by
  by_contra hlt
  have hle := scale_le_abs (Nat.ne_zero_of_lt (not_le.mp hlt))
  have hpow : (2 : ℚ) ^ (k + 1) ≤ 2 ^ scale v := pow_le_pow_right₀ one_le_two (not_le.mp hlt)
  rw [pow_succ] at hpow
  linarith

theorem le_scale (h : 2 ^ 52 * 2 ^ k ≤ |v|) : k ≤ scale v := by
  by_contra hlt
  have habs := abs_lt_scale v
  have hpow : (2 : ℚ) ^ (scale v + 1) ≤ 2 ^ k := pow_le_pow_right₀ one_le_two (not_le.mp hlt)
  rw [pow_succ] at hpow
  linarith

theorem nearest_neg (v : ℚ) : nearest (-v) = -nearest v := by
  rw [nearest, nearest, scale, abs_neg, neg_div, roundEven_neg, neg_mul]
  rfl

/-- What has at most 53 bits is kept. -/
theorem nearest_mul_two_pow {m : ℤ} (hm : |m| < 2 ^ 53) (k : ℕ) :
    nearest (m * 2 ^ k) = m * 2 ^ k := by
  have habs : |(m : ℚ) * 2 ^ k| < 2 ^ 53 * 2 ^ k := by
    rw [abs_mul, abs_of_pos (pow_pos two_pos k : (0 : ℚ) < 2 ^ k)]
    have hm : |(m : ℚ)| < 2 ^ 53 := by exact_mod_cast hm
    exact mul_lt_mul_of_pos_right hm (pow_pos two_pos k)
  obtain ⟨d, hd⟩ := Nat.exists_eq_add_of_le' (scale_le habs)
  have hquot : (m : ℚ) * 2 ^ k / 2 ^ scale (m * 2 ^ k) = ((m * 2 ^ d : ℤ) : ℚ) := by
    rw [div_eq_iff (pow_ne_zero _ two_ne_zero)]
    push_cast
    rw [mul_assoc, ← pow_add, ← hd]
  rw [nearest, hquot, roundEven_intCast, mul_assoc, ← pow_add, ← hd]

theorem nearest_intCast {n : ℤ} (hn : |n| < 2 ^ 53) : nearest n = n := by
  simpa using nearest_mul_two_pow hn 0

@[simp] theorem nearest_zero : nearest 0 = 0 := by
  simpa using nearest_intCast (n := 0) (by norm_num)

/-- The significand that is rounded to has 53 bits, or is `2 ^ 53`. -/
theorem roundEven_div_bounds (hv : 0 ≤ v) : roundEven (v / 2 ^ scale v) ≤ 2 ^ 53 ∧
    (scale v ≠ 0 → 2 ^ 52 ≤ roundEven (v / 2 ^ scale v)) := by
  have hlt := abs_lt_scale v
  have hle := scale_le_abs (v := v)
  rw [abs_of_nonneg hv] at hlt hle
  constructor
  · apply roundEven_le
    rw [div_le_iff₀ (by positivity)]
    exact_mod_cast hlt.le
  · intro hscale
    apply le_roundEven
    rw [le_div_iff₀ (by positivity)]
    exact_mod_cast hle hscale

theorem nearest_mono_of_nonneg (hv : 0 ≤ v) (h : v ≤ w) : nearest v ≤ nearest w := by
  have hscale : scale v ≤ scale w := by
    apply scale_le
    have hlt := abs_lt_scale w
    rw [abs_of_nonneg (hv.trans h)] at hlt
    rw [abs_of_nonneg hv]
    exact h.trans_lt hlt
  unfold nearest
  rcases hscale.eq_or_lt with heq | hlt
  · rw [heq]
    refine mul_le_mul_of_nonneg_right (roundEven_mono ?_) (by positivity)
    gcongr
  · -- the numbers below `2 ^ 53` on the lower scale are below those from `2 ^ 52` on
    have hlow := (roundEven_div_bounds hv).1
    have hhigh := (roundEven_div_bounds (hv.trans h)).2 (Nat.ne_zero_of_lt hlt)
    have hpow : (2 : ℤ) ^ (scale v + 1) ≤ 2 ^ scale w := pow_le_pow_right₀ one_le_two hlt
    calc roundEven (v / 2 ^ scale v) * 2 ^ scale v ≤ 2 ^ 53 * 2 ^ scale v := by gcongr
      _ = 2 ^ 52 * 2 ^ (scale v + 1) := by ring
      _ ≤ 2 ^ 52 * 2 ^ scale w := by gcongr
      _ ≤ roundEven (w / 2 ^ scale w) * 2 ^ scale w := by gcongr

theorem nearest_nonneg (hv : 0 ≤ v) : 0 ≤ nearest v :=
  nearest_zero.symm.trans_le (nearest_mono_of_nonneg le_rfl hv)

/-- Rounding keeps the order. -/
theorem nearest_mono (h : v ≤ w) : nearest v ≤ nearest w := by
  rcases le_total 0 v with hv | hv
  · exact nearest_mono_of_nonneg hv h
  have hneg := nearest_neg v
  rcases le_total 0 w with hw | hw
  · have := nearest_nonneg hw
    have := nearest_nonneg (neg_nonneg.mpr hv)
    omega
  · have := nearest_mono_of_nonneg (neg_nonneg.mpr hw) (neg_le_neg h)
    rw [nearest_neg] at this
    omega

/-- The error is at most half of the last bit that is kept. -/
theorem abs_nearest_sub_le (v : ℚ) : |nearest v - v| ≤ 2 ^ scale v / 2 := by
  have hpos : (0 : ℚ) < 2 ^ scale v := by positivity
  have hsplit : (nearest v : ℚ) - v = (roundEven (v / 2 ^ scale v) - v / 2 ^ scale v) * 2 ^ scale v := by
    unfold nearest
    push_cast
    field_simp
  rw [hsplit, abs_mul, abs_of_pos hpos]
  have := abs_roundEven_sub_le (v / 2 ^ scale v)
  nlinarith

/-- The relative error of what is not much below the least normal number. -/
theorem nearest_le (h : 2 ^ 51 ≤ v) : (nearest v : ℚ) ≤ v * (1 + 1 / 2 ^ 52) := by
  have herror := (abs_le.mp (abs_nearest_sub_le v)).2
  have hhalf : (2 : ℚ) ^ scale v / 2 ≤ v / 2 ^ 52 := by
    by_cases hscale : scale v = 0
    · rw [hscale]
      linarith
    · have habs := scale_le_abs hscale
      rw [abs_of_nonneg (by linarith)] at habs
      linarith
  linarith

/-- Whole numbers of units have such an error without a bound. -/
theorem nearest_intCast_le {n : ℤ} (hn : 0 ≤ n) : (nearest n : ℚ) ≤ n * (1 + 1 / 2 ^ 52) := by
  have hcast : (0 : ℚ) ≤ n := by exact_mod_cast hn
  by_cases hlarge : (2 : ℤ) ^ 51 ≤ n
  · exact nearest_le (by exact_mod_cast hlarge)
  · rw [nearest_intCast (by rw [abs_of_nonneg hn]; omega)]
    linarith

end Nearest

/-! ### Shifting -/

/-- A significand with two more bits stands for a number: its half bit is set from the half on, and
its last bit if something is left. -/
def Represents (a : ExtendedMantissa) (v : ℚ) : Prop :=
  ∃ t : ℚ, 0 ≤ t ∧ t < 1 / 2 ∧ (a.stickyBit = true ↔ t ≠ 0) ∧
    v = a.mantissa + (if a.roundBit then 1 / 2 else 0) + t

section Shift

variable {a : ExtendedMantissa} {v : ℚ} {m : ℕ} {e : ℤ} {c : Accuracy}

theorem Represents.floor_le (h : Represents a v) : (a.mantissa : ℚ) ≤ v := by
  obtain ⟨t, ht, -, -, rfl⟩ := h
  split_ifs <;> linarith

theorem Represents.lt_floor (h : Represents a v) : v < a.mantissa + 1 := by
  obtain ⟨t, -, ht, -, rfl⟩ := h
  split_ifs <;> linarith

theorem represents_exact (m : ℕ) : Represents (.ofMantissaAndAccuracy m .exact) m :=
  ⟨0, le_rfl, by norm_num, by simp [ExtendedMantissa.ofMantissaAndAccuracy],
    by simp [ExtendedMantissa.ofMantissaAndAccuracy]⟩

/-- The rest of a division tells where the quotient lies. -/
theorem represents_fraction {num den : ℕ} (m : ℕ) (h : num < den) :
    Represents (.ofMantissaAndAccuracy m (accuracyOfFraction num den)) (m + num / den) := by
  have hden : (0 : ℚ) < den := by exact_mod_cast Nat.zero_lt_of_lt h
  have hlt : (num : ℚ) < den := by exact_mod_cast h
  unfold accuracyOfFraction
  split_ifs with hzero
  · subst hzero
    simpa using represents_exact m
  have hpos : (0 : ℚ) < num := by exact_mod_cast Nat.pos_of_ne_zero hzero
  rcases lt_trichotomy (2 * num) den with hcmp | hcmp | hcmp
  · rw [Nat.compare_eq_lt.mpr hcmp]
    refine ⟨num / den, by positivity, ?_, ?_, ?_⟩
    · rw [div_lt_div_iff₀ hden two_pos]
      have : (2 * num : ℚ) < den := by exact_mod_cast hcmp
      linarith
    · simp [ExtendedMantissa.ofMantissaAndAccuracy, hpos.ne', hden.ne']
    · simp [ExtendedMantissa.ofMantissaAndAccuracy]
  · rw [Nat.compare_eq_eq.mpr hcmp]
    refine ⟨0, le_rfl, by norm_num, by simp [ExtendedMantissa.ofMantissaAndAccuracy], ?_⟩
    have : (2 * num : ℚ) = den := by exact_mod_cast hcmp
    simp only [ExtendedMantissa.ofMantissaAndAccuracy, if_true, add_zero]
    rw [← this]
    field_simp
  · rw [Nat.compare_eq_gt.mpr hcmp]
    have : (den : ℚ) < 2 * num := by exact_mod_cast hcmp
    refine ⟨num / den - 1 / 2, ?_, ?_, ?_, ?_⟩
    · rw [sub_nonneg, div_le_div_iff₀ two_pos hden]
      linarith
    · rw [sub_lt_iff_lt_add, div_lt_iff₀ hden]
      linarith
    · simp only [ExtendedMantissa.ofMantissaAndAccuracy, true_iff]
      rw [sub_ne_zero, Ne, div_eq_div_iff hden.ne' two_ne_zero]
      linarith
    · simp [ExtendedMantissa.ofMantissaAndAccuracy]

theorem represents_shiftRightOne (h : Represents a v) : Represents a.shiftRightOne (v / 2) := by
  obtain ⟨t, hnonneg, hlt, hsticky, rfl⟩ := h
  have hdivmod : (a.mantissa : ℚ) = 2 * (a.mantissa / 2 : ℕ) + (a.mantissa % 2 : ℕ) := by
    exact_mod_cast (Nat.div_add_mod a.mantissa 2).symm
  refine ⟨(if a.roundBit then 1 / 4 else 0) + t / 2, ?_, ?_, ?_, ?_⟩
  · split_ifs <;> linarith
  · split_ifs <;> linarith
  · simp only [ExtendedMantissa.shiftRightOne, Bool.or_eq_true, hsticky]
    cases a.roundBit with
    | true => simp; linarith
    | false => simp
  · have hbit : (if a.shiftRightOne.roundBit then 1 / 2 else 0 : ℚ) = (a.mantissa % 2 : ℕ) / 2 := by
      rcases Nat.mod_two_eq_zero_or_one a.mantissa with hmod | hmod
      · simp [ExtendedMantissa.shiftRightOne, hmod]
      · simp [ExtendedMantissa.shiftRightOne, hmod]
    rw [hbit, hdivmod]
    show _ = ((a.mantissa / 2 : ℕ) : ℚ) + _ + _
    split_ifs <;> ring

/-- Every shift by one bit halves the number. -/
theorem represents_shiftRight (h : Represents a v) (n : ℕ) : Represents (a >>> n) (v / 2 ^ n) := by
  induction n with
  | zero =>
    rw [pow_zero, div_one]
    exact h
  | succ n ih =>
    rw [pow_succ, ← div_div]
    exact represents_shiftRightOne ih

/-- The two bits suffice to round the number. -/
theorem roundedMantissa_eq (h : Represents a v) : (a.roundedMantissa : ℤ) = roundEven v := by
  obtain ⟨m, r, s⟩ := a
  obtain ⟨t, hnonneg, hlt, hsticky, rfl⟩ := h
  refine (roundEven_eq_of_isNearestEven ?_).symm
  have hzero : s = false → t = 0 := fun hs => by simpa [hs] using hsticky
  have hpos : s = true → 0 < t := fun hs => hnonneg.lt_of_ne' (hsticky.mp hs)
  cases r with
  | false =>
    have hround : (⟨m, false, s⟩ : ExtendedMantissa).roundedMantissa = m := by cases s <;> rfl
    left
    rw [hround, abs_lt]
    simp only [Bool.false_eq_true, if_false, Int.cast_natCast]
    constructor <;> linarith
  | true =>
    cases s with
    | false =>
      rw [hzero rfl]
      right
      show |_ - (((m + m % 2 : ℕ) : ℤ) : ℚ)| = _ ∧ Even ((m + m % 2 : ℕ) : ℤ)
      rcases Nat.mod_two_eq_zero_or_one m with hmod | hmod
      · rw [hmod]
        exact ⟨by norm_num, by rw [Int.even_iff]; omega⟩
      · rw [hmod]
        refine ⟨?_, by rw [Int.even_iff]; omega⟩
        push_cast
        norm_num
    | true =>
      have hpos := hpos rfl
      left
      show |_ - (((m + 1 : ℕ) : ℤ) : ℚ)| < _
      rw [abs_lt]
      push_cast
      simp only [if_true]
      constructor <;> linarith

/-- The exponent that is aimed at leaves a significand of 53 bits, unless it is the least one. -/
theorem targetExponent_eq (e : ℤ) : Format.binary64.targetExponent e = max (e - 53) (-1074) := rfl

theorem shiftToTargetExponent_eq (m : ℕ) (e : ℤ) (c : Accuracy) :
    shiftToTargetExponent Format.binary64 m e c =
      (ExtendedMantissa.ofMantissaAndAccuracy m c >>> (max (m.log2 + e - 52) (-1074) - e).toNat,
        e + (max (m.log2 + e - 52) (-1074) - e).toNat) := by
  have htarget : (m.log2 : ℤ) + 1 + e - 53 = m.log2 + e - 52 := by ring
  rw [shiftToTargetExponent, shiftToExponent, targetExponent_eq, totalExponent, htarget]

end Shift

/-! ### Rounding a significand -/

/-- The magnitude of an unpacked number in units, with its sign. -/
def unpackedUnits : UnpackedFloat → ℤ
  | .notANumber => 0
  | .infinity s => s.apply (twoPow 2098)
  | .zero _ => 0
  | .finite s m e _ => s.apply (m * 2 ^ (e + 1074).toNat)

/-- A number whose significand has 53 bits, or fewer at the least exponent; there is no greatest
exponent. -/
def IsNormalized : UnpackedFloat → Prop
  | .finite _ m e _ => m < 2 ^ 53 ∧ (2 ^ 52 ≤ m ∨ e = -1074) ∧ -1074 ≤ e
  | .zero _ => True
  | _ => False

/-- The unpacked number is what a number of units is rounded to. -/
def Rounds (u : UnpackedFloat) (v : ℚ) : Prop := IsNormalized u ∧ unpackedUnits u = nearest v

/-- A number with a sign. -/
def signed (s : Sign) (v : ℚ) : ℚ :=
  match s with
  | .negative => -v
  | .positive => v

section Round

variable {s : Sign} {m : ℕ} {e : ℤ} {c : Accuracy} {v : ℚ}

theorem cast_apply (s : Sign) (n : ℤ) : ((s.apply n : ℤ) : ℚ) = signed s n := by
  cases s <;> simp [signed, Sign.apply]

theorem nearest_signed (s : Sign) (v : ℚ) : nearest (signed s v) = s.apply (nearest v) := by
  cases s with
  | negative => exact nearest_neg v
  | positive => rfl

/-- The exponent that is aimed at leaves the 53 bits that are kept. -/
theorem scale_eq (h : Represents (.ofMantissaAndAccuracy m c) v) (hm : 2 ^ 52 ≤ m ∨ e ≤ -1074) :
    (scale (v * 2 ^ (e + 1074)) : ℤ) = max (m.log2 + e - 52) (-1074) + 1074 := by
  have hmantissa : (ExtendedMantissa.ofMantissaAndAccuracy m c).mantissa = m := by
    cases c with
    | exact => rfl
    | inexact o => cases o <;> rfl
  have hlow := h.floor_le
  have hhigh := h.lt_floor
  rw [hmantissa] at hlow hhigh
  have hpow := two_zpow_pos (e + 1074)
  have hv : 0 ≤ v := (Nat.cast_nonneg m).trans hlow
  have habs : |v * 2 ^ (e + 1074)| = v * 2 ^ (e + 1074) := abs_of_nonneg (by positivity)
  obtain ⟨k, hk⟩ := Int.eq_ofNat_of_zero_le
    (show 0 ≤ max ((m.log2 : ℤ) + e - 52) (-1074) + 1074 by omega)
  rw [hk, Nat.cast_inj]
  apply le_antisymm
  · apply scale_le
    have hlt : ((m + 1 : ℕ) : ℚ) ≤ 2 ^ (m.log2 + 1) := by
      exact_mod_cast Nat.succ_le_of_lt Nat.lt_log2_self
    rw [habs]
    calc v * 2 ^ (e + 1074) < 2 ^ (m.log2 + 1) * 2 ^ (e + 1074) := by
          refine mul_lt_mul_of_pos_right (hhigh.trans_le ?_) hpow
          exact_mod_cast hlt
      _ = (2 : ℚ) ^ ((m.log2 + 1 : ℕ) + (e + 1074) : ℤ) := by
          rw [zpow_add₀ two_ne_zero (m.log2 + 1 : ℕ), zpow_natCast]
      _ ≤ (2 : ℚ) ^ ((53 + k : ℕ) : ℤ) := zpow_le_zpow_right₀ one_le_two (by omega)
      _ = 2 ^ 53 * 2 ^ k := by rw [zpow_natCast, pow_add]
  · rcases Nat.eq_zero_or_pos k with rfl | hpos
    · exact Nat.zero_le _
    apply le_scale
    have hne : m ≠ 0 := by
      rintro rfl
      rw [Nat.log2_zero] at hk
      omega
    have hle : ((2 ^ m.log2 : ℕ) : ℚ) ≤ m := by exact_mod_cast Nat.log2_self_le hne
    rw [habs]
    calc (2 : ℚ) ^ 52 * 2 ^ k = (2 : ℚ) ^ ((m.log2 : ℕ) + (e + 1074) : ℤ) := by
          rw [← pow_add, ← zpow_natCast]
          congr 1
          omega
      _ = 2 ^ m.log2 * 2 ^ (e + 1074) := by rw [zpow_add₀ two_ne_zero (m.log2 : ℤ), zpow_natCast]
      _ ≤ v * 2 ^ (e + 1074) := by
          refine mul_le_mul_of_nonneg_right (le_trans ?_ hlow) hpow.le
          exact_mod_cast hle

/-- A rounded significand needs another shift only if it has become `2 ^ 53`, and then by one bit,
which is zero. -/
theorem second_shift {k : ℕ} {p : ExtendedMantissa × ℤ} (hle : m ≤ 2 ^ 53)
    (hm : 2 ^ 52 ≤ m ∨ k = 0)
    (hp : shiftToTargetExponent Format.binary64 m (k - 1074) .exact = p) :
    p.1.mantissa < 2 ^ 53 ∧ (2 ^ 52 ≤ p.1.mantissa ∨ p.2 = -1074) ∧ -1074 ≤ p.2 ∧
      p.1.mantissa * 2 ^ (p.2 + 1074).toNat = m * 2 ^ k := by
  rw [shiftToTargetExponent_eq] at hp
  rcases hle.lt_or_eq with hlt | rfl
  · have hlog : m.log2 ≤ 52 := by
      rcases Nat.eq_zero_or_pos m with rfl | hpos
      · simp
      · exact Nat.le_of_lt_succ ((Nat.log2_lt hpos.ne').mpr hlt)
    have hshift : (max ((m.log2 : ℤ) + (k - 1074) - 52) (-1074) - (k - 1074)).toNat = 0 := by omega
    rw [hshift] at hp
    obtain ⟨hmantissa, hexponent⟩ : p.1.mantissa = m ∧ p.2 = k - 1074 := by
      subst hp
      exact ⟨rfl, Int.add_zero _⟩
    rw [hmantissa, hexponent, Int.sub_add_cancel, Int.toNat_natCast]
    exact ⟨hlt, by omega, by omega, rfl⟩
  · have hlog : (2 ^ 53).log2 = 53 := Nat.log2_two_pow
    have hshift : (max (((2 ^ 53).log2 : ℤ) + (k - 1074) - 52) (-1074) - (k - 1074)).toNat = 1 := by
      rw [hlog]
      omega
    rw [hshift] at hp
    obtain ⟨hmantissa, hexponent⟩ : p.1.mantissa = 2 ^ 52 ∧ p.2 = (k + 1 : ℕ) - 1074 := by
      subst hp
      exact ⟨rfl, by simp; ring⟩
    rw [hmantissa, hexponent, Int.sub_add_cancel, Int.toNat_natCast]
    exact ⟨by norm_num, .inl le_rfl, by omega, by ring⟩

/-- The number that is built from a rounded significand. -/
theorem rounds_dite (s : Sign) (hlt : m < 2 ^ 53) (hm : 2 ^ 52 ≤ m ∨ e = -1074) (he : -1074 ≤ e)
    (hv : nearest v = m * 2 ^ (e + 1074).toNat) :
    Rounds (if h : m = 0 then .zero s else .finite s m e (Nat.pos_of_ne_zero h)) (signed s v) := by
  rw [Rounds, nearest_signed, hv]
  split_ifs with hzero
  · refine ⟨trivial, ?_⟩
    rw [hzero]
    cases s <;> simp [unpackedUnits, Sign.apply]
  · exact ⟨⟨hlt, hm, he⟩, rfl⟩

/-- Shifting down to the exponent that is aimed at and rounding gives the nearest number, provided
that the significand is not shorter than the one that is aimed at. -/
theorem rounds_roundWithAccuracy (s : Sign) (h : Represents (.ofMantissaAndAccuracy m c) v)
    (hm : 2 ^ 52 ≤ m ∨ e ≤ -1074) :
    Rounds (roundWithAccuracy Format.binary64 s m e c) (signed s (v * 2 ^ (e + 1074))) := by
  have hv : 0 ≤ v * 2 ^ (e + 1074) :=
    mul_nonneg ((Nat.cast_nonneg _).trans h.floor_le) (two_zpow_pos _).le
  have hscale := scale_eq h hm
  have hbounds := roundEven_div_bounds hv
  have hnearest : nearest (v * 2 ^ (e + 1074)) = roundEven _ * 2 ^ _ := rfl
  generalize scale (v * 2 ^ (e + 1074)) = k at hscale hbounds hnearest
  -- the first shift reaches the exponent and leaves the significand that is rounded
  have hlog : 2 ^ 52 ≤ m → 52 ≤ m.log2 := fun hm => (Nat.le_log2 (by omega)).mpr hm
  obtain ⟨n, hn⟩ := Int.eq_ofNat_of_zero_le (show 0 ≤ (k : ℤ) - 1074 - e by omega)
  have hfirst : shiftToTargetExponent Format.binary64 m e c =
      (ExtendedMantissa.ofMantissaAndAccuracy m c >>> n, (k : ℤ) - 1074) := by
    rw [shiftToTargetExponent_eq]
    have hshift : (max ((m.log2 : ℤ) + e - 52) (-1074) - e).toNat = n := by omega
    rw [hshift, Prod.mk.injEq]
    exact ⟨rfl, by omega⟩
  have hquot : v / 2 ^ n = v * 2 ^ (e + 1074) / 2 ^ k := by
    rw [div_eq_div_iff (by positivity) (by positivity), mul_assoc, ← zpow_natCast, ← zpow_natCast,
      ← zpow_add₀ two_ne_zero]
    congr 2
    omega
  have hround := roundedMantissa_eq (represents_shiftRight h n)
  rw [hquot] at hround
  rw [← hround] at hbounds hnearest
  obtain ⟨hlt, hnormal, hexponent, hunits⟩ := second_shift (k := k)
    (m := (ExtendedMantissa.ofMantissaAndAccuracy m c >>> n).roundedMantissa)
    (by omega) (by omega) rfl
  simp only [roundWithAccuracy, hfirst]
  refine rounds_dite s hlt hnormal hexponent ?_
  rw [hnearest]
  exact_mod_cast hunits.symm

/-- A significand that is too short for the exponent that is aimed at is shifted up before. -/
theorem rounds_round (s : Sign) (hm : 0 < m) :
    Rounds (UnpackedFloat.round Format.binary64 s m e) (signed s (m * 2 ^ (e + 1074))) := by
  rw [UnpackedFloat.round, targetExponent_eq, totalExponent]
  generalize hj : (e - max ((m.log2 : ℤ) + 1 + e - 53) (-1074)).toNat = j
  have hdecrease : decreaseExponent m e (max ((m.log2 : ℤ) + 1 + e - 53) (-1074))
      = (m * 2 ^ j, e - j) := by
    rw [decreaseExponent, hj, Nat.shiftLeft_eq]
  have hvalue : ((m * 2 ^ j : ℕ) : ℚ) * 2 ^ (e - j + 1074) = m * 2 ^ (e + 1074) := by
    push_cast
    rw [mul_assoc, ← zpow_natCast, ← zpow_add₀ two_ne_zero]
    congr 2
    ring
  simp only [hdecrease]
  rw [← hvalue]
  refine rounds_roundWithAccuracy s (represents_exact _) ?_
  have hle := Nat.log2_self_le hm.ne'
  rcases Nat.eq_zero_or_pos j with rfl | hpos
  · have hlog : 52 ≤ m.log2 → 2 ^ 52 ≤ m := (Nat.le_log2 hm.ne').mp
    omega
  · by_cases htarget : (j : ℤ) = 52 - m.log2
    · left
      calc 2 ^ 52 = 2 ^ m.log2 * 2 ^ j := by
            rw [← pow_add]
            congr 1
            omega
        _ ≤ m * 2 ^ j := Nat.mul_le_mul_right _ hle
    · omega

theorem rounds_normalize (n : ℤ) (e : ℤ) (s : Sign) :
    Rounds (UnpackedFloat.normalize Format.binary64 n e s) (n * 2 ^ (e + 1074)) := by
  unfold UnpackedFloat.normalize
  rcases lt_trichotomy n 0 with hlt | rfl | hgt
  · have h := rounds_round (e := e) .negative (m := (-n).toNat) (by omega)
    have hcast : (((-n).toNat : ℕ) : ℚ) = -n := by
      exact_mod_cast Int.toNat_of_nonneg (by omega : 0 ≤ -n)
    rw [hcast, signed, neg_mul, neg_neg] at h
    rw [Int.compare_eq_lt.mpr hlt]
    exact h
  · exact ⟨trivial, by simp [unpackedUnits]⟩
  · have h := rounds_round (e := e) .positive (m := n.toNat) (by omega)
    have hcast : ((n.toNat : ℕ) : ℚ) = n := by exact_mod_cast Int.toNat_of_nonneg hgt.le
    rw [hcast, signed] at h
    rw [Int.compare_eq_gt.mpr hgt]
    exact h

end Round

end BoxBinning.Binary64
