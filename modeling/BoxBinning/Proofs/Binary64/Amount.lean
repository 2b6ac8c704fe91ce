import BoxBinning.Proofs.Binary64.Rounding

/-!
# Amounts

The amount of a double is its number of units of `2 ^ -1074`, with its sign; infinities count as the
power of two from which on numbers are too large. The order of doubles is the order of their amounts
(`le_iff_amount`), and a number is rounded by the amount that is nearest to what it should be,
unless this is too large (`isRounded_of_rounds`).
-/

namespace BoxBinning.Binary64

open Float.Model Float.Model.UnpackedFloat

variable {x y z : Float} {u : UnpackedFloat} {v w : ℚ}

/-- The signed number of units of a double; an infinity counts as `2 ^ 2098` units. -/
def amount (x : Float) : ℤ := if (fields x).negative then -(fields x).units else (fields x).units

/-! ### Order -/

/-- The amount at a place in the order of the doubles that are not negative. -/
def unitsAt (p : ℕ) : ℕ := (Fields.mk false (p / 2 ^ 52) (p % 2 ^ 52)).units

/-- The amount at a place in the order of doubles. -/
def amountAt : ℤ → ℤ
  | .ofNat p => unitsAt p
  | .negSucc p => -unitsAt (p + 1)

theorem unitsAt_of_lt {p : ℕ} (h : p < 2 ^ 52) : unitsAt p = p := by
  rw [unitsAt, Nat.div_eq_of_lt h, Nat.mod_eq_of_lt h]
  exact Nat.mul_one p

theorem unitsAt_add (m k : ℕ) (h : m < 2 ^ 52) :
    unitsAt ((k + 1) * 2 ^ 52 + m) = (2 ^ 52 + m) * 2 ^ k := by
  have hdiv : ((k + 1) * 2 ^ 52 + m) / 2 ^ 52 = k + 1 := by omega
  have hmod : ((k + 1) * 2 ^ 52 + m) % 2 ^ 52 = m := by omega
  rw [unitsAt, hdiv, hmod]
  rfl

theorem unitsAt_succ_mul (k : ℕ) : unitsAt ((k + 1) * 2 ^ 52) = twoPow (52 + k) := by
  have h := unitsAt_add 0 k (by omega)
  rw [Nat.add_zero ((k + 1) * 2 ^ 52), Nat.add_zero (2 ^ 52), ← pow_add] at h
  exact h

theorem unitsAt_lt_succ (p : ℕ) : unitsAt p < unitsAt (p + 1) := by
  have hmod := Nat.mod_lt p (Nat.two_pow_pos 52)
  rcases Nat.eq_zero_or_pos (p / 2 ^ 52) with hzero | hpos
  · by_cases hlast : p + 1 < 2 ^ 52
    · rw [unitsAt_of_lt (by omega), unitsAt_of_lt hlast]
      exact Nat.lt_succ_self p
    · obtain rfl : p = 2 ^ 52 - 1 := by omega
      rw [unitsAt_of_lt (by omega), show 2 ^ 52 - 1 + 1 = (0 + 1) * 2 ^ 52 + 0 by rfl,
        unitsAt_add 0 0 (by omega)]
      omega
  · obtain ⟨k, hk⟩ := Nat.exists_eq_add_one_of_ne_zero hpos.ne'
    obtain ⟨m, hm⟩ : ∃ m, m = p % 2 ^ 52 := ⟨_, rfl⟩
    have hp : p = (k + 1) * 2 ^ 52 + m := by omega
    have hpow := Nat.two_pow_pos k
    rw [hp, unitsAt_add m k (by omega)]
    by_cases hlast : m + 1 < 2 ^ 52
    · rw [Nat.add_assoc, unitsAt_add (m + 1) k hlast]
      exact Nat.mul_lt_mul_of_pos_right (by omega) hpow
    · -- the least significand on the next scale comes after the greatest one
      rw [show (k + 1) * 2 ^ 52 + m + 1 = (k + 1 + 1) * 2 ^ 52 + 0 by omega,
        unitsAt_add 0 (k + 1) (by omega)]
      calc (2 ^ 52 + m) * 2 ^ k < 2 ^ 53 * 2 ^ k := Nat.mul_lt_mul_of_pos_right (by omega) hpow
        _ = (2 ^ 52 + 0) * 2 ^ (k + 1) := by ring

theorem amountAt_strictMono : StrictMono amountAt := by
  apply strictMono_int_of_lt_succ
  rintro (p | p)
  · show (unitsAt p : ℤ) < unitsAt (p + 1)
    exact_mod_cast unitsAt_lt_succ p
  · cases p with
    | zero =>
      show -(unitsAt 1 : ℤ) < unitsAt 0
      have h : unitsAt 0 < unitsAt 1 := unitsAt_lt_succ 0
      omega
    | succ p =>
      show -(unitsAt (p + 1 + 1) : ℤ) < -unitsAt (p + 1)
      have h := unitsAt_lt_succ (p + 1)
      omega

theorem amountAt_neg (p : ℕ) : amountAt (-p) = -unitsAt p := by
  cases p with
  | zero => rfl
  | succ p => rfl

theorem amountAt_apply (s : Sign) (p : ℕ) : amountAt (s.apply p) = s.apply (unitsAt p) := by
  cases s with
  | negative => exact amountAt_neg p
  | positive => rfl

theorem amount_eq (x : Float) : amount x = amountAt (ordinal x) := by
  have hunits : (fields x).units = unitsAt (x.toBits.toNat % twoPow 63) := by
    have hexponent : x.toBits.toNat % 2 ^ 63 / 2 ^ 52 = x.toBits.toNat / 2 ^ 52 % 2 ^ 11 := by omega
    have hfraction : x.toBits.toNat % 2 ^ 63 % 2 ^ 52 = x.toBits.toNat % 2 ^ 52 := by omega
    show _ = unitsAt (x.toBits.toNat % 2 ^ 63)
    rw [unitsAt, hexponent, hfraction]
    rfl
  rw [amount, ordinal, hunits]
  split_ifs
  · exact (amountAt_neg _).symm
  · rfl

/-- Numbers are in order if their amounts are. -/
theorem le_iff_amount : x ≤ y ↔ x.isNaN = false ∧ y.isNaN = false ∧ amount x ≤ amount y := by
  rw [le_iff, amount_eq, amount_eq, amountAt_strictMono.le_iff_le]

theorem lt_iff_amount : x < y ↔ x.isNaN = false ∧ y.isNaN = false ∧ amount x < amount y := by
  rw [lt_iff, amount_eq, amount_eq, amountAt_strictMono.lt_iff_lt]

/-! ### Unpacked numbers -/

theorem unpackedUnits_eq (h : IsCanonical u) : unpackedUnits u = amountAt (unpackedOrdinal u) := by
  cases u with
  | notANumber => rfl
  | zero s => rfl
  | infinity s =>
    have hunits : unitsAt (2047 * 2 ^ 52) = twoPow 2098 := unitsAt_succ_mul 2046
    rw [unpackedUnits, ← hunits, ← amountAt_apply]
    rfl
  | finite s m e hm =>
    obtain ⟨hlt, hnormal, he, -⟩ := h
    obtain ⟨k, hk⟩ := Int.eq_ofNat_of_zero_le (show 0 ≤ e + 1074 by omega)
    have hunits : unitsAt (k * 2 ^ 52 + m) = m * 2 ^ k := by
      by_cases hsub : m < 2 ^ 52
      · obtain rfl : k = 0 := by omega
        rw [Nat.zero_mul, Nat.zero_add, unitsAt_of_lt hsub, Nat.pow_zero, Nat.mul_one]
      · have hplace : k * 2 ^ 52 + m = (k + 1) * 2 ^ 52 + (m - 2 ^ 52) := by omega
        rw [hplace, unitsAt_add _ k (by omega), Nat.add_sub_cancel' (by omega)]
    have hplace : ((e + 1074) * 2 ^ 52 + m : ℤ) = (k * 2 ^ 52 + m : ℕ) := by
      rw [hk]
      push_cast
      rfl
    rw [unpackedUnits, unpackedOrdinal, hplace, amountAt_apply, hunits, hk, Int.toNat_natCast]
    push_cast
    rfl

theorem amount_eq_unpackedUnits (hx : x.isNaN = false) :
    amount x = unpackedUnits x.toModel.unpack := by
  rw [amount_eq, ← unpackedOrdinal_unpack hx, unpackedUnits_eq (isCanonical_unpack x)]

/-- A canonical number is rounded already. -/
theorem rounds_self (h : IsCanonical u) (hu : u.isFinite = true) : Rounds u (unpackedUnits u) := by
  cases u with
  | notANumber => cases hu
  | infinity s => cases hu
  | zero s => exact ⟨trivial, nearest_zero.symm⟩
  | finite s m e hm =>
    obtain ⟨hlt, hnormal, he, -⟩ := h
    have hm' : |(m : ℤ)| < 2 ^ 53 := by
      rw [abs_of_nonneg (Int.natCast_nonneg m)]
      exact_mod_cast hlt
    have hkept := nearest_mul_two_pow hm' (e + 1074).toNat
    refine ⟨⟨hlt, hnormal, he⟩, ?_⟩
    rw [unpackedUnits, cast_apply, nearest_signed]
    push_cast at hkept ⊢
    rw [hkept]

/-! ### Overflow -/

/-- An amount that is too large counts as infinite. -/
def saturate (n : ℤ) : ℤ := max (-(twoPow 2098 : ℕ)) (min n (twoPow 2098 : ℕ))

theorem saturate_mono {m n : ℤ} (h : m ≤ n) : saturate m ≤ saturate n :=
  max_le_max le_rfl (min_le_min h le_rfl)

theorem saturate_eq_self {n : ℤ} (hlow : -(twoPow 2098 : ℕ) ≤ n) (hhigh : n ≤ (twoPow 2098 : ℕ)) :
    saturate n = n := by
  rw [saturate, min_eq_left hhigh, max_eq_right hlow]

theorem saturate_le {n : ℤ} (hn : 0 ≤ n) : saturate n ≤ n :=
  max_le ((neg_nonpos.mpr (Int.natCast_nonneg _)).trans hn) (min_le_left _ _)

theorem saturate_apply (s : Sign) {n : ℤ} (hn : 0 ≤ n) :
    saturate (s.apply n) = s.apply (min n (twoPow 2098 : ℕ)) := by
  unfold saturate
  generalize twoPow 2098 = limit
  cases s with
  | negative =>
    simp only [Sign.apply]
    omega
  | positive =>
    simp only [Sign.apply]
    omega

theorem mul_two_pow_lt {a m k n : ℕ} (hm : m < 2 ^ a) (hk : a + k ≤ n) : m * 2 ^ k < twoPow n :=
  calc m * 2 ^ k < 2 ^ a * 2 ^ k := Nat.mul_lt_mul_of_pos_right hm (Nat.two_pow_pos k)
    _ = 2 ^ (a + k) := (pow_add 2 a k).symm
    _ ≤ 2 ^ n := Nat.pow_le_pow_right two_pos hk

theorem le_mul_two_pow {m k n : ℕ} (hm : 2 ^ 52 ≤ m) (hk : n ≤ 52 + k) : twoPow n ≤ m * 2 ^ k :=
  calc 2 ^ n ≤ 2 ^ (52 + k) := Nat.pow_le_pow_right two_pos hk
    _ = 2 ^ 52 * 2 ^ k := pow_add 2 52 k
    _ ≤ m * 2 ^ k := Nat.mul_le_mul_right _ hm

theorem pack_eq_infinity {s : Sign} {m : ℕ} {e : ℤ} (hm : 0 < m) (he : 971 < e) :
    UnpackedFloat.pack Format.binary64 (.finite s m e hm) =
      UnpackedFloat.pack Format.binary64 (.infinity s) := by
  have hlarge : 2 ^ 11 ≤ (e + 1023 + 52).toNat + 1 := by omega
  unfold UnpackedFloat.pack
  exact if_pos hlarge

/-- Packing makes what is too large infinite and keeps other numbers. -/
theorem unpackedUnits_unpack_pack (h : IsNormalized u) :
    (UnpackedFloat.unpack Format.binary64 (UnpackedFloat.pack Format.binary64 u)).isNaN = false ∧
    unpackedUnits (UnpackedFloat.unpack Format.binary64 (UnpackedFloat.pack Format.binary64 u)) =
      saturate (unpackedUnits u) := by
  cases u with
  | notANumber => exact h.elim
  | infinity s => exact h.elim
  | zero s =>
    rw [unpack_pack (u := .zero s) trivial]
    refine ⟨rfl, (saturate_eq_self ?_ ?_).symm⟩
    · exact neg_nonpos.mpr (Int.natCast_nonneg _)
    · exact Int.natCast_nonneg _
  | finite s m e hm =>
    obtain ⟨hlt, hnormal, he⟩ := h
    have hnonneg : (0 : ℤ) ≤ m * 2 ^ (e + 1074).toNat := by positivity
    rw [unpackedUnits.eq_4, saturate_apply s hnonneg]
    by_cases hfits : e ≤ 971
    · rw [unpack_pack (u := .finite s m e hm) ⟨hlt, hnormal, he, hfits⟩]
      have hlt := mul_two_pow_lt (n := 2098) (k := (e + 1074).toNat) hlt (by omega)
      rw [min_eq_left (by exact_mod_cast hlt.le)]
      exact ⟨rfl, rfl⟩
    · rw [pack_eq_infinity hm (not_le.mp hfits), unpack_pack (u := .infinity s) trivial]
      have hle := le_mul_two_pow (n := 2098) (m := m) (k := (e + 1074).toNat) (by omega) (by omega)
      rw [min_eq_right (by exact_mod_cast hle)]
      exact ⟨rfl, rfl⟩

/-! ### Rounded numbers -/

/-- A double is what a number of units is rounded to. -/
def IsRounded (x : Float) (v : ℚ) : Prop := x.isNaN = false ∧ amount x = saturate (nearest v)

/-- A double is packed from what a number of units is rounded to. -/
theorem isRounded_of_rounds (hx : x.toModel.unpack =
    UnpackedFloat.unpack Format.binary64 (UnpackedFloat.pack Format.binary64 u)) (h : Rounds u v) :
    IsRounded x v := by
  obtain ⟨hnormalized, hunits⟩ := h
  obtain ⟨hnumber, hpacked⟩ := unpackedUnits_unpack_pack hnormalized
  rw [← hx] at hnumber hpacked
  refine ⟨hnumber, ?_⟩
  rw [amount_eq_unpackedUnits hnumber, hpacked, hunits]

theorem IsRounded.amount_le (hx : IsRounded x v) (hv : 0 ≤ v) : amount x ≤ nearest v := by
  rw [hx.2]
  exact saturate_le (nearest_nonneg hv)

theorem IsRounded.amount_nonneg (hx : IsRounded x v) (hv : 0 ≤ v) : 0 ≤ amount x := by
  rw [hx.2]
  exact le_max_of_le_right (le_min (nearest_nonneg hv) (Int.natCast_nonneg _))

/-- Numbers are in the order of what they are rounded from. -/
theorem IsRounded.le_of_le (hx : IsRounded x v) (hy : IsRounded y w) (h : v ≤ w) : x ≤ y := by
  rw [le_iff_amount, hx.2, hy.2]
  exact ⟨hx.1, hy.1, saturate_mono (nearest_mono h)⟩

/-! ### Finite numbers -/

theorem cast_twoPow (n : ℕ) : (twoPow n : ℚ) = 2 ^ n := by
  have hpow : twoPow n = 2 ^ n := rfl
  rw [hpow, Nat.cast_pow, Nat.cast_two]

theorem twoPow_lt_twoPow {m n : ℕ} (h : m < n) : twoPow m < twoPow n :=
  Nat.pow_lt_pow_right one_lt_two h

theorem mul_twoPow_lt {a m k n : ℕ} (hm : m < 2 ^ a) (hk : a + k ≤ n) :
    m * twoPow k < twoPow n :=
  mul_two_pow_lt hm hk

theorem nearest_mul_twoPow {m : ℤ} (hm : |m| < 2 ^ 53) (k : ℕ) :
    nearest (m * twoPow k) = m * twoPow k := by
  have hpow : ((twoPow k : ℕ) : ℤ) = 2 ^ k := Nat.cast_pow 2 k
  rw [cast_twoPow, nearest_mul_two_pow hm, hpow]

theorem abs_apply (s : Sign) (n : ℕ) : |s.apply n| = n := by
  cases s with
  | negative => exact (abs_neg (n : ℤ)).trans (Nat.abs_cast n)
  | positive => exact Nat.abs_cast n

theorem abs_unpackedUnits_lt (h : IsCanonical u) (hu : u.isInf = false) :
    |unpackedUnits u| < twoPow 2098 := by
  have hpos : (0 : ℤ) < twoPow 2098 := by exact_mod_cast twoPow_pos 2098
  cases u with
  | notANumber => exact hpos
  | zero s => exact hpos
  | infinity s => cases hu
  | finite s m e hm =>
    obtain ⟨hlt, -, -, he⟩ := h
    have hlt := mul_two_pow_lt (n := 2098) (k := (e + 1074).toNat) hlt (by omega)
    have hunits : unpackedUnits (.finite s m e hm) = s.apply (m * 2 ^ (e + 1074).toNat : ℕ) := by
      rw [unpackedUnits]
      push_cast
      rfl
    rw [hunits, abs_apply]
    exact_mod_cast hlt

theorem isFinite_iff : x.isFinite = true ↔ x.isNaN = false ∧ x.isInf = false := by
  show x.toModel.unpack.isFinite = true ↔
    x.toModel.unpack.isNaN = false ∧ x.toModel.unpack.isInf = false
  cases x.toModel.unpack <;> simp [UnpackedFloat.isFinite, UnpackedFloat.isNaN, UnpackedFloat.isInf]

theorem isInf_iff_unpack : x.isInf = true ↔ ∃ s, x.toModel.unpack = .infinity s := by
  show x.toModel.unpack.isInf = true ↔ _
  cases x.toModel.unpack <;> simp [UnpackedFloat.isInf]

theorem isNaN_of_isInf (h : x.isInf = true) : x.isNaN = false := by
  obtain ⟨s, hs⟩ := isInf_iff_unpack.mp h
  show x.toModel.unpack.isNaN = false
  rw [hs]
  rfl

theorem abs_amount_of_isInf (h : x.isInf = true) : |amount x| = twoPow 2098 := by
  obtain ⟨s, hs⟩ := isInf_iff_unpack.mp h
  rw [amount_eq_unpackedUnits (isNaN_of_isInf h), hs]
  exact abs_apply s (twoPow 2098)

/-- Finite numbers are those whose amount is below that of an infinity. -/
theorem isFinite_iff_amount :
    x.isFinite = true ↔ x.isNaN = false ∧ |amount x| < twoPow 2098 := by
  rw [isFinite_iff]
  refine and_congr_right fun hx => ⟨fun hinf => ?_, fun hlt => ?_⟩
  · rw [amount_eq_unpackedUnits hx]
    exact abs_unpackedUnits_lt (isCanonical_unpack x) hinf
  · by_contra hinf
    exact hlt.ne (abs_amount_of_isInf (Bool.eq_true_of_not_eq_false hinf))

theorem abs_amount_le (hx : x.isNaN = false) : |amount x| ≤ twoPow 2098 := by
  by_cases hinf : x.isInf = true
  · exact (abs_amount_of_isInf hinf).le
  · exact (isFinite_iff_amount.mp
      (isFinite_iff.mpr ⟨hx, Bool.eq_false_of_not_eq_true hinf⟩)).2.le

theorem isFinite_of_le (hx : 0 ≤ amount x) (h : x ≤ y) (hy : y.isFinite = true) :
    x.isFinite = true := by
  obtain ⟨hnumber, -, hle⟩ := le_iff_amount.mp h
  have hlt := (isFinite_iff_amount.mp hy).2
  rw [abs_of_nonneg (hx.trans hle)] at hlt
  rw [isFinite_iff_amount, abs_of_nonneg hx]
  exact ⟨hnumber, hle.trans_lt hlt⟩

theorem le_abs_amount_of_isNormal (h : isNormal x = true) : 2 ^ 52 ≤ |amount x| := by
  have habs : |amount x| = (fields x).units := by
    unfold amount
    split_ifs
    · exact (abs_neg _).trans (Nat.abs_cast _)
    · exact Nat.abs_cast _
  have hexponent : (fields x).exponent ≠ 0 := by
    rintro hzero
    simp [isNormal, hzero] at h
  have hunits : 2 ^ 52 ≤ (fields x).units := by
    rw [Fields.units, Fields.significand, if_neg hexponent]
    exact (Nat.le_add_right _ _).trans (Nat.le_mul_of_pos_right _ (Fields.spacing_pos _))
  rw [habs]
  exact_mod_cast hunits

/-- A finite number is what its own amount is rounded to. -/
theorem isRounded_self (h : x.isFinite = true) : IsRounded x (amount x) := by
  have hx := (isFinite_iff.mp h).1
  obtain ⟨hlow, hhigh⟩ := abs_le.mp (abs_amount_le hx)
  have hnearest := (rounds_self (isCanonical_unpack x) h).2
  rw [← amount_eq_unpackedUnits hx] at hnearest
  refine ⟨hx, ?_⟩
  rw [← hnearest, saturate_eq_self hlow hhigh]

end BoxBinning.Binary64
