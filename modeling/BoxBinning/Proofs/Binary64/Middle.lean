import BoxBinning.Proofs.Binary64.Arithmetic

/-!
# Half the sum of two numbers

Half the sum is rounded twice, after the addition and after the division. On amounts this is
`middle`, which keeps the order. Its values at neighbours are known exactly: at an odd place the
amounts beside it are equally far away (`IsSpaced`), so half their sum is the one between them
(`middle_around`), and half the sum of two neighbours is rounded to the one at the even place
(`middle_add_succ`). With the order this bounds half the sum of any two numbers: it is not below the
lower one (`le_middle`), and it is below the upper one unless the two are neighbours and the upper
one is at an even place (`middle_lt_iff`).
-/

namespace BoxBinning.Binary64

variable {x y : Float} {a b m n o : ℤ} {k : ℕ}

/-! ### Neighbours -/

/-- The amounts at an odd place and beside it are successive multiples of a power of two. -/
structure IsSpaced (o m : ℤ) (k : ℕ) : Prop where
  /-- The multiple at the place itself is odd. -/
  odd : Odd m
  /-- It has 53 bits. -/
  abs_lt : |m| < 2 ^ 53
  /-- If it has fewer bits, the multiples are those of a single unit. -/
  eq_zero : |m| < 2 ^ 52 → k = 0
  /-- The amount before. -/
  before : amountAt (o - 1) = (m - 1) * 2 ^ k
  /-- The amount at the place. -/
  here : amountAt o = m * 2 ^ k
  /-- The amount after. -/
  after : amountAt (o + 1) = (m + 1) * 2 ^ k

theorem unitsAt_of_le {p : ℕ} (h : p ≤ 2 ^ 52) : unitsAt p = p := by
  rcases h.lt_or_eq with hlt | rfl
  · exact unitsAt_of_lt hlt
  · rfl

/-- The greatest significand is followed by the least one on the next scale. -/
theorem unitsAt_add_of_le (r k : ℕ) (h : r ≤ 2 ^ 52) :
    unitsAt ((k + 1) * 2 ^ 52 + r) = (2 ^ 52 + r) * 2 ^ k := by
  rcases h.lt_or_eq with hlt | rfl
  · exact unitsAt_add r k hlt
  · have hnext := unitsAt_add 0 (k + 1) (by omega)
    rw [show (k + 1) * 2 ^ 52 + 2 ^ 52 = (k + 1 + 1) * 2 ^ 52 + 0 by ring, hnext]
    ring

theorem amountAt_natCast (p : ℕ) : amountAt p = unitsAt p := rfl

theorem amountAt_neg_eq (o : ℤ) : amountAt (-o) = -amountAt o := by
  obtain ⟨p, rfl | rfl⟩ := o.eq_nat_or_neg
  · exact amountAt_neg p
  · rw [neg_neg, amountAt_neg, neg_neg]
    rfl

theorem IsSpaced.neg (h : IsSpaced o m k) : IsSpaced (-o) (-m) k where
  odd := h.odd.neg
  abs_lt := (abs_neg m).trans_lt h.abs_lt
  eq_zero hlt := h.eq_zero ((abs_neg m).symm.trans_lt hlt)
  before := by
    rw [show -o - 1 = -(o + 1) by ring, amountAt_neg_eq, h.after]
    ring
  here := by
    rw [amountAt_neg_eq, h.here]
    ring
  after := by
    rw [show -o + 1 = -(o - 1) by ring, amountAt_neg_eq, h.before]
    ring

theorem isSpaced_of_unitsAt {p r : ℕ} (hodd : Odd (r + 1)) (hlt : r + 1 < 2 ^ 53)
    (hk : r + 1 < 2 ^ 52 → k = 0) (hbefore : unitsAt p = r * 2 ^ k)
    (hhere : unitsAt (p + 1) = (r + 1) * 2 ^ k)
    (hafter : unitsAt (p + 1 + 1) = (r + 1 + 1) * 2 ^ k) :
    IsSpaced (p + 1 : ℕ) (r + 1 : ℕ) k where
  odd := hodd.natCast
  abs_lt := by
    rw [Nat.abs_cast]
    exact_mod_cast hlt
  eq_zero := by
    rw [Nat.abs_cast]
    intro h
    exact hk (by exact_mod_cast h)
  before := by
    rw [show ((p + 1 : ℕ) : ℤ) - 1 = p by omega, amountAt_natCast, hbefore]
    push_cast
    ring
  here := by
    rw [amountAt_natCast, hhere]
    push_cast
    ring
  after := by
    rw [show ((p + 1 : ℕ) : ℤ) + 1 = (p + 1 + 1 : ℕ) by omega, amountAt_natCast, hafter]
    push_cast
    ring

theorem exists_isSpaced_natCast {p : ℕ} (h : Odd (p + 1)) : ∃ m k, IsSpaced (p + 1 : ℕ) m k := by
  by_cases hlow : p + 1 < 2 ^ 52
  · -- below the least normal number all multiples are of one unit
    refine ⟨(p + 1 : ℕ), 0, isSpaced_of_unitsAt h (by omega) (fun _ => rfl) ?_ ?_ ?_⟩
    · rw [unitsAt_of_le (by omega), Nat.pow_zero, Nat.mul_one]
    · rw [unitsAt_of_le (by omega), Nat.pow_zero, Nat.mul_one]
    · rw [unitsAt_of_le (by omega), Nat.pow_zero, Nat.mul_one]
  · -- an odd place is not the first one of its scale
    have hmod := Nat.odd_iff.mp h
    obtain ⟨j, hj⟩ : ∃ j, p / 2 ^ 52 = j + 1 := Nat.exists_eq_add_one_of_ne_zero (by omega)
    obtain ⟨r, hr⟩ : ∃ r, r = p % 2 ^ 52 := ⟨_, rfl⟩
    have hp : p = (j + 1) * 2 ^ 52 + r := by omega
    refine ⟨(2 ^ 52 + r + 1 : ℕ), j, isSpaced_of_unitsAt (Nat.odd_iff.mpr (by omega)) (by omega)
      (fun hlt => by omega) ?_ ?_ ?_⟩
    · rw [hp, unitsAt_add_of_le r j (by omega)]
    · rw [hp, Nat.add_assoc, unitsAt_add_of_le (r + 1) j (by omega), Nat.add_assoc]
    · rw [hp, Nat.add_assoc, Nat.add_assoc, unitsAt_add_of_le (r + (1 + 1)) j (by omega)]
      rfl

theorem exists_isSpaced (h : Odd o) : ∃ m k, IsSpaced o m k := by
  have hpos : o.natAbs ≠ 0 := by
    intro hzero
    rw [Int.natAbs_eq_zero.mp hzero] at h
    exact absurd h (by decide)
  obtain ⟨p, hp⟩ := Nat.exists_eq_add_one_of_ne_zero hpos
  have hodd : Odd (p + 1) := hp ▸ Int.natAbs_odd.mpr h
  obtain ⟨m, k, hspaced⟩ := exists_isSpaced_natCast hodd
  rcases Int.natAbs_eq o with ho | ho
  · rw [ho, hp]
    exact ⟨m, k, hspaced⟩
  · rw [ho, hp]
    exact ⟨-m, k, hspaced.neg⟩

/-! ### Half the sum -/

/-- Half of a number of units, when the number is rounded before and after it is halved. -/
def middle (n : ℤ) : ℤ := nearest (nearest n / 2)

theorem middle_mono (h : m ≤ n) : middle m ≤ middle n := by
  have hsum : (nearest m : ℚ) ≤ nearest n := by
    have hcast : (m : ℚ) ≤ n := by exact_mod_cast h
    exact_mod_cast nearest_mono hcast
  exact nearest_mono (div_le_div_of_nonneg_right hsum two_pos.le)

/-- Half of what has 53 bits is exact. -/
theorem middle_two_mul (hm : |m| < 2 ^ 53) (k : ℕ) : middle (2 * (m * 2 ^ k)) = m * 2 ^ k := by
  have hsum : nearest ((2 * (m * 2 ^ k) : ℤ) : ℚ) = 2 * (m * 2 ^ k) := by
    have h := nearest_mul_two_pow hm (k + 1)
    rw [show (m : ℚ) * 2 ^ (k + 1) = ((2 * (m * 2 ^ k) : ℤ) : ℚ) by push_cast; ring] at h
    rw [h]
    ring
  rw [middle, hsum, show ((2 * (m * 2 ^ k) : ℤ) : ℚ) / 2 = m * 2 ^ k by push_cast; ring]
  exact nearest_mul_two_pow hm k

/-- Half way between two integers, the even one is nearest. -/
theorem roundEven_half (hn : Even n) (h : |n - m| = 1) : roundEven ((m + n : ℤ) / 2) = n := by
  apply roundEven_eq_of_isNearestEven
  right
  have hcast : |(n : ℚ) - m| = 1 := by exact_mod_cast h
  refine ⟨?_, hn⟩
  rw [show ((m + n : ℤ) : ℚ) / 2 - n = -((n - m) / 2) by push_cast; ring, abs_neg, abs_div, hcast]
  norm_num

theorem nearest_eq {v : ℚ} (hlow : k = 0 ∨ 2 ^ 52 * 2 ^ k ≤ |v|) (hhigh : |v| < 2 ^ 53 * 2 ^ k) :
    nearest v = roundEven (v / 2 ^ k) * 2 ^ k := by
  have hscale : scale v = k := by
    have hle := scale_le hhigh
    rcases hlow with rfl | hlow
    · exact Nat.le_zero.mp hle
    · exact hle.antisymm (le_scale hlow)
  rw [nearest, hscale]

/-- A number of 54 bits is rounded to a multiple of two. -/
theorem nearest_mul_of_bounds (hlow : (2 : ℚ) ^ 53 ≤ |(n : ℚ)|) (hhigh : |(n : ℚ)| < 2 ^ 54) :
    nearest (n * 2 ^ k : ℤ) = roundEven (n / 2) * 2 ^ (k + 1) := by
  have hpow : (0 : ℚ) < 2 ^ k := pow_pos two_pos k
  have habs : |((n * 2 ^ k : ℤ) : ℚ)| = |(n : ℚ)| * 2 ^ k := by
    push_cast
    rw [abs_mul, abs_of_pos hpow]
  have hquot : ((n * 2 ^ k : ℤ) : ℚ) / 2 ^ (k + 1) = n / 2 := by
    push_cast
    rw [pow_succ, mul_div_mul_comm]
    field_simp
  rw [nearest_eq (k := k + 1), hquot]
  · right
    rw [habs, pow_succ (2 : ℚ) k]
    nlinarith
  · rw [habs, pow_succ (2 : ℚ) k]
    nlinarith

theorem abs_add_bounds (h : |n - m| = 1) : 2 * |m| - 1 ≤ |m + n| ∧ |m + n| ≤ 2 * |m| + 1 := by
  have hm := abs_cases m
  have hsum := abs_cases (m + n)
  have hbeside := abs_cases (n - m)
  omega

/-- The sum of two small neighbours is exact, and its half is rounded. -/
theorem middle_add_of_lt (hn : Even n) (h : |n - m| = 1) (hm : |m| < 2 ^ 52) :
    middle (m + n) = n := by
  have hbounds := abs_add_bounds h
  have hsum : |m + n| < 2 ^ 53 := by omega
  have hhalf : |((m + n : ℤ) : ℚ) / 2| < 2 ^ 53 * 2 ^ 0 := by
    have hcast : |((m + n : ℤ) : ℚ)| < 2 ^ 53 := by exact_mod_cast hsum
    rw [abs_div, abs_two]
    linarith
  rw [middle, nearest_intCast hsum, nearest_eq (.inl rfl) hhalf, pow_zero, div_one,
    roundEven_half hn h, pow_zero, mul_one]

/-- The sum of two large neighbours is rounded, and its half is exact. -/
theorem middle_add_of_le (hodd : Odd m) (hn : Even n) (h : |n - m| = 1) (hlow : 2 ^ 52 ≤ |m|)
    (hhigh : |m| < 2 ^ 53) (k : ℕ) : middle ((m + n) * 2 ^ k) = n * 2 ^ k := by
  have hbounds : (2 : ℚ) ^ 53 ≤ |((m + n : ℤ) : ℚ)| ∧ |((m + n : ℤ) : ℚ)| < 2 ^ 54 := by
    -- an odd multiple is not `2 ^ 52` itself
    have hmod := Int.odd_iff.mp hodd
    have hm := abs_cases m
    have hsum := abs_add_bounds h
    have hint : 2 ^ 53 ≤ |m + n| ∧ |m + n| < 2 ^ 54 := by omega
    exact_mod_cast hint
  have hsum := nearest_mul_of_bounds (k := k) hbounds.1 hbounds.2
  rw [roundEven_half hn h] at hsum
  -- the even neighbour may be `2 ^ 53`, but half of it has 53 bits
  obtain ⟨j, rfl⟩ := hn
  have hj : |j| < 2 ^ 53 := by
    have hm := abs_cases m
    have hj := abs_cases j
    have hbeside := abs_cases (j + j - m)
    omega
  have hhalf : (((j + j) * 2 ^ (k + 1) : ℤ) : ℚ) / 2 = j * 2 ^ (k + 1) := by
    push_cast
    ring
  rw [middle, hsum, hhalf, nearest_mul_two_pow hj]
  ring

/-- Half the sum of an odd multiple and an even one beside it is the even one. -/
theorem middle_add (hodd : Odd m) (hm : |m| < 2 ^ 53) (hk : |m| < 2 ^ 52 → k = 0)
    (h : |n - m| = 1) : middle (m * 2 ^ k + n * 2 ^ k) = n * 2 ^ k := by
  have heven : Even n := by
    have hmod := Int.odd_iff.mp hodd
    have hbeside := abs_cases (n - m)
    rw [Int.even_iff]
    omega
  rw [← add_mul]
  by_cases hlow : |m| < 2 ^ 52
  · rw [hk hlow, pow_zero, mul_one, mul_one]
    exact middle_add_of_lt heven h hlow
  · exact middle_add_of_le hodd heven h (not_lt.mp hlow) hm k

/-! ### Places -/

/-- Half the sum of the amounts beside an odd place is the amount at the place. -/
theorem middle_around (h : Odd o) :
    middle (amountAt (o - 1) + amountAt (o + 1)) = amountAt o := by
  obtain ⟨m, k, hspaced⟩ := exists_isSpaced h
  have hsum : (m - 1) * 2 ^ k + (m + 1) * 2 ^ k = 2 * (m * 2 ^ k) := by ring
  rw [hspaced.before, hspaced.after, hspaced.here, hsum, middle_two_mul hspaced.abs_lt]

/-- Half the sum of the amounts at neighbours is the amount at the even one of the two. -/
theorem middle_add_succ (a : ℤ) :
    middle (amountAt a + amountAt (a + 1)) = if Even a then amountAt a else amountAt (a + 1) := by
  split_ifs with h
  · obtain ⟨m, k, hspaced⟩ := exists_isSpaced (Even.add_one h)
    have hbefore := hspaced.before
    rw [add_sub_cancel_right] at hbefore
    rw [add_comm, hbefore, hspaced.here]
    exact middle_add hspaced.odd hspaced.abs_lt hspaced.eq_zero (by simp)
  · obtain ⟨m, k, hspaced⟩ := exists_isSpaced (Int.not_even_iff_odd.mp h)
    rw [hspaced.here, hspaced.after]
    exact middle_add hspaced.odd hspaced.abs_lt hspaced.eq_zero (by simp)

theorem middle_add_mono {a' b' : ℤ} (ha : a ≤ a') (hb : b ≤ b') :
    middle (amountAt a + amountAt b) ≤ middle (amountAt a' + amountAt b') :=
  middle_mono (add_le_add (amountAt_strictMono.monotone ha) (amountAt_strictMono.monotone hb))

theorem le_middle (h : a < b) : amountAt a ≤ middle (amountAt a + amountAt b) := by
  have hle := middle_add_mono (le_refl a) (Int.add_one_le_of_lt h)
  rw [middle_add_succ] at hle
  refine le_trans ?_ hle
  split_ifs
  · exact le_rfl
  · exact amountAt_strictMono.monotone (by omega)

theorem middle_le (h : a < b) : middle (amountAt a + amountAt b) ≤ amountAt b := by
  have hle := middle_add_mono (Int.le_sub_one_of_lt h) (le_refl b)
  have hneighbours := middle_add_succ (b - 1)
  rw [sub_add_cancel] at hneighbours
  rw [hneighbours] at hle
  refine le_trans hle ?_
  split_ifs
  · exact amountAt_strictMono.monotone (by omega)
  · exact le_rfl

/-- Half the sum is below the upper amount, unless it is rounded up to it. -/
theorem middle_lt_iff (h : a < b) :
    middle (amountAt a + amountAt b) < amountAt b ↔ ¬(b = a + 1 ∧ Even b) := by
  constructor
  · rintro hlt ⟨rfl, heven⟩
    rw [middle_add_succ, if_neg (Int.even_add_one.mp heven)] at hlt
    exact hlt.false
  · intro hno
    -- half the sum of two lower numbers is below the upper one as well
    have hbelow : middle (amountAt a + amountAt b) ≤ amountAt (b - 1) := by
      by_cases heven : Even b
      · have hne : b ≠ a + 1 := fun hnext => hno ⟨hnext, heven⟩
        have hodd : Odd (b - 1) := heven.sub_odd odd_one
        have haround := middle_around hodd
        rw [sub_add_cancel] at haround
        rw [← haround]
        exact middle_add_mono (by omega) le_rfl
      · have hneighbours := middle_add_succ (b - 1)
        rw [sub_add_cancel, if_pos (by simpa [Int.even_sub_one] using heven)] at hneighbours
        rw [← hneighbours]
        exact middle_add_mono (by omega) le_rfl
    exact hbelow.trans_lt (amountAt_strictMono (by omega))

/-! ### Doubles -/

theorem saturate_of_abs_lt (h : |saturate n| < twoPow 2098) : saturate n = n := by
  obtain ⟨hlow, hhigh⟩ := abs_lt.mp h
  unfold saturate at hlow hhigh ⊢
  omega

/-- A finite double is rounded without overflow. -/
theorem IsRounded.amount_of_isFinite {v : ℚ} (hx : IsRounded x v) (h : x.isFinite = true) :
    amount x = nearest v := by
  have hlt := (isFinite_iff_amount.mp h).2
  rw [hx.2] at hlt
  rw [hx.2, saturate_of_abs_lt hlt]

theorem twoPow_succ (k : ℕ) : twoPow (k + 1) = 2 * twoPow k := pow_succ' 2 k

/-- No half of a finite double overflows. -/
theorem isFinite_half (h : x.isFinite = true) : (x / ofCount 2).isFinite = true := by
  have hrounded := isRounded_div_ofCount two_pos (by norm_num) h
  have hdouble : (twoPow 2098 : ℚ) = 2 * twoPow 2097 := by exact_mod_cast twoPow_succ 2097
  have hlt : |(amount x : ℚ)| < twoPow 2098 := by exact_mod_cast (isFinite_iff_amount.mp h).2
  obtain ⟨hlow, hhigh⟩ := abs_lt.mp hlt
  -- half the amount lies between two powers of two, which are exact
  have hbelow := nearest_mono (show (amount x : ℚ) / (2 : ℕ) ≤ (1 : ℤ) * twoPow 2097 by
    push_cast
    linarith)
  have habove := nearest_mono (show (-1 : ℤ) * twoPow 2097 ≤ (amount x : ℚ) / (2 : ℕ) by
    push_cast
    linarith)
  rw [nearest_mul_twoPow (by norm_num)] at hbelow habove
  have hlimit : (twoPow 2097 : ℤ) < twoPow 2098 := by
    exact_mod_cast twoPow_lt_twoPow (by norm_num)
  rw [isFinite_iff_amount, hrounded.2, saturate_eq_self (by omega) (by omega), abs_lt]
  exact ⟨hrounded.1, by omega, by omega⟩

theorem two_eq_ofCount : (2.0 : Float) = ofCount 2 := by decide

section HalfSum

variable (hx : x.isFinite = true) (hy : y.isFinite = true)

include hx hy

/-- Half the sum of two doubles, if the sum does not overflow. -/
theorem half_add (h : (x + y).isFinite = true) : ((x + y) / 2.0).isFinite = true ∧
    amount ((x + y) / 2.0) = middle (amount x + amount y) := by
  rw [two_eq_ofCount]
  have hfinite := isFinite_half h
  refine ⟨hfinite, ?_⟩
  have hsum := (isRounded_add hx hy).amount_of_isFinite h
  rw [(isRounded_div_ofCount two_pos (by norm_num) h).amount_of_isFinite hfinite, hsum, middle]
  push_cast
  rfl

/-- If the sum overflows, half of it is infinite as well. -/
theorem isInf_half_add (h : ¬(x + y).isFinite = true) : ((x + y) / 2.0).isInf = true :=
  isInf_div (isInf_of_isNaN_of_isFinite (isRounded_add hx hy).1 h) (by decide)

end HalfSum

end BoxBinning.Binary64
