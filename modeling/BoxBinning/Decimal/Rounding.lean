/-!
# Rounding a quotient to a whole number

`roundHalfEven num den` is the whole number nearest to `num / den`; a quotient half way between two
goes to the even one. `roundHalfEven_near` states that it is off by at most one half, and
`roundHalfEven_even_of_half` that it is even where that half is reached.
-/

namespace BoxBinning.Decimal

/-- The whole number nearest to `num / den`, a half going to the even neighbour. -/
def roundHalfEven (num den : Nat) : Nat :=
  let quotient := num / den
  let twice := 2 * (num % den)
  if twice < den || (twice == den && quotient % 2 == 0) then quotient else quotient + 1

/-- The rounded quotient times the divisor is within half a divisor of the dividend. -/
theorem roundHalfEven_near (num den : Nat) (h : 0 < den) :
    2 * (roundHalfEven num den * den) ≤ 2 * num + den ∧
      2 * num ≤ 2 * (roundHalfEven num den * den) + den := by
  have hdiv : den * (num / den) + num % den = num := Nat.div_add_mod num den
  have hmod : num % den < den := Nat.mod_lt _ h
  unfold roundHalfEven
  simp only []
  split
  · rename_i hc
    have hle : 2 * (num % den) ≤ den := by
      rcases Bool.or_eq_true _ _ |>.mp hc with hlt | heq
      · exact Nat.le_of_lt (of_decide_eq_true hlt)
      · exact Nat.le_of_eq (beq_iff_eq.mp (Bool.and_eq_true _ _ |>.mp heq).1)
    rw [Nat.mul_comm (num / den) den]
    omega
  · rename_i hc
    have hge : den ≤ 2 * (num % den) := by
      rw [Bool.or_eq_true, decide_eq_true_eq] at hc
      omega
    rw [Nat.add_mul, Nat.one_mul, Nat.mul_comm (num / den) den]
    omega

/-- A quotient half way between two whole numbers is rounded to an even one. -/
theorem roundHalfEven_even_of_half (num den : Nat) (h : 2 * (num % den) = den) :
    roundHalfEven num den % 2 = 0 := by
  unfold roundHalfEven
  simp only []
  rw [h]
  rcases Nat.mod_two_eq_zero_or_one (num / den) with heven | hodd
  · simp [heven]
  · simp [hodd]
    omega

end BoxBinning.Decimal
