import BoxBinning.Proofs.Binary64.Order

/-!
# Zero, subnormal numbers and infinities

The class of a double shows in its fields. A number that is not binnable is subnormal, infinite or
undefined (`isBinnable_eq_false_iff`).

A canonical number is the number that its packed form stands for (`unpack_pack`), so that sums and
products with zero can be computed on unpacked numbers: zero times a number is zero
(`mul_beq_zero`), unless it is undefined, and a number plus zero is the number (`add_beq_self`).
-/

namespace BoxBinning.Binary64

open Float.Model

variable {x y : Float} {u : UnpackedFloat}

/-! ### Classes -/

/-- A number other than zero below the least normal one. -/
def IsSubnormal (x : Float) : Prop := (fields x).exponent = 0 ∧ (fields x).fraction ≠ 0

instance : DecidablePred IsSubnormal := fun _ => inferInstanceAs (Decidable (_ ∧ _))

theorem isBinnable_eq_false_iff :
    isBinnable x = false ↔ IsSubnormal x ∨ x.isInf = true ∨ x.isNaN = true := by
  rw [← exponent_eq_maxExponent_iff, isBinnable, Bool.or_eq_false_iff, ← Bool.not_eq_true,
    beq_zero_iff, isNormal, IsSubnormal]
  by_cases hzero : (fields x).exponent = 0
  · simp [hzero, maxExponent]
  · simp [hzero]

/-! ### Packed numbers -/

/-- The number with the given sign, exponent field and fraction. -/
theorem unpack_packComponents (s : UnpackedFloat.Sign) (n : BitVec 11) (f : BitVec 52) :
    UnpackedFloat.unpack Format.binary64 (UnpackedFloat.packComponents Format.binary64 s n f) =
      if n = -1#11 then (if f = 0#52 then .infinity s else .notANumber)
      else if n = 0#11 then
        if h : f = 0#52 then .zero s
        else .finite s f.toNat (-1074) (Nat.pos_of_ne_zero fun h0 => h (BitVec.toNat_inj.mp h0))
      else .finite s (1#1 ++ f).toNat (n.toNat - 1075) (by rw [toNat_hiddenBit]; omega) := by
  have hsign : UnpackedFloat.Sign.ofBitVec s.toBitVec = s := by cases s <;> rfl
  unfold UnpackedFloat.unpack
  simp only [UnpackedFloat.unpackMantissa_packComponents,
    UnpackedFloat.unpackExponent_packComponents, UnpackedFloat.unpackSign_packComponents, hsign]
  by_cases hmax : n = -1#11
  · rw [if_pos hmax, if_pos hmax]
  · rw [if_neg hmax, if_neg hmax]
    by_cases hzero : n = 0#11
    · rw [if_pos hzero, if_pos hzero]
      subst hzero
      rfl
    · rw [if_neg hzero, if_neg hzero]
      rfl

/-- The fields of a canonical number. -/
theorem pack_finite {s : UnpackedFloat.Sign} {m : Nat} {e : Int} (hm : 0 < m)
    (h : IsCanonical (.finite s m e hm)) :
    UnpackedFloat.pack Format.binary64 (.finite s m e hm) =
      UnpackedFloat.packComponents Format.binary64 s
        (if 2 ^ 52 ≤ m then BitVec.ofNat 11 (e + 1075).toNat else 0#11) (BitVec.ofNat 52 m) := by
  obtain ⟨hlt, hleast, he, he'⟩ := h
  have hfits : ¬2 ^ 11 ≤ (e + 1023 + 52).toNat + 1 := by omega
  have hlog : m.log2 + 1 = 53 ↔ 2 ^ 52 ≤ m := by
    rw [← Nat.le_log2 hm.ne']
    have := (Nat.log2_lt hm.ne').mpr hlt
    omega
  have hsum : e + 1023 + 52 = e + 1075 := by omega
  unfold UnpackedFloat.pack
  show (if 2 ^ 11 ≤ (e + 1023 + 52).toNat + 1 then _
    else if m.log2 + 1 = 53 then UnpackedFloat.packComponents Format.binary64 s
      (BitVec.ofNat 11 (e + 1023 + 52).toNat) (BitVec.ofNat 52 m) else _) = _
  rw [if_neg hfits, hsum]
  by_cases hnormal : 2 ^ 52 ≤ m
  · rw [if_pos (hlog.mpr hnormal), if_pos hnormal]
  · rw [if_neg (fun h => hnormal (hlog.mp h)), if_neg hnormal]

/-- Packing loses nothing of a canonical number. -/
theorem unpack_pack (h : IsCanonical u) :
    UnpackedFloat.unpack Format.binary64 (UnpackedFloat.pack Format.binary64 u) = u := by
  cases u with
  | notANumber => rfl
  | infinity s => cases s <;> rfl
  | zero s => cases s <;> rfl
  | finite s m e hm =>
    rw [pack_finite hm h, unpack_packComponents]
    obtain ⟨hlt, hleast, he, he'⟩ := h
    have hfraction : (BitVec.ofNat 52 m).toNat = m % 2 ^ 52 := BitVec.toNat_ofNat m 52
    by_cases hnormal : 2 ^ 52 ≤ m
    · have hfield : (BitVec.ofNat 11 (e + 1075).toNat).toNat = (e + 1075).toNat := by
        rw [BitVec.toNat_ofNat, Nat.mod_eq_of_lt (by omega)]
      have hhidden := toNat_hiddenBit (BitVec.ofNat 52 m)
      have hones : (-1#11).toNat = 2047 := rfl
      have hzero : (0#11).toNat = 0 := rfl
      rw [if_pos hnormal]
      simp only [← BitVec.toNat_inj, hfield, hones]
      rw [if_neg (by omega), if_neg (by omega), UnpackedFloat.finite.injEq]
      exact ⟨rfl, by omega, by omega⟩
    · have hne : ¬BitVec.ofNat 52 m = 0#52 := fun h => by
        have hbits := congrArg BitVec.toNat h
        have hzero : (0#52).toNat = 0 := rfl
        omega
      rw [if_neg hnormal, if_neg (by decide), if_pos rfl, dif_neg hne, UnpackedFloat.finite.injEq]
      exact ⟨rfl, by omega, by omega⟩

theorem isCanonical_unpack (x : Float) : IsCanonical x.toModel.unpack := (unpack_spec _).1

/-! ### Arithmetic with zero -/

theorem unpack_mul (x y : Float) : (x * y).toModel.unpack =
    UnpackedFloat.unpack Format.binary64 (UnpackedFloat.pack Format.binary64
      (UnpackedFloat.mul Format.binary64 x.toModel.unpack y.toModel.unpack)) := rfl

theorem unpack_add (x y : Float) : (x + y).toModel.unpack =
    UnpackedFloat.unpack Format.binary64 (UnpackedFloat.pack Format.binary64
      (UnpackedFloat.add Format.binary64 x.toModel.unpack y.toModel.unpack)) := rfl

theorem isNaN_iff_unpack : x.isNaN = true ↔ x.toModel.unpack = .notANumber := by
  show x.toModel.unpack.isNaN = true ↔ _
  cases x.toModel.unpack <;> simp [UnpackedFloat.isNaN]

/-- There are two zeros. -/
theorem beq_zero_iff_unpack : (x == 0.0) = true ↔ ∃ s, x.toModel.unpack = .zero s := by
  show (x.toModel.unpack.compare (.zero .positive) == some .eq) = true ↔ _
  cases x.toModel.unpack with
  | notANumber => simp [UnpackedFloat.compare]
  | infinity s => cases s <;> simp [UnpackedFloat.compare]
  | zero s => exact iff_of_true rfl ⟨s, rfl⟩
  | finite s m e hm => cases s <;> simp [UnpackedFloat.compare]

/-- Zero times a number is zero, unless the number is infinite. -/
theorem mul_beq_zero (hx : (x == 0.0) = true) (h : (x * y).isNaN = false) :
    (x * y == 0.0) = true := by
  obtain ⟨s, hs⟩ := beq_zero_iff_unpack.mp hx
  have hproduct : UnpackedFloat.mul Format.binary64 (.zero s) y.toModel.unpack = .notANumber ∨
      ∃ t, UnpackedFloat.mul Format.binary64 (.zero s) y.toModel.unpack = .zero t := by
    cases y.toModel.unpack with
    | notANumber => exact .inl rfl
    | infinity t => exact .inl rfl
    | zero t => exact .inr ⟨s * t, rfl⟩
    | finite t m e hm => exact .inr ⟨s * t, rfl⟩
  have hunpack := unpack_mul x y
  rw [hs] at hunpack
  rcases hproduct with hnan | ⟨t, ht⟩
  · rw [hnan, unpack_pack (u := .notANumber) trivial] at hunpack
    rw [isNaN_iff_unpack.mpr hunpack] at h
    cases h
  · rw [ht, unpack_pack (u := .zero t) trivial] at hunpack
    exact beq_zero_iff_unpack.mpr ⟨t, hunpack⟩

/-- A number plus zero is the number. -/
theorem add_beq_self (hx : x.isNaN = false) (hy : (y == 0.0) = true) : (x + y == x) = true := by
  obtain ⟨t, ht⟩ := beq_zero_iff_unpack.mp hy
  have hunpack := unpack_add x y
  rw [ht] at hunpack
  by_cases hzero : (x == 0.0) = true
  · -- two zeros, whose signs may differ
    obtain ⟨s, hs⟩ := beq_zero_iff_unpack.mp hzero
    obtain ⟨r, hr⟩ : ∃ r, UnpackedFloat.add Format.binary64 (.zero s) (.zero t) = .zero r := by
      cases s <;> cases t <;> exact ⟨_, rfl⟩
    rw [hs, hr, unpack_pack (u := .zero r) trivial] at hunpack
    exact beq_trans (beq_zero_iff_unpack.mpr ⟨r, hunpack⟩) (beq_symm hzero)
  · have hsum : UnpackedFloat.add Format.binary64 x.toModel.unpack (.zero t)
        = x.toModel.unpack := by
      cases hu : x.toModel.unpack with
      | zero s => exact absurd (beq_zero_iff_unpack.mpr ⟨s, hu⟩) hzero
      | notANumber => rfl
      | infinity s => rfl
      | finite s m e hm => rfl
    rw [hsum, unpack_pack (isCanonical_unpack x)] at hunpack
    show (UnpackedFloat.compare (x + y).toModel.unpack x.toModel.unpack == some .eq) = true
    rw [hunpack]
    exact beq_iff.mpr ⟨hx, hx, rfl⟩

/-- What is not a number stays so when it is added to something. -/
theorem isNaN_of_isNaN_add (h : (x + y).isNaN = false) : y.isNaN = false := by
  by_contra hy
  have hnan := isNaN_iff_unpack.mp (Bool.eq_true_of_not_eq_false hy)
  have hsum : UnpackedFloat.add Format.binary64 x.toModel.unpack .notANumber = .notANumber := by
    cases x.toModel.unpack <;> rfl
  have hunpack := unpack_add x y
  rw [hnan, hsum, unpack_pack (u := .notANumber) trivial] at hunpack
  rw [isNaN_iff_unpack.mpr hunpack] at h
  cases h

end BoxBinning.Binary64
