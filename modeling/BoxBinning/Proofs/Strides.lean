import BoxBinning.Proofs.MixedRadix

/-!
# Strides and digits

Positive counts have strides if and only if their product is below the limit, and the numbers below
the product are then in one-to-one correspondence with the digits below the counts
(`MixedRadix.strides_exact`).

The running product is compared with the limit after every factor, so a word of 64 bits is enough to
compute it: `stridesInWords` multiplies words and refuses a product that does not fit into one, and
it gives the same strides and the same errors (`MixedRadix.map_stridesInWords`).
-/

namespace BoxBinning.MixedRadix

variable {counts ds : List Nat} {ss : List BinIndex} {cells g t : Nat}

/-! ### Too many cells -/

/-- If the product of all counts reaches the limit, some running product does so first. -/
theorem stridesFrom_eq_error (ht : t < binLimit) (hlim : binLimit ≤ t * counts.prod) :
    stridesFrom t counts = .error (.tooManyBins uncountable) := by
  induction counts generalizing t with
  | nil =>
    rw [List.prod_nil, Nat.mul_one] at hlim
    omega
  | cons n rest ih =>
    rw [List.prod_cons, ← Nat.mul_assoc] at hlim
    unfold stridesFrom
    split_ifs with hn
    · rw [ih hn hlim]
      rfl
    · rfl

theorem strides_eq_error (hlim : binLimit ≤ counts.prod) :
    strides counts = .error (.tooManyBins uncountable) :=
  stridesFrom_eq_error (by decide) (by rwa [Nat.one_mul])

theorem exists_strides_iff (hpos : ∀ n ∈ counts, 0 < n) :
    (∃ r, strides counts = .ok r) ↔ counts.prod < binLimit := by
  constructor
  · rintro ⟨r, hr⟩
    by_contra hlim
    rw [strides_eq_error (not_lt.mp hlim)] at hr
    cases hr
  · intro hlt
    obtain ⟨ss, hss⟩ := exists_stridesFrom hpos (t := 1) (by rwa [Nat.one_mul])
    exact ⟨_, hss⟩

/-! ### Words of 64 bits -/

/-- The product of two words, unless it does not fit into one. -/
def checkedMul? (a b : UInt64) : Option UInt64 :=
  if a.toNat * b.toNat < 2 ^ 64 then some (a * b) else none

/-- The strides of the counts, of which the first is `total`, and the product of `total` and the
counts, computed in words. -/
def stridesInWords (total : UInt64) :
    List UInt64 → Except BinningError (List BinIndex × UInt64)
  | [] => .ok ([], total)
  | n :: rest =>
    if total.toNat < 2 ^ 32 then
      match (checkedMul? total n).filter (·.toNat < binLimit) with
      | some next => do
        let (strides, cells) ← stridesInWords next rest
        return (total.toUInt32 :: strides, cells)
      | none => .error (.tooManyBins uncountable)
    else .error (.tooManyBins total.toNat)

/-- A product that does not fit into a word is not below the limit either. -/
theorem filter_checkedMul? (a b : UInt64) : (checkedMul? a b).filter (·.toNat < binLimit) =
    if a.toNat * b.toNat < binLimit then some (a * b) else none := by
  have hmul : (a * b).toNat = a.toNat * b.toNat % 2 ^ 64 := UInt64.toNat_mul a b
  unfold checkedMul? binLimit
  split_ifs with hfits hlim hlim
  · simp only [Option.filter_some, hmul, Nat.mod_eq_of_lt hfits, hlim, decide_true, if_true]
  · simp only [Option.filter_some, hmul, Nat.mod_eq_of_lt hfits, hlim, decide_false,
      Bool.false_eq_true, if_false]
  · omega
  · rfl

/-- No product overflows unnoticed, and no stride is cut off. -/
theorem map_stridesInWords {words : List UInt64} (total : UInt64) (ht : total.toNat < binLimit) :
    (stridesInWords total words).map (Prod.map id UInt64.toNat) =
      stridesFrom total.toNat (words.map UInt64.toNat) := by
  induction words generalizing total with
  | nil => rfl
  | cons n rest ih =>
    have hfits : total.toNat < 2 ^ 32 := by
      unfold binLimit at ht
      omega
    rw [stridesInWords, if_pos hfits, filter_checkedMul?, List.map_cons, stridesFrom]
    split_ifs with hlim
    · have hmul : (total * n).toNat = total.toNat * n.toNat := by
        unfold binLimit at hlim
        rw [UInt64.toNat_mul, Nat.mod_eq_of_lt (by omega)]
      have ih := ih (total * n) (by rwa [hmul])
      rw [hmul] at ih
      rw [← ih]
      dsimp only
      rcases stridesInWords (total * n) rest with e | ⟨strides, cells⟩
      · rfl
      · simp [bind, Except.bind, Except.map, pure, Except.pure]
    · rfl

/-! ### Numbers and digits -/

section Strides

variable (hpos : ∀ n ∈ counts, 0 < n) (h : strides counts = .ok (ss, cells))

include hpos h

/-- The digits of a number below the number of cells are below the counts and make up the number. -/
theorem number_decode (hg : g < cells) :
    List.Forall₂ (· < ·) (decode counts ss g) counts ∧
      number (ss.map UInt32.toNat) (decode counts ss g) = g := by
  obtain ⟨hnumbering, rfl⟩ := isNumbering_of_strides hpos h
  have hsum := number_digits hpos (t := 1) (i := g) (by rwa [Nat.one_mul])
  rw [Nat.mod_one, Nat.zero_add] at hsum
  rw [hnumbering.toNat_strides, hnumbering.decode_eq_digits]
  exact ⟨digits_lt hpos, hsum⟩

/-- Digits below the counts make up a number below the number of cells, whose digits they are. -/
theorem decode_number (hds : List.Forall₂ (· < ·) ds counts) :
    number (ss.map UInt32.toNat) ds < cells ∧
      decode counts ss (number (ss.map UInt32.toNat) ds) = ds := by
  obtain ⟨hnumbering, rfl⟩ := isNumbering_of_strides hpos h
  have htake : List.Forall₂ (· < ·) ds (counts.take ds.length) := by
    rwa [hds.length_eq, List.take_length]
  have hlt := number_lt hpos htake (g := 0) (t := 1) Nat.zero_lt_one
  have hdigits := digits_number hds (g := 0) Nat.zero_lt_one
  rw [Nat.zero_add] at hlt hdigits
  rw [hnumbering.toNat_strides, hnumbering.decode_eq_digits]
  exact ⟨by rwa [Nat.one_mul] at hlt, hdigits⟩

/-- The sum of words does not wrap around. -/
theorem toNat_encode_ofNat (hds : List.Forall₂ (· < ·) ds counts) :
    (encode ss (ds.map UInt32.ofNat)).toNat = number (ss.map UInt32.toNat) ds := by
  obtain ⟨hnumbering, rfl⟩ := isNumbering_of_strides hpos h
  have hwords : (ds.map UInt32.ofNat).map UInt32.toNat = ds := by
    -- every digit is below its count, and every count fits into a word
    have hfits : ∀ d ∈ ds, (UInt32.toNat ∘ UInt32.ofNat) d = id d := by
      intro d hd
      obtain ⟨n, hn, hdn⟩ := exists_mem_of_forall₂ hds hd
      have hlt := hnumbering.lt_of_mem hn
      unfold binLimit at hlt
      exact UInt32.toNat_ofNat_of_lt' (by unfold UInt32.size; omega)
    rw [List.map_map, List.map_congr_left hfits, List.map_id]
  rw [hnumbering.toNat_strides, hnumbering.toNat_encode (digits_take (by rwa [hwords])), hwords]

end Strides

/-- Positive counts have strides if and only if their product is below the limit, and are refused as
too many otherwise, also if the product is computed in words and does not fit into one. The number
of cells is then the product, every number below it is the sum of its digits times the strides, and
all digits below the counts are those of the number that `encode` makes of them. -/
theorem strides_exact (hpos : ∀ n ∈ counts, 0 < n) :
    ((∃ r, strides counts = .ok r) ↔ counts.prod < binLimit) ∧
    (¬counts.prod < binLimit → strides counts = .error (.tooManyBins uncountable)) ∧
    (∀ words : List UInt64, words.map UInt64.toNat = counts →
      (stridesInWords 1 words).map (Prod.map id UInt64.toNat) = strides counts) ∧
    ∀ ss cells, strides counts = .ok (ss, cells) → cells = counts.prod ∧
      (∀ g < cells, List.Forall₂ (· < ·) (decode counts ss g) counts ∧
        number (ss.map UInt32.toNat) (decode counts ss g) = g) ∧
      ∀ ds, List.Forall₂ (· < ·) ds counts →
        number (ss.map UInt32.toNat) ds < cells ∧
        decode counts ss (number (ss.map UInt32.toNat) ds) = ds ∧
        (encode ss (ds.map UInt32.ofNat)).toNat = number (ss.map UInt32.toNat) ds := by
  refine ⟨exists_strides_iff hpos, fun hlim => strides_eq_error (not_lt.mp hlim), ?_, ?_⟩
  · rintro words rfl
    exact map_stridesInWords 1 (by decide)
  · intro ss cells h
    refine ⟨(isNumbering_of_strides hpos h).2, fun g hg => number_decode hpos h hg, ?_⟩
    intro ds hds
    obtain ⟨hlt, hdigits⟩ := decode_number hpos h hds
    exact ⟨hlt, hdigits, toNat_encode_ofNat hpos h hds⟩

/-- The product of the first two counts is the limit itself, and that of the next two is the word
zero. Of the last two, the last cell has the greatest digits. -/
theorem strides_exact_limit :
    strides [65537, 65535] = .error (.tooManyBins uncountable) ∧
    (stridesInWords 1 [4294967296, 4294967296]).map (Prod.map id UInt64.toNat) =
      .error (.tooManyBins uncountable) ∧
    ∃ ss cells, strides [65536, 65535] = .ok (ss, cells) ∧
      number (ss.map UInt32.toNat) (decode [65536, 65535] ss 4294901759) = 4294901759 ∧
      decode [65536, 65535] ss (number (ss.map UInt32.toNat) [65535, 65534]) = [65535, 65534] := by
  obtain ⟨-, hlimit, -, -⟩ := @strides_exact [65537, 65535] (by decide)
  obtain ⟨-, hlarge, hwords, -⟩ := @strides_exact [4294967296, 4294967296] (by decide)
  obtain ⟨haccepted, -, -, hcells⟩ := @strides_exact [65536, 65535] (by decide)
  obtain ⟨⟨ss, cells⟩, h⟩ := haccepted.mpr (by decide)
  obtain ⟨rfl, hnumbers, hdigits⟩ := hcells ss cells h
  refine ⟨hlimit (by decide), ?_, ss, _, h, (hnumbers _ (by decide)).2, ?_⟩
  · rw [hwords _ (by decide)]
    exact hlarge (by decide)
  · exact (hdigits _ (by decide)).2.1

end BoxBinning.MixedRadix
