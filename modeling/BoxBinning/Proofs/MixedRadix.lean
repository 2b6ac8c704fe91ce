import BoxBinning.MixedRadix
import BoxBinning.Proofs.Row

/-!
# Mixed-radix numbers

The number with digits `d₀, d₁, …` for the counts `n₀, n₁, …` is `d₀ · s₀ + d₁ · s₁ + …` with
`s₀ = 1` and `sₖ₊₁ = sₖ · nₖ` (`weights`, `number`). Numbers and digits determine each other
(`digits_number`, `number_digits`), and as long as the product of the counts fits into a word,
`encode` computes the number without wrapping around, also of the first digits alone
(`IsNumbering.toNat_encode`). Digits that follow each other may be encoded first and stand for one
digit then (`number_group`, `encode_group`).
-/

namespace BoxBinning.MixedRadix

/-- What the digits count for: `total`, and then the product of `total` and the counts before. -/
def weights (total : Nat) : List Nat → List Nat
  | [] => []
  | n :: rest => total :: weights (total * n) rest

/-- The number with the given digits. -/
def number (weights digits : List Nat) : Nat := (List.zipWith (· * ·) digits weights).sum

/-- The digits of a number. -/
def digits (total : Nat) (counts : List Nat) (i : Nat) : List Nat :=
  List.zipWith (fun n w => i / w % n) counts (weights total counts)

@[simp] theorem number_nil (ws : List Nat) : number ws [] = 0 := by simp [number]

@[simp] theorem number_cons (w d : Nat) (ws ds : List Nat) :
    number (w :: ws) (d :: ds) = d * w + number ws ds := by simp [number]

variable {counts ds : List Nat} {g i t : Nat}

@[simp] theorem length_weights : (weights t counts).length = counts.length := by
  induction counts generalizing t with
  | nil => rfl
  | cons n rest ih => simp [weights, ih]

@[simp] theorem length_digits : (digits t counts i).length = counts.length := by simp [digits]

theorem number_mul (c t : Nat) (counts ds : List Nat) :
    number (weights (c * t) counts) ds = c * number (weights t counts) ds := by
  induction counts generalizing t ds with
  | nil => simp [weights, number]
  | cons n rest ih =>
    cases ds with
    | nil => simp
    | cons d ds =>
      rw [weights, weights, number_cons, number_cons, Nat.mul_assoc, ih]
      ring

/-- The first digit counts for one, and the others for multiples of the first count. -/
theorem number_weights_cons (n d : Nat) (counts ds : List Nat) :
    number (weights 1 (n :: counts)) (d :: ds) = d + n * number (weights 1 counts) ds := by
  rw [weights, number_cons, Nat.mul_one, Nat.one_mul, ← number_mul, Nat.mul_one]

theorem prod_pos (hpos : ∀ n ∈ counts, 0 < n) : 0 < counts.prod :=
  List.prod_pos_iff_forall_pos_nat.mpr hpos

theorem add_mul_lt {d n : Nat} (hg : g < t) (hd : d < n) : g + d * t < t * n := by
  have hstep : d * t + t ≤ t * n := by
    rw [← Nat.succ_mul, Nat.mul_comm]
    exact Nat.mul_le_mul_left t hd
  omega

/-! ### Numbers and digits -/

/-- The first digits give a number below the product of the counts. -/
theorem number_lt (hpos : ∀ n ∈ counts, 0 < n)
    (h : List.Forall₂ (· < ·) ds (counts.take ds.length)) (hg : g < t) :
    g + number (weights t counts) ds < t * counts.prod := by
  induction counts generalizing g t ds with
  | nil =>
    cases ds with
    | nil => simpa using hg
    | cons d ds => cases h
  | cons n rest ih =>
    cases ds with
    | nil =>
      rw [number_nil]
      exact hg.trans_le (Nat.le_mul_of_pos_right t (prod_pos hpos))
    | cons d ds =>
      -- what was summed up so far and the first digit stay below the next weight
      obtain ⟨hd, hds⟩ := List.forall₂_cons.mp h
      rw [List.prod_cons, ← Nat.mul_assoc, weights, number_cons, ← Nat.add_assoc]
      exact ih (List.forall_mem_cons.mp hpos).2 hds (add_mul_lt hg hd)

/-- The digits of the number with the given digits are these. -/
theorem digits_number (h : List.Forall₂ (· < ·) ds counts) (hg : g < t) :
    digits t counts (g + number (weights t counts) ds) = ds := by
  induction counts generalizing g t ds with
  | nil => cases h; rfl
  | cons n rest ih =>
    cases h with
    | @cons d _ ds _ hd hds =>
      rw [weights, number_cons, ← Nat.add_assoc]
      show _ / t % n :: digits (t * n) rest _ = _
      rw [ih hds (add_mul_lt hg hd)]
      -- what follows the first digit is a multiple of `t * n`
      have hrest : g + d * t + number (weights (t * n) rest) ds
          = g + t * (d + n * number (weights 1 rest) ds) := by
        rw [← Nat.mul_one (t * n), number_mul]
        ring
      rw [hrest, Nat.add_mul_div_left _ _ (Nat.zero_lt_of_lt hg), Nat.div_eq_of_lt hg, Nat.zero_add,
        Nat.add_mul_mod_self_left, Nat.mod_eq_of_lt hd]

theorem digits_lt (hpos : ∀ n ∈ counts, 0 < n) :
    List.Forall₂ (· < ·) (digits t counts i) counts := by
  induction counts generalizing t with
  | nil => exact .nil
  | cons n rest ih =>
    obtain ⟨hn, hrest⟩ := List.forall_mem_cons.mp hpos
    exact .cons (Nat.mod_lt _ hn) (ih hrest)

/-- A number is determined by its digits. -/
theorem number_digits (hpos : ∀ n ∈ counts, 0 < n) (hi : i < t * counts.prod) :
    i % t + number (weights t counts) (digits t counts i) = i := by
  induction counts generalizing t with
  | nil =>
    rw [List.prod_nil, Nat.mul_one] at hi
    exact Nat.mod_eq_of_lt hi
  | cons n rest ih =>
    obtain ⟨hn, hrest⟩ := List.forall_mem_cons.mp hpos
    rw [List.prod_cons, ← Nat.mul_assoc] at hi
    have h := ih hrest hi
    show i % t + number (t :: weights (t * n) rest) (i / t % n :: digits (t * n) rest i) = i
    rw [number_cons, ← Nat.add_assoc, Nat.mul_comm (i / t % n), ← Nat.mod_mul]
    exact h

/-! ### Groups of digits -/

variable {counts' middle ds' dm : List Nat}

/-- The digits of further counts count for multiples of the product of those before. -/
theorem weights_append (t : Nat) (counts counts' : List Nat) :
    weights t (counts ++ counts') = weights t counts ++ weights (t * counts.prod) counts' := by
  induction counts generalizing t with
  | nil => simp [weights]
  | cons n rest ih =>
    rw [List.cons_append, weights, ih, weights, List.prod_cons, ← Nat.mul_assoc, List.cons_append]

theorem number_append (hlen : ds.length = counts.length) :
    number (weights t (counts ++ counts')) (ds ++ ds') =
      number (weights t counts) ds + number (weights (t * counts.prod) counts') ds' := by
  have hzip : ds.length = (weights t counts).length := hlen.trans length_weights.symm
  rw [weights_append, number, List.zipWith_append hzip, List.sum_append]
  rfl

/-- The number with all digits does not change when some of them that follow each other are replaced
by the one digit that is their own number. -/
theorem number_group (hlen : ds.length = counts.length) (hmid : dm.length = middle.length) :
    number (weights 1 (counts ++ middle.prod :: counts'))
        (ds ++ number (weights 1 middle) dm :: ds') =
      number (weights 1 (counts ++ (middle ++ counts'))) (ds ++ (dm ++ ds')) := by
  have hscale : number (weights counts.prod middle) dm =
      number (weights 1 middle) dm * counts.prod := by
    rw [← Nat.mul_one counts.prod, number_mul, Nat.mul_one, Nat.mul_comm]
  rw [number_append hlen, number_append hlen, number_append hmid, weights, number_cons, Nat.one_mul,
    hscale]

/-! ### Words -/

variable {ss words : List BinIndex} {a : BinIndex}

/-- A digit is added without wrapping around, if the weights fit into words up to the next one. -/
theorem toNat_add_mul {d w a : BinIndex} {n : Nat} (hw : w.toNat = t) (ha : a.toNat < t)
    (hd : d.toNat < n) (hlim : t * n ≤ 2 ^ 32) :
    (d * w).toNat = d.toNat * t ∧ (a + d * w).toNat = a.toNat + d.toNat * t := by
  have hlt := add_mul_lt ha hd
  have hmul : (d * w).toNat = d.toNat * t := by
    rw [UInt32.toNat_mul, hw, Nat.mod_eq_of_lt (by omega)]
  exact ⟨hmul, by rw [UInt32.toNat_add, hmul, Nat.mod_eq_of_lt (by omega)]⟩

/-- The running sum of `encode` is exact: it stays below the weight of the next digit. -/
theorem toNat_foldl (hpos : ∀ n ∈ counts, 0 < n) (hs : ss.map UInt32.toNat = weights t counts)
    (hd : List.Forall₂ (· < ·) (words.map UInt32.toNat) (counts.take words.length))
    (ha : a.toNat < t) (hlim : t * counts.prod ≤ 2 ^ 32) :
    ((List.zipWith (· * ·) words ss).foldl (· + ·) a).toNat
      = a.toNat + number (weights t counts) (words.map UInt32.toNat) := by
  induction counts generalizing t words ss a with
  | nil =>
    rw [weights, List.map_eq_nil_iff] at hs
    simp [hs, number, weights]
  | cons n rest ih =>
    obtain ⟨hn, hrest⟩ := List.forall_mem_cons.mp hpos
    obtain ⟨w, ws, rfl, hw, hws⟩ := List.map_eq_cons_iff.mp hs
    cases words with
    | nil => simp
    | cons d ds =>
      obtain ⟨hdn, hds⟩ := List.forall₂_cons.mp hd
      rw [List.prod_cons, ← Nat.mul_assoc] at hlim
      -- the next weight divides the product of all counts, which fits into a word
      have hnext : t * n ≤ 2 ^ 32 :=
        (Nat.le_mul_of_pos_right (t * n) (prod_pos hrest)).trans hlim
      obtain ⟨-, hadd⟩ := toNat_add_mul hw ha hdn hnext
      show (List.foldl _ (a + d * w) (List.zipWith _ ds ws)).toNat = _
      rw [ih hrest hws hds (hadd ▸ add_mul_lt ha hdn) hlim, hadd, weights, List.map_cons,
        number_cons, Nat.add_assoc]

/-! ### Strides -/

/-- Positive counts whose product is below the limit, with the strides that belong to them. -/
structure IsNumbering (ss : List BinIndex) (counts : List Nat) : Prop where
  /-- No count is zero. -/
  pos : ∀ n ∈ counts, 0 < n
  /-- The strides are what the digits count for. -/
  toNat_strides : ss.map UInt32.toNat = weights 1 counts
  /-- There is an index for every number. -/
  prod_lt : counts.prod < binLimit

/-- The strides are the weights, and all numbers are below the limit. -/
theorem stridesFrom_eq_ok {cells : Nat} (ht : t < binLimit)
    (h : stridesFrom t counts = .ok (ss, cells)) :
    ss.map UInt32.toNat = weights t counts ∧ cells = t * counts.prod ∧ cells < binLimit := by
  induction counts generalizing t ss with
  | nil =>
    cases h
    exact ⟨rfl, (Nat.mul_one _).symm, ht⟩
  | cons n rest ih =>
    unfold stridesFrom at h
    split_ifs at h with hn
    obtain ⟨⟨rs, c⟩, hrs, hc⟩ := bind_eq_ok.mp h
    cases hc
    obtain ⟨h1, h2, h3⟩ := ih hn hrs
    refine ⟨?_, by rw [h2, List.prod_cons, Nat.mul_assoc], h3⟩
    unfold binLimit at ht
    rw [List.map_cons, h1, weights, UInt32.toNat_ofNat_of_lt' (by unfold UInt32.size; omega)]

/-- The strides of positive counts are a numbering of as many cells as the counts have digits. -/
theorem isNumbering_of_strides {cells : Nat} (hpos : ∀ n ∈ counts, 0 < n)
    (h : strides counts = .ok (ss, cells)) : IsNumbering ss counts ∧ cells = counts.prod := by
  obtain ⟨h1, h2, h3⟩ := stridesFrom_eq_ok (by decide) h
  rw [Nat.one_mul] at h2
  exact ⟨⟨hpos, h1, h2 ▸ h3⟩, h2⟩

/-- Positive counts have strides unless there are too many cells. -/
theorem exists_stridesFrom (hpos : ∀ n ∈ counts, 0 < n) (hlt : t * counts.prod < binLimit) :
    ∃ ss, stridesFrom t counts = .ok (ss, t * counts.prod) := by
  induction counts generalizing t with
  | nil => exact ⟨[], by rw [List.prod_nil, Nat.mul_one]; rfl⟩
  | cons n rest ih =>
    obtain ⟨-, hrest⟩ := List.forall_mem_cons.mp hpos
    rw [List.prod_cons, ← Nat.mul_assoc] at hlt ⊢
    obtain ⟨ss, hss⟩ := ih hrest hlt
    -- the product so far is not above the one of all counts
    have hn : t * n < binLimit := (Nat.le_mul_of_pos_right (t * n) (prod_pos hrest)).trans_lt hlt
    exact ⟨UInt32.ofNat t :: ss, by rw [stridesFrom, if_pos hn, hss]; rfl⟩

theorem exists_isNumbering_iff :
    (∃ ss, IsNumbering ss counts) ↔ (∀ n ∈ counts, 0 < n) ∧ counts.prod < binLimit := by
  constructor
  · rintro ⟨ss, h⟩
    exact ⟨h.pos, h.prod_lt⟩
  · rintro ⟨hpos, hlt⟩
    obtain ⟨ss, hss⟩ := exists_stridesFrom hpos (t := 1) (by rwa [Nat.one_mul])
    exact ⟨ss, (isNumbering_of_strides hpos hss).1⟩

namespace IsNumbering

/-- The strides are determined by the counts. -/
theorem unique {ss' : List BinIndex} (h : IsNumbering ss counts) (h' : IsNumbering ss' counts) :
    ss = ss' :=
  List.map_injective_iff.mpr (fun _ _ => UInt32.toNat_inj.mp)
    (h.toNat_strides.trans h'.toNat_strides.symm)

theorem strides_eq (h : IsNumbering ss counts) : strides counts = .ok (ss, counts.prod) := by
  obtain ⟨ss', hss'⟩ := exists_stridesFrom h.pos (t := 1) (by rw [Nat.one_mul]; exact h.prod_lt)
  rw [Nat.one_mul] at hss'
  rw [strides, hss', h.unique (isNumbering_of_strides h.pos hss').1]

theorem length_eq (h : IsNumbering ss counts) : ss.length = counts.length := by
  simpa using congrArg List.length h.toNat_strides

/-- Words below their counts, possibly fewer than there are, are encoded without wrapping around. -/
theorem toNat_encode (h : IsNumbering ss counts)
    (hd : List.Forall₂ (· < ·) (words.map UInt32.toNat) (counts.take words.length)) :
    (encode ss words).toNat = number (weights 1 counts) (words.map UInt32.toNat) := by
  have hlim := h.prod_lt
  unfold binLimit at hlim
  have hfold := toNat_foldl h.pos h.toNat_strides hd (a := 0) Nat.zero_lt_one
    (by rw [Nat.one_mul]; omega)
  rwa [UInt32.toNat_zero, Nat.zero_add] at hfold

theorem encode_lt (h : IsNumbering ss counts)
    (hd : List.Forall₂ (· < ·) (words.map UInt32.toNat) (counts.take words.length)) :
    (encode ss words).toNat < counts.prod := by
  rw [h.toNat_encode hd]
  rw [← List.length_map UInt32.toNat] at hd
  have hlt := number_lt h.pos hd (g := 0) Nat.zero_lt_one
  rwa [Nat.zero_add, Nat.one_mul] at hlt

theorem lt_of_mem {n : Nat} (h : IsNumbering ss counts) (hn : n ∈ counts) : n < binLimit :=
  (Nat.le_of_dvd (prod_pos h.pos) (List.dvd_prod hn)).trans_lt h.prod_lt

theorem decode_eq_digits (h : IsNumbering ss counts) (i : Nat) :
    decode counts ss i = digits 1 counts i := by
  rw [decode, digits, ← h.toNat_strides, List.zipWith_map_right]

end IsNumbering

variable {ts us words' inner : List BinIndex}

theorem digits_take (hd : List.Forall₂ (· < ·) (words.map UInt32.toNat) counts) :
    List.Forall₂ (· < ·) (words.map UInt32.toNat) (counts.take words.length) := by
  have hlen : words.length = counts.length := by
    rw [← List.length_map UInt32.toNat, hd.length_eq]
  rwa [hlen, List.take_length]

/-- Words may be encoded in groups. -/
theorem encode_group (houter : IsNumbering ss (counts ++ middle.prod :: counts'))
    (hinner : IsNumbering ts middle) (hflat : IsNumbering us (counts ++ (middle ++ counts')))
    (hwords : List.Forall₂ (· < ·) (words.map UInt32.toNat) counts)
    (hmiddle : List.Forall₂ (· < ·) (inner.map UInt32.toNat) middle)
    (hwords' : List.Forall₂ (· < ·) (words'.map UInt32.toNat) counts') :
    encode ss (words ++ encode ts inner :: words') = encode us (words ++ (inner ++ words')) := by
  have hdigit : (encode ts inner).toNat < middle.prod := hinner.encode_lt (digits_take hmiddle)
  have hgroups : List.Forall₂ (· < ·) ((words ++ encode ts inner :: words').map UInt32.toNat)
      (counts ++ middle.prod :: counts') := by
    rw [List.map_append, List.map_cons]
    exact List.rel_append hwords (.cons hdigit hwords')
  have hdigits : List.Forall₂ (· < ·) ((words ++ (inner ++ words')).map UInt32.toNat)
      (counts ++ (middle ++ counts')) := by
    rw [List.map_append, List.map_append]
    exact List.rel_append hwords (List.rel_append hmiddle hwords')
  apply UInt32.toNat_inj.mp
  rw [houter.toNat_encode (digits_take hgroups), hflat.toNat_encode (digits_take hdigits),
    List.map_append, List.map_cons, hinner.toNat_encode (digits_take hmiddle), List.map_append,
    List.map_append]
  exact number_group hwords.length_eq hmiddle.length_eq

end BoxBinning.MixedRadix
