import BoxBinning.Proofs.Binary64.Arithmetic
import BoxBinning.Proofs.Binning.Range

/-!
# Linear edges

`Edges.linear` lays the edges between two ends out in rounded arithmetic, each as a multiple of one
rounded width, and only replaces the last one by the upper end. Rounding does not change the order
of the edges that are laid out, and the first one equals the lower end, unless the range is too
large for a number and there is no width (`Edges.isNaN_linear_iff`). But the last one of them may be
above the upper end, and exactly then the edges leave the range and turn back
(`Edges.spans_iff`).

The relative error of an operation is less than `2⁻⁵²` as long as its result is normal. Three of
them do not make up for the one width between the last mark and the upper end if there are at most
`2⁵⁰` bins (`Edges.mark_le_stop`). A width that is not normal has no such bound, and of a range of
a few units with more bins the last mark is above the upper end (`Edges.linear_not_spanning`).
-/

namespace BoxBinning.Edges

open Binary64

variable {start stop width : Float} {count i j : ℕ} {edges : List Float}

/-- The edges lead from one end of a range to the other without leaving it or turning back. -/
structure Spans (start stop : Float) (count : Nat) (edges : List Float) : Prop
    extends IsSpan start stop count edges where
  /-- All edges are numbers. -/
  isNaN_eq : ∀ v ∈ edges, v.isNaN = false
  /-- All edges lie in the range. -/
  bounds : ∀ v ∈ edges, start ≤ v ∧ v ≤ stop
  /-- No edge is below the one before it. -/
  nondecreasing : edges.Pairwise (· ≤ ·)

/-- The edge that is laid out `i` widths from the start. -/
def mark (start width : Float) (i : ℕ) : Float := start + ofCount i * width

/-- The marks before the last one are kept. -/
theorem linear_eq_append (h : linear start stop count = .ok edges) :
    edges = (List.range count).map (mark start ((stop - start) / ofCount count)) ++ [stop] := by
  obtain ⟨-, rfl⟩ := Binning.linear_of_ok h
  rw [List.range_succ, List.map_append, List.set_append_right _ _ (by simp)]
  simp [mark]

/-! ### Marks -/

section Marks

variable (hstart : start.isFinite = true) (hwidth : width.isFinite = true)
  (hnonneg : 0 ≤ amount width)

include hstart hwidth hnonneg

/-- Rounding leaves the marks in order. -/
theorem mark_le (hij : i ≤ j) (hj : j < 2 ^ 64) : mark start width i ≤ mark start width j :=
  add_le_add_of_le hstart (mul_le_mul_of_le (isFinite_ofCount (hij.trans_lt hj))
    (isFinite_ofCount hj) hwidth hnonneg (ofCount_le hij hj))

theorem mark_zero_beq : (mark start width 0 == start) = true := by
  have hle := mark_le hstart hwidth hnonneg (le_refl 0) (by norm_num)
  exact Binning.add_mul_beq_start (isFinite_iff.mp hstart).1 (le_iff.mp hle).1

theorem start_le_mark (hi : i < 2 ^ 64) : start ≤ mark start width i :=
  le_of_le_of_le (le_of_beq (beq_symm (mark_zero_beq hstart hwidth hnonneg)))
    (mark_le hstart hwidth hnonneg (Nat.zero_le i) hi)

theorem pairwise_marks (hcount : count < 2 ^ 64) :
    ((List.range count).map (mark start width)).Pairwise (· ≤ ·) := by
  refine List.pairwise_map.mpr ((List.pairwise_lt_range (n := count)).imp_of_mem ?_)
  intro i j _ hj hij
  exact mark_le hstart hwidth hnonneg hij.le ((List.mem_range.mp hj).trans hcount)

end Marks

/-- With an infinite width, already the first mark is not a number. -/
theorem isNaN_mark_zero (hwidth : width.isInf = true) : (mark start width 0).isNaN = true := by
  have hzero : (ofCount 0 == 0.0) = true := rfl
  by_contra h
  have hproduct := isNaN_of_isNaN_add (Bool.eq_false_of_not_eq_true h)
  rw [isNaN_mul hzero hwidth] at hproduct
  cases hproduct

/-! ### The width -/

section Width

variable (hstart : start.isFinite = true) (hstop : stop.isFinite = true) (hlt : start < stop)
  (hcount : 0 < count) (hcount' : count < 2 ^ 64) (hrange : (stop - start).isFinite = true)

theorem sub_amount_nonneg (hlt : start < stop) : (0 : ℚ) ≤ amount stop - amount start := by
  rw [sub_nonneg]
  exact_mod_cast (lt_iff_amount.mp hlt).2.2.le

include hstart hstop

theorem isInf_width (hcount' : count < 2 ^ 64) (hrange : ¬(stop - start).isFinite = true) :
    ((stop - start) / ofCount count).isInf = true :=
  isInf_div (isInf_of_isNaN_of_isFinite (isRounded_sub hstop hstart).1 hrange)
    (isFinite_ofCount hcount')

include hlt

theorem amount_sub_nonneg : (0 : ℚ) ≤ amount (stop - start) := by
  exact_mod_cast (isRounded_sub hstop hstart).amount_nonneg (sub_amount_nonneg hlt)

include hcount hcount' hrange

/-- The width is not greater than the range. -/
theorem width_bounds : 0 ≤ amount ((stop - start) / ofCount count) ∧
    (stop - start) / ofCount count ≤ stop - start := by
  have hunits : (0 : ℚ) < unitsPerOne := by exact_mod_cast twoPow_pos 1074
  have hone : (unitsPerOne : ℚ) ≤ amount (ofCount count) := by
    exact_mod_cast unitsPerOne_le_amount_ofCount hcount hcount'
  have hnonneg := amount_sub_nonneg hstart hstop hlt
  have hne : amount (ofCount count) ≠ 0 := by
    exact_mod_cast (hunits.trans_le hone).ne'
  have hrounded := isRounded_div hrange (isFinite_ofCount hcount') hne
  constructor
  · exact hrounded.amount_nonneg
      (mul_nonneg (div_nonneg hnonneg (hunits.le.trans hone)) hunits.le)
  · refine hrounded.le_of_le (isRounded_self hrange) ?_
    rw [div_mul_eq_mul_div, div_le_iff₀ (hunits.trans_le hone)]
    exact mul_le_mul_of_nonneg_left hone hnonneg

theorem isFinite_width : ((stop - start) / ofCount count).isFinite = true := by
  obtain ⟨hnonneg, hle⟩ := width_bounds hstart hstop hlt hcount hcount' hrange
  exact isFinite_of_le hnonneg hle hrange

end Width

/-! ### Rounding errors -/

/-- Three roundings do not make up for one of not too many widths. -/
theorem mul_le_of_errors {n : ℕ} {r d w : ℚ} (hn : n ≤ 2 ^ 50) (hi : i < n) (hr : 0 ≤ r)
    (hd : d ≤ r * (1 + 1 / 2 ^ 52)) (hw : w * n ≤ d * (1 + 1 / 2 ^ 52)) :
    i * w * (1 + 1 / 2 ^ 52) ≤ r := by
  have hn' : (n : ℚ) ≤ 2 ^ 50 := by exact_mod_cast hn
  have hi' : (i : ℚ) + 1 ≤ n := by exact_mod_cast hi
  have hpos : (0 : ℚ) < n := by exact_mod_cast Nat.zero_lt_of_lt hi
  have hcube : ((1 : ℚ) + 1 / 2 ^ 52) ^ 3 ≤ 1 + 1 / 2 ^ 50 := by norm_num
  have hcount : (i : ℚ) * (1 + 1 / 2 ^ 50) ≤ n := by linarith
  have hsecond : w * n ≤ r * (1 + 1 / 2 ^ 52) ^ 2 := by
    calc w * n ≤ d * (1 + 1 / 2 ^ 52) := hw
      _ ≤ r * (1 + 1 / 2 ^ 52) * (1 + 1 / 2 ^ 52) := by gcongr
      _ = r * (1 + 1 / 2 ^ 52) ^ 2 := by ring
  refine le_of_mul_le_mul_right ?_ hpos
  calc i * w * (1 + 1 / 2 ^ 52) * n = i * (1 + 1 / 2 ^ 52) * (w * n) := by ring
    _ ≤ i * (1 + 1 / 2 ^ 52) * (r * (1 + 1 / 2 ^ 52) ^ 2) := by gcongr
    _ = r * (i * (1 + 1 / 2 ^ 52) ^ 3) := by ring
    _ ≤ r * (i * (1 + 1 / 2 ^ 50)) := by gcongr
    _ ≤ r * n := by gcongr

section Errors

variable (hstart : start.isFinite = true) (hstop : stop.isFinite = true) (hlt : start < stop)
  (hrange : (stop - start).isFinite = true) (hcount : 0 < count) (hcount' : count ≤ 2 ^ 50)

include hstart hstop hlt

/-- The rounded range exceeds the exact one by one rounding at most. -/
theorem amount_sub_le :
    (amount (stop - start) : ℚ) ≤ (amount stop - amount start) * (1 + 1 / 2 ^ 52) := by
  have hnonneg := sub_amount_nonneg hlt
  have hrounded := isRounded_sub hstop hstart
  rw [← Int.cast_sub] at hnonneg hrounded ⊢
  exact le_trans (by exact_mod_cast hrounded.amount_le hnonneg)
    (nearest_intCast_le (by exact_mod_cast hnonneg))

include hrange hcount hcount'

/-- A normal width exceeds its share of the rounded range by one rounding at most. -/
theorem amount_width_mul_le (hnormal : isNormal ((stop - start) / ofCount count) = true) :
    (amount ((stop - start) / ofCount count) : ℚ) * count ≤
      amount (stop - start) * (1 + 1 / 2 ^ 52) := by
  have hpos : (0 : ℚ) < count := by exact_mod_cast hcount
  have hrounded := isRounded_div_ofCount hcount (hcount'.trans_lt (by norm_num)) hrange
  have hnonneg : (0 : ℚ) ≤ amount (stop - start) / count :=
    div_nonneg (amount_sub_nonneg hstart hstop hlt) hpos.le
  -- the share is not far below the least normal number, so its error is relative to it
  have hfar : (2 : ℚ) ^ 51 ≤ amount (stop - start) / count := by
    by_contra hlow
    have hle := hrounded.amount_le hnonneg
    have hwidth := le_abs_amount_of_isNormal hnormal
    rw [abs_of_nonneg (hrounded.amount_nonneg hnonneg)] at hwidth
    have hround : nearest (amount (stop - start) / count) ≤ nearest ((2 ^ 51 : ℤ) : ℚ) :=
      nearest_mono (by push_cast; exact (not_le.mp hlow).le)
    rw [nearest_intCast (by norm_num)] at hround
    omega
  have hle : (amount ((stop - start) / ofCount count) : ℚ) ≤
      amount (stop - start) / count * (1 + 1 / 2 ^ 52) :=
    le_trans (by exact_mod_cast hrounded.amount_le hnonneg) (nearest_le hfar)
  calc (amount ((stop - start) / ofCount count) : ℚ) * count
      ≤ amount (stop - start) / count * (1 + 1 / 2 ^ 52) * count := by gcongr
    _ = amount (stop - start) * (1 + 1 / 2 ^ 52) := by field_simp

/-- With a normal width and not too many bins, no mark is above the upper end. -/
theorem mark_le_stop (hnormal : isNormal ((stop - start) / ofCount count) = true) (hi : i < count) :
    mark start ((stop - start) / ofCount count) i ≤ stop := by
  have hlarge : count < 2 ^ 64 := hcount'.trans_lt (by norm_num)
  have hwidth := isFinite_width hstart hstop hlt hcount hlarge hrange
  have hnonneg := (width_bounds hstart hstop hlt hcount hlarge hrange).1
  have hshare := mul_le_of_errors hcount' hi (sub_amount_nonneg hlt)
    (amount_sub_le hstart hstop hlt)
    (amount_width_mul_le hstart hstop hlt hrange hcount hcount' hnormal)
  have hproduct := isRounded_ofCount_mul ((hi.trans_le hcount').trans (by norm_num)) hwidth
  rw [mark]
  generalize (stop - start) / ofCount count = width at hnonneg hshare hproduct ⊢
  -- the exact multiple is a whole number of units, and also its rounded value is in the range
  obtain ⟨k, hk⟩ : ∃ k : ℤ, k = i * amount width := ⟨_, rfl⟩
  have hcast : (i * amount width : ℚ) = k := by
    rw [hk]
    push_cast
    rfl
  have hk' : 0 ≤ k := hk ▸ mul_nonneg (Int.natCast_nonneg i) hnonneg
  have hkq : (0 : ℚ) ≤ k := by exact_mod_cast hk'
  rw [hcast] at hshare hproduct
  have hfinite : (ofCount i * width).isFinite = true :=
    isFinite_of_le (hproduct.amount_nonneg hkq)
      (hproduct.le_of_le (isRounded_sub hstop hstart) (by linarith)) hrange
  have hrounded : (amount (ofCount i * width) : ℚ) ≤ k * (1 + 1 / 2 ^ 52) :=
    le_trans (by exact_mod_cast hproduct.amount_le hkq) (nearest_intCast_le hk')
  exact (isRounded_add hstart hfinite).le_of_le (isRounded_self hstop) (by linarith)

end Errors

/-! ### The edges between two ends -/

section Linear

variable (h : linear start stop count = .ok edges)

include h

/-- The edges before the last one are marks. -/
theorem getElem?_linear (hi : i < count) :
    edges[i]? = some (mark start ((stop - start) / ofCount count) i) := by
  rw [linear_eq_append h, List.getElem?_append_left (by simpa using hi), List.getElem?_map,
    List.getElem?_range hi]
  rfl

theorem getElem?_linear_count : edges[count]? = some stop := by
  rw [linear_eq_append h, List.getElem?_append_right (by simp)]
  simp

theorem mem_linear_iff {v : Float} : v ∈ edges ↔
    (∃ i < count, mark start ((stop - start) / ofCount count) i = v) ∨ v = stop := by
  rw [linear_eq_append h, List.mem_append, List.mem_map, List.mem_singleton]
  simp only [List.mem_range]

variable (hstart : start.isFinite = true) (hstop : stop.isFinite = true) (hcount : 0 < count)
  (hcount' : count < 2 ^ 64)

include hstart hstop hcount hcount'

/-- A range that is too large gives no width, and otherwise all edges are numbers. -/
theorem isNaN_linear_iff :
    (∀ v ∈ edges, v.isNaN = false) ↔ (stop - start).isFinite = true := by
  obtain ⟨hlt, -⟩ := Binning.linear_of_ok h
  constructor
  · intro hall
    by_contra hrange
    have hfirst : (mark start _ 0).isNaN = true :=
      isNaN_mark_zero (isInf_width hstart hstop hcount' hrange)
    rw [hall _ (List.mem_of_getElem? (getElem?_linear h hcount))] at hfirst
    cases hfirst
  · intro hrange v hv
    have hwidth := isFinite_width hstart hstop hlt hcount hcount' hrange
    obtain ⟨hnonneg, -⟩ := width_bounds hstart hstop hlt hcount hcount' hrange
    rcases (mem_linear_iff h).mp hv with ⟨i, hi, rfl⟩ | rfl
    · exact (le_iff.mp (mark_le hstart hwidth hnonneg (le_refl i) (hi.trans hcount'))).1
    · exact (isNaN_of_lt hlt).2

/-- Of a range that is not too large, the edges start at the lower end and do not turn back before
the last one. -/
theorem linear_before_last (hrange : (stop - start).isFinite = true) :
    (∃ v, edges[0]? = some v ∧ (v == start) = true) ∧ (∀ v ∈ edges, start ≤ v) ∧
      (edges.take count).Pairwise (· ≤ ·) := by
  obtain ⟨hlt, -⟩ := Binning.linear_of_ok h
  have hwidth := isFinite_width hstart hstop hlt hcount hcount' hrange
  obtain ⟨hnonneg, -⟩ := width_bounds hstart hstop hlt hcount hcount' hrange
  refine ⟨⟨_, getElem?_linear h hcount, mark_zero_beq hstart hwidth hnonneg⟩, fun v hv => ?_, ?_⟩
  · rcases (mem_linear_iff h).mp hv with ⟨i, hi, rfl⟩ | rfl
    · exact start_le_mark hstart hwidth hnonneg (hi.trans hcount')
    · rw [lt_iff] at hlt
      exact le_iff.mpr ⟨hlt.1, hlt.2.1, hlt.2.2.le⟩
  · rw [linear_eq_append h, List.take_left' (by simp)]
    exact pairwise_marks hstart hwidth hnonneg hcount'

/-- The edges span the range if and only if this is not too large and the last mark is not above
the upper end. -/
theorem spans_iff : Spans start stop count edges ↔ (stop - start).isFinite = true ∧
    mark start ((stop - start) / ofCount count) (count - 1) ≤ stop := by
  obtain ⟨hlt, -⟩ := Binning.linear_of_ok h
  constructor
  · intro hspans
    have hlast := getElem?_linear h (Nat.sub_one_lt hcount.ne')
    exact ⟨(isNaN_linear_iff h hstart hstop hcount hcount').mp hspans.isNaN_eq,
      (hspans.bounds _ (List.mem_of_getElem? hlast)).2⟩
  · rintro ⟨hrange, hlast⟩
    have hwidth := isFinite_width hstart hstop hlt hcount hcount' hrange
    obtain ⟨hnonneg, -⟩ := width_bounds hstart hstop hlt hcount hcount' hrange
    obtain ⟨⟨first, hfirst, hbeq⟩, hlow, hpairwise⟩ :=
      linear_before_last h hstart hstop hcount hcount' hrange
    have hnumber := (isNaN_of_lt hlt).2
    have hrefl : stop ≤ stop := le_iff.mpr ⟨hnumber, hnumber, le_rfl⟩
    have hhigh : ∀ i < count, mark start ((stop - start) / ofCount count) i ≤ stop := by
      intro i hi
      have hle := mark_le hstart hwidth hnonneg (Nat.le_sub_one_of_lt hi)
        ((Nat.sub_le count 1).trans_lt hcount')
      exact le_of_le_of_le hle hlast
    have hbounds : ∀ v ∈ edges, v ≤ stop := by
      intro v hv
      rcases (mem_linear_iff h).mp hv with ⟨i, hi, rfl⟩ | rfl
      · exact hhigh i hi
      · exact hrefl
    refine ⟨⟨Binning.length_linear h, first, stop, hfirst, getElem?_linear_count h,
      Extent.beq_iff.mpr ⟨hbeq, beq_iff.mpr ⟨hnumber, hnumber, rfl⟩⟩⟩,
      (isNaN_linear_iff h hstart hstop hcount hcount').mpr hrange,
      fun v hv => ⟨hlow v hv, hbounds v hv⟩, ?_⟩
    rw [linear_eq_append h, List.pairwise_append]
    refine ⟨pairwise_marks hstart hwidth hnonneg hcount', List.pairwise_singleton _ _, ?_⟩
    intro v hv w hw
    obtain rfl := List.mem_singleton.mp hw
    exact hbounds v ((mem_linear_iff h).mpr (.inl (by simpa using hv)))

end Linear

/-- There is one edge more than bins, and the last edge is the upper end. All edges are numbers if
and only if the range is not too large for one. They then start at the lower end, never fall below
it and do not turn back before the last one, and they span the range if and only if the last edge
but one is not above the upper end. A normal width and not too many bins suffice for that. -/
theorem linear_exact (hstart : start.isFinite = true) (hstop : stop.isFinite = true)
    (hcount : 0 < count) (hcount' : count < 2 ^ 64) (h : linear start stop count = .ok edges) :
    edges.length = count + 1 ∧ edges[count]? = some stop ∧
      ((∀ v ∈ edges, v.isNaN = false) ↔ (stop - start).isFinite = true) ∧
      ((stop - start).isFinite = true →
        (∃ v, edges[0]? = some v ∧ (v == start) = true) ∧ (∀ v ∈ edges, start ≤ v) ∧
        (edges.take count).Pairwise (· ≤ ·)) ∧
      (Spans start stop count edges ↔
        (stop - start).isFinite = true ∧ ∃ v, edges[count - 1]? = some v ∧ v ≤ stop) ∧
      ((stop - start).isFinite = true → isNormal ((stop - start) / ofCount count) = true →
        count ≤ 2 ^ 50 → Spans start stop count edges) := by
  have hlast := getElem?_linear h (Nat.sub_one_lt hcount.ne')
  have hspans := spans_iff h hstart hstop hcount hcount'
  refine ⟨Binning.length_linear h, getElem?_linear_count h,
    isNaN_linear_iff h hstart hstop hcount hcount',
    linear_before_last h hstart hstop hcount hcount', ?_, ?_⟩
  · rw [hspans, hlast]
    simp
  · intro hrange hnormal hfew
    obtain ⟨hlt, -⟩ := Binning.linear_of_ok h
    exact hspans.mpr ⟨hrange, mark_le_stop hstart hstop hlt hrange hcount hfew hnormal
      (Nat.sub_one_lt hcount.ne')⟩

/-- A third has no exact width, and still its edges span the range. -/
theorem linear_exact_thirds :
    ∃ edges, linear 0.0 1.0 3 = .ok edges ∧ Spans 0.0 1.0 3 edges := by
  obtain ⟨edges, h⟩ : ∃ edges, linear 0.0 1.0 3 = .ok edges := ⟨_, rfl⟩
  obtain ⟨-, -, -, -, -, hnormal⟩ :=
    linear_exact (by decide) (by decide) (by norm_num) (by norm_num) h
  exact ⟨edges, h, hnormal (by decide) (by decide) (by norm_num)⟩

/-- Between the least and the greatest number the first edge is none. Of three times the least
positive number, four times the rounded fifth is more. -/
theorem linear_not_spanning :
    (∃ edges, linear (Float.ofBits 0xffefffffffffffff) (Float.ofBits 0x7fefffffffffffff) 1 =
        .ok edges ∧ ∃ v ∈ edges, v.isNaN = true) ∧
      ∃ edges, linear 0.0 (Float.ofBits 3) 5 = .ok edges ∧
        (∃ v ∈ edges, Float.ofBits 3 < v) ∧ ¬edges.Pairwise (· ≤ ·) := by
  constructor
  · obtain ⟨edges, h⟩ : ∃ edges, linear (Float.ofBits 0xffefffffffffffff)
      (Float.ofBits 0x7fefffffffffffff) 1 = .ok edges := ⟨_, rfl⟩
    refine ⟨edges, h, ?_⟩
    obtain rfl := Except.ok.inj h
    decide
  · obtain ⟨edges, h⟩ : ∃ edges, linear 0.0 (Float.ofBits 3) 5 = .ok edges := ⟨_, rfl⟩
    refine ⟨edges, h, ?_⟩
    obtain rfl := Except.ok.inj h
    decide

end BoxBinning.Edges
