import BoxBinning.Cells
import BoxBinning.Edges
import BoxBinning.Proofs.Boxes

/-!
# Rows of cells

Strictly increasing edges delimit a row of cells, and a number lies in at most one of them
(`Edges.eq_of_contains`). `Edges.toBins_eq_ok` says which edges are accepted, and
`Cells.search_eq_some_iff` that halving finds the cell of a number if and only if there is one.
-/

namespace BoxBinning

open Binary64

/-! ### Steps that may fail -/

/-- A sequence of two steps succeeds if and only if both steps do. -/
theorem bind_eq_ok {ε α β : Type} {x : Except ε α} {f : α → Except ε β} {b : β} :
    x >>= f = .ok b ↔ ∃ a, x = .ok a ∧ f a = .ok b := by
  cases x with
  | error e => simp [bind, Except.bind]
  | ok a => simp [bind, Except.bind]

theorem exists_bind_eq_ok {ε α β : Type} {x : Except ε α} {f : α → Except ε β} :
    (∃ b, x >>= f = .ok b) ↔ ∃ a, x = .ok a ∧ ∃ b, f a = .ok b := by
  simp only [bind_eq_ok]
  rw [exists_comm]
  simp only [exists_and_left]

/-- A sequence of two steps fails where the first step fails, or else where the second does. -/
theorem bind_eq_error {ε α β : Type} {x : Except ε α} {f : α → Except ε β} {e : ε} :
    x >>= f = .error e ↔ x = .error e ∨ ∃ a, x = .ok a ∧ f a = .error e := by
  cases x with
  | error e => simp [bind, Except.bind]
  | ok a => simp [bind, Except.bind]

/-- A check that refuses a condition accepts where it does not hold. -/
theorem ite_error_eq_ok {ε : Type} {c : Prop} [Decidable c] {e : ε} :
    (if c then .error e else .ok () : Except ε Unit) = .ok () ↔ ¬c := by
  split_ifs with h
  · simp [h]
  · simp [h]

theorem ite_error_eq_error {ε : Type} {c : Prop} [Decidable c] {e e' : ε} :
    (if c then .error e else .ok () : Except ε Unit) = .error e' ↔ c ∧ e' = e := by
  split_ifs with h
  · simp [h, eq_comm]
  · simp [h]

theorem bind_pure_eq_map {ε α β : Type} (x : Except ε α) (f : α → β) :
    (x >>= fun a => pure (f a)) = x.map f := by
  cases x <;> rfl

/-- A step for each member of a list succeeds with the results of all of them. -/
theorem mapM_eq_ok_iff {ε α β : Type} {f : α → Except ε β} {l : List α} {r : List β} :
    l.mapM f = .ok r ↔ List.Forall₂ (fun a b => f a = .ok b) l r := by
  induction l generalizing r with
  | nil =>
    rw [List.mapM_nil, List.forall₂_nil_left_iff]
    exact ⟨fun h => (Except.ok.inj h).symm, fun h => h ▸ rfl⟩
  | cons a l ih =>
    rw [List.mapM_cons, List.forall₂_cons_left_iff]
    simp only [bind_eq_ok, ih]
    constructor
    · rintro ⟨b, hb, bs, hbs, h⟩
      exact ⟨b, bs, hb, hbs, (Except.ok.inj h).symm⟩
    · rintro ⟨b, bs, hb, hbs, rfl⟩
      exact ⟨b, hb, bs, hbs, rfl⟩

theorem exists_mem_of_forall₂ {α β : Type} {R : α → β → Prop} {l : List α} {m : List β} {a : α}
    (h : List.Forall₂ R l m) (ha : a ∈ l) : ∃ b ∈ m, R a b := by
  induction h with
  | nil => cases ha
  | cons hcd _ ih =>
    rcases List.mem_cons.mp ha with rfl | ha
    · exact ⟨_, List.mem_cons_self, hcd⟩
    · obtain ⟨b, hb, hab⟩ := ih ha
      exact ⟨b, List.mem_cons_of_mem _ hb, hab⟩

namespace Edges

variable {edges : List Float} {c d : Extent} {i j k : Nat} {v : Float}

/-! ### Cells -/

theorem getElem?_cells : (cells edges)[k]? = some c ↔
    edges[k]? = some c.low ∧ edges[k + 1]? = some c.high := by
  rw [cells, List.getElem?_zipWith_eq_some]
  constructor
  · rintro ⟨low, high, hlow, hhigh, rfl⟩
    exact ⟨hlow, by rwa [List.getElem?_tail] at hhigh⟩
  · rintro ⟨hlow, hhigh⟩
    exact ⟨c.low, c.high, hlow, by rwa [List.getElem?_tail], rfl⟩

@[simp] theorem length_cells : (cells edges).length = edges.length - 1 := by
  simp [cells]

/-- Edges increase if and only if the cells between them do. -/
theorem forall_cells_iff : ∀ edges : List Float,
    (∀ c ∈ cells edges, c.isIncreasing = true) ↔ edges.IsChain (· < ·)
  | [] => by simp [cells]
  | [a] => by simp [cells]
  | a :: b :: rest => by
    have ih := forall_cells_iff (b :: rest)
    show (∀ c ∈ ⟨a, b⟩ :: cells (b :: rest), _) ↔ _
    rw [List.forall_mem_cons, ih, List.isChain_cons_cons, Extent.isIncreasing_iff]

theorem pairwise_iff_forall_cells :
    edges.Pairwise (· < ·) ↔ ∀ c ∈ cells edges, c.isIncreasing = true := by
  rw [forall_cells_iff, List.isChain_iff_pairwise]

theorem requireIncreasing_eq_ok : requireIncreasing edges = .ok () ↔ edges.Pairwise (· < ·) := by
  rw [pairwise_iff_forall_cells]
  unfold requireIncreasing
  split
  · rename_i c k hfind
    have hc := List.find?_some hfind
    have hmem := List.mem_of_find?_eq_some hfind
    simp only [reduceCtorEq, false_iff, not_forall]
    refine ⟨c, List.fst_mem_of_mem_zipIdx hmem, ?_⟩
    simpa using hc
  · rename_i hfind
    simp only [true_iff]
    intro c hc
    obtain ⟨k, hk⟩ := List.mem_iff_getElem?.mp hc
    have h := List.find?_eq_none.mp hfind (c, k) (List.mk_mem_zipIdx_iff_getElem?.mpr hk)
    simpa using h

/-- The cells as bins with one axis. -/
def bins (edges : List Float) : List Bin := (cells edges).map fun c => ⟨[c]⟩

@[simp] theorem length_bins : (bins edges).length = edges.length - 1 := by simp [bins]

theorem axisCount_of_mem_bins : ∀ b ∈ bins edges, b.axisCount = 1 := by
  simp [bins, Bin.axisCount]

theorem flatMap_extents_bins : (bins edges).flatMap Bin.extents = cells edges := by
  rw [bins, List.flatMap_map]
  exact List.flatMap_singleton' _

/-- The extents of the bins increase if and only if the edges do. -/
theorem forall_bins_iff :
    (∀ b ∈ bins edges, ∀ e ∈ b.extents, e.low < e.high) ↔ edges.Pairwise (· < ·) := by
  rw [pairwise_iff_forall_cells]
  simp [bins, Extent.isIncreasing_iff]

theorem requireTwo_eq_ok : requireTwo edges = .ok () ↔ 2 ≤ edges.length :=
  ite_error_eq_ok.trans not_lt

/-- Edges are accepted if and only if there are two of them and they strictly increase. -/
theorem toBins_eq_ok {row : List Bin} : toBins edges = .ok row ↔
    2 ≤ edges.length ∧ edges.Pairwise (· < ·) ∧ row = bins edges := by
  unfold toBins
  constructor
  · intro h
    obtain ⟨⟨⟩, htwo, h⟩ := bind_eq_ok.mp h
    obtain ⟨⟨⟩, hinc, h⟩ := bind_eq_ok.mp h
    exact ⟨requireTwo_eq_ok.mp htwo, requireIncreasing_eq_ok.mp hinc, (Except.ok.inj h).symm⟩
  · rintro ⟨htwo, hinc, rfl⟩
    rw [requireTwo_eq_ok.mpr htwo, requireIncreasing_eq_ok.mpr hinc]
    rfl

/-! ### The cell of a number -/

theorem lt_of_getElem? {a b : Float} (h : edges.Pairwise (· < ·)) (ha : edges[i]? = some a)
    (hb : edges[j]? = some b) (hij : i < j) : a < b := by
  obtain ⟨hi, rfl⟩ := List.getElem?_eq_some_iff.mp ha
  obtain ⟨hj, rfl⟩ := List.getElem?_eq_some_iff.mp hb
  exact List.pairwise_iff_getElem.mp h i j hi hj hij

theorem ordinal_le_of_getElem? {a b : Float} (h : edges.Pairwise (· < ·)) (ha : edges[i]? = some a)
    (hb : edges[j]? = some b) (hij : i ≤ j) : ordinal a ≤ ordinal b := by
  rcases Nat.lt_or_eq_of_le hij with hlt | rfl
  · exact (lt_iff.mp (lt_of_getElem? h ha hb hlt)).2.2.le
  · rw [Option.some.inj (ha.symm.trans hb)]

theorem high_le_low (h : edges.Pairwise (· < ·)) (hc : (cells edges)[i]? = some c)
    (hd : (cells edges)[j]? = some d) (hij : i < j) : ordinal c.high ≤ ordinal d.low :=
  ordinal_le_of_getElem? h (getElem?_cells.mp hc).2 (getElem?_cells.mp hd).1 hij

theorem low_lt_high (h : edges.Pairwise (· < ·)) (hc : (cells edges)[i]? = some c) :
    c.low < c.high :=
  lt_of_getElem? h (getElem?_cells.mp hc).1 (getElem?_cells.mp hc).2 (Nat.lt_succ_self i)

/-- A number lies in at most one cell. -/
theorem eq_of_contains (h : edges.Pairwise (· < ·)) (hc : (cells edges)[i]? = some c)
    (hd : (cells edges)[j]? = some d) (hcv : c.contains v = true) (hdv : d.contains v = true) :
    i = j := by
  rw [Extent.contains_iff, le_iff, lt_iff] at hcv hdv
  rcases Nat.lt_trichotomy i j with hij | hij | hij
  · have := high_le_low h hc hd hij
    omega
  · exact hij
  · have := high_le_low h hd hc hij
    omega

/-- A cell below the number stands before the cell that holds it. -/
theorem lt_of_high_le (h : edges.Pairwise (· < ·)) (hc : (cells edges)[i]? = some c)
    (hd : (cells edges)[j]? = some d) (hdv : d.contains v = true) (hcv : c.high ≤ v) : i < j := by
  rw [Extent.contains_iff, le_iff, lt_iff] at hdv
  rw [le_iff] at hcv
  -- otherwise the cell would start at the end of the one with the number or above it
  by_contra hij
  rcases Nat.lt_or_eq_of_le (Nat.le_of_not_lt hij) with hji | rfl
  · have := high_le_low h hd hc hji
    have := lt_iff.mp (low_lt_high h hc)
    omega
  · obtain rfl := Option.some.inj (hc.symm.trans hd)
    omega

/-- A cell above the number stands after the cell that holds it. -/
theorem lt_of_lt_low (h : edges.Pairwise (· < ·)) (hc : (cells edges)[i]? = some c)
    (hd : (cells edges)[j]? = some d) (hcv : c.contains v = true) (hdv : v < d.low) : i < j := by
  rw [Extent.contains_iff, le_iff, lt_iff] at hcv
  rw [lt_iff] at hdv
  by_contra hij
  rcases Nat.lt_or_eq_of_le (Nat.le_of_not_lt hij) with hji | rfl
  · have := high_le_low h hd hc hji
    have := lt_iff.mp (low_lt_high h hd)
    omega
  · obtain rfl := Option.some.inj (hc.symm.trans hd)
    omega

/-- A cell that is neither below nor above a number holds it. -/
theorem contains_of_not (h : edges.Pairwise (· < ·)) (hc : (cells edges)[i]? = some c)
    (hv : v.isNaN = false) (hhigh : ¬c.high ≤ v) (hlow : ¬v < c.low) : c.contains v = true := by
  obtain ⟨hl, hu⟩ := isNaN_of_lt (low_lt_high h hc)
  simp only [lt_iff, le_iff, hv, hl, hu, true_and, not_lt, not_le] at hhigh hlow
  rw [Extent.contains_iff, le_iff, lt_iff]
  exact ⟨⟨hl, hv, hlow⟩, hv, hu, hhigh⟩

end Edges

namespace Cells

variable {edges : List Float} {c : Extent} {k lo hi : Nat} {v : Float}

/-! ### Halving -/

/-- Halving stops only at a cell that holds the number. -/
theorem contains_of_bisect (h : edges.Pairwise (· < ·)) (hv : v.isNaN = false)
    (hk : bisect (Edges.cells edges).toArray v lo hi = some k) :
    ∃ c, (Edges.cells edges)[k]? = some c ∧ c.contains v = true := by
  fun_induction bisect (Edges.cells edges).toArray v lo hi with
  | case1 lo hi hlt cell hcell hhigh ih => exact ih hk
  | case2 lo hi hlt cell hcell hhigh hlow ih => exact ih hk
  | case3 lo hi hlt cell hcell hhigh hlow =>
    obtain rfl := Option.some.inj hk
    rw [List.getElem?_toArray] at hcell
    exact ⟨cell, hcell, Edges.contains_of_not h hcell hv hhigh hlow⟩
  | case4 => cases hk
  | case5 => cases hk

/-- Halving finds the cell that holds the number: each step keeps it in the half that is left. -/
theorem bisect_eq_some (h : edges.Pairwise (· < ·)) (hc : (Edges.cells edges)[k]? = some c)
    (hcv : c.contains v = true) (hlo : lo ≤ k) (hhi : k < hi)
    (hsize : hi ≤ (Edges.cells edges).length) :
    bisect (Edges.cells edges).toArray v lo hi = some k := by
  have hv : v.isNaN = false := (le_iff.mp (Extent.contains_iff.mp hcv).1).2.1
  -- the middle cell is below the number, above it or the cell sought; there always is one
  fun_induction bisect (Edges.cells edges).toArray v lo hi with
  | case1 lo hi hlt cell hcell hhigh ih =>
    rw [List.getElem?_toArray] at hcell
    exact ih (Edges.lt_of_high_le h hcell hc hcv hhigh) hhi hsize
  | case2 lo hi hlt cell hcell hhigh hlow ih =>
    rw [List.getElem?_toArray] at hcell
    exact ih hlo (Edges.lt_of_lt_low h hc hcell hcv hlow) (by omega)
  | case3 lo hi hlt cell hcell hhigh hlow =>
    rw [List.getElem?_toArray] at hcell
    rw [Edges.eq_of_contains h hcell hc (Edges.contains_of_not h hcell hv hhigh hlow) hcv]
  | case4 lo hi hlt hcell =>
    rw [List.getElem?_toArray, List.getElem?_eq_none_iff] at hcell
    omega
  | case5 lo hi hlt => omega

/-- The search finds the cell of a number if and only if there is one. -/
theorem search_eq_some_iff (h : edges.Pairwise (· < ·)) (hv : v.isNaN = false) :
    search (Edges.cells edges).toArray v = some k ↔
      ∃ c, (Edges.cells edges)[k]? = some c ∧ c.contains v = true := by
  unfold search
  constructor
  · intro hk
    split at hk
    · split_ifs at hk with hout
      exact contains_of_bisect h hv hk
    · cases hk
  · rintro ⟨c, hc, hcv⟩
    have hlen : k < (Edges.cells edges).length := (List.getElem?_eq_some_iff.mp hc).1
    have hfirst := List.getElem?_eq_getElem (l := Edges.cells edges) (i := 0) (by omega)
    have hlast := List.getElem?_eq_getElem (l := Edges.cells edges)
      (i := (Edges.cells edges).length - 1) (by omega)
    -- the number is neither below the first cell nor above the last one
    have hin : ¬v < (Edges.cells edges)[0].low := fun hout =>
      Nat.not_lt_zero k (Edges.lt_of_lt_low h hc hfirst hcv hout)
    have hin' : ¬(Edges.cells edges)[(Edges.cells edges).length - 1].high ≤ v := fun hout => by
      have := Edges.lt_of_high_le h hlast hc hcv hout
      omega
    rw [List.getElem?_toArray, List.back?_toArray, List.getLast?_eq_getElem?, hfirst, hlast]
    simp only [hin, hin', decide_false, Bool.or_false, Bool.false_eq_true, if_false]
    exact bisect_eq_some h hc hcv (Nat.zero_le k) hlen le_rfl

end Cells

end BoxBinning
