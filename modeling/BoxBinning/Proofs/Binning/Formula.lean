import BoxBinning.Proofs.Binning.Containment

/-!
# Formulas and searches answer alike

A row with a formula does what the search among the cells between the same edges does
(`Binning.formula_refines_search`): it is refused for the same reason, has the same bins and finds
the same ones. A logarithmic row differs in one point only, as it takes zero and negative numbers
for malformed. Ways of building are compared with `Binning.SameOutcome`, and since each of the two
starts with the same steps, only what the last steps give has to be compared.
-/

namespace BoxBinning.Binning

open Binary64 MixedRadix Lookup

/-! ### Outcomes -/

/-- Two ways of building fail with the same error, or both succeed with binnings that are
related. -/
inductive SameOutcome (R : Binning → Binning → Prop) :
    Except BinningError Binning → Except BinningError Binning → Prop
  /-- Both are refused for the same reason. -/
  | error (e : BinningError) : SameOutcome R (.error e) (.error e)
  /-- Both give a binning. -/
  | ok {b c : Binning} (related : R b c) : SameOutcome R (.ok b) (.ok c)

section Outcomes

variable {α : Type} {R : Binning → Binning → Prop}

theorem SameOutcome.bind {x : Except BinningError α} {f g : α → Except BinningError Binning}
    (h : ∀ a, x = .ok a → SameOutcome R (f a) (g a)) : SameOutcome R (x >>= f) (x >>= g) := by
  cases x with
  | error e => exact .error e
  | ok a => exact h a rfl

theorem SameOutcome.related {b c : Binning} (h : SameOutcome R (.ok b) (.ok c)) : R b c := by
  cases h with
  | ok hrelated => exact hrelated

/-- A check can be left out if what follows fails in the same way. -/
theorem bind_const_eq {β : Type} {x : Except BinningError α} {y : Except BinningError β}
    (h : ∀ e, x = .error e → y = .error e) : (x >>= fun _ => y) = y := by
  cases x with
  | error e => exact (h e rfl).symm
  | ok a => rfl

end Outcomes

/-! ### Answers on the same edges -/

variable {policy : InputPolicy} {layout : Layout} {axis : UniformAxis} {base : LogBase}
  {edges : List Float} {v : Float} {count : Nat}

theorem findOnAxis_congr {accepted : Float → Bool} {locate locate' : Float → Option Nat}
    (h : ∀ v, accepted v = true → locate v = locate' v) (x : List Float) :
    findOnAxis policy accepted locate x = findOnAxis policy accepted locate' x := by
  cases x with
  | nil => rfl
  | cons v rest =>
    unfold findOnAxis
    dsimp only
    split_ifs with hv
    · rw [h v hv]
    · rfl

/-- On increasing edges halving finds what the walks find, from any first guess. -/
theorem locate_eq_search (hinc : axis.edges.toList.Pairwise (· < ·)) (hv : isBinnable v = true)
    (u : Float) : axis.locate u v = Cells.search (Edges.cells axis.edges.toList).toArray v := by
  ext k
  rw [UniformAxis.locate_eq_some_iff hinc, UniformAxis.cell?_eq_cells,
    Cells.search_eq_some_iff hinc (isNaN_of_isBinnable hv)]

theorem find_linear_eq_find_contiguous (row : layout.IsRow axis.edges.toList) (x : List Float) :
    find (.linear layout axis) x =
      find (.contiguous layout (Edges.cells axis.edges.toList).toArray) x :=
  findOnAxis_congr (fun v hv => locate_eq_search row.increasing hv v) x

/-- Zero or a negative normal number. -/
def IsNonpositive (v : Float) : Prop := (v == 0.0) = true ∨ isNormal v = true ∧ v < 0.0

/-- The ordinary numbers that a logarithmic axis does not accept are zero and the negative ones. -/
theorem isNonpositive_iff : IsNonpositive v ↔ isBinnable v = true ∧ isLoggable v = false := by
  unfold IsNonpositive isBinnable isLoggable
  by_cases hzero : (v == 0.0) = true
  · simp [hzero, isNormal_of_beq_zero hzero]
  · cases hnormal : isNormal v with
    | false => simp [hzero]
    | true => simp [hzero]

/-- Above a positive edge there is no cell for zero or a negative number. -/
theorem search_eq_none (hinc : edges.Pairwise (· < ·)) (hpos : ∀ e, edges[0]? = some e → 0.0 < e)
    (hv : IsNonpositive v) : Cells.search (Edges.cells edges).toArray v = none := by
  obtain ⟨hbinnable, hloggable⟩ := isNonpositive_iff.mp hv
  by_contra hne
  obtain ⟨k, hk⟩ := Option.ne_none_iff_exists'.mp hne
  obtain ⟨c, hc, hcv⟩ := (Cells.search_eq_some_iff hinc (isNaN_of_isBinnable hbinnable)).mp hk
  have hmem := List.mem_of_getElem? hc
  rw [isLoggable_of_contains hinc hpos hbinnable hmem hcv] at hloggable
  cases hloggable

section Logarithmic

variable (row : layout.IsRow axis.edges.toList)
  (positive : ∀ e, axis.edges.toList[0]? = some e → 0.0 < e)

include row positive

theorem find_of_isNonpositive (hstrict : layout.policy = .strict) (hv : IsNonpositive v)
    (rest : List Float) :
    find (.logarithmic layout base axis) (v :: rest) = .error (.unbinnable v 0) ∧
      find (.contiguous layout (Edges.cells axis.edges.toList).toArray) (v :: rest) = .ok none := by
  have hsearch := search_eq_none row.increasing positive hv
  obtain ⟨hbinnable, hloggable⟩ := isNonpositive_iff.mp hv
  constructor
  · rw [find_logarithmic, findOnAxis, hloggable, hstrict]
    rfl
  · rw [find_contiguous, findOnAxis, if_pos hbinnable, hsearch]
    rfl

/-- Unless the policy is strict, numbers without a logarithm make no difference. -/
theorem find_logarithmic_eq_find_contiguous {x : List Float}
    (hx : ¬(layout.policy = .strict ∧ ∃ v ∈ x.head?, IsNonpositive v)) :
    find (.logarithmic layout base axis) x =
      find (.contiguous layout (Edges.cells axis.edges.toList).toArray) x := by
  cases x with
  | nil => rfl
  | cons v rest =>
    rw [find_logarithmic, find_contiguous, findOnAxis, findOnAxis]
    by_cases hbinnable : isBinnable v = true
    · rw [if_pos hbinnable]
      cases hloggable : isLoggable v with
      | true =>
        rw [if_pos rfl, locate_eq_search row.increasing hbinnable]
      | false =>
        have hv := isNonpositive_iff.mpr ⟨hbinnable, hloggable⟩
        -- the number is rejected on the one hand and lies below all cells on the other
        have hpolicy : layout.policy = .permissive := by
          cases hpolicy : layout.policy with
          | permissive => rfl
          | strict => exact absurd ⟨hpolicy, v, rfl, hv⟩ hx
        rw [search_eq_none row.increasing positive hv, hpolicy]
        rfl
    · have hloggable : ¬isLoggable v = true := fun h => by
        rw [isLoggable, Bool.and_eq_true] at h
        exact hbinnable (by rw [isBinnable, h.1, Bool.or_true])
      rw [if_neg hbinnable, if_neg hloggable]

end Logarithmic

/-! ### Steps in common -/

/-- The checks before the edges are computed are made again where they are. -/
theorem ofLinear_eq_bind {start stop : Float} {label : String} (hpos : 0 < count)
    (hlt : count < binLimit) : ofLinear policy start stop count label =
      Edges.linear start stop count >>= fun edges => Edges.toBins edges >>= fun bins =>
        Layout.ofBins [label] bins policy >>= fun layout =>
          pure (linear layout (UniformAxis.ofEdges start stop edges)) := by
  rw [ofLinear, requireBinCount_eq_ok.mpr ⟨hpos, hlt⟩]
  refine bind_const_eq fun e he => ?_
  rw [Edges.linear, he]
  rfl

theorem checked_of_checked {base' : LogBase} (h : base.checked = .ok base') :
    base'.checked = .ok base' := by
  unfold LogBase.checked at h
  split at h
  · obtain rfl := Except.ok.inj h
    rfl
  · cases h
  · obtain rfl := Except.ok.inj h
    unfold LogBase.checked
    split <;> simp_all

theorem logarithmic_eq_bind (base : LogBase) (start stop : Float) (count : Nat) :
    Edges.logarithmic base start stop count =
      base.checked >>= fun base => Edges.logarithmic base start stop count := by
  cases h : base.checked with
  | error e =>
    rw [Edges.logarithmic, h]
    rfl
  | ok base' =>
    rw [Edges.logarithmic, h]
    show _ = Edges.logarithmic base' start stop count
    rw [Edges.logarithmic, checked_of_checked h]

theorem ofLogarithmic_eq_bind {start stop : Float} {label : String} (hpos : 0 < count)
    (hlt : count < binLimit) : ofLogarithmic policy base start stop count label =
      base.checked >>= fun base => Edges.logarithmic base start stop count >>= fun edges =>
        Edges.toBins edges >>= fun bins => Layout.ofBins [label] bins policy >>= fun layout =>
          pure (logarithmic layout base
            (UniformAxis.ofEdges (base.log start) (base.log stop) edges)) := by
  rw [ofLogarithmic, requireBinCount_eq_ok.mpr ⟨hpos, hlt⟩]
  cases h : base.checked with
  | error e => rfl
  | ok base' =>
    refine bind_const_eq fun e he => ?_
    rw [Edges.logarithmic, checked_of_checked h]
    show (Edges.requireLogarithmicRange start stop >>= _) >>= _ = _
    rw [he]
    rfl

/-! ### Grids with one axis -/

/-- With one axis there is one stride, so the index is that on the axis. -/
theorem find_grid_singleton {strides : List BinIndex} (hnum : IsNumbering strides [count])
    (x : List Float) :
    find (.grid layout [axis] strides) x = find (.linear layout axis) x := by
  obtain ⟨s, rest, rfl, hs, hrest⟩ := List.map_eq_cons_iff.mp hnum.toNat_strides
  obtain rfl := List.map_eq_nil_iff.mp hrest
  obtain rfl : s = 1 := UInt32.toNat_inj.mp hs
  cases x with
  | nil => rfl
  | cons v x =>
    have hlen : ¬(v :: x).length < [axis].length := by simp
    rw [find_grid, find_linear, findInGrid, if_neg hlen, findOnAxis, gridDigits]
    split_ifs
    · cases axis.binOf v with
      | none => rfl
      | some k => simp [gridDigits, encode]
    · cases layout.policy <;> rfl

/-- A row is also a grid with one axis. -/
theorem exists_ofGrid_of_ofLinear {start stop : Float} {label : String} {b : Binning}
    (h : ofLinear policy start stop count label = .ok b) (labels : List String) :
    ∃ g, ofGrid policy [⟨start, stop, count⟩] labels = .ok g ∧ g.bins = b.bins ∧
      ∀ x, g.find x = b.find x := by
  obtain ⟨axis, haxis, -, rfl⟩ : ∃ axis, AxisRange.axis ⟨start, stop, count⟩ = .ok axis ∧
      axis.edges.toList.Pairwise (· < ·) ∧ b = linear ⟨[label], axisBins axis, policy⟩ axis :=
    ofLinear_eq_ok.mp h
  have hlt := (AxisRange.axis_eq_ok.mp haxis).2.1.2
  obtain ⟨g, hg⟩ := exists_ofGrid_iff.mpr
    ⟨List.cons_ne_nil _ _, ⟨[axis], .cons haxis .nil⟩, by simpa using hlt⟩
  refine ⟨g, hg, ?_⟩
  obtain ⟨-, axes, strides, haxes, hnum, rfl⟩ := ofGrid_eq_ok hg
  obtain ⟨axis', axes, haxis', hnil, rfl⟩ := List.forall₂_cons_left_iff.mp haxes
  obtain rfl := List.forall₂_nil_left_iff.mp hnil
  obtain rfl := Except.ok.inj (haxis.symm.trans haxis')
  exact ⟨combinations_singleton _, find_grid_singleton hnum⟩

/-! ### Rows of bins -/

/-- A row of bins with a formula is the row of cells between its edges, found by halving: it fails
alike, has the same layout and finds the same bins from any first guess, also as a grid with one
axis. Only to a strict logarithmic row zero and negative numbers are errors, where the search finds
no cell. -/
theorem formula_refines_search (policy : InputPolicy) (label : String) (hpos : 0 < count)
    (hlt : count < binLimit) :
    (∀ start stop : Float, SameOutcome
      (fun b c => b.layout = c.layout ∧ (∀ x, b.find x = c.find x) ∧
        ∀ axis ∈ b.formulaAxes, ∀ (g : Nat) (u v : Float), axis.locateFrom g v = axis.locate u v)
      (ofLinear policy start stop count label)
      (Edges.linear start stop count >>= fun edges => ofEdges policy edges label)) ∧
    (∀ (start stop : Float) (b : Binning), ofLinear policy start stop count label = .ok b →
      ∀ labels, ∃ g, ofGrid policy [⟨start, stop, count⟩] labels = .ok g ∧ g.bins = b.bins ∧
        ∀ x, g.find x = b.find x) ∧
    (∀ (base : LogBase) (start stop : Float), SameOutcome
      (fun b c => b.layout = c.layout ∧
        (∀ x, ¬(policy = .strict ∧ ∃ v ∈ x.head?, IsNonpositive v) → b.find x = c.find x) ∧
        (policy = .strict → ∀ v rest, IsNonpositive v →
          b.find (v :: rest) = .error (.unbinnable v 0) ∧ c.find (v :: rest) = .ok none) ∧
        ∀ axis ∈ b.formulaAxes, ∀ (g : Nat) (u v : Float), axis.locateFrom g v = axis.locate u v)
      (ofLogarithmic policy base start stop count label)
      (Edges.logarithmic base start stop count >>= fun edges => ofEdges policy edges label)) := by
  refine ⟨fun start stop => ?_, fun start stop b hb => exists_ofGrid_of_ofLinear hb,
    fun base start stop => ?_⟩
  · rw [ofLinear_eq_bind hpos hlt]
    refine .bind fun edges hedges => .bind fun bins hbins => .bind fun layout hlayout => .ok ?_
    have row := isRow_of_toBins hbins hlayout
    refine ⟨rfl, find_linear_eq_find_contiguous row, fun axis haxis g u v => ?_⟩
    obtain rfl := List.mem_singleton.mp haxis
    exact UniformAxis.locateFrom_eq_locate row.increasing g u v
  · rw [ofLogarithmic_eq_bind hpos hlt, logarithmic_eq_bind, bind_assoc]
    refine .bind fun base' _ => .bind fun edges hedges => .bind fun bins hbins =>
      .bind fun layout hlayout => .ok ?_
    have row := isRow_of_toBins hbins hlayout
    have hpolicy : layout.policy = policy := by rw [(layout_ofBins_eq_ok.mp hlayout).2]
    have positive : ∀ e, edges[0]? = some e → 0.0 < e := fun e => zero_lt_of_logarithmic hedges
    subst hpolicy
    refine ⟨rfl, fun x hx => find_logarithmic_eq_find_contiguous row positive hx,
      fun hstrict v rest hv => find_of_isNonpositive row positive hstrict hv rest,
      fun axis haxis g u v => ?_⟩
    obtain rfl := List.mem_singleton.mp haxis
    exact UniformAxis.locateFrom_eq_locate row.increasing g u v

/-- A logarithmic row with a single bin, to which a negative number is an error. -/
theorem formula_refines_search_negative :
    0 < 1 ∧ 1 < binLimit ∧ ∃ b c, ofLogarithmic .strict .natural 1.0 4.0 1 "x" = .ok b ∧
      ofEdges .strict [1.0, 4.0] "x" = .ok c ∧ b.find [2.0] = c.find [2.0] ∧
      b.find [-1.0] = .error (.unbinnable (-1.0) 0) ∧ c.find [-1.0] = .ok none := by
  obtain ⟨-, -, hlog⟩ := formula_refines_search .strict "x" Nat.one_pos (by decide)
  obtain ⟨b, hb⟩ : ∃ b, ofLogarithmic .strict .natural 1.0 4.0 1 "x" = .ok b := ⟨_, rfl⟩
  obtain ⟨c, hc⟩ : ∃ c, ofEdges .strict [1.0, 4.0] "x" = .ok c := ⟨_, rfl⟩
  have hrow : (Edges.logarithmic .natural 1.0 4.0 1 >>= fun edges => ofEdges .strict edges "x")
      = .ok c := hc
  have houtcome := hlog .natural 1.0 4.0
  rw [hb, hrow] at houtcome
  obtain ⟨-, hfind, hnegative, -⟩ := houtcome.related
  have hloggable : ¬IsNonpositive 2.0 := fun h => by
    rw [isNonpositive_iff] at h
    exact absurd h (by decide)
  have hnonpositive : IsNonpositive (-1.0) := isNonpositive_iff.mpr (by decide)
  refine ⟨by decide, by decide, b, c, hb, hc, hfind [2.0] ?_, hnegative rfl _ [] hnonpositive⟩
  rintro ⟨-, v, hv, h⟩
  obtain rfl := Option.some.inj hv
  exact hloggable h

end BoxBinning.Binning
