import BoxBinning.Proofs.Binning.Formula

/-!
# Strict and permissive binnings

The policy has no influence on what can be built (`Recipe.build_under`), and a strict lookup differs
from a permissive one only in that malformed points are errors where they otherwise have no bin
(`Recipe.strict_refines_permissive`). The two answers are compared with `Relaxes`. As this relation
is kept when answers are combined (`Lookup.rel_combine`), it passes from axes to grids and from
parts to products (`Binning.WellFormed.relaxes_find`). What remains of errors in a permissive
binning are points with too few coordinates for boxes or parts
(`Binning.WellFormed.exists_error_iff`).
-/

namespace BoxBinning

open Lookup

variable {policy policy' : InputPolicy} {labels : List String} {bins : List Bin} {α β : Type}

/-! ### One policy everywhere -/

/-- The same layout with another policy. -/
def Layout.under (policy : InputPolicy) (layout : Layout) : Layout :=
  { layout with policy := policy }

namespace Binning

mutual

/-- The same binning with one policy in all its parts. -/
def under (policy : InputPolicy) : Binning → Binning
  | linear layout axis => linear (layout.under policy) axis
  | grid layout axes strides => grid (layout.under policy) axes strides
  | logarithmic layout base axis => logarithmic (layout.under policy) base axis
  | contiguous layout cells => contiguous (layout.under policy) cells
  | columns layout index => columns (layout.under policy) index
  | scan layout => scan (layout.under policy)
  | product layout parts strides => product (layout.under policy) (underAll policy parts) strides

/-- The same binnings with one policy in all their parts. -/
def underAll (policy : InputPolicy) : List Binning → List Binning
  | [] => []
  | part :: parts => under policy part :: underAll policy parts

end

variable {parts : List Binning} {b : Binning} {x : List Float}

theorem underAll_eq_map (policy : InputPolicy) (parts : List Binning) :
    underAll policy parts = parts.map (under policy) := by
  induction parts with
  | nil => rfl
  | cons part parts ih => rw [underAll, ih, List.map_cons]

/-- What does not depend on the policy stays as it is. -/
theorem map_underAll {f : Binning → α} (hf : ∀ b, f (b.under policy) = f b)
    (parts : List Binning) : (underAll policy parts).map f = parts.map f := by
  rw [underAll_eq_map, List.map_map]
  exact List.map_congr_left fun b _ => hf b

@[simp] theorem layout_under (policy : InputPolicy) (b : Binning) :
    (b.under policy).layout = b.layout.under policy := by
  cases b <;> rfl

@[simp] theorem kind_under (policy : InputPolicy) (b : Binning) :
    (b.under policy).kind = b.kind := by
  cases b <;> rfl

@[simp] theorem policy_under (policy : InputPolicy) (b : Binning) :
    (b.under policy).policy = policy := by
  rw [Binning.policy, layout_under, Layout.under]

@[simp] theorem bins_under (policy : InputPolicy) (b : Binning) :
    (b.under policy).bins = b.bins := by
  rw [Binning.bins, layout_under, Layout.under, Binning.bins]

@[simp] theorem labels_under (policy : InputPolicy) (b : Binning) :
    (b.under policy).labels = b.labels := by
  rw [Binning.labels, layout_under, Layout.under, Binning.labels]

@[simp] theorem binCount_under (policy : InputPolicy) (b : Binning) :
    (b.under policy).binCount = b.binCount := by
  rw [binCount, bins_under, binCount]

@[simp] theorem axisCount_under (policy : InputPolicy) (b : Binning) :
    (b.under policy).axisCount = b.axisCount := by
  rw [axisCount, layout_under]
  rfl

theorem withLabels_under (policy : InputPolicy) (b : Binning) (labels : List String) :
    (b.under policy).withLabels labels = (b.withLabels labels).under policy := by
  cases b <;> rfl

/-! ### Building under a policy -/

theorem bind_under {x : Except BinningError α} {f g : α → Except BinningError Binning}
    (h : ∀ a, f a = under policy <$> g a) : x >>= f = under policy <$> (x >>= g) := by
  rw [map_bind]
  exact bind_congr h

/-- The policy goes into the layout only, and that is made last. -/
theorem ofBins_under {make make' : Layout → Binning}
    (hmake : ∀ l, make (l.under policy) = (make' l).under policy) :
    (Layout.ofBins labels bins policy >>= fun l => pure (make l)) =
      under policy <$> (Layout.ofBins labels bins policy' >>= fun l => pure (make' l)) := by
  unfold Layout.ofBins
  split_ifs
  · exact congrArg Except.ok (hmake ⟨_, bins, policy'⟩)
  · rfl

theorem ofGrid_under (ranges : List AxisRange) (labels : List String) :
    ofGrid policy ranges labels = under policy <$> ofGrid policy' ranges labels := by
  unfold ofGrid
  split_ifs
  · rfl
  · exact bind_under fun axes => bind_under fun _ => ofBins_under fun _ => rfl

theorem ofParts_under (parts : List Binning) :
    ofParts policy (underAll policy parts) = under policy <$> ofParts policy' parts := by
  have hbins := map_underAll (bins_under policy) parts
  have hcounts := map_underAll (binCount_under policy) parts
  have hlabels : (underAll policy parts).flatMap Binning.labels =
      parts.flatMap Binning.labels := by
    simp [underAll_eq_map, List.flatMap_map]
  have hempty : (underAll policy parts).isEmpty = parts.isEmpty := by
    simp [underAll_eq_map]
  have hany : ((underAll policy parts).any fun part => part.binCount = 0) =
      parts.any fun part => part.binCount = 0 := by
    simp [underAll_eq_map, List.any_map, Function.comp_def]
  rw [ofParts, ofParts, hempty, hany, hbins, hcounts, hlabels]
  by_cases hne : parts.isEmpty = true
  · rw [if_pos hne, if_pos hne]
    rfl
  by_cases hzero : (parts.any fun part => part.binCount = 0) = true
  · rw [if_neg hne, if_pos hzero, if_neg hne, if_pos hzero]
    rfl
  · rw [if_neg hne, if_neg hzero, if_neg hne, if_neg hzero]
    exact bind_under fun _ => ofBins_under fun _ => rfl

/-- A policy changes nothing that matters. -/
theorem WellFormed.under (h : b.WellFormed) (policy : InputPolicy) :
    (b.under policy).WellFormed := by
  induction h with
  | linear row => exact .linear ⟨row.two_le, row.increasing, row.bins_eq, row.length_lt⟩
  | grid ne_nil numbering bins_eq => exact .grid ne_nil numbering bins_eq
  | logarithmic row positive =>
    exact .logarithmic ⟨row.two_le, row.increasing, row.bins_eq, row.length_lt⟩ positive
  | contiguous row => exact .contiguous ⟨row.two_le, row.increasing, row.bins_eq, row.length_lt⟩
  | @columns layout partition length_lt =>
    show WellFormed (.columns (layout.under policy) (ColumnIndex.ofBins layout.bins))
    exact .columns partition length_lt
  | scan partition length_lt => exact .scan partition length_lt
  | @product layout parts strides ne_nil _ numbering bins_eq ih =>
    have hcounts := map_underAll (binCount_under policy) parts
    have hbins := map_underAll (bins_under policy) parts
    refine .product ?_ ?_ (hcounts ▸ numbering) (hbins ▸ bins_eq)
    · simpa [underAll_eq_map] using ne_nil
    · rw [underAll_eq_map]
      exact List.forall_mem_map.mpr ih

end Binning

/-! ### Strict and permissive answers -/

/-- The answer of a strict lookup and that of a permissive one: the same, or an error for a
malformed point and no bin. -/
inductive Relaxes : Answer → Answer → Prop
  /-- The same bin or none. -/
  | ok (a : Option BinIndex) : Relaxes (.ok a) (.ok a)
  /-- Too few coordinates for boxes or parts are an error in either case. -/
  | mismatch (m n : Nat) :
    Relaxes (.error (.axisCountMismatch m n)) (.error (.axisCountMismatch m n))
  /-- Too few coordinates for a formula or a search. -/
  | short (m n : Nat) : Relaxes (.error (.tooFewCoordinates m n)) (.ok none)
  /-- A coordinate that no bin can hold. -/
  | unbinnable (v : Float) (n : Nat) : Relaxes (.error (.unbinnable v n)) (.ok none)

namespace Relaxes

variable {r r' : Answer} {e : BinningError} {a : Option BinIndex}

theorem eq_ok (h : Relaxes r r') (hr : r = .ok a) : r' = .ok a := by
  cases h with
  | ok a => exact hr
  | mismatch m n => cases hr
  | short m n => cases hr
  | unbinnable v n => cases hr

/-- The same bins are found. -/
theorem found_iff (i : BinIndex) (h : Relaxes r r') : r = found i ↔ r' = found i := by
  cases h with
  | ok a => rfl
  | mismatch m n => simp [found]
  | short m n => simp [found]
  | unbinnable v n => simp [found]

theorem of_error (h : Relaxes r r') (hr : r = .error e) :
    (r' = .error e ∧ ∃ m n, e = .axisCountMismatch m n) ∨
      r' = .ok none ∧ ((∃ m n, e = .tooFewCoordinates m n) ∨ ∃ v n, e = .unbinnable v n) := by
  cases h with
  | ok a => cases hr
  | mismatch m n =>
    obtain rfl := Except.error.inj hr
    exact .inl ⟨rfl, m, n, rfl⟩
  | short m n =>
    obtain rfl := Except.error.inj hr
    exact .inr ⟨rfl, .inl ⟨m, n, rfl⟩⟩
  | unbinnable v n =>
    obtain rfl := Except.error.inj hr
    exact .inr ⟨rfl, .inr ⟨v, n, rfl⟩⟩

end Relaxes

namespace Lookup

variable {rs rs' : List Answer} {ps : List Lookup}

theorem relaxes_combine (strides : List BinIndex) (h : List.Forall₂ Relaxes rs rs') :
    Relaxes (combine strides rs) (combine strides rs') :=
  rel_combine (fun i => .ok (some i)) (fun _ _ => Relaxes.found_iff) strides h

/-- Answers without an error combine to one. -/
theorem exists_combine (strides : List BinIndex) (h : ∀ r ∈ rs, ∃ a, r = .ok a) :
    ∃ a, combine strides rs = .ok a := by
  rcases exists_first_not_found rs with ⟨ds, rfl⟩ | ⟨ds, r, rest, rfl, hr⟩
  · exact ⟨_, combine_map_found strides ds⟩
  · rw [combine_of_ne_found hr]
    exact h r (List.mem_append_right _ List.mem_cons_self)

/-- With enough coordinates for all lookups each of them gets enough. -/
theorem exists_of_mem_results {x : List Float} {r : Answer}
    (hlen : (ps.map axisCount).sum ≤ x.length) (hr : r ∈ results ps x) :
    ∃ p ∈ ps, ∃ y : List Float, p.axisCount ≤ y.length ∧ p.find y = r := by
  induction ps generalizing x with
  | nil => cases hr
  | cons p ps ih =>
    rw [List.map_cons, List.sum_cons] at hlen
    rw [results_cons, List.mem_cons] at hr
    rcases hr with rfl | hr
    · refine ⟨p, List.mem_cons_self, x.take p.axisCount, ?_, rfl⟩
      rw [List.length_take]
      omega
    · have hrest : (ps.map axisCount).sum ≤ (x.drop p.axisCount).length := by
        rw [List.length_drop]
        omega
      obtain ⟨q, hq, y, hy⟩ := ih hrest hr
      exact ⟨q, List.mem_cons_of_mem _ hq, y, hy⟩

end Lookup

namespace Binning

variable {layout : Layout} {axes : List UniformAxis} {strides : List BinIndex}
  {parts : List Binning} {b : Binning} {x : List Float}

theorem relaxes_findOnAxis (accepted : Float → Bool) (locate : Float → Option Nat)
    (x : List Float) :
    Relaxes (findOnAxis .strict accepted locate x) (findOnAxis .permissive accepted locate x) := by
  unfold findOnAxis
  cases x with
  | nil => exact .short 1 0
  | cons v rest =>
    dsimp only
    split_ifs
    · exact .ok _
    · exact .unbinnable v 0

theorem relaxes_axisLookups (axes : List UniformAxis) (n : Nat) : List.Forall₂
    (fun p q : Lookup => p.axisCount = q.axisCount ∧ ∀ x, Relaxes (p.find x) (q.find x))
    (axisLookups .strict n axes) (axisLookups .permissive n axes) := by
  unfold axisLookups
  rw [List.forall₂_map_left_iff, List.forall₂_map_right_iff, List.forall₂_same]
  rintro ⟨axis, k⟩ -
  refine ⟨rfl, fun x => ?_⟩
  cases x with
  | nil => exact .ok none
  | cons v rest =>
    dsimp only [axisLookup]
    split_ifs
    · exact .ok _
    · exact .unbinnable v k

theorem relaxes_findInGrid (axes : List UniformAxis) (strides : List BinIndex) (x : List Float) :
    Relaxes (findInGrid .strict axes strides x) (findInGrid .permissive axes strides x) := by
  unfold findInGrid
  split_ifs with hlen
  · exact .short axes.length x.length
  · rw [gridDigits_eq_collect (not_lt.mp hlen), gridDigits_eq_collect (not_lt.mp hlen)]
    exact relaxes_combine strides (rel_results (relaxes_axisLookups axes 0) x)

/-- An error of boxes is the same under any policy. -/
theorem relaxes_requireCoordinates (n : Nat) (answer : Option BinIndex) (x : List Float) :
    Relaxes (do requireCoordinates n x; return answer)
      (do requireCoordinates n x; return answer) := by
  unfold requireCoordinates
  split_ifs
  · exact .mismatch n x.length
  · exact .ok answer

theorem find_under_product (h : (product layout parts strides).WellFormed) (policy : InputPolicy)
    (x : List Float) : ((product layout parts strides).under policy).find x =
      if x.length < (parts.map axisCount).sum then
        .error (.axisCountMismatch (parts.map axisCount).sum x.length)
      else combine strides (results ((parts.map (under policy)).map lookup) x) := by
  show (product (layout.under policy) (underAll policy parts) strides).find x = _
  rw [find_product (h.under policy), map_underAll (axisCount_under policy), ← results_lookup,
    underAll_eq_map]

/-- A strict lookup answers as a permissive one, except that malformed points are errors. -/
theorem WellFormed.relaxes_find (h : b.WellFormed) (x : List Float) :
    Relaxes ((b.under .strict).find x) ((b.under .permissive).find x) := by
  induction h generalizing x with
  | linear => exact relaxes_findOnAxis _ _ x
  | logarithmic => exact relaxes_findOnAxis _ _ x
  | contiguous => exact relaxes_findOnAxis _ _ x
  | grid => exact relaxes_findInGrid _ _ x
  | columns => exact relaxes_requireCoordinates _ _ x
  | scan => exact relaxes_requireCoordinates _ _ x
  | @product layout parts strides ne_nil forall_parts numbering bins_eq ih =>
    have hproduct := WellFormed.product ne_nil forall_parts numbering bins_eq
    rw [find_under_product hproduct, find_under_product hproduct]
    split_ifs
    · exact .mismatch _ _
    · refine relaxes_combine strides (rel_results ?_ x)
      rw [List.map_map, List.map_map, List.forall₂_map_left_iff, List.forall₂_map_right_iff,
        List.forall₂_same]
      intro part hpart
      exact ⟨(axisCount_under _ _).trans (axisCount_under _ _).symm, ih part hpart⟩

/-! ### Errors of permissive lookups -/

theorem not_exists_error {r : Except BinningError α} (h : ∃ a, r = .ok a) :
    ¬∃ e, r = .error e := by
  obtain ⟨a, rfl⟩ := h
  rintro ⟨e, he⟩
  cases he

theorem exists_findOnAxis (accepted : Float → Bool) (locate : Float → Option Nat)
    (x : List Float) : ∃ r, findOnAxis .permissive accepted locate x = .ok r := by
  unfold findOnAxis
  cases x with
  | nil => exact ⟨_, rfl⟩
  | cons v rest =>
    dsimp only
    split_ifs
    · exact ⟨_, rfl⟩
    · exact ⟨_, rfl⟩

theorem exists_findInGrid (axes : List UniformAxis) (strides : List BinIndex) (x : List Float) :
    ∃ r, findInGrid .permissive axes strides x = .ok r := by
  unfold findInGrid
  split_ifs with hlen
  · exact ⟨_, rfl⟩
  rw [gridDigits_eq_collect (not_lt.mp hlen)]
  refine exists_combine strides fun r hr => ?_
  obtain ⟨p, hp, y, -, rfl⟩ :=
    exists_of_mem_results (sum_axisLookups.trans_le (not_lt.mp hlen)) hr
  obtain ⟨⟨axis, k⟩, -, rfl⟩ := List.mem_map.mp hp
  dsimp only [axisLookup]
  cases y with
  | nil => exact ⟨_, rfl⟩
  | cons v rest =>
    dsimp only
    split_ifs
    · exact ⟨_, rfl⟩
    · exact ⟨_, rfl⟩

theorem exists_error_requireCoordinates {n : Nat} {answer : Option BinIndex} :
    (∃ e, (do requireCoordinates n x; return answer) = Except.error e) ↔ x.length < n := by
  unfold requireCoordinates
  split_ifs with hlen
  · exact iff_of_true ⟨_, rfl⟩ hlen
  · exact iff_of_false (not_exists_error ⟨_, rfl⟩) hlen

/-- Boxes and products insist on their coordinates, and nothing else is an error to a permissive
binning. -/
theorem WellFormed.exists_error_iff (h : b.WellFormed) (x : List Float) :
    (∃ e, (b.under .permissive).find x = .error e) ↔
      (b.kind = .columns ∨ b.kind = .scan ∨ b.kind = .product) ∧ x.length < b.axisCount := by
  induction h generalizing x with
  | linear => exact iff_of_false (not_exists_error (exists_findOnAxis _ _ x)) (by simp [kind])
  | logarithmic => exact iff_of_false (not_exists_error (exists_findOnAxis _ _ x)) (by simp [kind])
  | contiguous => exact iff_of_false (not_exists_error (exists_findOnAxis _ _ x)) (by simp [kind])
  | grid => exact iff_of_false (not_exists_error (exists_findInGrid _ _ x)) (by simp [kind])
  | columns => exact exists_error_requireCoordinates.trans (and_iff_right (.inl rfl)).symm
  | scan => exact exists_error_requireCoordinates.trans (and_iff_right (.inr (.inl rfl))).symm
  | @product layout parts strides ne_nil forall_parts numbering bins_eq ih =>
    have hproduct := WellFormed.product ne_nil forall_parts numbering bins_eq
    rw [find_under_product hproduct, axisCount_product hproduct]
    split_ifs with hlen
    · exact iff_of_true ⟨_, rfl⟩ ⟨.inr (.inr rfl), hlen⟩
    · refine iff_of_false (not_exists_error (exists_combine strides fun r hr => ?_))
        fun h => hlen h.2
      have hsum : (((parts.map (Binning.under .permissive)).map lookup).map
          Lookup.axisCount).sum ≤ x.length := by
        simpa [Function.comp_def, lookup] using hlen
      obtain ⟨p, hp, y, hy, rfl⟩ := exists_of_mem_results hsum hr
      obtain ⟨_, hunder, rfl⟩ := List.mem_map.mp hp
      obtain ⟨part, hpart, rfl⟩ := List.mem_map.mp hunder
      -- a part gets as many coordinates as it has axes
      cases hfind : (part.under .permissive).find y with
      | ok a => exact ⟨a, hfind⟩
      | error e =>
        have hshort := ((ih part hpart y).mp ⟨e, hfind⟩).2
        exact absurd hy (not_le.mpr (hshort.trans_eq (axisCount_under _ part).symm))

end Binning

namespace Recipe

open Binning

mutual

/-- Under another policy the same is built or refused. -/
theorem build_under (policy : InputPolicy) : ∀ recipe : Recipe,
    (recipe.under policy).build = Binning.under policy <$> recipe.build
  | linear .. => bind_under fun _ => bind_under fun _ => bind_under fun _ => bind_under fun _ =>
    ofBins_under fun _ => rfl
  | grid _ ranges labels => ofGrid_under ranges labels
  | logarithmic .. => bind_under fun _ => bind_under fun _ => bind_under fun _ =>
    bind_under fun _ => bind_under fun _ => ofBins_under fun _ => rfl
  | edges .. => bind_under fun _ => ofBins_under fun _ => rfl
  | bins .. => bind_under fun _ => ofBins_under fun _ => rfl
  | scan .. => bind_under fun _ => ofBins_under fun _ => rfl
  | product policy' parts => by
    show (buildAll (underAll policy parts) >>= fun bs => ofParts policy bs) =
      Binning.under policy <$> (buildAll parts >>= fun bs => ofParts policy' bs)
    rw [buildAll_under policy parts, bind_map_left]
    exact bind_under fun bs => ofParts_under bs
  | labelled recipe labels => by
    show ((recipe.under policy).build >>= fun b => pure (b.withLabels labels)) =
      Binning.under policy <$> (recipe.build >>= fun b => pure (b.withLabels labels))
    rw [build_under policy recipe, bind_map_left]
    exact bind_under fun b => congrArg Except.ok (withLabels_under policy b labels)

theorem buildAll_under (policy : InputPolicy) : ∀ recipes : List Recipe,
    buildAll (underAll policy recipes) = Binning.underAll policy <$> buildAll recipes
  | [] => rfl
  | recipe :: rest => by
    show ((recipe.under policy).build >>= fun b => buildAll (underAll policy rest) >>= fun bs =>
      pure (b :: bs)) = _ <$> (recipe.build >>= fun b => buildAll rest >>= fun bs => pure (b :: bs))
    rw [build_under policy recipe, buildAll_under policy rest]
    simp [Binning.underAll]

end

/-- A strict policy only makes errors of the answers that malformed points get under a permissive
one: the same binning is built or refused, and what either of the two finds the other finds as
well. A permissive lookup fails only for boxes and products that get too few coordinates. -/
theorem strict_refines_permissive (recipe : Recipe) :
    SameOutcome
      (fun s p => s.policy = .strict ∧ p.policy = .permissive ∧ s.bins = p.bins ∧
        s.labels = p.labels ∧ ∀ x,
          (∀ a, s.find x = .ok a → p.find x = .ok a) ∧
          (∀ i, p.find x = .ok (some i) → s.find x = .ok (some i)) ∧
          (∀ e, s.find x = .error e → (p.find x = .error e ∧ ∃ m n, e = .axisCountMismatch m n) ∨
            p.find x = .ok none ∧
              ((∃ m n, e = .tooFewCoordinates m n) ∨ ∃ v n, e = .unbinnable v n)) ∧
          ((∃ e, p.find x = .error e) ↔
            (p.kind = .columns ∨ p.kind = .scan ∨ p.kind = .product) ∧ x.length < p.axisCount))
      (recipe.under .strict).build (recipe.under .permissive).build := by
  rw [build_under, build_under]
  cases hbuild : recipe.build with
  | error e => exact .error e
  | ok b =>
    have hwf := wellFormed_of_build recipe hbuild
    refine .ok ⟨policy_under _ b, policy_under _ b, ?_, ?_, fun x => ?_⟩
    · rw [bins_under, bins_under]
    · rw [labels_under, labels_under]
    · have hrelaxes := hwf.relaxes_find x
      refine ⟨fun a => hrelaxes.eq_ok, fun i => (hrelaxes.found_iff i).mpr,
        fun e => hrelaxes.of_error, ?_⟩
      rw [kind_under, axisCount_under]
      exact hwf.exists_error_iff x

end Recipe

end BoxBinning
