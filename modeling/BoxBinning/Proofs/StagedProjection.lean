import BoxBinning.Proofs.Projection

/-!
# Projecting in stages

Projecting bins on some axes and the result on some of those gives what projecting them on the axes
chosen last gives at once, up to equality of bins (`Bins.project_project`). The distinct projections
of the first stage come in another order and without repetitions, but they have the keys of all
projections, and the key of a projection depends on the key of the bin alone
(`Bin.key_onAxes_congr`). An axis that is not there is refused, and the first one in the list is
named (`Bin.project_eq_error`).
-/

namespace BoxBinning

/-! ### Lists on some axes -/

section OnAxes

variable {α β : Type} {l : List α} {axes positions : List Nat}

theorem map_onAxes (f : α → β) : (onAxes axes l).map f = onAxes axes (l.map f) := by
  rw [onAxes, onAxes, List.map_filterMap]
  exact List.filterMap_congr fun i _ => List.getElem?_map.symm

theorem getElem?_onAxes (h : ∀ i ∈ axes, i < l.length) (k : Nat) :
    (onAxes axes l)[k]? = axes[k]?.bind (l[·]?) := by
  rcases lt_or_ge k axes.length with hk | hk
  · have hk' := hk.trans_eq (length_onAxes h).symm
    rw [List.getElem?_eq_getElem hk, Option.bind_some, List.getElem?_eq_getElem hk']
    exact ((forall₂_onAxes h).get hk hk').symm
  · rw [List.getElem?_eq_none hk, List.getElem?_eq_none ((length_onAxes h).trans_le hk)]
    rfl

/-- To choose among chosen members is to choose among their axes first. -/
theorem onAxes_onAxes (h : ∀ i ∈ axes, i < l.length) :
    onAxes positions (onAxes axes l) = onAxes (onAxes positions axes) l := by
  conv_rhs => rw [onAxes, onAxes, List.filterMap_filterMap]
  exact List.filterMap_congr fun k _ => getElem?_onAxes h k

end OnAxes

/-! ### The first refusal -/

section First

variable {ε α β : Type} {f : α → Except ε β} {P : α → Prop} {l : List α} {a : α} {e : ε}

theorem exists_isFirst [DecidablePred P] (h : ∃ a ∈ l, P a) : ∃ a, IsFirst P l a := by
  obtain ⟨a, ha⟩ := Option.isSome_iff_exists.mp
    (List.find?_isSome.mpr (h.imp fun a ha => ⟨ha.1, decide_eq_true ha.2⟩))
  exact ⟨a, (find?_eq_some_iff_isFirst fun _ => decide_eq_true_iff).mp ha⟩

/-- A list of steps fails where the first of them does. -/
theorem mapM_eq_error (hok : ∀ c, ¬P c → ∃ b, f c = .ok b) (h : IsFirst P l a)
    (ha : f a = .error e) : l.mapM f = .error e := by
  obtain ⟨-, before, after, rfl, hbefore⟩ := h
  induction before with
  | nil =>
    rw [List.nil_append, List.mapM_cons, ha]
    rfl
  | cons c before ih =>
    obtain ⟨hc, hbefore⟩ := List.forall_mem_cons.mp hbefore
    obtain ⟨b, hb⟩ := hok c hc
    rw [List.cons_append, List.mapM_cons, hb]
    exact bind_eq_error.mpr (.inr ⟨b, rfl, bind_eq_error.mpr (.inl (ih hbefore))⟩)

end First

namespace Bin

variable {a b : Bin} {axes positions : List Nat} {i : Nat}

/-- The first axis that a bin does not have is named. -/
theorem project_eq_error (h : IsFirst (fun i => b.axisCount ≤ i) axes i) :
    b.project axes = .error (.noSuchAxis i b.axisCount) := by
  have hok : ∀ j, ¬b.axisCount ≤ j → ∃ e, b.axis j = .ok e := by
    intro j hj
    have hj' := List.getElem?_eq_getElem (not_le.mp hj)
    exact ⟨_, by rw [axis, hj']⟩
  have hmissing : b.axis i = .error (.noSuchAxis i b.axisCount) := by
    rw [axis, List.getElem?_eq_none h.1]
  rw [project, mapM_eq_error hok h hmissing]
  rfl

/-- A bin that is projected has the axes. -/
theorem lt_axisCount_of_project {p : Bin} (h : b.project axes = .ok p) :
    ∀ i ∈ axes, i < b.axisCount := by
  by_contra! hmissing
  obtain ⟨i, hi⟩ := exists_isFirst hmissing
  cases (project_eq_error hi).symm.trans h

/-- The key of a projection depends on the key of the bin. -/
theorem key_onAxes_congr (h : a.key = b.key) : (a.onAxes axes).key = (b.onAxes axes).key := by
  have hextents : a.extents.map Extent.key = b.extents.map Extent.key := List.reverse_inj.mp h
  rw [key, key, onAxes, onAxes, map_onAxes, map_onAxes, hextents]

theorem onAxes_onAxes (h : ∀ i ∈ axes, i < b.axisCount) :
    (b.onAxes axes).onAxes positions = b.onAxes (BoxBinning.onAxes positions axes) :=
  congrArg Bin.mk (BoxBinning.onAxes_onAxes h)

end Bin

namespace Bins

variable {bins s : List Bin} {axes positions : List Nat} {k : Nat}

/-! ### Stages -/

theorem lt_axisCount_of_project (hne : axes ≠ []) (h : project bins axes = .ok s) :
    ∀ b ∈ bins, ∀ i ∈ axes, i < b.axisCount := by
  rw [project, if_neg fun hempty => hne (List.isEmpty_iff.mp hempty)] at h
  obtain ⟨projections, hprojections, -⟩ := bind_eq_ok.mp h
  intro b hb
  obtain ⟨p, -, hp⟩ := exists_mem_of_forall₂ (mapM_eq_ok_iff.mp hprojections) hb
  exact Bin.lt_axisCount_of_project hp

/-- The result of a projection are the distinct projections. -/
theorem isUnique_of_project (hnum : ∀ b ∈ bins, b.IsNumeric) (hne : axes ≠ [])
    (h : project bins axes = .ok s) : IsUnique (bins.map (·.onAxes axes)) s := by
  have haxes := lt_axisCount_of_project hne h
  have hcount : ∀ p ∈ bins.map (·.onAxes axes), p.axisCount = axes.length :=
    List.forall_mem_map.mpr fun b hb => Bin.axisCount_onAxes (haxes b hb)
  rw [project_eq_unique_of_ne_nil hne haxes] at h
  obtain ⟨t, ht, hunique⟩ := exists_unique hcount (forall_isNumeric_onAxes hnum)
  rwa [Except.ok.inj (ht.symm.trans h)] at hunique

theorem exists_project_of_lt (hnum : ∀ b ∈ bins, b.IsNumeric) (hne : axes ≠ [])
    (h : ∀ b ∈ bins, ∀ i ∈ axes, i < b.axisCount) : ∃ t, project bins axes = .ok t := by
  rw [project_eq_unique_of_ne_nil hne h]
  obtain ⟨t, ht, -⟩ := exists_unique
    (List.forall_mem_map.mpr fun b hb => Bin.axisCount_onAxes (h b hb)) (forall_isNumeric_onAxes hnum)
  exact ⟨t, ht⟩

/-- Distinct bins have the same keys of projections as all bins. -/
theorem IsUnique.mem_map_key_onAxes (h : IsUnique bins s) (c : List (Int ×ₗ Int)) :
    c ∈ (s.map (·.onAxes positions)).map Bin.key ↔
      c ∈ (bins.map (·.onAxes positions)).map Bin.key := by
  simp only [List.mem_map, exists_exists_and_eq_and]
  constructor
  · rintro ⟨b, hb, rfl⟩
    exact ⟨b, h.mem_of_mem b hb, rfl⟩
  · rintro ⟨b, hb, rfl⟩
    obtain ⟨d, hd, hkey⟩ := h.exists_key_eq b hb
    exact ⟨d, hd, Bin.key_onAxes_congr hkey⟩

/-- Bins that can be projected on some axes can be projected on some of those. -/
theorem project_project_eq_ok (hnum : ∀ b ∈ bins, b.IsNumeric) (hne : axes ≠ [])
    (hs : project bins axes = .ok s) (hne' : positions ≠ [])
    (hpositions : ∀ k ∈ positions, k < axes.length) :
    ∃ t u, project s positions = .ok t ∧ project bins (onAxes positions axes) = .ok u ∧
      List.Forall₂ (fun a b => (a == b) = true) t u := by
  have haxes := lt_axisCount_of_project hne hs
  have hunique := isUnique_of_project hnum hne hs
  have hnum' : ∀ p ∈ s, p.IsNumeric := fun p hp =>
    forall_isNumeric_onAxes hnum p (hunique.mem_of_mem p hp)
  have hcount : ∀ p ∈ s, p.axisCount = axes.length := by
    intro p hp
    obtain ⟨b, hb, rfl⟩ := List.mem_map.mp (hunique.mem_of_mem p hp)
    exact Bin.axisCount_onAxes (haxes b hb)
  have hchosen : onAxes positions axes ≠ [] := by
    rw [← List.length_pos_iff, length_onAxes hpositions]
    exact List.length_pos_iff.mpr hne'
  obtain ⟨t, ht⟩ := exists_project_of_lt hnum' hne' fun p hp k hk =>
    (hpositions k hk).trans_eq (hcount p hp).symm
  obtain ⟨u, hu⟩ := exists_project_of_lt hnum hchosen fun b hb i hi =>
    haxes b hb i (mem_of_mem_onAxes hi)
  have hbins : bins.map (·.onAxes (onAxes positions axes)) =
      (bins.map (·.onAxes axes)).map (·.onAxes positions) := by
    rw [List.map_map]
    exact List.map_congr_left fun b hb => (Bin.onAxes_onAxes (haxes b hb)).symm
  have hdirect := isUnique_of_project hnum hchosen hu
  refine ⟨t, u, ht, hu, (isUnique_of_project hnum' hne' ht).forall₂_beq hdirect
    (forall_isNumeric_onAxes hnum') (forall_isNumeric_onAxes hnum) fun c => ?_⟩
  rw [hbins]
  exact hunique.mem_map_key_onAxes c

/-- The projections of the first stage have as many axes as were chosen, so a position behind them
is refused. -/
theorem project_project_eq_error (hnum : ∀ b ∈ bins, b.IsNumeric) (hne : axes ≠ [])
    (hs : project bins axes = .ok s) (hbins : bins ≠ [])
    (h : IsFirst (fun k => axes.length ≤ k) positions k) :
    project s positions = .error (.noSuchAxis k axes.length) := by
  have haxes := lt_axisCount_of_project hne hs
  have hunique := isUnique_of_project hnum hne hs
  obtain ⟨p, rest, rfl⟩ := List.exists_cons_of_ne_nil (hunique.ne_nil (by simpa using hbins))
  obtain ⟨b, hb, rfl⟩ := List.mem_map.mp (hunique.mem_of_mem p List.mem_cons_self)
  have hcount := Bin.axisCount_onAxes (haxes b hb)
  have hpositions : positions ≠ [] := by
    obtain ⟨-, before, after, rfl, -⟩ := h
    simp
  have hfirst := Bin.project_eq_error (b := b.onAxes axes) (hcount.symm ▸ h)
  rw [project, if_neg fun hempty => hpositions (List.isEmpty_iff.mp hempty), List.mapM_cons,
    hfirst, hcount]
  rfl

/-- Bins are projected on some axes. Projecting the result on positions among these axes gives equal
bins in the same order as projecting on the axes at the positions. If there are bins at all, a list
with a position behind the axes is refused, and the first such position is named. -/
theorem project_project (hnum : ∀ b ∈ bins, b.IsNumeric) (hne : axes ≠ [])
    (hs : project bins axes = .ok s) :
    (∀ positions, positions ≠ [] → (∀ k ∈ positions, k < axes.length) →
      ∃ t u, project s positions = .ok t ∧ project bins (onAxes positions axes) = .ok u ∧
        List.Forall₂ (fun a b => (a == b) = true) t u) ∧
    ∀ positions k, bins ≠ [] → IsFirst (fun k => axes.length ≤ k) positions k →
      project s positions = .error (.noSuchAxis k axes.length) :=
  ⟨fun _ => project_project_eq_ok hnum hne hs, fun _ _ => project_project_eq_error hnum hne hs⟩

/-- Four cells on two axes, of which the second is taken twice. -/
theorem project_project_cells :
    ∃ s t u, project [⟨[⟨0.0, 1.0⟩, ⟨1.0, 2.0⟩]⟩, ⟨[⟨1.0, 2.0⟩, ⟨1.0, 2.0⟩]⟩,
        ⟨[⟨0.0, 1.0⟩, ⟨-0.0, 1.0⟩]⟩, ⟨[⟨1.0, 2.0⟩, ⟨0.0, 1.0⟩]⟩] [1, 0, 1] = .ok s ∧
      project s [2] = .ok t ∧
      project [⟨[⟨0.0, 1.0⟩, ⟨1.0, 2.0⟩]⟩, ⟨[⟨1.0, 2.0⟩, ⟨1.0, 2.0⟩]⟩,
        ⟨[⟨0.0, 1.0⟩, ⟨-0.0, 1.0⟩]⟩, ⟨[⟨1.0, 2.0⟩, ⟨0.0, 1.0⟩]⟩] [1] = .ok u ∧
      List.Forall₂ (fun a b => (a == b) = true) t u ∧
      project s [0, 4, 3] = .error (.noSuchAxis 4 3) := by
  have hnum : ∀ b ∈ [(⟨[⟨0.0, 1.0⟩, ⟨1.0, 2.0⟩]⟩ : Bin), ⟨[⟨1.0, 2.0⟩, ⟨1.0, 2.0⟩]⟩,
      ⟨[⟨0.0, 1.0⟩, ⟨-0.0, 1.0⟩]⟩, ⟨[⟨1.0, 2.0⟩, ⟨0.0, 1.0⟩]⟩], b.IsNumeric := by
    unfold Bin.IsNumeric Extent.IsNumeric
    decide
  obtain ⟨s, hs⟩ := exists_project_of_lt hnum (List.cons_ne_nil 1 [0, 1]) (by decide)
  obtain ⟨hstages, hrefused⟩ := project_project hnum (by decide) hs
  obtain ⟨t, u, ht, hu, htu⟩ := hstages [2] (by decide) (by decide)
  have hfirst : IsFirst (fun k => 3 ≤ k) [0, 4, 3] 4 := ⟨by decide, [0], [3], rfl, by decide⟩
  exact ⟨s, t, u, hs, ht, hu, htu, hrefused _ 4 (by decide) hfirst⟩

end Bins

end BoxBinning
