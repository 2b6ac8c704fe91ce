import BoxBinning.Proofs.Binning.WellFormed
import BoxBinning.Proofs.Selection

/-!
# Labels of axes

Whatever labels a binning is given, no axis goes without one: missing labels are empty, and surplus
ones are kept. `Recipe.HasLabels` says so of a recipe and the binning that it describes. In a product
the labels of a part follow those of the parts before it (`Recipe.labels_aligned`), which take more
places than the axes of these parts if one of them has surplus labels
(`Binning.surplus_label_shifts`).
-/

namespace BoxBinning

namespace Binning

variable {policy : InputPolicy} {label : String} {labels : List String} {edges : List Float}
  {bins : List Bin} {parts : List Binning} {b : Binning} {n : Nat}

/-! ### Labels of a layout -/

theorem length_padLabels : (Layout.padLabels labels n).length = max n labels.length :=
  List.length_rightpad

/-- Labels are added only where some are missing. -/
theorem padLabels_of_le (h : n ≤ labels.length) : Layout.padLabels labels n = labels := by
  rw [Layout.padLabels, List.rightpad, Nat.sub_eq_zero_of_le h, List.replicate_zero,
    List.append_nil]

/-- The axes and labels of a binning whose layout was made last. -/
theorem labels_of_layout {make : Layout → Binning} (hmake : ∀ l, (make l).layout = l)
    (h : (Layout.ofBins labels bins policy >>= fun l => pure (make l)) = .ok b) :
    b.axisCount = Bins.axisCount bins ∧
      b.labels = Layout.padLabels labels (Bins.axisCount bins) := by
  obtain ⟨layout, hlayout, h⟩ := bind_eq_ok.mp h
  obtain rfl := Except.ok.inj h
  obtain ⟨-, rfl⟩ := layout_ofBins_eq_ok.mp hlayout
  rw [axisCount, Binning.labels, hmake]
  exact ⟨rfl, rfl⟩

/-- A row has one axis. -/
theorem labels_of_row {make : Layout → Binning} (hmake : ∀ l, (make l).layout = l)
    (h : (Edges.toBins edges >>= fun bins =>
      Layout.ofBins [label] bins policy >>= fun l => pure (make l)) = .ok b) :
    b.axisCount = 1 ∧ b.labels = Layout.padLabels [label] 1 := by
  obtain ⟨bins, hbins, h⟩ := bind_eq_ok.mp h
  obtain ⟨htwo, -, rfl⟩ := Edges.toBins_eq_ok.mp hbins
  have hcount : Bins.axisCount (Edges.bins edges) = 1 := by
    apply Bins.axisCount_eq_of_forall _ Edges.axisCount_of_mem_bins
    rw [Edges.length_bins]
    omega
  have hlabels := labels_of_layout hmake h
  rwa [hcount] at hlabels

theorem labels_withLabels (b : Binning) (labels : List String) :
    (b.withLabels labels).labels = Layout.padLabels labels b.axisCount := by
  rw [Binning.labels, withLabels, layout_setLayout]
  rfl

theorem labels_eq_padLabels (h : ofParts policy parts = .ok b) :
    b.labels = Layout.padLabels (parts.flatMap Binning.labels) b.axisCount := by
  obtain ⟨-, strides, -, rfl⟩ := ofParts_eq_ok h
  rfl

theorem axisCount_le_ofParts (h : ofParts policy parts = .ok b) :
    b.axisCount ≤ b.labels.length := by
  rw [labels_eq_padLabels h, length_padLabels]
  exact le_max_left _ _

/-- A product has the labels of its parts, one part after the other. -/
theorem labels_ofParts (hparts : ∀ part ∈ parts, part.WellFormed)
    (hlabels : ∀ part ∈ parts, part.axisCount ≤ part.labels.length)
    (h : ofParts policy parts = .ok b) : b.labels = parts.flatMap Binning.labels := by
  rw [labels_eq_padLabels h, axisCount_ofParts hparts h]
  apply padLabels_of_le
  rw [List.length_flatMap]
  exact List.sum_le_sum hlabels

end Binning

namespace Recipe

open Binning

/-! ### Labels of a recipe -/

mutual

/-- The number of axes that a recipe gives. -/
def axisCount : Recipe → Nat
  | linear .. => 1
  | grid _ ranges _ => ranges.length
  | logarithmic .. => 1
  | edges .. => 1
  | bins _ boxes _ => Bins.axisCount boxes
  | scan _ boxes _ => Bins.axisCount boxes
  | product _ parts => axisCountAll parts
  | labelled recipe _ => axisCount recipe

/-- The number of axes that several recipes give. -/
def axisCountAll : List Recipe → Nat
  | [] => 0
  | recipe :: rest => axisCount recipe + axisCountAll rest

end

mutual

/-- The labels that a recipe gives, which may be too few or too many. -/
def labels : Recipe → List String
  | linear _ _ _ _ label => [label]
  | grid _ _ given => given
  | logarithmic _ _ _ _ _ label => [label]
  | edges _ _ label => [label]
  | bins _ _ given => given
  | scan _ _ given => given
  | product _ parts => labelsAll parts
  | labelled _ given => given

/-- The labels that several recipes give, with those that are missing. -/
def labelsAll : List Recipe → List String
  | [] => []
  | recipe :: rest => Layout.padLabels (labels recipe) (axisCount recipe) ++ labelsAll rest

end

/-- A binning has the axes of a recipe and its labels, filled up to the number of axes. -/
structure HasLabels (recipe : Recipe) (b : Binning) : Prop where
  /-- The axes are those of the recipe. -/
  axisCount_eq : b.axisCount = recipe.axisCount
  /-- The labels are those of the recipe and, where some are missing, empty ones. -/
  labels_eq : b.labels = Layout.padLabels recipe.labels recipe.axisCount

variable {recipe : Recipe} {recipes : List Recipe} {parts : List Binning} {b : Binning} {k : Nat}

theorem HasLabels.length_labels (h : HasLabels recipe b) :
    b.labels.length = max b.axisCount recipe.labels.length := by
  rw [h.labels_eq, h.axisCount_eq, length_padLabels]

theorem HasLabels.axisCount_le (h : HasLabels recipe b) : b.axisCount ≤ b.labels.length :=
  h.length_labels ▸ le_max_left _ _

theorem forall_axisCount_le (h : List.Forall₂ HasLabels recipes parts) :
    ∀ part ∈ parts, part.axisCount ≤ part.labels.length := by
  induction h with
  | nil => exact List.forall_mem_nil _
  | cons hpart _ ih => exact List.forall_mem_cons.mpr ⟨hpart.axisCount_le, ih⟩

theorem sum_axisCount_of_hasLabels (h : List.Forall₂ HasLabels recipes parts) :
    (parts.map Binning.axisCount).sum = axisCountAll recipes := by
  induction h with
  | nil => rfl
  | cons hpart _ ih => rw [List.map_cons, List.sum_cons, ih, hpart.axisCount_eq, axisCountAll]

theorem flatMap_labels_of_hasLabels (h : List.Forall₂ HasLabels recipes parts) :
    parts.flatMap Binning.labels = labelsAll recipes := by
  induction h with
  | nil => rfl
  | cons hpart _ ih => rw [List.flatMap_cons, ih, hpart.labels_eq, labelsAll]

mutual

/-- What a recipe describes has its axes and labels. -/
theorem hasLabels_of_build : ∀ (recipe : Recipe) {b : Binning}, recipe.build = .ok b →
    HasLabels recipe b
  | linear .., _, h => by
    obtain ⟨⟨⟩, -, h⟩ := bind_eq_ok.mp h
    obtain ⟨⟨⟩, -, h⟩ := bind_eq_ok.mp h
    obtain ⟨edges, -, h⟩ := bind_eq_ok.mp h
    obtain ⟨hcount, hlabels⟩ := labels_of_row (fun _ => rfl) h
    exact ⟨hcount, hlabels⟩
  | logarithmic .., _, h => by
    obtain ⟨base, -, h⟩ := bind_eq_ok.mp h
    obtain ⟨⟨⟩, -, h⟩ := bind_eq_ok.mp h
    obtain ⟨⟨⟩, -, h⟩ := bind_eq_ok.mp h
    obtain ⟨edges, -, h⟩ := bind_eq_ok.mp h
    obtain ⟨hcount, hlabels⟩ := labels_of_row (fun _ => rfl) h
    exact ⟨hcount, hlabels⟩
  | edges .., _, h => by
    obtain ⟨hcount, hlabels⟩ := labels_of_row (fun _ => rfl) h
    exact ⟨hcount, hlabels⟩
  | bins .., _, h => by
    obtain ⟨⟨⟩, -, h⟩ := bind_eq_ok.mp h
    obtain ⟨hcount, hlabels⟩ := labels_of_layout (fun _ => rfl) h
    exact ⟨hcount, hlabels⟩
  | scan .., _, h => by
    obtain ⟨⟨⟩, -, h⟩ := bind_eq_ok.mp h
    obtain ⟨hcount, hlabels⟩ := labels_of_layout (fun _ => rfl) h
    exact ⟨hcount, hlabels⟩
  | grid _ ranges given, _, h => by
    have hwf := wellFormed_ofGrid h
    obtain ⟨-, axes, strides, haxes, -, rfl⟩ := ofGrid_eq_ok h
    have hcount := (axisCount_grid hwf).trans haxes.length_eq.symm
    exact ⟨hcount, congrArg (Layout.padLabels given) hcount⟩
  | product _ recipes, _, h => by
    obtain ⟨parts, hparts, h⟩ := bind_eq_ok.mp h
    have hlabels := forall₂_hasLabels_of_buildAll recipes hparts
    have hcount := axisCount_ofParts (wellFormed_of_buildAll recipes hparts) h
    rw [sum_axisCount_of_hasLabels hlabels] at hcount
    refine ⟨hcount, ?_⟩
    rw [labels_eq_padLabels h, flatMap_labels_of_hasLabels hlabels, hcount]
    rfl
  | labelled recipe given, _, h => by
    obtain ⟨b, hb, h⟩ := bind_eq_ok.mp h
    obtain rfl := Except.ok.inj h
    have hcount := (hasLabels_of_build recipe hb).axisCount_eq
    refine ⟨?_, (labels_withLabels b given).trans (congrArg (Layout.padLabels given) hcount)⟩
    rw [Binning.axisCount, withLabels, layout_setLayout]
    exact hcount

theorem forall₂_hasLabels_of_buildAll : ∀ (recipes : List Recipe) {parts : List Binning},
    buildAll recipes = .ok parts → List.Forall₂ HasLabels recipes parts
  | [], _, h => by
    obtain rfl := Except.ok.inj h
    exact .nil
  | recipe :: rest, _, h => by
    obtain ⟨b, hb, h⟩ := bind_eq_ok.mp h
    obtain ⟨bs, hbs, h⟩ := bind_eq_ok.mp h
    obtain rfl := Except.ok.inj h
    exact .cons (hasLabels_of_build recipe hb) (forall₂_hasLabels_of_buildAll rest hbs)

end

/-- Every binning that can be built has a label for each of its axes. -/
theorem axisCount_le_length_labels (h : recipe.build = .ok b) : b.axisCount ≤ b.labels.length :=
  (hasLabels_of_build recipe h).axisCount_le

/-! ### Labels of a product -/

/-- Without surplus labels, labels and axes stand at the same positions. -/
theorem offset_labels_eq (h : List.Forall₂ HasLabels recipes parts)
    (hlabels : ∀ recipe ∈ recipes.take k, recipe.labels.length ≤ recipe.axisCount) :
    offset (parts.map fun part => part.labels.length) k =
      offset (parts.map Binning.axisCount) k := by
  induction h generalizing k with
  | nil => rfl
  | @cons recipe part recipes parts hpart _ ih =>
    cases k with
    | zero => rfl
    | succ k =>
      rw [List.take_succ_cons, List.forall_mem_cons, ← hpart.axisCount_eq] at hlabels
      rw [List.map_cons, List.map_cons, offset_cons, offset_cons, ih hlabels.2,
        hpart.length_labels, max_eq_left hlabels.1]

/-- Every binning that can be built has the labels that it is given, with empty ones for axes that
would have none, and thus one for each axis unless it is given more. In a product the labels of a
part follow those of the parts before it. They stand at the axes of the part if no part before it
has surplus labels. -/
theorem labels_aligned (hbuild : recipe.build = .ok b) :
    b.axisCount = recipe.axisCount ∧
    b.labels = Layout.padLabels recipe.labels b.axisCount ∧
    b.axisCount ≤ b.labels.length ∧
    (b.labels.length = b.axisCount ↔ recipe.labels.length ≤ recipe.axisCount) ∧
    ∀ policy recipes, recipe = .product policy recipes → ∃ parts, buildAll recipes = .ok parts ∧
      ∀ (k : Nat) (part : Binning), parts[k]? = some part → ∀ j < part.axisCount,
        ∃ label, part.labels[j]? = some label ∧
          b.labels[offset (parts.map fun part => part.labels.length) k + j]? = some label ∧
          ((∀ recipe ∈ recipes.take k, recipe.labels.length ≤ recipe.axisCount) →
            b.labels[offset (parts.map Binning.axisCount) k + j]? = some label) := by
  have hlabels := hasLabels_of_build recipe hbuild
  have hcount := hlabels.axisCount_eq
  refine ⟨hcount, hcount ▸ hlabels.labels_eq, hlabels.axisCount_le, ?_, ?_⟩
  · rw [hlabels.length_labels, ← hcount, max_eq_left_iff]
  · rintro policy recipes rfl
    obtain ⟨parts, hparts, hbuild⟩ := bind_eq_ok.mp hbuild
    have hwf := wellFormed_of_buildAll recipes hparts
    have hpartLabels := forall₂_hasLabels_of_buildAll recipes hparts
    have hle := forall_axisCount_le hpartLabels
    refine ⟨parts, hparts, fun k part hpart j hj => ?_⟩
    have hj' := hj.trans_le (hle part (List.mem_of_getElem? hpart))
    refine ⟨part.labels[j], List.getElem?_eq_getElem hj', ?_⟩
    have hposition : b.labels[offset (parts.map fun part => part.labels.length) k + j]? =
        some part.labels[j] := by
      rw [labels_ofParts hwf hle hbuild, getElem?_flatMap_offset hpart hj',
        List.getElem?_eq_getElem hj']
    refine ⟨hposition, fun hfit => ?_⟩
    rwa [← offset_labels_eq hpartLabels hfit]

/-- A relabelled grid beside a row: one label is missing and none is left over. -/
theorem labels_aligned_relabelled :
    ∃ b, (Recipe.product .permissive [.labelled (.grid .strict [⟨0.0, 2.0, 2⟩, ⟨0.0, 2.0, 2⟩]
        ["u", "v", "w"]) ["x"], .edges .strict [0.0, 1.0] "y"]).build = .ok b ∧
      b.labels = ["x", "", "y"] ∧ b.labels.length = b.axisCount := by
  obtain ⟨b, hb⟩ : ∃ b, (Recipe.product .permissive [.labelled (.grid .strict
      [⟨0.0, 2.0, 2⟩, ⟨0.0, 2.0, 2⟩] ["u", "v", "w"]) ["x"],
      .edges .strict [0.0, 1.0] "y"]).build = .ok b := ⟨_, rfl⟩
  obtain ⟨hcount, hlabels, -, hiff, -⟩ := labels_aligned hb
  rw [hcount] at hlabels
  exact ⟨b, hb, hlabels, hiff.mpr (by decide)⟩

end Recipe

namespace Binning

/-- A surplus label stands in a product where the label of the next part belongs. -/
theorem surplus_label_shifts :
    ∃ left right p, ofGrid .permissive [⟨0.0, 1.0, 2⟩] ["x", "extra"] = .ok left ∧
      ofEdges .permissive [0.0, 1.0] "y" = .ok right ∧
      ofParts .permissive [left, right] = .ok p ∧
      left.axisCount = 1 ∧ left.labels = ["x", "extra"] ∧ right.labels = ["y"] ∧
      p.axisCount = 2 ∧ p.labels = ["x", "extra", "y"] ∧
      p.labels[left.axisCount]? = some "extra" := by
  obtain ⟨left, hleft⟩ : ∃ left,
      ofGrid .permissive [⟨0.0, 1.0, 2⟩] ["x", "extra"] = .ok left := ⟨_, rfl⟩
  obtain ⟨right, hright⟩ : ∃ right, ofEdges .permissive [0.0, 1.0] "y" = .ok right := ⟨_, rfl⟩
  obtain ⟨p, hp⟩ : ∃ p, ofParts .permissive [left, right] = .ok p := by
    obtain rfl := Except.ok.inj hleft
    obtain rfl := Except.ok.inj hright
    exact ⟨_, rfl⟩
  refine ⟨left, right, p, hleft, hright, hp, ?_⟩
  obtain rfl := Except.ok.inj hleft
  obtain rfl := Except.ok.inj hright
  obtain rfl := Except.ok.inj hp
  decide

end Binning

end BoxBinning
