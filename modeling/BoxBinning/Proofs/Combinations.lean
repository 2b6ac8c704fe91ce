import BoxBinning.Binning.Build
import BoxBinning.Proofs.MixedRadix
import BoxBinning.Proofs.UniformAxis

/-!
# Combinations of bins

The bins of a product are all combinations of one bin from each part. The position of a combination
is the mixed-radix number of the positions of the bins it is made of
(`Binning.getElem?_combinations`); read backwards, the first digit of a position gives the bin of
the first part and the rest of it the combination of the others
(`Binning.getElem?_combinations_cons`). It makes no difference whether some parts are combined first
(`Binning.combinations_group`). The bins of a grid are the combinations of the cells on its
axes (`Binning.map_gridBin_eq_combinations`).
-/

namespace BoxBinning

open MixedRadix

/-- The axes of several bins one after the other. -/
def Bin.join (bins : List Bin) : Bin := ⟨bins.flatMap Bin.extents⟩

theorem Bin.join_cons (b : Bin) (bins : List Bin) :
    Bin.join (b :: bins) = b.concat (Bin.join bins) := rfl

namespace Binning

variable {part : List Bin} {parts : List (List Bin)} {a b c : Bin} {i : Nat}

/-! ### Combinations of bins -/

theorem mem_combinations_cons : b ∈ combinations (part :: parts) ↔
    ∃ a ∈ part, ∃ c ∈ combinations parts, b = a.concat c := by
  show b ∈ (combinations parts).flatMap (fun outer => part.map (·.concat outer)) ↔ _
  simp only [List.mem_flatMap, List.mem_map]
  constructor
  · rintro ⟨c, hc, a, ha, rfl⟩
    exact ⟨a, ha, c, hc, rfl⟩
  · rintro ⟨a, ha, c, hc, rfl⟩
    exact ⟨c, hc, a, ha, rfl⟩

theorem combinations_singleton (part : List Bin) : combinations [part] = part := by
  have hconcat : ∀ b : Bin, b.concat ⟨[]⟩ = b := fun b => by simp [Bin.concat]
  simp [combinations, hconcat]

/-- A combination joins one bin from each list. -/
theorem mem_combinations :
    b ∈ combinations parts ↔ ∃ cells, List.Forall₂ (· ∈ ·) cells parts ∧ b = Bin.join cells := by
  induction parts generalizing b with
  | nil => simp [combinations, Bin.join]
  | cons part parts ih =>
    rw [mem_combinations_cons]
    constructor
    · rintro ⟨a, ha, c, hc, rfl⟩
      obtain ⟨cells, hcells, rfl⟩ := ih.mp hc
      exact ⟨a :: cells, .cons ha hcells, rfl⟩
    · rintro ⟨cells, hcells, rfl⟩
      obtain ⟨a, rest, ha, hrest, rfl⟩ := List.forall₂_cons_right_iff.mp hcells
      exact ⟨a, ha, Bin.join rest, ih.mpr ⟨rest, hrest, rfl⟩, rfl⟩

/-- With more bins in each list there are more combinations. -/
theorem mem_combinations_mono {lists : List (List Bin)}
    (h : List.Forall₂ (fun list part => ∀ a ∈ part, a ∈ list) lists parts)
    (hb : b ∈ combinations parts) : b ∈ combinations lists := by
  induction h generalizing b with
  | nil => exact hb
  | cons hpart _ ih =>
    obtain ⟨a, ha, c, hc, rfl⟩ := mem_combinations_cons.mp hb
    exact mem_combinations_cons.mpr ⟨a, hpart a ha, c, ih hc, rfl⟩

@[simp] theorem length_combinations :
    (combinations parts).length = (parts.map List.length).prod := by
  induction parts with
  | nil => rfl
  | cons part parts ih =>
    show ((combinations parts).flatMap fun outer => part.map (·.concat outer)).length = _
    simp [ih, Nat.mul_comm]

theorem getElem?_flatMap_concat (outers : List Bin) (i : Nat) :
    (outers.flatMap fun outer => part.map (·.concat outer))[i]? =
      (outers[i / part.length]?).bind fun outer =>
        (part[i % part.length]?).map (·.concat outer) := by
  induction outers generalizing i with
  | nil => simp
  | cons outer outers ih =>
    rw [List.flatMap_cons]
    -- a position in the first repetition, or one in the others, which start a length later
    rcases Nat.lt_or_ge i part.length with hlt | hge
    · rw [List.getElem?_append_left (by simpa using hlt), Nat.div_eq_of_lt hlt,
        Nat.mod_eq_of_lt hlt, List.getElem?_map]
      rfl
    · rw [List.getElem?_append_right (by simpa using hge), List.length_map, ih]
      rcases Nat.eq_zero_or_pos part.length with hzero | hpos
      · simp [List.length_eq_zero_iff.mp hzero]
      · rw [Nat.div_eq_sub_div hpos hge, Nat.mod_eq_sub_mod hge]
        rfl

/-- The first digit of a position chooses the bin of the first list and the rest of it the bins of
the others. -/
theorem getElem?_combinations_cons : (combinations (part :: parts))[i]? = some b ↔
    ∃ a c, part[i % part.length]? = some a ∧ (combinations parts)[i / part.length]? = some c ∧
      b = a.concat c := by
  show ((combinations parts).flatMap fun outer => part.map (·.concat outer))[i]? = _ ↔ _
  rw [getElem?_flatMap_concat]
  simp only [Option.bind_eq_some_iff, Option.map_eq_some_iff]
  constructor
  · rintro ⟨c, hc, a, ha, rfl⟩
    exact ⟨a, c, ha, hc, rfl⟩
  · rintro ⟨a, c, ha, hc, rfl⟩
    exact ⟨c, hc, a, ha, rfl⟩

/-- The position of a combination has that of the first bin as its first digit. -/
theorem getElem?_combinations_add {d m : Nat} (ha : part[d]? = some a)
    (hc : (combinations parts)[m]? = some c) :
    (combinations (part :: parts))[d + part.length * m]? = some (a.concat c) := by
  have hd : d < part.length := (List.getElem?_eq_some_iff.mp ha).1
  have hmod : (d + part.length * m) % part.length = d := by
    rw [Nat.add_mul_mod_self_left, Nat.mod_eq_of_lt hd]
  have hdiv : (d + part.length * m) / part.length = m := by
    rw [Nat.add_mul_div_left _ _ (Nat.zero_lt_of_lt hd), Nat.div_eq_of_lt hd, Nat.zero_add]
  apply getElem?_combinations_cons.mpr
  rw [hmod, hdiv]
  exact ⟨a, c, ha, hc, rfl⟩

theorem exists_cells {digits : List Nat}
    (h : List.Forall₂ (· < ·) digits (parts.map List.length)) :
    ∃ cells : List Bin,
      List.zipWith (fun (part : List Bin) d => part[d]?) parts digits = cells.map some := by
  induction parts generalizing digits with
  | nil => exact ⟨[], rfl⟩
  | cons part parts ih =>
    obtain ⟨d, ds, hd, hds, rfl⟩ := List.forall₂_cons_right_iff.mp h
    obtain ⟨cells, hcells⟩ := ih hds
    exact ⟨part[d] :: cells, by
      rw [List.zipWith_cons_cons, hcells, List.getElem?_eq_getElem hd, List.map_cons]⟩

/-- The number with the digits of bins is the position of their combination. -/
theorem getElem?_combinations {digits : List Nat} {cells : List Bin}
    (hlen : digits.length = parts.length)
    (h : List.zipWith (fun (part : List Bin) d => part[d]?) parts digits = cells.map some) :
    (combinations parts)[number (weights 1 (parts.map List.length)) digits]?
      = some (Bin.join cells) := by
  induction parts generalizing digits cells with
  | nil =>
    rw [List.length_eq_zero_iff.mp hlen, number_nil]
    rw [List.zipWith_nil_left, eq_comm, List.map_eq_nil_iff] at h
    rw [h]
    rfl
  | cons part parts ih =>
    obtain ⟨d, ds, rfl⟩ := List.exists_cons_of_length_eq_add_one hlen
    rw [List.zipWith_cons_cons] at h
    obtain ⟨c, cs, rfl, hc, hcs⟩ := List.map_eq_cons_iff.mp h.symm
    have hrest := ih (Nat.succ.inj hlen) hcs.symm
    rw [List.map_cons, number_weights_cons, Bin.join_cons]
    exact getElem?_combinations_add hc.symm hrest

/-- The axes of a combination are those of all parts. -/
theorem axisCount_of_mem_combinations {α : Type} {bins : α → List Bin} {axisCount : α → Nat}
    {l : List α} (h : ∀ p ∈ l, ∀ b ∈ bins p, b.axisCount = axisCount p) :
    ∀ b ∈ combinations (l.map bins), b.axisCount = (l.map axisCount).sum := by
  induction l with
  | nil => simp [combinations, Bin.axisCount]
  | cons p l ih =>
    obtain ⟨hp, hl⟩ := List.forall_mem_cons.mp h
    intro b hb
    obtain ⟨a, ha, c, hc, rfl⟩ := mem_combinations_cons.mp hb
    rw [Bin.axisCount_concat, hp a ha, ih hl c hc, List.map_cons, List.sum_cons]

theorem forall_extents_of_mem_combinations {P : Extent → Prop}
    (h : ∀ part ∈ parts, ∀ a ∈ part, ∀ e ∈ a.extents, P e) :
    ∀ c ∈ combinations parts, ∀ e ∈ c.extents, P e := by
  induction parts with
  | nil => simp [combinations]
  | cons part parts ih =>
    obtain ⟨hpart, hparts⟩ := List.forall_mem_cons.mp h
    intro b hb e he
    obtain ⟨a, ha, c, hc, rfl⟩ := mem_combinations_cons.mp hb
    rcases List.mem_append.mp he with he | he
    · exact hpart a ha e he
    · exact ih hparts c hc e he

/-- The extents of the combinations are those of the bins they are made of, if there is a bin to
choose in every list. -/
theorem forall_extents_combinations {P : Extent → Prop} (hne : ∀ part ∈ parts, part ≠ []) :
    (∀ c ∈ combinations parts, ∀ e ∈ c.extents, P e) ↔
      ∀ part ∈ parts, ∀ a ∈ part, ∀ e ∈ a.extents, P e := by
  refine ⟨fun h => ?_, forall_extents_of_mem_combinations⟩
  induction parts with
  | nil => exact List.forall_mem_nil _
  | cons part parts ih =>
    obtain ⟨hpart, hparts⟩ := List.forall_mem_cons.mp hne
    have hrest : combinations parts ≠ [] := by
      rw [← List.length_pos_iff, length_combinations, List.prod_pos_iff_forall_pos_nat]
      simpa [List.length_pos_iff] using hparts
    obtain ⟨a₀, ha₀⟩ := List.exists_mem_of_ne_nil part hpart
    obtain ⟨c₀, hc₀⟩ := List.exists_mem_of_ne_nil _ hrest
    refine List.forall_mem_cons.mpr ⟨fun a ha e he => ?_, ih hparts fun c hc e he => ?_⟩
    · exact h _ (mem_combinations_cons.mpr ⟨a, ha, c₀, hc₀, rfl⟩) e (List.mem_append_left _ he)
    · exact h _ (mem_combinations_cons.mpr ⟨a₀, ha₀, c, hc, rfl⟩) e (List.mem_append_right _ he)

/-- The bins of the last lists vary slowest. -/
theorem combinations_append (parts others : List (List Bin)) :
    combinations (parts ++ others) =
      (combinations others).flatMap fun outer => (combinations parts).map (·.concat outer) := by
  induction parts with
  | nil =>
    have hnil : ∀ outer : Bin, (combinations []).map (·.concat outer) = [outer] := fun outer => rfl
    simp only [hnil, List.flatMap_singleton', List.nil_append]
  | cons part parts ih =>
    show (combinations (parts ++ others)).flatMap (fun outer => part.map (·.concat outer)) = _
    rw [ih, List.flatMap_assoc]
    congr 1
    funext outer
    show _ = ((combinations parts).flatMap fun inner => part.map (·.concat inner)).map _
    rw [List.map_flatMap, List.flatMap_map]
    simp only [List.map_map, Function.comp_def, Bin.concat, List.append_assoc]

/-- Combinations of combinations are combinations. -/
theorem combinations_group (left middle right : List (List Bin)) :
    combinations (left ++ combinations middle :: right) =
      combinations (left ++ (middle ++ right)) := by
  have hmiddle : combinations (combinations middle :: right) = combinations (middle ++ right) :=
    (combinations_append middle right).symm
  rw [combinations_append left, combinations_append left, hmiddle]

/-! ### Cells of a grid -/

variable {axes : List UniformAxis}

/-- The cells of an axis as bins. -/
def axisBins (axis : UniformAxis) : List Bin := Edges.bins axis.edges.toList

/-- The bin of a grid joins the cells that the digits choose on the axes. -/
theorem gridBin_eq_join {digits : List Nat} {cells : List Bin}
    (hlen : digits.length = axes.length)
    (h : List.zipWith (fun (part : List Bin) d => part[d]?) (axes.map axisBins) digits
      = cells.map some) : gridBin axes digits = Bin.join cells := by
  induction axes generalizing digits cells with
  | nil =>
    rw [List.map_nil, List.zipWith_nil_left, eq_comm, List.map_eq_nil_iff] at h
    rw [h]
    rfl
  | cons axis axes ih =>
    obtain ⟨d, ds, rfl⟩ := List.exists_cons_of_length_eq_add_one hlen
    rw [List.map_cons, List.zipWith_cons_cons] at h
    obtain ⟨b, bs, rfl, hb, hbs⟩ := List.map_eq_cons_iff.mp h.symm
    rw [axisBins, Edges.bins, List.getElem?_map, eq_comm, Option.map_eq_some_iff] at hb
    obtain ⟨c, hc, rfl⟩ := hb
    have hcell : axis.cell? d = some c := UniformAxis.cell?_eq_cells.trans hc
    rw [Bin.join_cons, ← ih (Nat.succ.inj hlen) hbs.symm]
    simp only [gridBin, List.zip_cons_cons, List.filterMap_cons, hcell]
    rfl

/-- A grid has all combinations of the cells on its axes as bins. -/
theorem map_gridBin_eq_combinations {counts : List Nat} (hpos : ∀ n ∈ counts, 0 < n)
    (hcounts : (axes.map axisBins).map List.length = counts) :
    (List.range counts.prod).map (fun i => gridBin axes (digits 1 counts i))
      = combinations (axes.map axisBins) := by
  apply List.ext_getElem?
  intro i
  rcases Nat.lt_or_ge i counts.prod with hlt | hge
  · have hdigits :
        List.Forall₂ (· < ·) (digits 1 counts i) ((axes.map axisBins).map List.length) := by
      rw [hcounts]
      exact digits_lt hpos
    have hlen : (digits 1 counts i).length = (axes.map axisBins).length := by
      rw [hdigits.length_eq, List.length_map]
    obtain ⟨cells, hcells⟩ := exists_cells hdigits
    have hget := getElem?_combinations hlen hcells
    have hi := number_digits hpos (t := 1) (by rwa [Nat.one_mul])
    rw [Nat.mod_one, Nat.zero_add] at hi
    rw [hcounts, hi] at hget
    rw [hget, List.getElem?_map, List.getElem?_range hlt]
    exact congrArg some (gridBin_eq_join (hlen.trans (List.length_map _)) hcells)
  · rw [List.getElem?_eq_none (by simpa using hge), List.getElem?_eq_none]
    rw [length_combinations, hcounts]
    exact hge

end Binning

end BoxBinning
