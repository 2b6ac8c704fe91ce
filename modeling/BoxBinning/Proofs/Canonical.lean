import BoxBinning.Proofs.Refusal
import BoxBinning.Proofs.Unique

/-!
# The canonical list of bins

`Bins.unique` puts a list of bins in a canonical form (`Bins.unique_canonical`): the bins that are
left strictly ascend, last axis first, and each bin of the list equals exactly one of them. Neither
the order of the list nor repetitions have an influence on them, and a canonical list is left as it
is. Only lists of bins with different numbers of axes have no canonical form, and it is the first
bin that does not fit to the first one of all that is named.
-/

namespace BoxBinning

/-- What equals something consists of numbers. -/
theorem Bin.isNumeric_of_beq {a b : Bin} (h : (a == b) = true) : b.IsNumeric := by
  intro f hf
  obtain ⟨e, -, hef⟩ := exists_mem_of_forall₂ (Bin.forall₂_extents_of_beq h).flip hf
  rw [Extent.beq_iff, Binary64.beq_iff, Binary64.beq_iff] at hef
  exact ⟨hef.1.2.1, hef.2.2.1⟩

namespace Bins

variable {bins others s t : List Bin} {e : BinningError} {b : Bin} {n : Nat}

/-! ### Refusals -/

theorem unique_eq_error_iff : unique bins = .error e ↔
    ∃ b, IsFirst (fun c => c.axisCount ≠ axisCount bins) bins b ∧
      e = .axisCountMismatch (axisCount bins) b.axisCount := by
  rw [← requireSameAxes_eq_error, unique, bind_eq_error]
  simp [pure, Except.pure]

theorem exists_unique_iff : (∃ s, unique bins = .ok s) ↔
    ∀ b ∈ bins, b.axisCount = axisCount bins := by
  rw [← requireSameAxes_eq_ok]
  constructor
  · rintro ⟨s, h⟩
    obtain ⟨⟨⟩, hsame, -⟩ := bind_eq_ok.mp h
    exact hsame
  · intro h
    exact ⟨_, unique_eq_ok h⟩

/-- Bins with equally many axes have as many as the first one. -/
theorem forall_axisCount_eq_iff : (∀ b ∈ bins, b.axisCount = axisCount bins) ↔
    ∀ a ∈ bins, ∀ b ∈ bins, a.axisCount = b.axisCount := by
  constructor
  · intro h a ha b hb
    exact (h a ha).trans (h b hb).symm
  · intro h b hb
    exact forall_axisCount_eq (List.length_pos_of_mem hb) (fun a ha => h a ha b hb) b hb

/-! ### Canonical lists -/

/-- Every bin of one list equals a bin of the other. -/
def SameBins (bins others : List Bin) : Prop :=
  (∀ a ∈ bins, ∃ b ∈ others, (a == b) = true) ∧ ∀ b ∈ others, ∃ a ∈ bins, (a == b) = true

namespace IsUnique

/-- Only one place in the list has the key of a bin. -/
theorem existsUnique_beq (h : IsUnique bins s) (hnum : ∀ b ∈ bins, b.IsNumeric) (hb : b ∈ bins) :
    ∃! i : Nat, ∃ c, s[i]? = some c ∧ (c == b) = true := by
  obtain ⟨c, hc, hcb⟩ := h.exists_beq hnum hb
  obtain ⟨i, hi⟩ := List.mem_iff_getElem?.mp hc
  refine ⟨i, ⟨c, hi, hcb⟩, ?_⟩
  rintro j ⟨d, hj, hdb⟩
  have hkey : ∀ d ∈ s, (d == b) = true → d.key = b.key := fun d hd hdb =>
    (Bin.beq_iff_key_eq (hnum d (h.mem_of_mem d hd)) (hnum b hb)).mp hdb
  have hkeys : (s.map Bin.key)[j]? = (s.map Bin.key)[i]? := by
    rw [List.getElem?_map, List.getElem?_map, hi, hj, Option.map_some, Option.map_some,
      hkey c hc hcb, hkey d (List.mem_of_getElem? hj) hdb]
  have hlt : j < (s.map Bin.key).length := by
    rw [List.length_map]
    exact (List.getElem?_eq_some_iff.mp hj).1
  exact (List.getElem?_inj hlt h.nodup_map_key).mp hkeys

/-- A list that ascends strictly is its own list of distinct bins. -/
theorem eq_of_isUnique (h : IsUnique bins s) (ht : IsUnique s t) : t = s := by
  have hmap : t.map Bin.key = s.map Bin.key := by
    have ht' := List.pairwise_map.mpr ht.ascending
    exact ht'.eq_of_mem_iff (List.pairwise_map.mpr h.ascending) fun k => ht.mem_map_key
  have heq := forall₂_of_map_eq hmap fun a ha b hb hkey =>
    List.inj_on_of_nodup_map h.nodup_map_key (ht.mem_of_mem a ha) hb hkey
  rwa [List.forall₂_eq_eq_eq] at heq

/-- Strictly ascending keys are those of bins that strictly ascend, last axis first. -/
theorem pairwise_compare? (h : IsUnique bins s) (hnum : ∀ b ∈ bins, b.IsNumeric)
    (hcount : ∀ b ∈ bins, b.axisCount = n) : s.Pairwise fun a b => a.compare? b = some .lt := by
  refine h.ascending.imp_of_mem fun {a b} ha hb hlt => ?_
  have ha := h.mem_of_mem a ha
  have hb := h.mem_of_mem b hb
  have hsame : a.axisCount = b.axisCount := (hcount a ha).trans (hcount b hb).symm
  have horder := Bin.order_compares hsame (hnum a ha) (hnum b hb)
  rw [Bin.compare?, if_pos hsame, horder.eq_lt.mpr hlt]

end IsUnique

theorem SameBins.mem_map_key (h : SameBins bins others) (hnum : ∀ b ∈ bins, b.IsNumeric)
    (k : List (Int ×ₗ Int)) : k ∈ bins.map Bin.key ↔ k ∈ others.map Bin.key := by
  obtain ⟨hbins, hothers⟩ := h
  rw [List.mem_map, List.mem_map]
  constructor
  · rintro ⟨a, ha, rfl⟩
    obtain ⟨b, hb, hab⟩ := hbins a ha
    exact ⟨b, hb, ((Bin.beq_iff_key_eq (hnum a ha) (Bin.isNumeric_of_beq hab)).mp hab).symm⟩
  · rintro ⟨b, hb, rfl⟩
    obtain ⟨a, ha, hab⟩ := hothers b hb
    exact ⟨a, ha, (Bin.beq_iff_key_eq (hnum a ha) (Bin.isNumeric_of_beq hab)).mp hab⟩

/-- Bins of numbers have a canonical list if and only if they have equally many axes, and otherwise
the first bin with another number of axes than the first one is named. The canonical list ascends
strictly, last axis first, takes its bins from the list and has exactly one that equals a given bin
of the list. It is its own canonical list, it does not change when bins are rearranged, repeated or
replaced by equal ones, and it has as many bins as the list has distinct ones. -/
theorem unique_canonical (hnum : ∀ b ∈ bins, b.IsNumeric) :
    ((∃ s, unique bins = .ok s) ↔ ∀ a ∈ bins, ∀ b ∈ bins, a.axisCount = b.axisCount) ∧
    (∀ e, unique bins = .error e ↔
      ∃ b, IsFirst (fun c => c.axisCount ≠ axisCount bins) bins b ∧
        e = .axisCountMismatch (axisCount bins) b.axisCount) ∧
    ∀ s, unique bins = .ok s →
      (s.Pairwise fun a b => a.compare? b = some .lt) ∧
      (s.Pairwise fun a b => a.key < b.key) ∧
      (∀ b ∈ s, b ∈ bins) ∧
      (∀ b ∈ bins, ∃! i : Nat, ∃ c, s[i]? = some c ∧ (c == b) = true) ∧
      unique s = .ok s ∧
      (∀ others, SameBins bins others →
        ∃ t, unique others = .ok t ∧ List.Forall₂ (fun a b => (a == b) = true) s t) ∧
      s.length = bins.eraseDups.length := by
  refine ⟨exists_unique_iff.trans forall_axisCount_eq_iff, fun e => unique_eq_error_iff,
    fun s hs => ?_⟩
  have hsame := exists_unique_iff.mp ⟨s, hs⟩
  obtain ⟨s', hs', hunique⟩ := exists_unique hsame hnum
  obtain rfl : s' = s := Except.ok.inj (hs'.symm.trans hs)
  refine ⟨hunique.pairwise_compare? hnum hsame, hunique.ascending, hunique.mem_of_mem,
    fun b hb => hunique.existsUnique_beq hnum hb, ?_, ?_, ?_⟩
  · obtain ⟨t, ht, hagain⟩ := exists_unique (fun b hb => hsame b (hunique.mem_of_mem b hb))
      fun b hb => hnum b (hunique.mem_of_mem b hb)
    rw [ht, hunique.eq_of_isUnique hagain]
  · intro others hothers
    have hnum' : ∀ b ∈ others, b.IsNumeric := by
      intro b hb
      obtain ⟨a, -, hab⟩ := hothers.2 b hb
      exact Bin.isNumeric_of_beq hab
    have hsame' : ∀ b ∈ others, b.axisCount = axisCount bins := by
      intro b hb
      obtain ⟨a, ha, hab⟩ := hothers.2 b hb
      rw [← Bin.axisCount_of_beq hab, hsame a ha]
    obtain ⟨t, ht, hunique'⟩ := exists_unique hsame' hnum'
    exact ⟨t, ht, hunique.forall₂_beq hunique' hnum hnum' (hothers.mem_map_key hnum)⟩
  · rw [unique_eq_ok (requireSameAxes_eq_ok.mpr hsame)] at hs
    rw [← Except.ok.inj hs, length_eraseReps_sorted hsame hnum]

/-- Three bins, of which two differ in the sign of a zero only and are one. -/
theorem unique_canonical_zeros :
    ∃ s, unique [⟨[⟨0.0, 1.0⟩, ⟨1.0, 2.0⟩]⟩, ⟨[⟨5.0, 6.0⟩, ⟨0.0, 1.0⟩]⟩,
        ⟨[⟨-0.0, 1.0⟩, ⟨1.0, 2.0⟩]⟩] = .ok s ∧ s.length = 2 ∧
      (s.Pairwise fun a b => a.compare? b = some .lt) ∧ unique s = .ok s := by
  have hnum : ∀ b ∈ [(⟨[⟨0.0, 1.0⟩, ⟨1.0, 2.0⟩]⟩ : Bin), ⟨[⟨5.0, 6.0⟩, ⟨0.0, 1.0⟩]⟩,
      ⟨[⟨-0.0, 1.0⟩, ⟨1.0, 2.0⟩]⟩], b.IsNumeric := by
    unfold Bin.IsNumeric Extent.IsNumeric
    decide
  obtain ⟨hiff, -, hcanonical⟩ := unique_canonical hnum
  obtain ⟨s, hs⟩ := hiff.mpr (by decide)
  obtain ⟨hascending, -, -, -, hagain, -, hlength⟩ := hcanonical s hs
  exact ⟨s, hs, hlength.trans (by decide), hascending, hagain⟩

end Bins

end BoxBinning
