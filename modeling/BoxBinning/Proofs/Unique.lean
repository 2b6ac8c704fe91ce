import BoxBinning.Proofs.Order

/-!
# The sorted list of the distinct bins

`Bins.IsUnique` says what `Bins.unique` gives for bins with equally many axes and numbers as ends
(`Bins.exists_unique`): bins of the list with all of its keys, in strictly ascending order. Up to
equality of bins there is only one such list, whatever list of bins it is made from
(`Bins.IsUnique.forall₂_beq`).
-/

namespace BoxBinning

theorem forall₂_of_map_eq {α β : Type} {f : α → β} {R : α → α → Prop} {s t : List α}
    (h : s.map f = t.map f) (hR : ∀ a ∈ s, ∀ b ∈ t, f a = f b → R a b) : List.Forall₂ R s t := by
  induction s generalizing t with
  | nil =>
    obtain rfl := List.map_eq_nil_iff.mp h.symm
    exact .nil
  | cons a s ih =>
    obtain ⟨b, t, rfl, hb, ht⟩ := List.map_eq_cons_iff.mp h.symm
    refine .cons (hR a List.mem_cons_self b List.mem_cons_self hb.symm) (ih ht.symm ?_)
    intro c hc d hd
    exact hR c (List.mem_cons_of_mem a hc) d (List.mem_cons_of_mem b hd)

namespace Bins

variable {bins others s t : List Bin} {n : Nat}

/-- The members of `s` are bins of the list, one for every key and in ascending order. -/
structure IsUnique (bins s : List Bin) : Prop where
  /-- Nothing is added. -/
  mem_of_mem : ∀ b ∈ s, b ∈ bins
  /-- Every bin is represented. -/
  exists_key_eq : ∀ b ∈ bins, ∃ c ∈ s, c.key = b.key
  /-- The keys strictly ascend. -/
  ascending : s.Pairwise fun a b => a.key < b.key

/-- Bins with equally many axes and numbers as ends have a sorted list of distinct bins. -/
theorem exists_unique (hcount : ∀ b ∈ bins, b.axisCount = n) (hnum : ∀ b ∈ bins, b.IsNumeric) :
    ∃ s, unique bins = .ok s ∧ IsUnique bins s := by
  have hsame : requireSameAxes bins = .ok () := by
    refine requireSameAxes_eq_ok.mpr fun b hb => ?_
    exact forall_axisCount_eq (List.length_pos_of_mem hb) hcount b hb
  refine ⟨_, unique_eq_ok hsame, fun b hb => ?_, fun b hb => ?_,
    pairwise_eraseReps_sorted hcount hnum⟩
  · exact mem_sorted.mp ((eraseRepsBy_sublist (sorted bins)).subset hb)
  · exact exists_mem_eraseRepsBy (beq_iff_of_mem_sorted hnum) (mem_sorted.mpr hb)

namespace IsUnique

/-- Lists with the same members have the same distinct bins. -/
theorem of_mem_iff (h : IsUnique others s) (hmem : ∀ b, b ∈ others ↔ b ∈ bins) :
    IsUnique bins s :=
  ⟨fun b hb => (hmem b).mp (h.mem_of_mem b hb), fun b hb => h.exists_key_eq b ((hmem b).mpr hb),
    h.ascending⟩

theorem nodup_map_key (h : IsUnique bins s) : (s.map Bin.key).Nodup :=
  List.pairwise_map.mpr (h.ascending.imp ne_of_lt)

theorem mem_map_key (h : IsUnique bins s) {k : List (Int ×ₗ Int)} :
    k ∈ s.map Bin.key ↔ k ∈ bins.map Bin.key := by
  simp only [List.mem_map]
  constructor
  · rintro ⟨b, hb, rfl⟩
    exact ⟨b, h.mem_of_mem b hb, rfl⟩
  · rintro ⟨b, hb, rfl⟩
    exact h.exists_key_eq b hb

theorem length_le (h : IsUnique bins s) : s.length ≤ bins.length := by
  have hsub := h.nodup_map_key.subperm fun k hk => h.mem_map_key.mp hk
  simpa using hsub.length_le

theorem ne_nil (h : IsUnique bins s) (hne : bins ≠ []) : s ≠ [] := by
  obtain ⟨b, hb⟩ := List.exists_mem_of_ne_nil bins hne
  obtain ⟨c, hc, -⟩ := h.exists_key_eq b hb
  exact List.ne_nil_of_mem hc

/-- Every bin is equal to a member. -/
theorem exists_beq (h : IsUnique bins s) (hnum : ∀ b ∈ bins, b.IsNumeric) {b : Bin}
    (hb : b ∈ bins) : ∃ c ∈ s, (c == b) = true := by
  obtain ⟨c, hc, hkey⟩ := h.exists_key_eq b hb
  exact ⟨c, hc, (Bin.beq_iff_key_eq (hnum c (h.mem_of_mem c hc)) (hnum b hb)).mpr hkey⟩

/-- Lists of bins with the same keys have the same distinct bins in the same order. -/
theorem forall₂_beq (hs : IsUnique bins s) (ht : IsUnique others t)
    (hnum : ∀ b ∈ bins, b.IsNumeric) (hnum' : ∀ b ∈ others, b.IsNumeric)
    (hkeys : ∀ k, k ∈ bins.map Bin.key ↔ k ∈ others.map Bin.key) :
    List.Forall₂ (fun a b => (a == b) = true) s t := by
  have hmap : s.map Bin.key = t.map Bin.key := by
    have hs' := List.pairwise_map.mpr hs.ascending
    refine hs'.eq_of_mem_iff (List.pairwise_map.mpr ht.ascending) fun k => ?_
    rw [hs.mem_map_key, hkeys, ht.mem_map_key]
  refine forall₂_of_map_eq hmap fun a ha b hb hkey => ?_
  exact (Bin.beq_iff_key_eq (hnum a (hs.mem_of_mem a ha)) (hnum' b (ht.mem_of_mem b hb))).mpr hkey

end IsUnique

end Bins

end BoxBinning
