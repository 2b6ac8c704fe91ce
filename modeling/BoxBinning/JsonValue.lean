import BoxBinning.Bin.Basic

/-!
# Bins as JSON values

A list of bins is written as an array of arrays of objects `{"low": …, "high": …}`, one object for
each extent. Reading is more generous: an extent may have other fields beside the two, in any order,
or be an array of exactly two numbers. `Bin.ofJson? (Bin.toJson b)` gives back a bin with finite
ends; an end that is not finite has no number in this format and is written as `null`, which no
reader of bins accepts.
-/

namespace BoxBinning

/-- A JSON value. -/
inductive JsonValue where
  /-- The absence of a value. -/
  | null
  /-- A truth value. -/
  | bool (value : Bool)
  /-- A number, as the double nearest to it. -/
  | number (value : Float)
  /-- A text. -/
  | string (value : String)
  /-- Values in order. -/
  | array (items : List JsonValue)
  /-- Values by name. -/
  | object (fields : List (String × JsonValue))
deriving Inhabited

namespace JsonValue

/-- The number, if the value is one. -/
def number? : JsonValue → Option Float
  | number value => some value
  | _ => none

/-- The field of an object with the given name. -/
def field? (fields : List (String × JsonValue)) (name : String) : Option JsonValue :=
  fields.lookup name

/-- A finite number, and `null` for any other. -/
def ofFloat (x : Float) : JsonValue := if x.isFinite then number x else null

end JsonValue

/-- The object that stands for an extent. -/
def Extent.toJson (e : Extent) : JsonValue :=
  .object [("low", .ofFloat e.low), ("high", .ofFloat e.high)]

/-- The extent that an object with two ends or an array of two numbers stands for. -/
def Extent.ofJson? : JsonValue → Option Extent
  | .object fields => do
    let low ← JsonValue.field? fields "low"
    let high ← JsonValue.field? fields "high"
    return ⟨← low.number?, ← high.number?⟩
  | .array [low, high] => do return ⟨← low.number?, ← high.number?⟩
  | _ => none

/-- The array of the extents. -/
def Bin.toJson (b : Bin) : JsonValue := .array (b.extents.map Extent.toJson)

/-- The bin that an array of extents stands for. -/
def Bin.ofJson? : JsonValue → Option Bin
  | .array items => Bin.mk <$> items.mapM Extent.ofJson?
  | _ => none

/-- The array of the bins. -/
def Bins.toJson (bins : List Bin) : JsonValue := .array (bins.map Bin.toJson)

/-- The bins that an array stands for. -/
def Bins.ofJson? : JsonValue → Option (List Bin)
  | .array items => items.mapM Bin.ofJson?
  | _ => none

end BoxBinning
