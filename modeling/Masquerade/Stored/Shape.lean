/-
  Masquerade.Stored.Shape — HOW STORED VALUES ARE LAID OUT in JSON.

  Three layouts carry every stored value:

      record    — an object of fields, or an array of them in order;
      variant   — a record with a tag among its fields, or first in the
                  array, that names the variant;
      pair      — a variant whose only content is one value beside the tag.

  A reader passes over members it has no field for.  Inside a variant a tag
  may also be given as the variant's number.
-/
import Masquerade.Json.Basic

namespace Masquerade

/-! ## §1. Records -/

/-- The content of a record. -/
inductive Shape where
  /-- Fields by name. -/
  | named (members : List (String × Json))
  /-- Fields by place. -/
  | listed (items : List Json)

namespace Shape

/-- The shape of a value that is laid out as a record. -/
def ofJson? : Json → Option Shape
  | .obj members => some (.named members)
  | .arr items => some (.listed items)
  | _ => none

/-- The first `count` items, each of them present or missing. -/
def firstItems : (count : Nat) → List Json → List (Option Json)
  | 0, _ => []
  | count + 1, [] => none :: firstItems count []
  | count + 1, item :: rest => some item :: firstItems count rest

/-- The content of each field, present or missing, in the order of the
    fields. -/
def slots (fields : List String) : Shape → List (Option Json)
  | .named members => fields.map (Json.field? members)
  | .listed items => firstItems fields.length items

/-- Whether no item is left over. -/
def fits (fields : List String) : Shape → Bool
  | .named _ => true
  | .listed items => items.length ≤ fields.length

/-- The slots of a record that has no item left over. -/
def exactSlots? (fields : List String) (shape : Shape) : Option (List (Option Json)) :=
  if shape.fits fields then some (shape.slots fields) else none

end Shape

/-! ## §2. Tags -/

/-- Where a value stands: outermost, or inside a variant. -/
inductive Place where
  | outer | inner
  deriving DecidableEq, Repr

/-- The variant that a tag names.  Inside a variant its number will do. -/
def tagName? (place : Place) (variants : List String) : Json → Option String
  | .str name => if name ∈ variants then some name else none
  | .int n => if place = .inner ∧ 0 ≤ n then variants[n.toNat]? else none
  | _ => none

/-- The variant and the content of a value laid out as a variant. -/
def variant? (place : Place) (tag : String) (variants : List String) :
    Json → Option (String × Shape)
  | .obj members => do
    let name ← tagName? place variants (← Json.field? members tag)
    some (name, .named members)
  | .arr (first :: items) => do
    let name ← tagName? place variants first
    some (name, .listed items)
  | _ => none

/-- Whether a value stands for no content. -/
def isNothing (place : Place) : Json → Bool
  | .null => true
  | .obj [] => place = .inner
  | _ => false

/-- The variant that the tag of a pair names: its name, or an object whose
    one member has that name and no content. -/
def pairTagName? (place : Place) (variants : List String) : Json → Option String
  | .str name => if name ∈ variants then some name else none
  | .obj ((name, content) :: rest) =>
    if name ∈ variants ∧ rest.all (fun member => member.1 == name)
        ∧ isNothing place ((Json.field? rest name).getD content) then some name
    else none
  | _ => none

/-- The variant and the content of a value laid out as a pair. -/
def pair? (place : Place) (tag content : String) (variants : List String) :
    Json → Option (String × Json)
  | .obj members => do
    let name ← pairTagName? place variants (← Json.field? members tag)
    some (name, ← Json.field? members content)
  | .arr [first, value] => do
    let name ← pairTagName? place variants first
    some (name, value)
  | _ => none

/-! ## §3. Scalars -/

namespace Json

/-- A byte. -/
def byte? : Json → Option UInt8
  | .int n => if 0 ≤ n ∧ n < 256 then some (UInt8.ofNat n.toNat) else none
  | _ => none

/-- An unsigned integer below `2 ^ 16`. -/
def word16? : Json → Option Nat
  | .int n => if 0 ≤ n ∧ n < 65536 then some n.toNat else none
  | _ => none

/-- An unsigned 64-bit integer. -/
def word64? : Json → Option UInt64
  | .int n => if 0 ≤ n ∧ n < 0x10000000000000000 then some (UInt64.ofNat n.toNat) else none
  | _ => none

/-- A signed 64-bit integer. -/
def int64? : Json → Option Int64
  | .int n => if -0x8000000000000000 ≤ n ∧ n < 0x8000000000000000 then some (Int64.ofInt n) else none
  | _ => none

/-- A flag. -/
def bool? : Json → Option Bool
  | .bool b => some b
  | _ => none

/-- A text. -/
def text? : Json → Option String
  | .str text => some text
  | _ => none

/-- The items of an array. -/
def items? : Json → Option (List Json)
  | .arr items => some items
  | _ => none

/-- An optional field: missing and `null` both mean that there is nothing. -/
def optional? {α : Type} (read : Json → Option α) : Option Json → Option (Option α)
  | none => some none
  | some .null => some none
  | some value => (read value).map some

end Json

end Masquerade
