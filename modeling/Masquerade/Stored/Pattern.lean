/-
  Masquerade.Stored.Pattern — THE STORED FORM of patterns.

  Values, elements, conditions, parts, descriptions and instances, each
  with a writer and a reader.  Writers produce one layout, with the fields
  in a fixed order; readers take every layout.

  Main results:
    * `Value.ofJson?_toJson` — a written value reads back.
-/
import Masquerade.Pattern.Script
import Masquerade.Stored.Shape

namespace Masquerade

/-! ## §1. Values -/

/-- The stored form of a value. -/
def Value.toJson (v : Value) : Json :=
  .obj [("type", .str v.kind.name), ("value",
    match v with
    | .byte b => .int b.toNat
    | .int n => .int n.toInt
    | .flag b => .bool b)]

/-- Read a value. -/
def Value.ofJson? (place : Place) (json : Json) : Option Value := do
  let (kind, content) ← pair? place "type" "value" ["byte", "int", "bool"] json
  match kind with
  | "byte" => content.byte?.map .byte
  | "int" => content.int64?.map .int
  | _ => content.bool?.map .flag

theorem Json.byte?_toNat (b : UInt8) : (Json.int b.toNat).byte? = some b := by
  have h := b.toNat_lt
  have hlt : (b.toNat : Int) < 256 := by omega
  simp only [Json.byte?]
  rw [if_pos ⟨Int.natCast_nonneg _, hlt⟩]
  simp

theorem Json.int64?_toInt (n : Int64) : (Json.int n.toInt).int64? = some n := by
  have hlo : -0x8000000000000000 ≤ n.toInt := n.le_toInt
  have hhi : n.toInt < 0x8000000000000000 := n.toInt_lt
  simp only [Json.int64?]
  rw [if_pos ⟨hlo, hhi⟩]
  simp

/-- A written value reads back. -/
theorem Value.ofJson?_toJson (place : Place) (v : Value) : ofJson? place v.toJson = some v := by
  cases v with
  | byte b =>
    simpa [ofJson?, toJson, pair?, pairTagName?, Json.field?, Value.kind, Value.Kind.name]
      using Json.byte?_toNat b
  | int n =>
    simpa [ofJson?, toJson, pair?, pairTagName?, Json.field?, Value.kind, Value.Kind.name]
      using Json.int64?_toInt n
  | flag b =>
    simp [ofJson?, toJson, pair?, pairTagName?, Json.field?, Value.kind, Value.Kind.name,
      Json.bool?]

/-! ## §2. Elements -/

namespace Element

/-- The stored names of the variants. -/
def variants : List String :=
  ["fixed", "enumerated", "random", "random_enumerated", "semantic_producer",
   "semantic_consumer"]

/-- The stored form of a set of bytes. -/
def optionsJson (options : List UInt8) : Json :=
  .arr (options.map fun b => .int b.toNat)

/-- The stored form of an element. -/
def toJson : Element → Json
  | .fixed byte => .obj [("type", .str "fixed"), ("byte", .int byte.toNat)]
  | .enumerated options => .obj [("type", .str "enumerated"), ("options", optionsJson options)]
  | .random => .obj [("type", .str "random")]
  | .randomEnumerated options =>
    .obj [("type", .str "random_enumerated"), ("options", optionsJson options)]
  | .producer name value =>
    .obj [("type", .str "semantic_producer"), ("name", .str name), ("value", value.toJson)]
  | .consumer name => .obj [("type", .str "semantic_consumer"), ("name", .str name)]

/-- A set of bytes. -/
def options? (json : Json) : Option (List UInt8) := do
  (← json.items?).mapM Json.byte?

/-- Read an element with at most `fuel` producers around each other. -/
def read? : (fuel : Nat) → Json → Option Element
  | 0, _ => none
  | fuel + 1, json => do
    let (kind, shape) ← variant? .inner "type" variants json
    match kind with
    | "fixed" =>
      match ← shape.exactSlots? ["byte"] with
      | [some byte] => byte.byte?.map .fixed
      | _ => none
    | "enumerated" =>
      match ← shape.exactSlots? ["options"] with
      | [some options] => (options? options).map .enumerated
      | _ => none
    | "random_enumerated" =>
      match ← shape.exactSlots? ["options"] with
      | [some options] => (options? options).map .randomEnumerated
      | _ => none
    | "semantic_producer" =>
      match ← shape.exactSlots? ["name", "value"] with
      | [some name, some value] => do some (.producer (← name.text?) (← read? fuel value))
      | _ => none
    | "semantic_consumer" =>
      match ← shape.exactSlots? ["name"] with
      | [some name] => name.text?.map .consumer
      | _ => none
    | _ => if shape.fits [] then some .random else none

/-- **Read an element**; elements stand inside parts. -/
def ofJson? (json : Json) : Option Element := read? json.nesting json

end Element

/-! ## §3. Conditions and length sources -/

/-- The stored form of a condition. -/
def Condition.toJson : Condition → Json
  | .equals expected => .obj [("op", .str "equals"), ("value", expected.toJson)]
  | .greater bound => .obj [("op", .str "greater"), ("value", .int bound.toInt)]
  | .lesser bound => .obj [("op", .str "lesser"), ("value", .int bound.toInt)]

/-- Read a condition. -/
def Condition.ofJson? (place : Place) (json : Json) : Option Condition := do
  let (op, content) ← pair? place "op" "value" ["equals", "greater", "lesser"] json
  match op with
  | "equals" => (Value.ofJson? place content).map .equals
  | "greater" => content.int64?.map .greater
  | _ => content.int64?.map .lesser

/-- The stored form of a length source. -/
def LengthSource.toJson : LengthSource → Json
  | .argument => .obj [("kind", .str "args")]
  | .named name => .obj [("kind", .str "length"), ("name", .str name)]
  | .seeded name => .obj [("kind", .str "seed"), ("name", .str name)]

/-- Read a length source. -/
def LengthSource.ofJson? (json : Json) : Option LengthSource := do
  let (kind, shape) ← variant? .inner "kind" ["args", "length", "seed"] json
  match kind with
  | "length" =>
    match ← shape.exactSlots? ["name"] with
    | [some name] => name.text?.map .named
    | _ => none
  | "seed" =>
    match ← shape.exactSlots? ["name"] with
    | [some name] => name.text?.map .seeded
    | _ => none
  | _ => if shape.fits [] then some .argument else none

/-! ## §4. Parts -/

namespace Part

/-- The stored names of the variants. -/
def variants : List String := ["bytes", "timed", "dynamic", "optional", "empty"]

/-- The stored form of a run. -/
def itemsJson (items : List Element) : Json := .arr (items.map Element.toJson)

/-- The stored form of a part. -/
def toJson : Part → Json
  | .bytes items => .obj [("type", .str "bytes"), ("items", itemsJson items)]
  | .timed milliseconds items =>
    .obj [("type", .str "timed"), ("milliseconds", .int milliseconds.toNat),
      ("items", itemsJson items)]
  | .dynamic length item =>
    .obj [("type", .str "dynamic"), ("kind", length.toJson), ("item", item.toJson)]
  | .optional name condition item =>
    .obj [("type", .str "optional"), ("name", .str name), ("condition", condition.toJson),
      ("item", item.toJson)]
  | .empty => .obj [("type", .str "empty")]

/-- A run of elements. -/
def items? (json : Json) : Option (List Element) := do
  (← json.items?).mapM Element.ofJson?

/-- Read a part with at most `fuel` optional parts around each other. -/
def read? : (fuel : Nat) → Place → Json → Option Part
  | 0, _, _ => none
  | fuel + 1, place, json => do
    let (kind, shape) ← variant? place "type" variants json
    match kind with
    | "bytes" =>
      match ← shape.exactSlots? ["items"] with
      | [some items] => (items? items).map .bytes
      | _ => none
    | "timed" =>
      match ← shape.exactSlots? ["milliseconds", "items"] with
      | [some milliseconds, some items] => do
        some (.timed (← milliseconds.word64?) (← items? items))
      | _ => none
    | "dynamic" =>
      match ← shape.exactSlots? ["kind", "item"] with
      | [some length, some item] => do
        some (.dynamic (← LengthSource.ofJson? length) (← Element.ofJson? item))
      | _ => none
    | "optional" =>
      match ← shape.exactSlots? ["name", "condition", "item"] with
      | [some name, some condition, some item] => do
        some (.optional (← name.text?) (← Condition.ofJson? .inner condition)
          (← read? fuel .inner item))
      | _ => none
    | _ => if shape.fits [] then some .empty else none

/-- **Read a part.** -/
def ofJson? (place : Place) (json : Json) : Option Part := read? json.nesting place json

end Part

/-! ## §5. Descriptions and instances -/

/-- The stored form of a description. -/
def Description.toJson (description : Description) : Json :=
  .obj [("parts", .arr (description.parts.map Part.toJson))]

/-- Read a description. -/
def Description.ofJson? (place : Place) (json : Json) : Option Description := do
  match ← (← Shape.ofJson? json).exactSlots? ["parts"] with
  | [some parts] => do
    some ⟨← (← parts.items?).mapM (Part.ofJson? place)⟩
  | _ => none

/-- The stored form of an argument queue. -/
def Arguments.toJson (args : Arguments) : Json := .arr (args.map Value.toJson)

/-- Read an argument queue. -/
def Arguments.ofJson? (place : Place) (json : Json) : Option Arguments := do
  (← json.items?).mapM (Value.ofJson? place)

/-- The stored form of an instance. -/
def Instance.toJson (inst : Instance) : Json :=
  .obj [("description", inst.description.toJson), ("args", inst.args.toJson)]

/-- Read an instance. -/
def Instance.ofJson? (place : Place) (json : Json) : Option Instance := do
  match ← (← Shape.ofJson? json).exactSlots? ["description", "args"] with
  | [some description, some args] => do
    some ⟨← Description.ofJson? place description, ← Arguments.ofJson? place args⟩
  | _ => none

end Masquerade
