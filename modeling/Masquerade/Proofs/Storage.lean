/-
  Masquerade.Proofs.Storage — STORED VALUES ARE READ BACK AS WRITTEN.

  Every kind of stored value has one layout that is written and several that
  are read.  A pair of writer and reader is lawful if what is written has a
  text of its own and reads back, and if a value never nests deeper as
  written than it did in the layout it was read from.

  Main results:
    * `Stored.Lawful.list` — a run of stored values.
    * `Part.lawful`, `Description.lawful`, `Instance.lawful` — patterns.
-/
import Masquerade.Proofs.Printing
import Masquerade.Stored.Config

namespace Masquerade

/-! ## §1. Writers and readers -/

/-- **A lawful pair of writer and reader** of the valid values of a kind. -/
structure Stored.Lawful {α : Type} (valid : α → Prop) (write : α → Json)
    (read : Json → Option α) : Prop where
  /-- What is written has a text of its own. -/
  plain : ∀ a, (write a).Plain
  /-- What is written reads back. -/
  reads : ∀ {a}, valid a → read (write a) = some a
  /-- What is read is valid, and nests no deeper as written. -/
  shallow : ∀ {json a}, read json = some a → valid a ∧ (write a).nesting ≤ json.nesting

/-- Every value of a kind. -/
def Stored.Any {α : Type} (_ : α) : Prop := True

namespace Stored

section

variable {α : Type} {valid : α → Prop} {write : α → Json} {read : Json → Option α}

theorem mapM_map_write (hreads : ∀ {a}, valid a → read (write a) = some a) {as : List α}
    (h : ∀ a ∈ as, valid a) : (as.map write).mapM read = some as := by
  induction as with
  | nil => rfl
  | cons a as ih =>
      obtain ⟨ha, hmore⟩ := List.forall_mem_cons.mp h
      rw [List.map_cons, List.mapM_cons, hreads ha, ih hmore]
      rfl

theorem mem_of_mapM {items : List Json} {as : List α} (h : items.mapM read = some as) :
    ∀ a ∈ as, ∃ item ∈ items, read item = some a := by
  induction items generalizing as with
  | nil =>
      obtain rfl := Option.some.inj h
      exact nofun
  | cons item items ih =>
      rw [List.mapM_cons] at h
      simp only [bind, Option.bind_eq_some_iff] at h
      obtain ⟨a, ha, more, hmore, heq⟩ := h
      obtain rfl := Option.some.inj heq
      intro b hb
      rcases List.mem_cons.mp hb with rfl | hb
      · exact ⟨item, List.mem_cons_self, ha⟩
      · obtain ⟨item', hmem, hread⟩ := ih hmore b hb
        exact ⟨item', List.mem_cons_of_mem _ hmem, hread⟩

/-- **A run of stored values** is stored as an array of them. -/
theorem Lawful.list (h : Lawful valid write read) :
    Lawful (fun as => ∀ a ∈ as, valid a) (fun as => .arr (as.map write))
      (fun json => do (← json.items?).mapM read) where
  plain as := by
    refine .arr ?_
    intro item hitem
    obtain ⟨a, -, rfl⟩ := List.mem_map.mp hitem
    exact h.plain a
  reads hvalid := mapM_map_write h.reads hvalid
  shallow := by
    intro json as hread
    simp only [bind, Option.bind_eq_some_iff] at hread
    obtain ⟨items, hitems, hread⟩ := hread
    cases json with
    | arr items' =>
        obtain rfl := Option.some.inj hitems
        have hmem := mem_of_mapM hread
        refine ⟨?_, Nat.succ_le_succ (Json.nestingItems_le_iff.mpr ?_)⟩
        · intro a ha
          obtain ⟨item, -, hitem⟩ := hmem a ha
          exact (h.shallow hitem).1
        · intro written hwritten
          obtain ⟨a, ha, rfl⟩ := List.mem_map.mp hwritten
          obtain ⟨item, hin, hitem⟩ := hmem a ha
          exact Nat.le_trans (h.shallow hitem).2
            (Json.nestingItems_le_iff.mp (Nat.le_refl _) item hin)
    | _ => cases hitems

/-- **What may be absent** is stored as nothing, or as itself. -/
theorem Lawful.optional (h : Lawful valid write read) (hnull : ∀ a, write a ≠ .null) :
    Lawful (fun a? => ∀ a ∈ a?, valid a) (optionJson write) (fun json => Json.optional? read (some json)) where
  plain a? := by
    cases a? with
    | none => exact .null
    | some a => exact h.plain a
  reads := by
    intro a? hvalid
    cases a? with
    | none => rfl
    | some a =>
        have hread := h.reads (hvalid a rfl)
        show Json.optional? read (some (write a)) = _
        cases hwrite : write a with
        | null => exact absurd hwrite (hnull a)
        | _ =>
            rw [hwrite] at hread
            simp only [Json.optional?, hread]
            rfl
  shallow := by
    intro json a? hread
    cases json with
    | null =>
        obtain rfl := Option.some.inj hread
        exact ⟨nofun, Nat.le_refl _⟩
    | _ =>
        obtain ⟨a, ha, rfl⟩ := Option.map_eq_some_iff.mp hread
        refine ⟨?_, (h.shallow ha).2⟩
        intro a' ha'
        rw [← Option.some.inj ha']
        exact (h.shallow ha).1

end

end Stored

/-! ## §2. Shapes -/

namespace Shape

/-- **All content of a shape nests less than this deep.** -/
def Below (shape : Shape) (n : Nat) : Prop :=
  ∀ fields value, some value ∈ shape.slots fields → value.nesting < n

theorem mem_of_mem_firstItems {count : Nat} {items : List Json} {value : Json}
    (h : some value ∈ firstItems count items) : value ∈ items := by
  induction count generalizing items with
  | zero => cases h
  | succ count ih =>
      cases items with
      | nil =>
          rcases List.mem_cons.mp h with h | h
          · cases h
          · exact absurd (ih h) List.not_mem_nil
      | cons item items =>
          rcases List.mem_cons.mp h with h | h
          · rw [Option.some.inj h]
            exact List.mem_cons_self
          · exact List.mem_cons_of_mem _ (ih h)

theorem nesting_lt_of_field? {members : List (String × Json)} {name : String} {value : Json}
    (h : Json.field? members name = some value) : value.nesting < (Json.obj members).nesting := by
  obtain ⟨member, hfind, rfl⟩ := Option.map_eq_some_iff.mp h
  have hmem := List.mem_reverse.mp (List.mem_of_find?_eq_some hfind)
  exact Nat.lt_succ_of_le (Json.nestingMembers_le_iff.mp (Nat.le_refl _) member hmem)

theorem nesting_lt_of_mem {items : List Json} {value : Json} (h : value ∈ items) :
    value.nesting < (Json.arr items).nesting :=
  Nat.lt_succ_of_le (Json.nestingItems_le_iff.mp (Nat.le_refl _) value h)

theorem below_named (members : List (String × Json)) :
    (named members).Below (Json.obj members).nesting := by
  intro fields value hvalue
  obtain ⟨name, -, hfield⟩ := List.mem_map.mp hvalue
  exact nesting_lt_of_field? hfield

theorem below_listed (items : List Json) : (listed items).Below (Json.arr items).nesting := by
  intro fields value hvalue
  exact nesting_lt_of_mem (mem_of_mem_firstItems hvalue)

theorem Below.mono {shape : Shape} {m n : Nat} (h : shape.Below m) (hle : m ≤ n) : shape.Below n :=
  fun fields value hvalue => Nat.lt_of_lt_of_le (h fields value hvalue) hle

/-- What stands in a slot of a shape nests less deep. -/
theorem Below.slot {shape : Shape} {n : Nat} {fields : List String} {slots : List (Option Json)}
    {value : Json} (h : shape.Below n) (hslots : shape.exactSlots? fields = some slots)
    (hvalue : some value ∈ slots) : value.nesting < n := by
  unfold exactSlots? at hslots
  split at hslots
  · obtain rfl := Option.some.inj hslots
    exact h fields value hvalue
  · cases hslots

theorem below_ofJson? {json : Json} {shape : Shape} (h : ofJson? json = some shape) :
    shape.Below json.nesting ∧ 0 < json.nesting := by
  cases json with
  | obj members =>
      obtain rfl := Option.some.inj h
      exact ⟨below_named members, Nat.succ_pos _⟩
  | arr items =>
      obtain rfl := Option.some.inj h
      exact ⟨below_listed items, Nat.succ_pos _⟩
  | _ => cases h

theorem below_variant? {place : Place} {tag kind : String} {variants : List String} {json : Json}
    {shape : Shape} (h : variant? place tag variants json = some (kind, shape)) :
    shape.Below json.nesting ∧ 0 < json.nesting := by
  unfold variant? at h
  split at h
  · simp only [bind, Option.bind_eq_some_iff] at h
    obtain ⟨_, -, _, -, heq⟩ := h
    cases heq
    exact ⟨below_named _, Nat.succ_pos _⟩
  · simp only [bind, Option.bind_eq_some_iff] at h
    obtain ⟨_, -, heq⟩ := h
    cases heq
    refine ⟨(below_listed _).mono ?_, Nat.succ_pos _⟩
    exact Nat.succ_le_succ (Nat.le_max_right _ _)
  · cases h

theorem nesting_lt_of_pair? {place : Place} {tag content kind : String} {variants : List String}
    {json value : Json} (h : pair? place tag content variants json = some (kind, value)) :
    value.nesting < json.nesting := by
  unfold pair? at h
  split at h
  · simp only [bind, Option.bind_eq_some_iff] at h
    obtain ⟨_, -, _, -, _, hfield, heq⟩ := h
    cases heq
    exact nesting_lt_of_field? hfield
  · simp only [bind, Option.bind_eq_some_iff] at h
    obtain ⟨_, -, heq⟩ := h
    cases heq
    exact nesting_lt_of_mem (List.mem_cons_of_mem _ List.mem_cons_self)
  · cases h

end Shape

/-! ## §3. Values, conditions and length sources -/

theorem Json.plain_byte (b : UInt8) : (Json.int b.toNat).Plain := by
  have h := b.toNat_lt
  refine .int ?_ ?_
  · unfold minInt
    omega
  · unfold maxInt
    omega

theorem Json.plain_word (n : UInt64) : (Json.int n.toNat).Plain := by
  have h := n.toNat_lt
  refine .int ?_ ?_
  · unfold minInt
    omega
  · unfold maxInt
    omega

theorem Json.plain_int64 (n : Int64) : (Json.int n.toInt).Plain := by
  have hlo := n.le_toInt
  have hhi := n.toInt_lt
  refine .int ?_ ?_
  · unfold minInt
    omega
  · unfold maxInt
    omega

/-- A tagged object is plain if its other members are. -/
theorem Json.plain_tagged (tag name : String) {members : List (String × Json)}
    (h : ∀ member ∈ members, member.2.Plain) : (Json.obj ((tag, .str name) :: members)).Plain :=
  .obj (List.forall_mem_cons.mpr ⟨.str name, h⟩)

/-- What is enough for an object leaves something for its members. -/
theorem Json.exists_succ_of_obj {members : List (String × Json)} {fuel : Nat}
    (h : (Json.obj members).nesting ≤ fuel) : ∃ n, fuel = n + 1 := by
  rw [Json.nesting] at h
  exact ⟨fuel - 1, by omega⟩

open Stored (Lawful Any)

theorem Value.nesting_toJson (v : Value) : v.toJson.nesting = 1 := by
  cases v <;> rfl

theorem Value.lawful (place : Place) : Lawful Any Value.toJson (Value.ofJson? place) where
  plain v := by
    refine Json.plain_tagged _ _ (List.forall_mem_singleton.mpr ?_)
    cases v with
    | byte b => exact Json.plain_byte b
    | int n => exact Json.plain_int64 n
    | flag b => exact .bool b
  reads _ := Value.ofJson?_toJson place _
  shallow := by
    intro json v h
    simp only [Value.ofJson?, bind, Option.bind_eq_some_iff] at h
    obtain ⟨⟨kind, content⟩, hpair, -⟩ := h
    rw [Value.nesting_toJson]
    exact ⟨trivial, Nat.lt_of_le_of_lt (Nat.zero_le _) (Shape.nesting_lt_of_pair? hpair)⟩

theorem Condition.lawful (place : Place) :
    Lawful Any Condition.toJson (Condition.ofJson? place) where
  plain condition := by
    cases condition with
    | equals expected =>
        exact Json.plain_tagged _ _ (List.forall_mem_singleton.mpr ((Value.lawful place).plain _))
    | greater bound =>
        exact Json.plain_tagged _ _ (List.forall_mem_singleton.mpr (Json.plain_int64 bound))
    | lesser bound =>
        exact Json.plain_tagged _ _ (List.forall_mem_singleton.mpr (Json.plain_int64 bound))
  reads := by
    intro condition _
    cases condition with
    | equals expected =>
        simp [Condition.ofJson?, Condition.toJson, pair?, pairTagName?, Json.field?,
          Value.ofJson?_toJson]
    | greater bound =>
        simp [Condition.ofJson?, Condition.toJson, pair?, pairTagName?, Json.field?,
          Json.int64?_toInt]
    | lesser bound =>
        simp [Condition.ofJson?, Condition.toJson, pair?, pairTagName?, Json.field?,
          Json.int64?_toInt]
  shallow := by
    intro json condition h
    refine ⟨trivial, ?_⟩
    simp only [Condition.ofJson?, bind, Option.bind_eq_some_iff] at h
    obtain ⟨⟨op, content⟩, hpair, h⟩ := h
    have hcontent := Shape.nesting_lt_of_pair? hpair
    dsimp only at h
    split at h
    · obtain ⟨expected, hexpected, rfl⟩ := Option.map_eq_some_iff.mp h
      have hvalue := ((Value.lawful place).shallow hexpected).2
      simp only [Condition.toJson, Json.nesting, Json.nestingMembers, Json.nestingMember]
      omega
    · obtain ⟨bound, -, rfl⟩ := Option.map_eq_some_iff.mp h
      exact Nat.lt_of_le_of_lt (Nat.zero_le _) hcontent
    · obtain ⟨bound, -, rfl⟩ := Option.map_eq_some_iff.mp h
      exact Nat.lt_of_le_of_lt (Nat.zero_le _) hcontent

theorem LengthSource.nesting_toJson (source : LengthSource) : source.toJson.nesting = 1 := by
  cases source <;> rfl

theorem LengthSource.lawful : Lawful Any LengthSource.toJson LengthSource.ofJson? where
  plain source := by
    cases source with
    | argument => exact Json.plain_tagged _ _ nofun
    | named name => exact Json.plain_tagged _ _ (List.forall_mem_singleton.mpr (.str name))
    | seeded name => exact Json.plain_tagged _ _ (List.forall_mem_singleton.mpr (.str name))
  reads := by
    intro source _
    cases source <;>
      simp [LengthSource.ofJson?, LengthSource.toJson, variant?, tagName?, Json.field?,
        Shape.exactSlots?, Shape.fits, Shape.slots, Json.text?]
  shallow := by
    intro json source h
    simp only [LengthSource.ofJson?, bind, Option.bind_eq_some_iff] at h
    obtain ⟨⟨kind, shape⟩, hvariant, -⟩ := h
    rw [LengthSource.nesting_toJson]
    exact ⟨trivial, (Shape.below_variant? hvariant).2⟩

/-! ## §4. Elements -/

namespace Element

theorem options_lawful : Lawful Any optionsJson options? where
  plain options := by
    refine .arr ?_
    intro item hitem
    obtain ⟨b, -, rfl⟩ := List.mem_map.mp hitem
    exact Json.plain_byte b
  reads := by
    intro options _
    exact Stored.mapM_map_write (@fun b (_ : Any b) => Json.byte?_toNat b) fun _ _ => trivial
  shallow := by
    intro json options h
    simp only [options?, bind, Option.bind_eq_some_iff] at h
    obtain ⟨items, hitems, -⟩ := h
    cases json with
    | arr items' =>
        refine ⟨trivial, Nat.succ_le_succ (Nat.le_trans (Json.nestingItems_le_iff.mpr ?_)
          (Nat.zero_le _))⟩
        intro item hitem
        obtain ⟨b, -, rfl⟩ := List.mem_map.mp hitem
        exact Nat.le_refl _
    | _ => cases hitems

theorem plain_toJson (element : Element) : element.toJson.Plain := by
  induction element with
  | fixed byte => exact Json.plain_tagged _ _ (List.forall_mem_singleton.mpr (Json.plain_byte byte))
  | enumerated options =>
      exact Json.plain_tagged _ _ (List.forall_mem_singleton.mpr (options_lawful.plain options))
  | random => exact Json.plain_tagged _ _ nofun
  | randomEnumerated options =>
      exact Json.plain_tagged _ _ (List.forall_mem_singleton.mpr (options_lawful.plain options))
  | producer name value ih =>
      refine Json.plain_tagged _ _ (List.forall_mem_cons.mpr ⟨.str name, ?_⟩)
      exact List.forall_mem_singleton.mpr ih
  | consumer name => exact Json.plain_tagged _ _ (List.forall_mem_singleton.mpr (.str name))

/-- An element reads back with fuel for its producers. -/
theorem read?_toJson (element : Element) :
    ∀ fuel, element.toJson.nesting ≤ fuel → read? fuel element.toJson = some element := by
  -- only a producer goes deeper, and its value is nested one level less
  induction element with
  | fixed byte =>
      intro fuel hfuel
      obtain ⟨fuel, rfl⟩ := Json.exists_succ_of_obj hfuel
      simp [read?, toJson, variant?, tagName?, variants, Json.field?, Shape.exactSlots?, Shape.fits,
        Shape.slots, Json.byte?_toNat]
  | enumerated options =>
      intro fuel hfuel
      obtain ⟨fuel, rfl⟩ := Json.exists_succ_of_obj hfuel
      simp [read?, toJson, variant?, tagName?, variants, Json.field?, Shape.exactSlots?, Shape.fits,
        Shape.slots, options_lawful.reads trivial]
  | random =>
      intro fuel hfuel
      obtain ⟨fuel, rfl⟩ := Json.exists_succ_of_obj hfuel
      simp [read?, toJson, variant?, tagName?, variants, Json.field?, Shape.fits]
  | randomEnumerated options =>
      intro fuel hfuel
      obtain ⟨fuel, rfl⟩ := Json.exists_succ_of_obj hfuel
      simp [read?, toJson, variant?, tagName?, variants, Json.field?, Shape.exactSlots?, Shape.fits,
        Shape.slots, options_lawful.reads trivial]
  | producer name value ih =>
      intro fuel hfuel
      simp only [toJson, Json.nesting, Json.nestingMembers, Json.nestingMember] at hfuel
      obtain ⟨fuel, rfl⟩ : ∃ n, fuel = n + 1 := ⟨fuel - 1, by omega⟩
      have hvalue := ih fuel (by omega)
      simp [read?, toJson, variant?, tagName?, variants, Json.field?, Shape.exactSlots?, Shape.fits,
        Shape.slots, Json.text?, hvalue]
  | consumer name =>
      intro fuel hfuel
      obtain ⟨fuel, rfl⟩ := Json.exists_succ_of_obj hfuel
      simp [read?, toJson, variant?, tagName?, variants, Json.field?, Shape.exactSlots?, Shape.fits,
        Shape.slots, Json.text?]

/-- An element nests no deeper as written than as read. -/
theorem nesting_le_of_read? (fuel : Nat) : ∀ {json : Json} {element : Element},
    read? fuel json = some element → element.toJson.nesting ≤ json.nesting := by
  -- an element comes from many layouts, so the induction is on the reader's fuel
  induction fuel with
  | zero => exact nofun
  | succ fuel ih =>
      intro json element h
      simp only [read?, bind, Option.bind_eq_some_iff] at h
      obtain ⟨⟨kind, shape⟩, hvariant, h⟩ := h
      obtain ⟨hbelow, hpos⟩ := Shape.below_variant? hvariant
      dsimp only at h
      split at h
      · obtain ⟨slots, -, h⟩ := Option.bind_eq_some_iff.mp h
        split at h
        · obtain ⟨byte, -, rfl⟩ := Option.map_eq_some_iff.mp h
          exact hpos
        · cases h
      · obtain ⟨slots, hslots, h⟩ := Option.bind_eq_some_iff.mp h
        split at h
        · obtain ⟨options, hoptions, rfl⟩ := Option.map_eq_some_iff.mp h
          have hslot := hbelow.slot hslots List.mem_cons_self
          have hle := (options_lawful.shallow hoptions).2
          simp only [toJson, Json.nesting, Json.nestingMembers, Json.nestingMember]
          omega
        · cases h
      · obtain ⟨slots, hslots, h⟩ := Option.bind_eq_some_iff.mp h
        split at h
        · obtain ⟨options, hoptions, rfl⟩ := Option.map_eq_some_iff.mp h
          have hslot := hbelow.slot hslots List.mem_cons_self
          have hle := (options_lawful.shallow hoptions).2
          simp only [toJson, Json.nesting, Json.nestingMembers, Json.nestingMember]
          omega
        · cases h
      · obtain ⟨slots, hslots, h⟩ := Option.bind_eq_some_iff.mp h
        split at h
        · simp only [Option.bind_eq_some_iff] at h
          obtain ⟨name, -, value, hvalue, heq⟩ := h
          obtain rfl := Option.some.inj heq
          have hslot := hbelow.slot hslots (List.mem_cons_of_mem _ List.mem_cons_self)
          have hle := ih hvalue
          simp only [toJson, Json.nesting, Json.nestingMembers, Json.nestingMember]
          omega
        · cases h
      · obtain ⟨slots, -, h⟩ := Option.bind_eq_some_iff.mp h
        split at h
        · obtain ⟨name, -, rfl⟩ := Option.map_eq_some_iff.mp h
          exact hpos
        · cases h
      · split at h
        · obtain rfl := Option.some.inj h
          exact hpos
        · cases h

/-- **Elements** are stored lawfully. -/
theorem lawful : Lawful Any toJson ofJson? where
  plain := plain_toJson
  reads _ := read?_toJson _ _ (Nat.le_refl _)
  shallow h := ⟨trivial, nesting_le_of_read? _ h⟩

end Element

/-! ## §5. Parts -/

namespace Part

theorem items_lawful : Lawful (fun items => ∀ element ∈ items, Any element) itemsJson items? :=
  Element.lawful.list

theorem items?_itemsJson (items : List Element) : items? (itemsJson items) = some items :=
  items_lawful.reads fun _ _ => trivial

theorem plain_toJson (part : Part) : part.toJson.Plain := by
  induction part with
  | bytes items =>
      exact Json.plain_tagged _ _ (List.forall_mem_singleton.mpr (items_lawful.plain items))
  | timed milliseconds items =>
      refine Json.plain_tagged _ _ (List.forall_mem_cons.mpr ⟨Json.plain_word milliseconds, ?_⟩)
      exact List.forall_mem_singleton.mpr (items_lawful.plain items)
  | dynamic length item =>
      refine Json.plain_tagged _ _ (List.forall_mem_cons.mpr ⟨LengthSource.lawful.plain length, ?_⟩)
      exact List.forall_mem_singleton.mpr (Element.lawful.plain item)
  | optional name condition item ih =>
      refine Json.plain_tagged _ _ (List.forall_mem_cons.mpr ⟨.str name,
        List.forall_mem_cons.mpr ⟨(Condition.lawful .inner).plain condition, ?_⟩⟩)
      exact List.forall_mem_singleton.mpr ih
  | empty => exact Json.plain_tagged _ _ nofun

/-- A part reads back with fuel for its optional parts. -/
theorem read?_toJson (part : Part) : ∀ fuel place, part.toJson.nesting ≤ fuel →
    read? fuel place part.toJson = some part := by
  induction part with
  | bytes items =>
      intro fuel place hfuel
      obtain ⟨fuel, rfl⟩ := Json.exists_succ_of_obj hfuel
      simp [read?, toJson, variant?, tagName?, variants, Json.field?, Shape.exactSlots?, Shape.fits,
        Shape.slots, items?_itemsJson]
  | timed milliseconds items =>
      intro fuel place hfuel
      obtain ⟨fuel, rfl⟩ := Json.exists_succ_of_obj hfuel
      -- the number is kept apart, since its bound is too large to compute with
      have hread : ∀ stored : Json, stored.word64? = some milliseconds →
          read? (fuel + 1) place (.obj [("type", .str "timed"), ("milliseconds", stored),
            ("items", itemsJson items)]) = some (.timed milliseconds items) := by
        intro stored hword
        simp [read?, variant?, tagName?, variants, Json.field?, Shape.exactSlots?, Shape.fits,
          Shape.slots, items?_itemsJson, hword]
      exact hread _ (word64?_toNat milliseconds)
  | dynamic length item =>
      intro fuel place hfuel
      obtain ⟨fuel, rfl⟩ := Json.exists_succ_of_obj hfuel
      simp [read?, toJson, variant?, tagName?, variants, Json.field?, Shape.exactSlots?, Shape.fits,
        Shape.slots, LengthSource.lawful.reads trivial, Element.lawful.reads trivial]
  | optional name condition item ih =>
      intro fuel place hfuel
      simp only [toJson, Json.nesting, Json.nestingMembers, Json.nestingMember] at hfuel
      obtain ⟨fuel, rfl⟩ : ∃ n, fuel = n + 1 := ⟨fuel - 1, by omega⟩
      have hitem := ih fuel .inner (by omega)
      simp [read?, toJson, variant?, tagName?, variants, Json.field?, Shape.exactSlots?, Shape.fits,
        Shape.slots, Json.text?, (Condition.lawful .inner).reads trivial, hitem]
  | empty =>
      intro fuel place hfuel
      obtain ⟨fuel, rfl⟩ := Json.exists_succ_of_obj hfuel
      simp [read?, toJson, variant?, tagName?, variants, Json.field?, Shape.fits]

/-- A part nests no deeper as written than as read. -/
theorem nesting_le_of_read? (fuel : Nat) : ∀ {place : Place} {json : Json} {part : Part},
    read? fuel place json = some part → part.toJson.nesting ≤ json.nesting := by
  induction fuel with
  | zero => exact nofun
  | succ fuel ih =>
      intro place json part h
      simp only [read?, bind, Option.bind_eq_some_iff] at h
      obtain ⟨⟨kind, shape⟩, hvariant, h⟩ := h
      obtain ⟨hbelow, hpos⟩ := Shape.below_variant? hvariant
      dsimp only at h
      split at h
      · obtain ⟨slots, hslots, h⟩ := Option.bind_eq_some_iff.mp h
        split at h
        · obtain ⟨items, hitems, rfl⟩ := Option.map_eq_some_iff.mp h
          have hslot := hbelow.slot hslots List.mem_cons_self
          have hle := (items_lawful.shallow hitems).2
          simp only [toJson, Json.nesting, Json.nestingMembers, Json.nestingMember]
          omega
        · cases h
      · obtain ⟨slots, hslots, h⟩ := Option.bind_eq_some_iff.mp h
        split at h
        · simp only [Option.bind_eq_some_iff] at h
          obtain ⟨milliseconds, -, items, hitems, heq⟩ := h
          obtain rfl := Option.some.inj heq
          have hslot := hbelow.slot hslots (List.mem_cons_of_mem _ List.mem_cons_self)
          have hle := (items_lawful.shallow hitems).2
          simp only [toJson, Json.nesting, Json.nestingMembers, Json.nestingMember]
          omega
        · cases h
      · obtain ⟨slots, hslots, h⟩ := Option.bind_eq_some_iff.mp h
        split at h
        · simp only [Option.bind_eq_some_iff] at h
          obtain ⟨length, hlength, item, hitem, heq⟩ := h
          obtain rfl := Option.some.inj heq
          have hslot := hbelow.slot hslots List.mem_cons_self
          have hslot' := hbelow.slot hslots (List.mem_cons_of_mem _ List.mem_cons_self)
          have hle := (LengthSource.lawful.shallow hlength).2
          have hle' := (Element.lawful.shallow hitem).2
          simp only [toJson, Json.nesting, Json.nestingMembers, Json.nestingMember]
          omega
        · cases h
      · obtain ⟨slots, hslots, h⟩ := Option.bind_eq_some_iff.mp h
        split at h
        · simp only [Option.bind_eq_some_iff] at h
          obtain ⟨name, -, condition, hcondition, item, hitem, heq⟩ := h
          obtain rfl := Option.some.inj heq
          have hslot := hbelow.slot hslots (List.mem_cons_of_mem _ List.mem_cons_self)
          have hslot' := hbelow.slot hslots
            (List.mem_cons_of_mem _ (List.mem_cons_of_mem _ List.mem_cons_self))
          have hle := ((Condition.lawful .inner).shallow hcondition).2
          have hle' := ih hitem
          simp only [toJson, Json.nesting, Json.nestingMembers, Json.nestingMember]
          omega
        · cases h
      · split at h
        · obtain rfl := Option.some.inj h
          exact hpos
        · cases h

/-- **Parts** are stored lawfully. -/
theorem lawful (place : Place) : Lawful Any toJson (ofJson? place) where
  plain := plain_toJson
  reads _ := read?_toJson _ _ place (Nat.le_refl _)
  shallow h := ⟨trivial, nesting_le_of_read? _ h⟩

end Part

/-! ## §6. Descriptions and instances -/

theorem Description.parts_lawful (place : Place) :
    Lawful (fun parts => ∀ part ∈ parts, Any part) (fun parts => .arr (parts.map Part.toJson))
      (fun json => do (← json.items?).mapM (Part.ofJson? place)) :=
  (Part.lawful place).list

theorem Description.nesting_toJson (description : Description) :
    description.toJson.nesting
      = (Json.arr (description.parts.map Part.toJson)).nesting + 1 := by
  simp only [toJson, Json.nesting, Json.nestingMembers, Json.nestingMember, Nat.max_zero]

/-- **Descriptions** are stored lawfully. -/
theorem Description.lawful (place : Place) :
    Lawful Any Description.toJson (Description.ofJson? place) where
  plain description :=
    .obj (List.forall_mem_singleton.mpr ((parts_lawful place).plain description.parts))
  reads := by
    intro description _
    have hparts : (description.parts.map Part.toJson).mapM (Part.ofJson? place)
        = some description.parts :=
      Stored.mapM_map_write (Part.lawful place).reads fun _ _ => trivial
    simp [ofJson?, toJson, Shape.ofJson?, Shape.exactSlots?, Shape.fits, Shape.slots, Json.field?,
      Json.items?, hparts]
  shallow := by
    intro json description h
    refine ⟨trivial, ?_⟩
    simp only [Description.ofJson?, bind, Option.bind_eq_some_iff] at h
    obtain ⟨shape, hshape, slots, hslots, h⟩ := h
    obtain ⟨hbelow, -⟩ := Shape.below_ofJson? hshape
    split at h
    · rename_i stored
      obtain ⟨items, hitems, h⟩ := Option.bind_eq_some_iff.mp h
      obtain ⟨parts, hparts, heq⟩ := Option.bind_eq_some_iff.mp h
      obtain rfl := Option.some.inj heq
      have hslot := hbelow.slot hslots List.mem_cons_self
      have hread : (do (← stored.items?).mapM (Part.ofJson? place)) = some parts := by
        simp only [hitems, bind, Option.bind_some, hparts]
      have hle := ((parts_lawful place).shallow hread).2
      rw [nesting_toJson]
      exact Nat.lt_of_le_of_lt hle hslot
    · cases h

theorem Arguments.lawful (place : Place) :
    Lawful (fun args => ∀ v ∈ args, Any v) Arguments.toJson (Arguments.ofJson? place) :=
  (Value.lawful place).list

/-- **Instances** are stored lawfully. -/
theorem Instance.lawful (place : Place) :
    Lawful Any Instance.toJson (Instance.ofJson? place) where
  plain inst :=
    .obj (List.forall_mem_cons.mpr ⟨(Description.lawful place).plain inst.description,
      List.forall_mem_singleton.mpr ((Arguments.lawful place).plain inst.args)⟩)
  reads := by
    intro inst _
    have hdescription : Description.ofJson? place inst.description.toJson = some inst.description :=
      (Description.lawful place).reads trivial
    have hargs : Arguments.ofJson? place inst.args.toJson = some inst.args :=
      (Arguments.lawful place).reads fun _ _ => trivial
    simp [ofJson?, toJson, Shape.ofJson?, Shape.exactSlots?, Shape.fits, Shape.slots, Json.field?,
      hdescription, hargs]
  shallow := by
    intro json inst h
    refine ⟨trivial, ?_⟩
    simp only [Instance.ofJson?, bind, Option.bind_eq_some_iff] at h
    obtain ⟨shape, hshape, slots, hslots, h⟩ := h
    obtain ⟨hbelow, -⟩ := Shape.below_ofJson? hshape
    split at h
    · simp only [Option.bind_eq_some_iff] at h
      obtain ⟨description, hdescription, args, hargs, heq⟩ := h
      obtain rfl := Option.some.inj heq
      have hslot := hbelow.slot hslots List.mem_cons_self
      have hslot' := hbelow.slot hslots (List.mem_cons_of_mem _ List.mem_cons_self)
      have hle := ((Description.lawful place).shallow hdescription).2
      have hle' := ((Arguments.lawful place).shallow hargs).2
      simp only [toJson, Json.nesting, Json.nestingMembers, Json.nestingMember]
      omega
    · cases h

end Masquerade
