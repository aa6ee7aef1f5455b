/-
  Masquerade.Proofs.Printing — WHAT IS PRINTED READS BACK.

  Compact text is read back to the value it was printed from, and what
  follows it is left alone, provided that the value nests no deeper than the
  reader goes; a value that nests deeper is refused.  The values in question
  hold no reals and no integers beyond 64 bits, since neither has a text of
  its own.

  Main results:
    * `Json.scanNumber_printInt` — a number's text, in front of anything that
      does not go on with it.
    * `Json.readText_printText` — a string's text, whatever characters it
      holds.
    * `Json.readValue_print` — a value's text, at any depth.
    * `Json.nesting_le_of_read` — a reader builds nothing that nests deeper
      than it goes.
-/
import Masquerade.Json.Reader

namespace Masquerade

namespace Json

/-! ## §1. Nesting -/

theorem nestingItems_le_iff {items : List Json} {n : Nat} :
    nestingItems items ≤ n ↔ ∀ item ∈ items, nesting item ≤ n := by
  induction items with
  | nil => simp [nestingItems]
  | cons item rest ih =>
      rw [nestingItems, Nat.max_le, ih, List.forall_mem_cons]

theorem nestingMembers_le_iff {members : List (String × Json)} {n : Nat} :
    nestingMembers members ≤ n ↔ ∀ member ∈ members, nesting member.2 ≤ n := by
  induction members with
  | nil => simp [nestingMembers]
  | cons member rest ih =>
      obtain ⟨name, value⟩ := member
      rw [nestingMembers, nestingMember, Nat.max_le, ih, List.forall_mem_cons]

/-! ## §2. Numbers -/

theorem ofDigits_append (ds : Bytes) {d : Nat} (h : d < 10) :
    ofDigits (ds ++ [UInt8.ofNat (48 + d)]) = ofDigits ds * 10 + d := by
  have hvalue : (UInt8.ofNat (48 + d)).toNat = 48 + d := by
    rw [UInt8.toNat_ofNat']
    omega
  unfold ofDigits
  rw [List.foldl_append, List.foldl_cons, List.foldl_nil, hvalue, Nat.add_sub_cancel_left]

/-- The decimal digits of a number stand for it. -/
theorem ofDigits_digits (n : Nat) : ofDigits (digits n) = n := by
  induction n using Nat.strongRecOn with
  | ind n ih =>
    rw [digits]
    split
    · rename_i h
      exact (ofDigits_append [] h).trans (Nat.zero_add n)
    · rename_i h
      rw [ofDigits_append _ (Nat.mod_lt _ (by decide)), ih (n / 10) (by omega)]
      omega

/-- Only zero starts with a zero. -/
theorem digits_head {n : Nat} (h : 0 < n) : ∃ first more, digits n = first :: more ∧ first ≠ 0x30 := by
  induction n using Nat.strongRecOn with
  | ind n ih =>
    rw [digits]
    split
    · rename_i hlt
      have hall : ∀ n, n < 10 → 0 < n → UInt8.ofNat (48 + n) ≠ 0x30 := by decide
      exact ⟨_, [], rfl, hall n hlt h⟩
    · rename_i hlt
      obtain ⟨first, more, heq, hne⟩ := ih (n / 10) (by omega) (by omega)
      exact ⟨first, _, by rw [heq]; rfl, hne⟩

/-- **What may follow a number:** nothing that goes on with it. -/
def Stops (rest : Bytes) : Prop :=
  ∀ b ∈ rest.head?, isDigit b = false ∧ b ≠ 0x2e ∧ b ≠ 0x65 ∧ b ≠ 0x45

theorem stops_cons {b : UInt8} (rest : Bytes) (h : b = 0x2c ∨ b = 0x5d ∨ b = 0x7d) :
    Stops (b :: rest) := by
  intro b' hb'
  obtain rfl := Option.some.inj hb'
  rcases h with rfl | rfl | rfl <;> decide

section

variable {rest : Bytes}

theorem Stops.takeWhile (h : Stops rest) : rest.takeWhile isDigit = [] := by
  cases rest with
  | nil => rfl
  | cons b rest => simp [(h b rfl).1]

theorem Stops.dropWhile (h : Stops rest) : rest.dropWhile isDigit = rest := by
  cases rest with
  | nil => rfl
  | cons b rest => simp [(h b rfl).1]

theorem Stops.fractionPart (h : Stops rest) : fractionPart rest = some (none, rest) := by
  unfold Json.fractionPart
  split
  · exact absurd rfl (h _ rfl).2.1
  · rfl

theorem Stops.exponentPart (h : Stops rest) : exponentPart rest = some (none, rest) := by
  cases rest with
  | nil => rfl
  | cons b rest =>
      have hexp := (h b rfl).2.2
      unfold Json.exponentPart
      dsimp only
      rw [if_neg (not_or.mpr hexp)]

theorem wholePart_digits (n : Nat) (h : Stops rest) :
    wholePart (digits n ++ rest) = some (digits n, rest) := by
  have htake : (digits n ++ rest).takeWhile isDigit = digits n := by
    rw [List.takeWhile_append_of_pos (isDigit_of_mem_digits n), h.takeWhile, List.append_nil]
  have hdrop : (digits n ++ rest).dropWhile isDigit = rest := by
    rw [List.dropWhile_append_of_pos (isDigit_of_mem_digits n), h.dropWhile]
  unfold wholePart
  dsimp only
  rw [htake, hdrop]
  cases hdigits : digits n with
  | nil => exact absurd hdigits (digits_ne_nil n)
  | cons first more =>
      dsimp only
      rw [if_neg]
      rintro ⟨hzero, hmore⟩
      by_cases hpos : 0 < n
      · obtain ⟨first', more', heq, hne⟩ := digits_head hpos
        rw [hdigits] at heq
        injection heq with hfirst
        exact hne (hfirst ▸ hzero)
      · -- the only number left is zero, with its one digit
        obtain rfl : n = 0 := by omega
        rw [digits] at hdigits
        injection hdigits with _ hnil
        exact hmore hnil.symm

theorem sign_digits (n : Nat) : sign (digits n ++ rest) = (false, digits n ++ rest) := by
  cases hdigits : digits n with
  | nil => exact absurd hdigits (digits_ne_nil n)
  | cons first more =>
      have hfirst : isDigit first = true :=
        isDigit_of_mem_digits n first (by rw [hdigits]; exact List.mem_cons_self)
      rw [List.cons_append]
      unfold sign
      split
      · rename_i heq
        injection heq with heq
        rw [heq] at hfirst
        cases hfirst
      · rfl

theorem sign_printInt (n : Int) :
    sign (printInt n ++ rest) = (decide (n < 0), digits n.natAbs ++ rest) := by
  unfold printInt
  by_cases hneg : n < 0
  · rw [if_pos hneg, decide_eq_true hneg]
    rfl
  · rw [if_neg hneg, decide_eq_false hneg]
    exact sign_digits _

/-- **The text of an integer** is scanned to its digits. -/
theorem scanNumber_printInt (n : Int) (h : Stops rest) :
    ∃ literal, scanNumber (printInt n ++ rest)
      = some (⟨decide (n < 0), digits n.natAbs, none, none, literal⟩, rest) := by
  unfold scanNumber
  rw [sign_printInt]
  dsimp only [bind]
  rw [wholePart_digits _ h, Option.bind_some]
  dsimp only
  rw [h.fractionPart, Option.bind_some]
  dsimp only
  rw [h.exponentPart, Option.bind_some]
  exact ⟨_, rfl⟩

end

/-- Digits and a sign make up the integer they were taken from. -/
theorem toJson?_digits {n : Int} (hlo : minInt ≤ n) (hhi : n ≤ maxInt) (literal : Bytes) :
    Number.toJson? ⟨decide (n < 0), digits n.natAbs, none, none, literal⟩ = some (.int n) := by
  have hvalue : (if decide (n < 0) = true then -(ofDigits (digits n.natAbs) : Int)
      else ofDigits (digits n.natAbs)) = n := by
    rw [ofDigits_digits]
    split
    · rename_i h
      have := of_decide_eq_true h
      omega
    · rename_i h
      have : ¬ n < 0 := fun hneg => h (decide_eq_true hneg)
      omega
  unfold Number.toJson?
  dsimp only
  rw [hvalue, if_pos]
  refine ⟨rfl, rfl, hlo, hhi, ?_⟩
  rintro ⟨hneg, rfl⟩
  exact absurd (of_decide_eq_true hneg) (by decide)

/-! ## §3. Strings -/

theorem hexValue?_hexDigit :
    ∀ d, d < 16 → hexValue? (UInt8.ofNat (Bytes.hexDigit d).toNat) = some d := by decide

/-- A four-digit code whose first two digits are zero is that of a byte. -/
theorem codeUnit_hexByte (b : UInt8) (rest : Bytes) :
    codeUnit (0x30 :: 0x30 :: ((Bytes.hexByte b).map fun c => UInt8.ofNat c.toNat) ++ rest)
      = some (b.toNat, rest) := by
  have hb := b.toNat_lt
  have hzero : hexValue? 0x30 = some 0 := by decide
  have hhigh := hexValue?_hexDigit (b.toNat / 16) (by omega)
  have hlow := hexValue?_hexDigit (b.toNat % 16) (by omega)
  have hsum : ((0 * 16 + 0) * 16 + b.toNat / 16) * 16 + b.toNat % 16 = b.toNat := by omega
  simp only [Bytes.hexByte, List.map_cons, List.map_nil, List.cons_append, List.nil_append,
    codeUnit, hzero, hhigh, hlow, bind, Option.bind_some, hsum]

theorem codePoint_control : ∀ n, n < 32 → codePoint n = [UInt8.ofNat n] := by decide

/-- A control character's code reads back. -/
theorem escaped_control {b : UInt8} (h : b < 0x20) (rest : Bytes) :
    escaped (0x75 :: 0x30 :: 0x30 :: ((Bytes.hexByte b).map fun c => UInt8.ofNat c.toNat) ++ rest)
      = some ([b], rest) := by
  have hlt : b.toNat < 32 := h
  have hunit := codeUnit_hexByte b rest
  unfold escaped
  dsimp only [List.cons_append] at hunit ⊢
  rw [if_pos rfl]
  unfold escapedCode
  rw [hunit]
  dsimp only [bind, Option.bind_some]
  rw [if_pos (Or.inl (by omega)), codePoint_control _ hlt, UInt8.ofNat_toNat]

/-- What is written for a byte is read as the byte, in one turn. -/
theorem readTextOnto_escapeByte (done : Bytes) (fuel : Nat) (b : UInt8) (rest : Bytes) :
    readTextOnto done (fuel + 1) (escapeByte b ++ rest) = readTextOnto (b :: done) fuel rest := by
  by_cases hletter : b ∈ [0x22, 0x5c, 0x08, 0x0c, 0x0a, 0x0d, 0x09]
  · -- the seven with a letter of their own
    simp only [List.mem_cons, List.not_mem_nil, or_false] at hletter
    rcases hletter with rfl | rfl | rfl | rfl | rfl | rfl | rfl <;> rfl
  · simp only [List.mem_cons, List.not_mem_nil, or_false, not_or] at hletter
    obtain ⟨hquote, hslash, hb, hf, hn, hr, ht⟩ := hletter
    unfold escapeByte
    rw [if_neg hquote, if_neg hslash, if_neg hb, if_neg hf, if_neg hn, if_neg hr, if_neg ht]
    by_cases hcontrol : b < 0x20
    · rw [if_pos hcontrol]
      show readTextOnto done (fuel + 1) (0x5c :: (0x75 :: 0x30 :: 0x30
        :: ((Bytes.hexByte b).map fun c => UInt8.ofNat c.toNat) ++ rest)) = _
      rw [readTextOnto, if_neg (by decide), if_pos rfl, escaped_control hcontrol]
      rfl
    · rw [if_neg hcontrol, List.singleton_append, readTextOnto, if_neg hquote, if_neg hslash,
        if_neg hcontrol]

theorem length_escapeByte_pos (b : UInt8) : 0 < (escapeByte b).length := by
  unfold escapeByte
  repeat' split
  all_goals exact Nat.succ_pos _

/-- The written bytes are read one after the other, up to the closing quote. -/
theorem readTextOnto_flatMap (bytes rest : Bytes) : ∀ (done : Bytes) (fuel : Nat),
    bytes.length < fuel →
    readTextOnto done fuel (bytes.flatMap escapeByte ++ 0x22 :: rest)
      = some (done.reverse ++ bytes, rest) := by
  -- one turn moves a byte from what is left to what is done, so both vary
  induction bytes with
  | nil =>
      intro done fuel hfuel
      cases fuel with
      | zero => exact absurd hfuel (Nat.not_lt_zero _)
      | succ fuel =>
          rw [List.append_nil]
          rfl
  | cons b bytes ih =>
      intro done fuel hfuel
      cases fuel with
      | zero => exact absurd hfuel (Nat.not_lt_zero _)
      | succ fuel =>
          rw [List.flatMap_cons, List.append_assoc, readTextOnto_escapeByte,
            ih (b :: done) fuel (Nat.lt_of_succ_lt_succ hfuel), List.reverse_cons,
            List.append_assoc]
          rfl

theorem length_le_flatMap (bytes : Bytes) : bytes.length ≤ (bytes.flatMap escapeByte).length := by
  induction bytes with
  | nil => exact Nat.le_refl _
  | cons b bytes ih =>
      have hb := length_escapeByte_pos b
      rw [List.flatMap_cons, List.length_append, List.length_cons]
      omega

/-- **The text of a string** reads back after its opening quote, whatever
    characters it holds. -/
theorem readText_printText (text : String) (rest : Bytes) :
    readText ((Bytes.ofText text).flatMap escapeByte ++ 0x22 :: rest) = some (text, rest) := by
  have hfuel : (Bytes.ofText text).length
      < ((Bytes.ofText text).flatMap escapeByte ++ 0x22 :: rest).length := by
    have := length_le_flatMap (Bytes.ofText text)
    rw [List.length_append, List.length_cons]
    omega
  unfold readText
  rw [readTextOnto_flatMap _ _ _ _ hfuel]
  dsimp only [bind, Option.bind_some]
  rw [List.reverse_nil, List.nil_append, Bytes.toText?_ofText]
  rfl

/-- A string's text with its opening quote apart. -/
theorem printText_append (text : String) (rest : Bytes) :
    printText text ++ rest = 0x22 :: ((Bytes.ofText text).flatMap escapeByte ++ 0x22 :: rest) := by
  unfold printText
  simp

theorem readName_printText (name : String) (rest : Bytes) :
    readName (printText name ++ 0x3a :: rest) = some (name, rest) := by
  unfold readName
  rw [printText_append, dropBlanks_eq_of_head _ (by decide)]
  dsimp only [bind, after?]
  rw [if_pos rfl, Option.bind_some, readText_printText]
  dsimp only [Option.bind_some]
  rw [dropBlanks_eq_of_head _ (by decide)]
  rfl

/-! ## §4. Values -/

/-- **Values with a text of their own:** no reals, and integers of at most 64
    bits. -/
inductive Plain : Json → Prop where
  | null : Plain .null
  | bool (b : Bool) : Plain (.bool b)
  | int {n : Int} (lo : minInt ≤ n) (hi : n ≤ maxInt) : Plain (.int n)
  | str (text : String) : Plain (.str text)
  | arr {items : List Json} (h : ∀ item ∈ items, Plain item) : Plain (.arr items)
  | obj {members : List (String × Json)} (h : ∀ member ∈ members, Plain member.2) :
      Plain (.obj members)

/-- **A value whose text reads back** at any depth that it fits, and is
    refused at any other. -/
def ReadsBack (value : Json) : Prop :=
  ∀ (fuel depth : Nat) (rest : Bytes), 2 * (print value).length ≤ fuel → Stops rest →
    readValue fuel depth (print value ++ rest)
      = if nesting value ≤ depth then some (value, rest) else none

/-- An integer's text starts with a minus sign or a digit. -/
theorem printInt_head (n : Int) :
    ∃ b more, printInt n = b :: more ∧ (b = 0x2d ∨ isDigit b = true) := by
  unfold printInt
  split
  · exact ⟨_, _, rfl, .inl rfl⟩
  · cases hdigits : digits n.natAbs with
    | nil => exact absurd hdigits (digits_ne_nil _)
    | cons b more =>
        exact ⟨b, more, rfl,
          .inr (isDigit_of_mem_digits n.natAbs b (by rw [hdigits]; exact List.mem_cons_self))⟩

theorem ne_of_begins_int {b c : UInt8} (h : b = 0x2d ∨ isDigit b = true) (hsign : c ≠ 0x2d)
    (hdigit : isDigit c = false) : b ≠ c := by
  rintro rfl
  rcases h with h | h
  · exact hsign h
  · rw [hdigit] at h
    cases h

theorem isBlank_of_begins_int {b : UInt8} (h : b = 0x2d ∨ isDigit b = true) : isBlank b = false := by
  have hspace : b ≠ 0x20 := ne_of_begins_int h (by decide) (by decide)
  have hline : b ≠ 0x0a := ne_of_begins_int h (by decide) (by decide)
  have hreturn : b ≠ 0x0d := ne_of_begins_int h (by decide) (by decide)
  have htab : b ≠ 0x09 := ne_of_begins_int h (by decide) (by decide)
  simp [isBlank, hspace, hline, hreturn, htab]

/-- A value's text starts with no blank and no closing bracket. -/
theorem Plain.print_head {value : Json} (h : Plain value) :
    ∃ b more, print value = b :: more ∧ isBlank b = false ∧ b ≠ 0x5d := by
  cases h with
  | null => exact ⟨0x6e, _, rfl, by decide, by decide⟩
  | bool b => cases b <;> exact ⟨_, _, rfl, by decide, by decide⟩
  | @int n _ _ =>
      obtain ⟨b, more, heq, hb⟩ := printInt_head n
      exact ⟨b, more, heq, isBlank_of_begins_int hb, ne_of_begins_int hb (by decide) (by decide)⟩
  | str text => exact ⟨0x22, _, rfl, by decide, by decide⟩
  | arr _ => exact ⟨0x5b, _, by rw [print], by decide, by decide⟩
  | obj _ => exact ⟨0x7b, _, by rw [print], by decide, by decide⟩

/-- What begins no container is read as a scalar. -/
theorem readValue_scalar {b : UInt8} (fuel depth : Nat) (more : Bytes) (hblank : isBlank b = false)
    (harr : b ≠ 0x5b) (hobj : b ≠ 0x7b) :
    readValue (fuel + 1) depth (b :: more) = readScalar (b :: more) := by
  rw [readValue, dropBlanks_eq_of_head _ hblank]
  split
  · rename_i heq
    injection heq with heq
    exact absurd heq harr
  · rename_i heq
    injection heq with heq
    exact absurd heq hobj
  · rfl

theorem readScalar_printInt {n : Int} (hlo : minInt ≤ n) (hhi : n ≤ maxInt) {rest : Bytes}
    (h : Stops rest) : readScalar (printInt n ++ rest) = some (.int n, rest) := by
  obtain ⟨literal, hscan⟩ := scanNumber_printInt n h
  obtain ⟨b, more, heq, hb⟩ := printInt_head n
  rw [heq] at hscan ⊢
  rw [List.cons_append] at hscan ⊢
  unfold readScalar
  dsimp only
  rw [if_neg (ne_of_begins_int hb (by decide) (by decide)),
    if_neg (ne_of_begins_int hb (by decide) (by decide)),
    if_neg (ne_of_begins_int hb (by decide) (by decide)),
    if_neg (ne_of_begins_int hb (by decide) (by decide)), hscan]
  dsimp only [bind, Option.bind_some]
  rw [toJson?_digits hlo hhi]
  rfl

/-! ### One item, one member -/

section

variable {fuel depth : Nat} {input rest : Bytes} {item : Json}

theorem readItems_of_none (h : readValue fuel depth input = none) :
    readItems (fuel + 1) depth input = none := by
  rw [readItems, h]
  rfl

theorem readItems_last (h : readValue fuel depth input = some (item, 0x5d :: rest)) :
    readItems (fuel + 1) depth input = some ([item], rest) := by
  rw [readItems, h]
  simp [dropBlanks_eq_of_head rest (show isBlank 0x5d = false by decide)]

theorem readItems_more (h : readValue fuel depth input = some (item, 0x2c :: rest)) :
    readItems (fuel + 1) depth input
      = (readItems fuel depth rest).map fun (items, rest) => (item :: items, rest) := by
  rw [readItems, h]
  simp only [Option.bind_eq_bind, Option.bind_some,
    dropBlanks_eq_of_head rest (show isBlank 0x2c = false by decide)]
  cases readItems fuel depth rest <;> rfl

theorem readMembers_of_none (name : String) (h : readValue fuel depth input = none) :
    readMembers (fuel + 1) depth (printText name ++ 0x3a :: input) = none := by
  rw [readMembers, readName_printText]
  simp [h]

theorem readMembers_last (name : String)
    (h : readValue fuel depth input = some (item, 0x7d :: rest)) :
    readMembers (fuel + 1) depth (printText name ++ 0x3a :: input) = some ([(name, item)], rest) := by
  rw [readMembers, readName_printText]
  simp [h, dropBlanks_eq_of_head rest (show isBlank 0x7d = false by decide)]

theorem readMembers_more (name : String)
    (h : readValue fuel depth input = some (item, 0x2c :: rest)) :
    readMembers (fuel + 1) depth (printText name ++ 0x3a :: input)
      = (readMembers fuel depth rest).map fun (members, rest) => ((name, item) :: members, rest) := by
  rw [readMembers, readName_printText]
  simp only [Option.bind_eq_bind, Option.bind_some, h,
    dropBlanks_eq_of_head rest (show isBlank 0x2c = false by decide)]
  cases readMembers fuel depth rest <;> rfl

end

theorem printItems_cons (item : Json) {items : List Json} (h : items ≠ []) :
    printItems (item :: items) = print item ++ 0x2c :: printItems items := by
  cases items with
  | nil => exact absurd rfl h
  | cons next items => rw [printItems]; exact nofun

theorem printMembers_cons (name : String) (value : Json) {members : List (String × Json)}
    (h : members ≠ []) :
    printMembers ((name, value) :: members)
      = printText name ++ 0x3a :: (print value ++ 0x2c :: printMembers members) := by
  cases members with
  | nil => exact absurd rfl h
  | cons next members =>
      rw [printMembers, printMember, List.append_assoc, List.cons_append]
      exact nofun

/-! ### Within a depth -/

/-- A container that fits is rebuilt from content that fits one level less. -/
theorem map_within_succ {α β : Type} (build : α → β) (a : α) (n depth : Nat) :
    (if n ≤ depth then some a else none).map build
      = if n + 1 ≤ depth + 1 then some (build a) else none := by
  by_cases hfits : n ≤ depth
  · rw [if_pos hfits, if_pos (Nat.succ_le_succ hfits)]
    rfl
  · rw [if_neg hfits, if_neg fun h => hfits (Nat.le_of_succ_le_succ h)]
    rfl

/-- After a first item that fits, the others decide. -/
theorem map_within_max {α β : Type} (build : α → β) (a : α) {m n depth : Nat} (h : m ≤ depth) :
    (if n ≤ depth then some a else none).map build
      = if max m n ≤ depth then some (build a) else none := by
  by_cases hfits : n ≤ depth
  · rw [if_pos hfits, if_pos (Nat.max_le.mpr ⟨h, hfits⟩)]
    rfl
  · rw [if_neg hfits, if_neg fun hmax => hfits (Nat.max_le.mp hmax).2]
    rfl

/-- **Items** of which each reads back. -/
theorem readItems_printItems {items : List Json} (hitems : ∀ item ∈ items, ReadsBack item)
    (hsome : items ≠ []) : ∀ (fuel depth : Nat) (rest : Bytes),
    2 * (printItems items).length ≤ fuel →
      readItems fuel depth (printItems items ++ rest)
        = if nestingItems items ≤ depth then some (items, rest) else none := by
  induction items with
  | nil => exact absurd rfl hsome
  | cons item more ih =>
      intro fuel depth rest hfuel
      obtain ⟨hitem, hmore⟩ := List.forall_mem_cons.mp hitems
      rw [nestingItems]
      by_cases hnil : more = []
      · -- the last item, with the closing bracket behind it
        subst hnil
        rw [printItems, List.length_append, List.length_singleton] at hfuel
        obtain ⟨fuel, rfl⟩ : ∃ n, fuel = n + 1 := ⟨fuel - 1, by omega⟩
        have hvalue := hitem fuel depth (0x5d :: rest) (by omega)
          (stops_cons rest (.inr (.inl rfl)))
        rw [printItems, List.append_assoc, List.singleton_append, nestingItems, Nat.max_zero]
        by_cases hdeep : nesting item ≤ depth
        · rw [if_pos hdeep] at hvalue ⊢
          exact readItems_last hvalue
        · rw [if_neg hdeep] at hvalue ⊢
          exact readItems_of_none hvalue
      · rw [printItems_cons item hnil, List.length_append, List.length_cons] at hfuel
        obtain ⟨fuel, rfl⟩ : ∃ n, fuel = n + 1 := ⟨fuel - 1, by omega⟩
        have hvalue := hitem fuel depth (0x2c :: (printItems more ++ rest)) (by omega)
          (stops_cons _ (.inl rfl))
        rw [printItems_cons item hnil, List.append_assoc, List.cons_append]
        by_cases hdeep : nesting item ≤ depth
        · rw [if_pos hdeep] at hvalue
          rw [readItems_more hvalue, ih hmore hnil fuel depth rest (by omega)]
          exact map_within_max _ _ hdeep
        · rw [if_neg hdeep] at hvalue
          rw [readItems_of_none hvalue, if_neg (fun h => hdeep (Nat.max_le.mp h).1)]

/-- **Members** whose values read back. -/
theorem readMembers_printMembers {members : List (String × Json)}
    (hmembers : ∀ member ∈ members, ReadsBack member.2) (hsome : members ≠ []) :
    ∀ (fuel depth : Nat) (rest : Bytes), 2 * (printMembers members).length ≤ fuel →
      readMembers fuel depth (printMembers members ++ rest)
        = if nestingMembers members ≤ depth then some (members, rest) else none := by
  induction members with
  | nil => exact absurd rfl hsome
  | cons member more ih =>
      intro fuel depth rest hfuel
      obtain ⟨hvalue, hmore⟩ := List.forall_mem_cons.mp hmembers
      obtain ⟨name, value⟩ := member
      rw [nestingMembers, nestingMember]
      by_cases hnil : more = []
      · subst hnil
        rw [printMembers, printMember, List.length_append, List.length_append, List.length_cons,
          List.length_singleton] at hfuel
        obtain ⟨fuel, rfl⟩ : ∃ n, fuel = n + 1 := ⟨fuel - 1, by omega⟩
        have hread := hvalue fuel depth (0x7d :: rest) (by dsimp only; omega)
          (stops_cons rest (.inr (.inr rfl)))
        rw [printMembers, printMember, List.append_assoc, List.singleton_append, List.append_assoc,
          List.cons_append, nestingMembers, Nat.max_zero]
        by_cases hdeep : nesting value ≤ depth
        · rw [if_pos hdeep] at hread ⊢
          exact readMembers_last name hread
        · rw [if_neg hdeep] at hread ⊢
          exact readMembers_of_none name hread
      · rw [printMembers_cons name value hnil, List.length_append, List.length_cons,
          List.length_append, List.length_cons] at hfuel
        obtain ⟨fuel, rfl⟩ : ∃ n, fuel = n + 1 := ⟨fuel - 1, by omega⟩
        have hread := hvalue fuel depth (0x2c :: (printMembers more ++ rest))
          (by dsimp only; omega) (stops_cons _ (.inl rfl))
        rw [printMembers_cons name value hnil, List.append_assoc, List.cons_append,
          List.append_assoc, List.cons_append]
        by_cases hdeep : nesting value ≤ depth
        · rw [if_pos hdeep] at hread
          rw [readMembers_more name hread, ih hmore hnil fuel depth rest (by omega)]
          exact map_within_max _ _ hdeep
        · rw [if_neg hdeep] at hread
          rw [readMembers_of_none name hread, if_neg (fun h => hdeep (Nat.max_le.mp h).1)]

/-- A text that begins no array's end is no array's end. -/
theorem readValue_items {b : UInt8} {fuel depth : Nat} {more : Bytes} (hblank : isBlank b = false)
    (hend : b ≠ 0x5d) :
    readValue (fuel + 1) (depth + 1) (0x5b :: b :: more)
      = (readItems fuel depth (b :: more)).map fun (items, rest) => (.arr items, rest) := by
  rw [readValue, dropBlanks_eq_of_head _ (by decide)]
  simp only [dropBlanks_eq_of_head _ hblank]
  split
  · rename_i heq
    injection heq with heq
    exact absurd heq hend
  · rfl

theorem readValue_members {fuel depth : Nat} {more : Bytes} :
    readValue (fuel + 1) (depth + 1) (0x7b :: 0x22 :: more)
      = (readMembers fuel depth (0x22 :: more)).map fun (members, rest) => (.obj members, rest) := by
  rw [readValue, dropBlanks_eq_of_head _ (by decide)]
  simp [dropBlanks_eq_of_head more (show isBlank 0x22 = false by decide)]

theorem readValue_arr_zero (fuel : Nat) (more : Bytes) :
    readValue (fuel + 1) 0 (0x5b :: more) = none := by
  rw [readValue, dropBlanks_eq_of_head _ (by decide)]
  rfl

theorem readValue_obj_zero (fuel : Nat) (more : Bytes) :
    readValue (fuel + 1) 0 (0x7b :: more) = none := by
  rw [readValue, dropBlanks_eq_of_head _ (by decide)]
  rfl

theorem readsBack_of_scalar {value : Json} {b : UInt8} {more : Bytes}
    (hhead : print value = b :: more) (hblank : isBlank b = false) (harr : b ≠ 0x5b)
    (hobj : b ≠ 0x7b) (hflat : nesting value = 0)
    (hread : ∀ rest, Stops rest → readScalar (print value ++ rest) = some (value, rest)) :
    ReadsBack value := by
  intro fuel depth rest hfuel hstops
  have hread := hread rest hstops
  rw [hhead, List.cons_append] at hread
  rw [hhead] at hfuel
  obtain ⟨fuel, rfl⟩ : ∃ n, fuel = n + 1 := ⟨fuel - 1, by rw [List.length_cons] at hfuel; omega⟩
  rw [hflat, if_pos (Nat.zero_le _), hhead, List.cons_append,
    readValue_scalar fuel depth _ hblank harr hobj, hread]

/-- An array reads back if its items do. -/
theorem readsBack_arr {items : List Json} (hplain : ∀ item ∈ items, Plain item)
    (hitems : ∀ item ∈ items, ReadsBack item) : ReadsBack (.arr items) := by
  intro fuel depth rest hfuel _
  rw [print, List.length_cons] at hfuel
  obtain ⟨fuel, rfl⟩ : ∃ n, fuel = n + 1 := ⟨fuel - 1, by omega⟩
  rw [print, List.cons_append, nesting]
  cases depth with
  | zero => rw [readValue_arr_zero, if_neg (Nat.not_succ_le_zero _)]
  | succ depth =>
      by_cases hnil : items = []
      · subst hnil
        rw [nestingItems, if_pos (Nat.succ_le_succ (Nat.zero_le _)), readValue,
          dropBlanks_eq_of_head _ (by decide)]
        rfl
      · have hread := readItems_printItems hitems hnil fuel depth rest (by omega)
        -- the first item does not look like the end of the array
        obtain ⟨b, more, hhead, hblank, hend⟩ :
            ∃ b more, printItems items ++ rest = b :: more ∧ isBlank b = false ∧ b ≠ 0x5d := by
          cases items with
          | nil => exact absurd rfl hnil
          | cons item items =>
              obtain ⟨b, more, hhead, hblank, hend⟩ := (hplain item List.mem_cons_self).print_head
              by_cases hlast : items = []
              · subst hlast
                exact ⟨b, _, by rw [printItems, hhead]; rfl, hblank, hend⟩
              · exact ⟨b, _, by rw [printItems_cons item hlast, hhead]; rfl, hblank, hend⟩
        rw [hhead] at hread ⊢
        rw [readValue_items hblank hend, hread]
        exact map_within_succ _ _ _ _

/-- An object reads back if its members' values do. -/
theorem readsBack_obj {members : List (String × Json)}
    (hmembers : ∀ member ∈ members, ReadsBack member.2) : ReadsBack (.obj members) := by
  intro fuel depth rest hfuel _
  rw [print, List.length_cons] at hfuel
  obtain ⟨fuel, rfl⟩ : ∃ n, fuel = n + 1 := ⟨fuel - 1, by omega⟩
  rw [print, List.cons_append, nesting]
  cases depth with
  | zero => rw [readValue_obj_zero, if_neg (Nat.not_succ_le_zero _)]
  | succ depth =>
      by_cases hnil : members = []
      · subst hnil
        rw [nestingMembers, if_pos (Nat.succ_le_succ (Nat.zero_le _)), readValue,
          dropBlanks_eq_of_head _ (by decide)]
        rfl
      · have hread := readMembers_printMembers hmembers hnil fuel depth rest (by omega)
        obtain ⟨more, hhead⟩ : ∃ more, printMembers members ++ rest = 0x22 :: more := by
          cases members with
          | nil => exact absurd rfl hnil
          | cons member members =>
              obtain ⟨name, value⟩ := member
              by_cases hlast : members = []
              · subst hlast
                exact ⟨_, by rw [printMembers, printMember, printText]; rfl⟩
              · exact ⟨_, by rw [printMembers_cons name value hlast, printText]; rfl⟩
        rw [hhead] at hread ⊢
        rw [readValue_members, hread]
        exact map_within_succ _ _ _ _

/-- **A value's text reads back,** whatever the value. -/
theorem Plain.readsBack {value : Json} (h : Plain value) : ReadsBack value := by
  induction h with
  | null =>
      exact @readsBack_of_scalar _ 0x6e _ rfl (by decide) (by decide) (by decide) rfl
        fun rest _ => rfl
  | bool b =>
      cases b with
      | true =>
          exact @readsBack_of_scalar _ 0x74 _ rfl (by decide) (by decide) (by decide) rfl
            fun rest _ => rfl
      | false =>
          exact @readsBack_of_scalar _ 0x66 _ rfl (by decide) (by decide) (by decide) rfl
            fun rest _ => rfl
  | @int n lo hi =>
      obtain ⟨b, more, hhead, hb⟩ := printInt_head n
      refine readsBack_of_scalar (by rw [print]; exact hhead) (isBlank_of_begins_int hb)
        (ne_of_begins_int hb (by decide) (by decide)) (ne_of_begins_int hb (by decide) (by decide))
        rfl ?_
      intro rest hstops
      rw [print]
      exact readScalar_printInt lo hi hstops
  | str text =>
      refine @readsBack_of_scalar _ 0x22 _ (by rw [print]; rfl) (by decide) (by decide) (by decide)
        rfl ?_
      intro rest _
      rw [print, printText_append]
      unfold readScalar
      dsimp only
      rw [if_pos rfl, readText_printText]
      rfl
  | arr hplain ih => exact readsBack_arr hplain ih
  | obj _ ih => exact readsBack_obj ih

/-- **A value's text is read to the value if it fits the depth,** and refused
    if it does not; what follows is left alone. -/
theorem readValue_print {value : Json} (h : Plain value) (depth : Nat) {rest : Bytes}
    (hstops : Stops rest) :
    readValue (fuelFor (print value ++ rest)) depth (print value ++ rest)
      = if nesting value ≤ depth then some (value, rest) else none := by
  apply h.readsBack _ _ _ _ hstops
  unfold fuelFor
  rw [List.length_append]
  omega

/-! ## §5. Depth -/

theorem nesting_of_toJson? {number : Number} {value : Json} (h : number.toJson? = some value) :
    nesting value = 0 := by
  unfold Number.toJson? at h
  dsimp only at h
  generalize (if number.negative = true then -(ofDigits number.whole : Int)
    else ofDigits number.whole) = n at h
  split at h
  · obtain rfl := Option.some.inj h
    rfl
  · split at h
    · obtain rfl := Option.some.inj h
      rfl
    · cases h

theorem nesting_of_map {α : Type} {read : Option α} {build : α → Json × Bytes} {value : Json}
    {rest : Bytes} (hflat : ∀ a, nesting (build a).1 = 0)
    (h : read.map build = some (value, rest)) : nesting value = 0 := by
  obtain ⟨a, -, heq⟩ := Option.map_eq_some_iff.mp h
  rw [← hflat a, heq]

theorem nesting_of_readScalar {input rest : Bytes} {value : Json}
    (h : readScalar input = some (value, rest)) : nesting value = 0 := by
  unfold readScalar at h
  split at h
  · cases h
  · -- a string and the three words, and then a number
    split at h
    · exact nesting_of_map (fun _ => rfl) h
    split at h
    · exact nesting_of_map (fun _ => rfl) h
    split at h
    · exact nesting_of_map (fun _ => rfl) h
    split at h
    · exact nesting_of_map (fun _ => rfl) h
    simp only [bind, Option.bind_eq_some_iff] at h
    obtain ⟨⟨number, _⟩, -, value', hvalue, heq⟩ := h
    cases heq
    exact nesting_of_toJson? hvalue

/-- **Nothing that is read nests deeper than the reader goes.** -/
theorem nesting_le_of_read (fuel : Nat) :
    (∀ {depth input value rest}, readValue fuel depth input = some (value, rest) →
      nesting value ≤ depth)
    ∧ (∀ {depth input items rest}, readItems fuel depth input = some (items, rest) →
      nestingItems items ≤ depth)
    ∧ (∀ {depth input members rest}, readMembers fuel depth input = some (members, rest) →
      nestingMembers members ≤ depth) := by
  -- the three readers call each other with less fuel, so each case needs all three hypotheses
  induction fuel with
  | zero => exact ⟨nofun, nofun, nofun⟩
  | succ fuel ih =>
      obtain ⟨ihvalue, ihitems, ihmembers⟩ := ih
      refine ⟨?_, ?_, ?_⟩
      · intro depth input value rest h
        rw [readValue] at h
        split at h
        · split at h
          · cases h
          · split at h
            · cases h
              exact Nat.succ_le_succ (Nat.zero_le _)
            · obtain ⟨⟨items, _⟩, hitems, heq⟩ := Option.map_eq_some_iff.mp h
              cases heq
              exact Nat.succ_le_succ (ihitems hitems)
        · split at h
          · cases h
          · split at h
            · cases h
              exact Nat.succ_le_succ (Nat.zero_le _)
            · obtain ⟨⟨members, _⟩, hmembers, heq⟩ := Option.map_eq_some_iff.mp h
              cases heq
              exact Nat.succ_le_succ (ihmembers hmembers)
        · rw [nesting_of_readScalar h]
          exact Nat.zero_le _
      · intro depth input items rest h
        simp only [readItems, bind, Option.bind_eq_some_iff] at h
        obtain ⟨⟨item, rest'⟩, hitem, h⟩ := h
        dsimp only at h
        split at h
        · obtain ⟨⟨more, _⟩, hmore, heq⟩ := Option.bind_eq_some_iff.mp h
          cases heq
          exact Nat.max_le.mpr ⟨ihvalue hitem, ihitems hmore⟩
        · cases h
          exact Nat.max_le.mpr ⟨ihvalue hitem, Nat.zero_le _⟩
        · cases h
      · intro depth input members rest h
        simp only [readMembers, bind, Option.bind_eq_some_iff] at h
        obtain ⟨⟨name, rest'⟩, -, ⟨value, rest''⟩, hvalue, h⟩ := h
        dsimp only at h
        split at h
        · obtain ⟨⟨more, _⟩, hmore, heq⟩ := Option.bind_eq_some_iff.mp h
          cases heq
          exact Nat.max_le.mpr ⟨ihvalue hvalue, ihmembers hmore⟩
        · cases h
          exact Nat.max_le.mpr ⟨ihvalue hvalue, Nat.zero_le _⟩
        · cases h

end Json

end Masquerade
