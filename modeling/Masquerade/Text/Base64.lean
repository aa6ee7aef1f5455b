/-
  Masquerade.Text.Base64 — BASE64 with canonical padding.

  Three bytes travel as four letters of the standard alphabet; a last group
  of one or two bytes is filled up with padding.  A reader takes exactly
  what a writer produces, and says where anything else goes wrong: the
  first byte outside the alphabet, a group that cannot hold a byte, missing
  padding, or bits set that no byte uses.

  Main results:
    * `Base64.digit?_letter` — a letter's value is the number it stands for.
    * `Base64.decode_encode`, `Base64.decode_encodeText` — decoding an encoding
      gives the bytes back.
-/
import Masquerade.Bytes

namespace Masquerade

namespace Base64

/-! ## §1. The alphabet -/

/-- The letter of a number below 64. -/
def letter (n : Nat) : UInt8 :=
  if n < 26 then UInt8.ofNat (65 + n)
  else if n < 52 then UInt8.ofNat (97 + (n - 26))
  else if n < 62 then UInt8.ofNat (48 + (n - 52))
  else if n = 62 then 0x2b
  else 0x2f

/-- The number of a letter. -/
def digit? (b : UInt8) : Option Nat :=
  if 65 ≤ b ∧ b ≤ 90 then some (b.toNat - 65)
  else if 97 ≤ b ∧ b ≤ 122 then some (b.toNat - 97 + 26)
  else if 48 ≤ b ∧ b ≤ 57 then some (b.toNat - 48 + 52)
  else if b = 0x2b then some 62
  else if b = 0x2f then some 63
  else none

/-- The padding byte. -/
def pad : UInt8 := 0x3d

/-- A letter's value is the number it stands for. -/
theorem digit?_letter {n : Nat} (h : n < 64) : digit? (letter n) = some n := by
  have : ∀ n, n < 64 → digit? (letter n) = some n := by decide
  exact this n h

/-! ## §2. Encoding -/

/-- Letter number `i` of a 24-bit group. -/
def groupLetter (group i : Nat) : UInt8 := letter (group / Nat.pow 64 (3 - i) % 64)

/-- Three bytes as one number. -/
def groupOf (a b c : UInt8) : Nat := a.toNat * 65536 + b.toNat * 256 + c.toNat

/-- **The letters of a byte string.** -/
def encode : Bytes → Bytes
  | [] => []
  | [a] => [groupLetter (groupOf a 0 0) 0, groupLetter (groupOf a 0 0) 1, pad, pad]
  | [a, b] =>
    [groupLetter (groupOf a b 0) 0, groupLetter (groupOf a b 0) 1, groupLetter (groupOf a b 0) 2,
      pad]
  | a :: b :: c :: rest =>
    groupLetter (groupOf a b c) 0 :: groupLetter (groupOf a b c) 1
      :: groupLetter (groupOf a b c) 2 :: groupLetter (groupOf a b c) 3 :: encode rest

/-! ## §3. Decoding -/

/-- Where a text fails to be base64. -/
inductive Error where
  /-- A byte that may not stand at its offset. -/
  | invalidByte (offset : Nat) (byte : UInt8)
  /-- One letter more than full groups. -/
  | invalidLength
  /-- The last letter has bits set that no byte uses. -/
  | invalidLastSymbol (offset : Nat) (byte : UInt8)
  /-- Missing padding. -/
  | invalidPadding
  deriving DecidableEq, Repr

/-- The wording of an error. -/
def Error.message : Error → String
  | .invalidByte offset byte =>
    "Invalid byte " ++ toString byte.toNat ++ ", offset " ++ toString offset ++ "."
  | .invalidLength => "Encoded text cannot have a 6-bit remainder."
  | .invalidLastSymbol offset byte =>
    "Invalid last symbol " ++ toString byte.toNat ++ ", offset " ++ toString offset ++ "."
  | .invalidPadding => "Invalid padding"

/-- The number of a letter at an offset. -/
def digitAt (offset : Nat) (b : UInt8) : Except Error Nat :=
  match digit? b with
  | some n => .ok n
  | none => .error (.invalidByte offset b)

/-- The bytes of a full group. -/
def fullGroup (offset : Nat) (a b c d : UInt8) : Except Error Bytes := do
  let a ← digitAt offset a
  let b ← digitAt (offset + 1) b
  let c ← digitAt (offset + 2) c
  let d ← digitAt (offset + 3) d
  let group := ((a * 64 + b) * 64 + c) * 64 + d
  .ok [UInt8.ofNat (group / 65536), UInt8.ofNat (group / 256 % 256), UInt8.ofNat (group % 256)]

/-- The bytes of a last group: four bytes with no, one or two paddings.  A
    letter after a padding is the padding's fault. -/
def lastGroup (offset : Nat) : Bytes → Except Error Bytes
  | [] => .ok []
  | [a] => do
    let _ ← digitAt offset a
    .error .invalidLength
  | [a, b] => do
    let _ ← digitAt offset a
    let _ ← digitAt (offset + 1) b
    .error .invalidPadding
  | [a, b, c] => do
    let _ ← digitAt offset a
    let _ ← digitAt (offset + 1) b
    if c = pad then .error .invalidPadding
    else
      let _ ← digitAt (offset + 2) c
      .error .invalidPadding
  | a :: b :: c :: d :: _ => do
    let high ← digitAt offset a
    let low ← digitAt (offset + 1) b
    if c = pad then
      if d = pad then
        if low % 16 = 0 then .ok [UInt8.ofNat (high * 4 + low / 16)]
        else .error (.invalidLastSymbol (offset + 1) b)
      else .error (.invalidByte (offset + 2) c)
    else
      let last ← digitAt (offset + 2) c
      if d = pad then
        if last % 4 = 0 then
          .ok [UInt8.ofNat (high * 4 + low / 16), UInt8.ofNat (low % 16 * 16 + last / 4)]
        else .error (.invalidLastSymbol (offset + 2) c)
      else fullGroup offset a b c d

/-- Groups of four, the last of which may be padded. -/
def decodeGroups (offset : Nat) : Bytes → Except Error Bytes
  | a :: b :: c :: d :: e :: rest => do
    let bytes ← fullGroup offset a b c d
    let more ← decodeGroups (offset + 4) (e :: rest)
    .ok (bytes ++ more)
  | group => lastGroup offset group

/-- A text with one letter too many: its last byte if that is no letter, or
    else its length. -/
def oddLength (text : Bytes) : Error :=
  match text.getLast? with
  | some b =>
    if b ≠ pad ∧ (digit? b).isNone then .invalidByte (text.length - 1) b else .invalidLength
  | none => .invalidLength

/-- **The bytes of a text.** -/
def decode (text : Bytes) : Except Error Bytes :=
  if text.length % 4 = 1 then .error (oddLength text) else decodeGroups 0 text

/-! ## §4. Reading back -/

theorem digit?_groupLetter (group i : Nat) :
    digit? (groupLetter group i) = some (group / Nat.pow 64 (3 - i) % 64) :=
  digit?_letter (Nat.mod_lt _ (by decide))

theorem letter_ne_pad {n : Nat} (h : n < 64) : letter n ≠ pad := by
  have : ∀ n, n < 64 → letter n ≠ pad := by decide
  exact this n h

theorem groupLetter_ne_pad (group i : Nat) : groupLetter group i ≠ pad :=
  letter_ne_pad (Nat.mod_lt _ (by decide))

/-- A full group of four letters. -/
theorem fullGroup_of_digits {a b c d : UInt8} {w x y z : Nat} (offset : Nat)
    (ha : digit? a = some w) (hb : digit? b = some x) (hc : digit? c = some y)
    (hd : digit? d = some z) :
    fullGroup offset a b c d =
      .ok [UInt8.ofNat ((((w * 64 + x) * 64 + y) * 64 + z) / 65536),
        UInt8.ofNat ((((w * 64 + x) * 64 + y) * 64 + z) / 256 % 256),
        UInt8.ofNat ((((w * 64 + x) * 64 + y) * 64 + z) % 256)] := by
  simp [fullGroup, digitAt, ha, hb, hc, hd, bind, Except.bind]

/-- A last group of two letters holds one byte. -/
theorem lastGroup_two {a b : UInt8} {x y : Nat} (offset : Nat) (ha : digit? a = some x)
    (hb : digit? b = some y) (hy : y % 16 = 0) :
    lastGroup offset [a, b, pad, pad] = .ok [UInt8.ofNat (x * 4 + y / 16)] := by
  simp [lastGroup, digitAt, ha, hb, hy, bind, Except.bind]

/-- A last group of three letters holds two bytes. -/
theorem lastGroup_three {a b c : UInt8} {x y z : Nat} (offset : Nat) (ha : digit? a = some x)
    (hb : digit? b = some y) (hc : digit? c = some z) (hpad : c ≠ pad) (hz : z % 4 = 0) :
    lastGroup offset [a, b, c, pad] =
      .ok [UInt8.ofNat (x * 4 + y / 16), UInt8.ofNat (y % 16 * 16 + z / 4)] := by
  simp [lastGroup, digitAt, ha, hb, hc, hpad, hz, bind, Except.bind]

/-- A last group of four letters is a full group. -/
theorem lastGroup_four {a b c d : UInt8} {w x y : Nat} (offset : Nat) (ha : digit? a = some w)
    (hb : digit? b = some x) (hc : digit? c = some y) (hpad : c ≠ pad) (hpad' : d ≠ pad) :
    lastGroup offset [a, b, c, d] = fullGroup offset a b c d := by
  simp [lastGroup, digitAt, ha, hb, hc, hpad, hpad', bind, Except.bind]

theorem ofNat_eq_of_toNat {b : UInt8} {n : Nat} (h : n = b.toNat) : UInt8.ofNat n = b := by
  subst h
  exact UInt8.ofNat_toNat

theorem pow_three : Nat.pow 64 3 = 262144 := rfl
theorem pow_two : Nat.pow 64 2 = 4096 := rfl
theorem pow_one : Nat.pow 64 1 = 64 := rfl
theorem pow_zero : Nat.pow 64 0 = 1 := rfl

theorem fullGroup_groupLetter (offset : Nat) (a b c : UInt8) :
    fullGroup offset (groupLetter (groupOf a b c) 0) (groupLetter (groupOf a b c) 1)
      (groupLetter (groupOf a b c) 2) (groupLetter (groupOf a b c) 3) = .ok [a, b, c] := by
  have ha := a.toNat_lt
  have hb := b.toNat_lt
  have hc := c.toNat_lt
  rw [fullGroup_of_digits offset (digit?_groupLetter _ _) (digit?_groupLetter _ _)
    (digit?_groupLetter _ _) (digit?_groupLetter _ _)]
  rw [ofNat_eq_of_toNat (b := a), ofNat_eq_of_toNat (b := b), ofNat_eq_of_toNat (b := c)] <;>
    simp only [groupOf, Nat.reduceSub, pow_three, pow_two, pow_one, pow_zero] <;> omega

theorem toNat_zero : (0 : UInt8).toNat = 0 := rfl

theorem decodeGroups_encode (offset : Nat) (bytes : Bytes) :
    decodeGroups offset (encode bytes) = .ok bytes := by
  induction bytes using encode.induct generalizing offset with
  | case1 => rfl
  | case2 a =>
    have ha := a.toNat_lt
    simp only [encode, decodeGroups]
    rw [lastGroup_two offset (digit?_groupLetter _ _) (digit?_groupLetter _ _),
      ofNat_eq_of_toNat (b := a)] <;>
      simp only [groupOf, toNat_zero, Nat.reduceSub, pow_three, pow_two] <;> omega
  | case3 a b =>
    have ha := a.toNat_lt
    have hb := b.toNat_lt
    simp only [encode, decodeGroups]
    rw [lastGroup_three offset (digit?_groupLetter _ _) (digit?_groupLetter _ _)
      (digit?_groupLetter _ _) (groupLetter_ne_pad _ _), ofNat_eq_of_toNat (b := a),
      ofNat_eq_of_toNat (b := b)] <;>
      simp only [groupOf, toNat_zero, Nat.reduceSub, pow_three, pow_two, pow_one] <;> omega
  | case4 a b c rest ih =>
    simp only [encode]
    cases hrest : encode rest with
    | nil =>
      have hnil : rest = [] := by
        cases rest with
        | nil => rfl
        | cons x xs =>
          cases xs with
          | nil => simp [encode] at hrest
          | cons y ys =>
            cases ys <;> simp [encode] at hrest
      subst hnil
      simp only [decodeGroups]
      rw [lastGroup_four offset (digit?_groupLetter _ _) (digit?_groupLetter _ _)
        (digit?_groupLetter _ _) (groupLetter_ne_pad _ _) (groupLetter_ne_pad _ _)]
      exact fullGroup_groupLetter offset a b c
    | cons e es =>
      simp only [decodeGroups]
      rw [fullGroup_groupLetter offset a b c]
      simp only [bind, Except.bind, ← hrest, ih, List.cons_append, List.nil_append]

theorem length_encode_mod (bytes : Bytes) : (encode bytes).length % 4 = 0 := by
  induction bytes using encode.induct with
  | case1 => rfl
  | case2 => simp [encode]
  | case3 => simp [encode]
  | case4 a b c rest ih =>
    simp only [encode, List.length_cons]
    omega

/-- **Decoding an encoding gives the bytes back.** -/
theorem decode_encode (bytes : Bytes) : decode (encode bytes) = .ok bytes := by
  have : ¬ (encode bytes).length % 4 = 1 := by simp [length_encode_mod]
  rw [decode, if_neg this]
  exact decodeGroups_encode 0 bytes

/-! ## §5. As text -/

/-- The encoding as text. -/
def encodeText (bytes : Bytes) : String :=
  String.ofList ((encode bytes).map fun b => Char.ofNat b.toNat)

theorem groupLetter_eq (group i : Nat) : ∃ n < 64, groupLetter group i = letter n :=
  ⟨_, Nat.mod_lt _ (by decide), rfl⟩

/-- **An encoding is made of letters and padding.** -/
theorem forall_mem_encode {P : UInt8 → Prop} (hletter : ∀ n, n < 64 → P (letter n)) (hpad : P pad)
    (bytes : Bytes) : ∀ b ∈ encode bytes, P b := by
  have hgroup : ∀ group i, P (groupLetter group i) := by
    intro group i
    obtain ⟨n, hn, heq⟩ := groupLetter_eq group i
    rw [heq]
    exact hletter n hn
  induction bytes using encode.induct with
  | case1 => exact nofun
  | case2 a => simp [encode, hgroup, hpad]
  | case3 a b => simp [encode, hgroup, hpad]
  | case4 a b c rest ih => simpa [encode, hgroup] using ih

/-- The text of an encoding has the encoding as its bytes. -/
theorem ofText_encodeText (bytes : Bytes) : Bytes.ofText (encodeText bytes) = encode bytes :=
  Bytes.ofText_ascii (forall_mem_encode (by decide) (by decide) bytes)

/-- **Decoding the text of an encoding gives the bytes back.** -/
theorem decode_encodeText (bytes : Bytes) :
    decode (Bytes.ofText (encodeText bytes)) = .ok bytes := by
  rw [ofText_encodeText, decode_encode]

end Base64

end Masquerade
