/-
  Masquerade.Bytes — BYTE STRINGS and their integer readings.

  A byte string is a list of bytes.  This module holds the big-endian and
  little-endian integer codes that the cipher, the key agreement and the
  chunk framing share, the lower-case hexadecimal text of a string, and the
  passage between text and its UTF-8 bytes.

  Main results:
    * `length_ofNatBE`, `length_ofNatLE` — a code has the width asked for.
    * `toNatLE_ofNatLE` — reading back a little-endian code gives the
      number, provided it fits.
    * `ofNatBE_toNatBE` — every byte string is the big-endian code of its
      reading.
    * `toText?_ofText` — the UTF-8 bytes of a text give the text back.
    * `ofText_ascii` — ASCII bytes are the UTF-8 bytes of the text they spell.
-/

namespace Masquerade

/-- A byte string. -/
abbrev Bytes := List UInt8

namespace Bytes

/-! ## §1. Little-endian integers -/

/-- The number whose little-endian digits are the given bytes. -/
def toNatLE : Bytes → Nat
  | [] => 0
  | b :: rest => b.toNat + 256 * toNatLE rest

/-- The little-endian code of a number in exactly `width` bytes; what does
    not fit is dropped. -/
def ofNatLE : (width : Nat) → Nat → Bytes
  | 0, _ => []
  | width + 1, n => UInt8.ofNat (n % 256) :: ofNatLE width (n / 256)

@[simp] theorem length_ofNatLE (width n : Nat) : (ofNatLE width n).length = width := by
  induction width generalizing n with
  | zero => rfl
  | succ width ih => simp [ofNatLE, ih]

/-- **Reading back.**  A number that fits the width survives its code. -/
theorem toNatLE_ofNatLE (width n : Nat) (h : n < Nat.pow 256 width) :
    toNatLE (ofNatLE width n) = n := by
  induction width generalizing n with
  | zero =>
    have h : n < 1 := h
    simp only [ofNatLE, toNatLE]
    omega
  | succ width ih =>
    have h : n < Nat.pow 256 width * 256 := h
    have hdiv : n / 256 < Nat.pow 256 width :=
      Nat.div_lt_of_lt_mul (by rw [Nat.mul_comm]; exact h)
    simp only [ofNatLE, toNatLE, ih _ hdiv]
    have : (UInt8.ofNat (n % 256)).toNat = n % 256 := by
      simp
    omega

/-! ## §2. Big-endian integers -/

/-- The number whose big-endian digits are the given bytes. -/
def toNatBE (bytes : Bytes) : Nat :=
  bytes.foldl (fun acc b => acc * 256 + b.toNat) 0

/-- The big-endian code of a number in exactly `width` bytes. -/
def ofNatBE (width n : Nat) : Bytes :=
  (ofNatLE width n).reverse

@[simp] theorem length_ofNatBE (width n : Nat) : (ofNatBE width n).length = width := by
  simp [ofNatBE]

/-- Read from its other end, a code has its other reading. -/
theorem toNatBE_reverse (bytes : Bytes) : toNatBE bytes.reverse = toNatLE bytes := by
  induction bytes with
  | nil => rfl
  | cons b rest ih =>
    simp only [toNatBE] at ih
    simp only [toNatBE, List.reverse_cons, List.foldl_append, List.foldl_cons, List.foldl_nil,
      toNatLE, ih]
    omega

theorem ofNatLE_toNatLE (bytes : Bytes) : ofNatLE bytes.length (toNatLE bytes) = bytes := by
  induction bytes with
  | nil => rfl
  | cons b rest ih =>
    have hb : b.toNat < 256 := b.toNat_lt
    have hlow : (b.toNat + 256 * toNatLE rest) % 256 = b.toNat := by omega
    have hhigh : (b.toNat + 256 * toNatLE rest) / 256 = toNatLE rest := by omega
    rw [List.length_cons, toNatLE, ofNatLE, hlow, hhigh, ih, UInt8.ofNat_toNat]

/-- **Every byte string is a code**, that of its reading. -/
theorem ofNatBE_toNatBE (bytes : Bytes) : ofNatBE bytes.length (toNatBE bytes) = bytes := by
  have hcode := ofNatLE_toNatLE bytes.reverse
  rw [← toNatBE_reverse, List.reverse_reverse, List.length_reverse] at hcode
  rw [ofNatBE, hcode, List.reverse_reverse]

/-! ## §3. Hexadecimal text -/

/-- The lower-case hexadecimal digit of a number below sixteen. -/
def hexDigit (n : Nat) : Char :=
  if n < 10 then Char.ofNat ('0'.toNat + n) else Char.ofNat ('a'.toNat + (n - 10))

/-- The two hexadecimal digits of one byte. -/
def hexByte (b : UInt8) : List Char :=
  [hexDigit (b.toNat / 16), hexDigit (b.toNat % 16)]

/-- Two lower-case hexadecimal digits per byte. -/
def hex (bytes : Bytes) : String :=
  String.ofList (bytes.flatMap hexByte)

/-- The value of a hexadecimal digit, in either case; zero for any other
    character. -/
def hexValue (c : Char) : Nat :=
  if '0' ≤ c ∧ c ≤ '9' then c.toNat - '0'.toNat
  else if 'a' ≤ c ∧ c ≤ 'f' then c.toNat - 'a'.toNat + 10
  else if 'A' ≤ c ∧ c ≤ 'F' then c.toNat - 'A'.toNat + 10
  else 0

/-- The bytes of pairs of hexadecimal digits. -/
def ofHex : List Char → Bytes
  | high :: low :: rest => UInt8.ofNat (hexValue high * 16 + hexValue low) :: ofHex rest
  | _ => []

/-! ## §4. Padding -/

/-- Cut to `width` bytes, or filled up to `width` with `fill`. -/
def resize (bytes : Bytes) (width : Nat) (fill : UInt8) : Bytes :=
  bytes.take width ++ List.replicate (width - bytes.length) fill

/-- Successive pieces of `size` bytes, the last one possibly shorter. -/
def pieces (size : Nat) (bytes : Bytes) : List Bytes :=
  if _h : size = 0 ∨ bytes = [] then []
  else bytes.take size :: pieces size (bytes.drop size)
termination_by bytes.length
decreasing_by
  have hne : bytes ≠ [] := fun e => _h (Or.inr e)
  have hpos : 0 < bytes.length := List.length_pos_iff.mpr hne
  have hsize : size ≠ 0 := fun e => _h (Or.inl e)
  simp only [List.length_drop]
  omega

/-! ## §5. Text -/

/-- The UTF-8 bytes of a text. -/
def ofText (text : String) : Bytes := text.toUTF8.data.toList

/-- The text whose UTF-8 bytes these are, if there is one. -/
def toText? (bytes : Bytes) : Option String := String.fromUTF8? ⟨bytes.toArray⟩

/-- The bytes of ASCII text. -/
def ofAscii (text : String) : Bytes := text.toList.map fun c => UInt8.ofNat c.toNat

/-- **The UTF-8 bytes of a text give the text back.** -/
@[simp] theorem toText?_ofText (text : String) : toText? (ofText text) = some text := by
  simp only [toText?, ofText, String.fromUTF8?]
  exact dif_pos text.isValidUTF8

theorem utf8EncodeChar_ascii :
    ∀ n, n < 128 → String.utf8EncodeChar (Char.ofNat n) = [UInt8.ofNat n] := by decide

/-- **ASCII bytes** are the UTF-8 bytes of the text they spell. -/
theorem ofText_ascii {bytes : Bytes} (h : ∀ b ∈ bytes, b < 128) :
    ofText (String.ofList (bytes.map fun b => Char.ofNat b.toNat)) = bytes := by
  unfold ofText String.toUTF8
  rw [String.toByteArray_ofList]
  unfold List.utf8Encode
  rw [List.data_toByteArray]
  induction bytes with
  | nil => rfl
  | cons b bytes ih =>
      obtain ⟨hb, hmore⟩ := List.forall_mem_cons.mp h
      rw [List.map_cons, List.flatMap_cons, utf8EncodeChar_ascii b.toNat hb, UInt8.ofNat_toNat]
      exact congrArg (b :: ·) (ih hmore)

end Bytes

end Masquerade
