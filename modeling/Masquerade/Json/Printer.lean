/-
  Masquerade.Json.Printer — PRINTING JSON, compact and indented.

  Compact text has no blanks.  Indented text puts every item and member on
  a line of its own, two blanks per level, with one blank after a colon;
  empty containers stay on one line.

  Inside a string the double quote, the backslash and the control
  characters are escaped, the common ones by a letter and the others by a
  four-digit code; everything else is written as it is.

  Main results:
    * `Json.digits_ne_nil`, `Json.isDigit_of_mem_digits` — a number's
      decimal text is a nonempty run of digits.
-/
import Masquerade.Json.Basic

namespace Masquerade

namespace Json

/-! ## §1. Numbers -/

/-- The decimal digits of a number. -/
def digits (n : Nat) : Bytes :=
  if n < 10 then [UInt8.ofNat (48 + n)] else digits (n / 10) ++ [UInt8.ofNat (48 + n % 10)]
termination_by n
decreasing_by omega

/-- Whether a byte is a decimal digit. -/
def isDigit (b : UInt8) : Bool := 48 ≤ b && b ≤ 57

theorem isDigit_ofNat {d : Nat} (h : d < 10) : isDigit (UInt8.ofNat (48 + d)) = true := by
  have : ∀ d, d < 10 → isDigit (UInt8.ofNat (48 + d)) = true := by decide
  exact this d h

theorem digits_ne_nil (n : Nat) : digits n ≠ [] := by
  rw [digits]
  split <;> simp

theorem isDigit_of_mem_digits (n : Nat) : ∀ b ∈ digits n, isDigit b = true := by
  induction n using Nat.strongRecOn with
  | ind n ih =>
    rw [digits]
    split
    · rename_i h
      intro b hb
      rw [List.mem_singleton.mp hb]
      exact isDigit_ofNat h
    · rename_i h
      intro b hb
      rcases List.mem_append.mp hb with hb | hb
      · exact ih (n / 10) (by omega) b hb
      · rw [List.mem_singleton.mp hb]
        exact isDigit_ofNat (Nat.mod_lt _ (by decide))

/-- The decimal text of an integer. -/
def printInt (n : Int) : Bytes :=
  if n < 0 then 0x2d :: digits n.natAbs else digits n.natAbs

/-! ## §2. Strings -/

/-- How one byte of a string's UTF-8 text is written. -/
def escapeByte (b : UInt8) : Bytes :=
  if b = 0x22 then [0x5c, 0x22]
  else if b = 0x5c then [0x5c, 0x5c]
  else if b = 0x08 then Bytes.ofAscii "\\b"
  else if b = 0x0c then Bytes.ofAscii "\\f"
  else if b = 0x0a then Bytes.ofAscii "\\n"
  else if b = 0x0d then Bytes.ofAscii "\\r"
  else if b = 0x09 then Bytes.ofAscii "\\t"
  else if b < 0x20 then
    Bytes.ofAscii "\\u00" ++ (Bytes.hexByte b).map fun c => UInt8.ofNat c.toNat
  else [b]

/-- A string between double quotes. -/
def printText (text : String) : Bytes :=
  0x22 :: (Bytes.ofText text).flatMap escapeByte ++ [0x22]

/-! ## §3. Compact text -/

mutual

/-- **The compact text of a value.** -/
def print : Json → Bytes
  | .null => Bytes.ofAscii "null"
  | .bool true => Bytes.ofAscii "true"
  | .bool false => Bytes.ofAscii "false"
  | .int n => printInt n
  | .real literal => literal
  | .str text => printText text
  | .arr items => 0x5b :: printItems items
  | .obj members => 0x7b :: printMembers members

/-- The items of an array up to the closing bracket. -/
def printItems : List Json → Bytes
  | [] => [0x5d]
  | [item] => print item ++ [0x5d]
  | item :: rest => print item ++ 0x2c :: printItems rest

/-- The members of an object up to the closing brace. -/
def printMembers : List (String × Json) → Bytes
  | [] => [0x7d]
  | [member] => printMember member ++ [0x7d]
  | member :: rest => printMember member ++ 0x2c :: printMembers rest

/-- A name, a colon, a value. -/
def printMember : String × Json → Bytes
  | (name, value) => printText name ++ 0x3a :: print value

end

/-! ## §4. Indented text -/

/-- The start of a line at a level. -/
def lineStart (level : Nat) : Bytes := 0x0a :: List.replicate (2 * level) 0x20

mutual

/-- The indented text of a value that starts at a level. -/
def indented (level : Nat) : Json → Bytes
  | .null => Bytes.ofAscii "null"
  | .bool true => Bytes.ofAscii "true"
  | .bool false => Bytes.ofAscii "false"
  | .int n => printInt n
  | .real literal => literal
  | .str text => printText text
  | .arr [] => Bytes.ofAscii "[]"
  | .arr items => 0x5b :: indentedItems level items
  | .obj [] => [0x7b, 0x7d]
  | .obj members => 0x7b :: indentedMembers level members

/-- The items of an array, each on its own line, up to the closing
    bracket. -/
def indentedItems (level : Nat) : List Json → Bytes
  | [] => lineStart level ++ [0x5d]
  | [item] => lineStart (level + 1) ++ indented (level + 1) item ++ lineStart level ++ [0x5d]
  | item :: rest =>
    lineStart (level + 1) ++ indented (level + 1) item ++ 0x2c :: indentedItems level rest

/-- The members of an object, each on its own line, up to the closing
    brace. -/
def indentedMembers (level : Nat) : List (String × Json) → Bytes
  | [] => lineStart level ++ [0x7d]
  | [member] => lineStart (level + 1) ++ indentedMember (level + 1) member ++ lineStart level ++ [0x7d]
  | member :: rest =>
    lineStart (level + 1) ++ indentedMember (level + 1) member ++ 0x2c :: indentedMembers level rest

/-- A name, a colon, a blank, a value. -/
def indentedMember (level : Nat) : String × Json → Bytes
  | (name, value) => printText name ++ 0x3a :: 0x20 :: indented level value

end

/-- **The indented text of a value.** -/
def printIndented (value : Json) : Bytes := indented 0 value

end Json

end Masquerade
