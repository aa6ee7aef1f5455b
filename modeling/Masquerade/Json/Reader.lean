/-
  Masquerade.Json.Reader — READING JSON.

  The reader works on bytes and gives back what it has not used.  Blanks are
  the space, the tab, the line feed and the carriage return.  There are two
  ways to pass over a value:

      reading   — the value is built; containers nest at most so deep,
                  reals stay within the range of a double, strings are
                  valid text and their surrogate codes come in pairs;
      skipping  — only the grammar is checked.

  Skipping is for members that nobody asked for.

  Main results:
    * `Json.dropBlanks_eq_of_head` — nothing is dropped before a byte that
      is no blank.
-/
import Masquerade.Json.Printer

namespace Masquerade

namespace Json

/-! ## §1. Blanks and literals -/

/-- Whether a byte may stand between tokens. -/
def isBlank (b : UInt8) : Bool := b == 0x20 || b == 0x0a || b == 0x0d || b == 0x09

/-- Drop leading blanks. -/
def dropBlanks (input : Bytes) : Bytes := input.dropWhile isBlank

/-- Nothing is dropped before a byte that is no blank. -/
theorem dropBlanks_eq_of_head {b : UInt8} (rest : Bytes) (h : isBlank b = false) :
    dropBlanks (b :: rest) = b :: rest := by
  simp [dropBlanks, h]

/-- What follows a given beginning. -/
def after? : (start : Bytes) → Bytes → Option Bytes
  | [], input => some input
  | _ :: _, [] => none
  | expected :: start, b :: input => if b = expected then after? start input else none

/-! ## §2. Numbers -/

/-- The number that decimal digits stand for. -/
def ofDigits (digits : Bytes) : Nat :=
  digits.foldl (fun acc b => acc * 10 + (b.toNat - 48)) 0

/-- The parts of a number: sign, whole digits, fraction digits, exponent with
    its sign, and how it was written. -/
structure Number where
  negative : Bool
  whole : Bytes
  /-- Digits after the point, if there is a point. -/
  fraction : Option Bytes
  /-- Whether the exponent is negative, and its digits. -/
  exponent : Option (Bool × Bytes)
  literal : Bytes

/-- An optional minus sign. -/
def sign : Bytes → Bool × Bytes
  | 0x2d :: rest => (true, rest)
  | input => (false, input)

/-- The whole part: one zero, or digits that start with another one. -/
def wholePart (input : Bytes) : Option (Bytes × Bytes) :=
  let whole := input.takeWhile isDigit
  match whole with
  | [] => none
  | first :: more =>
    if first = 0x30 ∧ more ≠ [] then none else some (whole, input.dropWhile isDigit)

/-- A point and at least one digit, or no point. -/
def fractionPart : Bytes → Option (Option Bytes × Bytes)
  | 0x2e :: rest =>
    let digits := rest.takeWhile isDigit
    if digits = [] then none else some (some digits, rest.dropWhile isDigit)
  | input => some (none, input)

/-- The sign of an exponent. -/
def exponentSign : Bytes → Bool × Bytes
  | 0x2b :: rest => (false, rest)
  | 0x2d :: rest => (true, rest)
  | input => (false, input)

/-- An exponent with at least one digit, or none. -/
def exponentPart : Bytes → Option (Option (Bool × Bytes) × Bytes)
  | b :: rest =>
    if b = 0x65 ∨ b = 0x45 then
      let (negative, rest) := exponentSign rest
      let digits := rest.takeWhile isDigit
      if digits = [] then none else some (some (negative, digits), rest.dropWhile isDigit)
    else some (none, b :: rest)
  | [] => some (none, [])

/-- The parts of the number at the front. -/
def scanNumber (input : Bytes) : Option (Number × Bytes) := do
  let (negative, rest) := sign input
  let (whole, rest) ← wholePart rest
  let (fraction, rest) ← fractionPart rest
  let (exponent, rest) ← exponentPart rest
  some (⟨negative, whole, fraction, exponent, input.take (input.length - rest.length)⟩, rest)

/-- Append digits to a significand while it stays below `2 ^ 64`; the
    significand and how many digits went in. -/
def appendDigits : (significand : Nat) → Bytes → Nat × Nat
  | significand, [] => (significand, 0)
  | significand, b :: rest =>
    let next := significand * 10 + (b.toNat - 48)
    if next < 0x10000000000000000 then
      let (result, count) := appendDigits next rest
      (result, count + 1)
    else (significand, 0)

/-- A number cut to its 53 leading bits, to nearest, ties to even. -/
def round53 (n : Nat) : Nat :=
  let unit := Nat.pow 2 (n.log2 - 52)
  let low := n % unit
  let down := n - low
  if 2 * low > unit ∨ (2 * low = unit ∧ down / unit % 2 = 1) then down + unit else down

/-- **Whether a real stays within the range of a double**, read as its first
    digits below `2 ^ 64` times a power of ten, each rounded to 53 bits. -/
def Number.inRange (n : Number) : Bool :=
  let (significand, used) := appendDigits 0 n.whole
  let (significand, places) := appendDigits significand (n.fraction.getD [])
  let power : Int := (n.whole.length - used : Nat) - places +
    match n.exponent with
    | none => 0
    | some (negative, digits) => if negative then -(ofDigits digits : Int) else ofDigits digits
  significand = 0 || power ≤ 0 ||
    (power ≤ 308 &&
      round53 significand * round53 (Nat.pow 10 power.toNat) < Nat.pow 2 1024 - Nat.pow 2 970)

/-- The value of a number: an integer if it is written as one and fits. -/
def Number.toJson? (n : Number) : Option Json :=
  let value : Int := if n.negative then -(ofDigits n.whole : Int) else ofDigits n.whole
  if n.fraction.isNone ∧ n.exponent.isNone ∧ minInt ≤ value ∧ value ≤ maxInt
      ∧ ¬ (n.negative ∧ value = 0) then some (.int value)
  else if n.inRange then some (.real n.literal)
  else none

/-! ## §3. Strings -/

/-- The value of a hexadecimal digit. -/
def hexValue? (b : UInt8) : Option Nat :=
  if 0x30 ≤ b ∧ b ≤ 0x39 then some (b.toNat - 0x30)
  else if 0x61 ≤ b ∧ b ≤ 0x66 then some (b.toNat - 0x61 + 10)
  else if 0x41 ≤ b ∧ b ≤ 0x46 then some (b.toNat - 0x41 + 10)
  else none

/-- Four hexadecimal digits. -/
def codeUnit : Bytes → Option (Nat × Bytes)
  | a :: b :: c :: d :: rest => do
    let a ← hexValue? a
    let b ← hexValue? b
    let c ← hexValue? c
    let d ← hexValue? d
    some (((a * 16 + b) * 16 + c) * 16 + d, rest)
  | _ => none

/-- The UTF-8 bytes of a code point that is no surrogate. -/
def codePoint (n : Nat) : Bytes := String.utf8EncodeChar (Char.ofNat n)

/-- The character of a code after `\u`: one unit, or a surrogate pair. -/
def escapedCode (input : Bytes) : Option (Bytes × Bytes) := do
  let (unit, rest) ← codeUnit input
  if unit < 0xd800 ∨ 0xdfff < unit then some (codePoint unit, rest)
  else if 0xdc00 ≤ unit then none
  else
    let rest ← after? [0x5c, 0x75] rest
    let (low, rest) ← codeUnit rest
    if 0xdc00 ≤ low ∧ low ≤ 0xdfff then
      some (codePoint (0x10000 + (unit - 0xd800) * 0x400 + (low - 0xdc00)), rest)
    else none

/-- The byte that a one-letter escape stands for. -/
def escapedByte? (b : UInt8) : Option UInt8 :=
  if b = 0x22 ∨ b = 0x5c ∨ b = 0x2f then some b
  else if b = 0x62 then some 0x08
  else if b = 0x66 then some 0x0c
  else if b = 0x6e then some 0x0a
  else if b = 0x72 then some 0x0d
  else if b = 0x74 then some 0x09
  else none

/-- The character after a backslash. -/
def escaped : Bytes → Option (Bytes × Bytes)
  | [] => none
  | b :: rest =>
    if b = 0x75 then escapedCode rest else (escapedByte? b).map fun b => ([b], rest)

/-- The bytes of a string up to its closing quote, collected in reverse.  A
    control character has to be escaped. -/
def readTextOnto (done : Bytes) : (fuel : Nat) → Bytes → Option (Bytes × Bytes)
  | 0, _ => none
  | fuel + 1, input =>
    match input with
    | [] => none
    | b :: rest =>
      if b = 0x22 then some (done.reverse, rest)
      else if b = 0x5c then
        match escaped rest with
        | some (bytes, rest) => readTextOnto (bytes.reverse ++ done) fuel rest
        | none => none
      else if b < 0x20 then none
      else readTextOnto (b :: done) fuel rest

/-- **A string after its opening quote.** -/
def readText (input : Bytes) : Option (String × Bytes) := do
  let (bytes, rest) ← readTextOnto [] input.length input
  let text ← Bytes.toText? bytes
  some (text, rest)

/-- What follows the character after a backslash.  A code may be any four
    hexadecimal digits. -/
def skipEscaped : Bytes → Option Bytes
  | [] => none
  | b :: rest =>
    if b = 0x75 then (codeUnit rest).map Prod.snd else (escapedByte? b).map fun _ => rest

/-- What follows a string, after its opening quote. -/
def skipText : (fuel : Nat) → Bytes → Option Bytes
  | 0, _ => none
  | fuel + 1, input =>
    match input with
    | [] => none
    | b :: rest =>
      if b = 0x22 then some rest
      else if b = 0x5c then
        match skipEscaped rest with
        | some rest => skipText fuel rest
        | none => none
      else if b < 0x20 then none
      else skipText fuel rest

/-! ## §4. Values -/

/-- A value that is no container, after leading blanks. -/
def readScalar (input : Bytes) : Option (Json × Bytes) :=
  match input with
  | [] => none
  | b :: rest =>
    if b = 0x22 then (readText rest).map fun (text, rest) => (.str text, rest)
    else if b = 0x6e then (after? (Bytes.ofAscii "null") input).map fun rest => (.null, rest)
    else if b = 0x74 then (after? (Bytes.ofAscii "true") input).map fun rest => (.bool true, rest)
    else if b = 0x66 then (after? (Bytes.ofAscii "false") input).map fun rest => (.bool false, rest)
    else do
      let (number, rest) ← scanNumber input
      let value ← number.toJson?
      some (value, rest)

/-- Read a member's name and the colon after it. -/
def readName (input : Bytes) : Option (String × Bytes) := do
  let rest ← after? [0x22] (dropBlanks input)
  let (name, rest) ← readText rest
  let rest ← after? [0x3a] (dropBlanks rest)
  some (name, rest)

mutual

/-- Read a value with at most `depth` containers nested in it. -/
def readValue : (fuel depth : Nat) → Bytes → Option (Json × Bytes)
  | 0, _, _ => none
  | fuel + 1, depth, input =>
    match dropBlanks input with
    | 0x5b :: rest =>
      match depth with
      | 0 => none
      | depth + 1 =>
        match dropBlanks rest with
        | 0x5d :: rest => some (.arr [], rest)
        | rest => (readItems fuel depth rest).map fun (items, rest) => (.arr items, rest)
    | 0x7b :: rest =>
      match depth with
      | 0 => none
      | depth + 1 =>
        match dropBlanks rest with
        | 0x7d :: rest => some (.obj [], rest)
        | rest => (readMembers fuel depth rest).map fun (members, rest) => (.obj members, rest)
    | input => readScalar input

/-- Read items up to the closing bracket. -/
def readItems : (fuel depth : Nat) → Bytes → Option (List Json × Bytes)
  | 0, _, _ => none
  | fuel + 1, depth, input => do
    let (item, rest) ← readValue fuel depth input
    match dropBlanks rest with
    | 0x2c :: rest =>
      let (items, rest) ← readItems fuel depth rest
      some (item :: items, rest)
    | 0x5d :: rest => some ([item], rest)
    | _ => none

/-- Read members up to the closing brace. -/
def readMembers : (fuel depth : Nat) → Bytes → Option (List (String × Json) × Bytes)
  | 0, _, _ => none
  | fuel + 1, depth, input => do
    let (name, rest) ← readName input
    let (value, rest) ← readValue fuel depth rest
    match dropBlanks rest with
    | 0x2c :: rest =>
      let (members, rest) ← readMembers fuel depth rest
      some ((name, value) :: members, rest)
    | 0x7d :: rest => some ([(name, value)], rest)
    | _ => none

end

/-- Fuel for all of an input: two calls use up at least one byte. -/
def fuelFor (input : Bytes) : Nat := 2 * input.length + 2

/-! ## §5. Skipping -/

/-- What follows a value that is no container, after leading blanks. -/
def skipScalar (input : Bytes) : Option Bytes :=
  match input with
  | [] => none
  | b :: rest =>
    if b = 0x22 then skipText rest.length rest
    else if b = 0x6e then after? (Bytes.ofAscii "null") input
    else if b = 0x74 then after? (Bytes.ofAscii "true") input
    else if b = 0x66 then after? (Bytes.ofAscii "false") input
    else (scanNumber input).map Prod.snd

mutual

/-- What follows a value. -/
def skipValue : (fuel : Nat) → Bytes → Option Bytes
  | 0, _ => none
  | fuel + 1, input =>
    match dropBlanks input with
    | 0x5b :: rest =>
      match dropBlanks rest with
      | 0x5d :: rest => some rest
      | rest => skipItems fuel rest
    | 0x7b :: rest =>
      match dropBlanks rest with
      | 0x7d :: rest => some rest
      | rest => skipMembers fuel rest
    | input => skipScalar input

/-- What follows the items of an array. -/
def skipItems : (fuel : Nat) → Bytes → Option Bytes
  | 0, _ => none
  | fuel + 1, input => do
    let rest ← skipValue fuel input
    match dropBlanks rest with
    | 0x2c :: rest => skipItems fuel rest
    | 0x5d :: rest => some rest
    | _ => none

/-- What follows the members of an object. -/
def skipMembers : (fuel : Nat) → Bytes → Option Bytes
  | 0, _ => none
  | fuel + 1, input => do
    let rest ← after? [0x22] (dropBlanks input)
    let rest ← skipText rest.length rest
    let rest ← after? [0x3a] (dropBlanks rest)
    let rest ← skipValue fuel rest
    match dropBlanks rest with
    | 0x2c :: rest => skipMembers fuel rest
    | 0x7d :: rest => some rest
    | _ => none

end

/-! ## §6. Whole texts -/

/-- **The value of a text**, which holds nothing else but blanks. -/
def read? (input : Bytes) : Option Json := do
  let (value, rest) ← readValue (fuelFor input) maxNesting input
  if dropBlanks rest = [] then some value else none

end Json

end Masquerade
