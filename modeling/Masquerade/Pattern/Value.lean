/-
  Masquerade.Pattern.Value — VALUES and the argument queue.

  A value is what a caller hands to a pattern and what a pattern remembers
  under a name.  Arguments form a queue that generation consumes from the
  front and parsing fills at the back.

  Main results:
    * `Value.toByte?_byte`, `Value.toInt?_byte` — a byte is its own byte
      view and its own integer view.
-/
import Masquerade.Bytes

namespace Masquerade

/-! ## §1. Values -/

/-- A value carried in an argument queue or a variable. -/
inductive Value where
  /-- One byte. -/
  | byte (b : UInt8)
  /-- A signed 64-bit integer: a length, a seed, a remembered byte. -/
  | int (n : Int64)
  /-- A flag. -/
  | flag (b : Bool)
  deriving DecidableEq, Repr, Inhabited

/-- The three kinds of value. -/
inductive Value.Kind where
  | byte | int | flag
  deriving DecidableEq, Repr

/-- The written name of a kind. -/
def Value.Kind.name : Value.Kind → String
  | .byte => "byte"
  | .int => "int"
  | .flag => "bool"

namespace Value

/-- Which kind of value this is. -/
def kind : Value → Kind
  | .byte _ => .byte
  | .int _ => .int
  | .flag _ => .flag

/-- The integer view: bytes and integers have one, flags do not. -/
def toInt? : Value → Option Int
  | .byte b => some b.toNat
  | .int n => some n.toInt
  | .flag _ => none

/-- The byte view: a byte, or an integer within `0..255`. -/
def toByte? : Value → Option UInt8
  | .byte b => some b
  | .int n => if 0 ≤ n.toInt ∧ n.toInt < 256 then some (UInt8.ofNat n.toInt.toNat) else none
  | .flag _ => none

/-- The integer that remembers a byte. -/
def ofByte (b : UInt8) : Value := .int (Int64.ofNat b.toNat)

@[simp] theorem toByte?_byte (b : UInt8) : (Value.byte b).toByte? = some b := rfl

@[simp] theorem toInt?_byte (b : UInt8) : (Value.byte b).toInt? = some (b.toNat : Int) := rfl

end Value

/-! ## §2. Errors of generation -/

/-- What an argument was needed for. -/
inductive Wanted where
  | int | byte | length
  deriving DecidableEq, Repr

/-- The written name of a need. -/
def Wanted.name : Wanted → String
  | .int => "int"
  | .byte => "byte"
  | .length => "length"

/-- What stood where a suitable argument was needed. -/
inductive Found where
  /-- A value of the wrong kind or range. -/
  | value (kind : Value.Kind)
  /-- An integer below zero where a length was needed. -/
  | negative
  deriving DecidableEq, Repr

/-- The written name of what was found. -/
def Found.name : Found → String
  | .value kind => kind.name
  | .negative => "negative int"

/-- **Why a pattern could not produce a byte.** -/
inductive PatternError where
  /-- The argument queue had nothing left. -/
  | noArguments
  /-- An argument or variable had the wrong kind or range. -/
  | mismatch (wanted : Wanted) (found : Found)
  /-- An enumerated element was handed a byte outside its options. -/
  | notInSet (byte : UInt8)
  /-- A variable was read that nobody had set. -/
  | undefined (name : String)
  /-- A random choice among no options. -/
  | noOptions
  /-- A run longer than a dynamic part will build. -/
  | tooLong (length limit : Nat)
  deriving DecidableEq, Repr

/-- The wording of an error. -/
def PatternError.message : PatternError → String
  | .noArguments => "argument queue is empty"
  | .mismatch wanted found =>
    "argument type mismatch: expected " ++ wanted.name ++ ", got " ++ found.name
  | .notInSet byte => "byte 0x" ++ Bytes.hex [byte] ++ " is not in the allowed set"
  | .undefined name => "undefined context variable `" ++ name ++ "`"
  | .noOptions => "option set is empty"
  | .tooLong length limit =>
    "dynamic length " ++ toString length ++ " exceeds maximum " ++ toString limit

/-! ## §3. The argument queue -/

/-- Values consumed front to back. -/
abbrev Arguments := List Value

namespace Arguments

/-- Take the front value. -/
def pop : Arguments → Except PatternError Value × Arguments
  | [] => (.error .noArguments, [])
  | v :: rest => (.ok v, rest)

/-- Take the front value as an integer.  A value that has no integer view is
    consumed all the same. -/
def popInt (args : Arguments) : Except PatternError Int × Arguments :=
  match args with
  | [] => (.error .noArguments, [])
  | v :: rest =>
    match v.toInt? with
    | some n => (.ok n, rest)
    | none => (.error (.mismatch .int (.value v.kind)), rest)

/-- Take the front value as a byte.  A value that has no byte view is
    consumed all the same. -/
def popByte (args : Arguments) : Except PatternError UInt8 × Arguments :=
  match args with
  | [] => (.error .noArguments, [])
  | v :: rest =>
    match v.toByte? with
    | some b => (.ok b, rest)
    | none => (.error (.mismatch .byte (.value v.kind)), rest)

/-- Append a value at the back. -/
def push (args : Arguments) (v : Value) : Arguments := args ++ [v]

end Arguments

end Masquerade
