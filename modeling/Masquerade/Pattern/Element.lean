/-
  Masquerade.Pattern.Element — ELEMENTS: patterns of one byte.

  An element has three readings.  GENERATION turns arguments, variables and
  random draws into a byte.  PARSING turns a byte back into arguments and
  variables.  CHECKING decides whether a byte fits, and remembers it where
  the element names it.

  Main results:
    * `Element.eq_of_check_eq_some` — elements other than producers leave
      the variables alone.
-/
import Masquerade.Pattern.Variables

namespace Masquerade

/-! ## §1. Elements and what they draw on -/

/-- A pattern of one byte. -/
inductive Element where
  /-- Always this byte. -/
  | fixed (byte : UInt8)
  /-- A byte handed in by the caller, out of these. -/
  | enumerated (options : List UInt8)
  /-- Any byte. -/
  | random
  /-- Any of these bytes. -/
  | randomEnumerated (options : List UInt8)
  /-- The byte of an inner element, remembered under a name. -/
  | producer (name : String) (value : Element)
  /-- The byte remembered under a name. -/
  | consumer (name : String)
  deriving DecidableEq, Repr, Inhabited

/-- An endless supply of random numbers, read in order. -/
structure Draws where
  /-- Draw number `n`. -/
  stream : Nat → Nat
  /-- How many have been used. -/
  used : Nat

instance : Inhabited Draws := ⟨⟨fun _ => 0, 0⟩⟩

/-- The next draw. -/
def Draws.next (draws : Draws) : Nat := draws.stream draws.used

/-- The supply after one draw. -/
def Draws.advance (draws : Draws) : Draws := { draws with used := draws.used + 1 }

/-- **What generation consumes and updates:** arguments, variables, random
    draws. -/
structure Supply where
  args : Arguments
  vars : Variables
  draws : Draws

namespace Element

/-! ## §2. Generation -/

/-- The member of a nonempty list that a draw picks. -/
def pick (options : List UInt8) (draw : Nat) : Except PatternError UInt8 :=
  match options[draw % options.length]? with
  | some byte => .ok byte
  | none => .error .noOptions

/-- The byte that a variable stands for. -/
def remembered (vars : Variables) (name : String) : Except PatternError UInt8 :=
  match vars.get? name with
  | none => .error (.undefined name)
  | some value =>
    match value.toByte? with
    | some byte => .ok byte
    | none => .error (.mismatch .byte (.value value.kind))

/-- A byte handed in, held against the allowed ones. -/
def allow (options : List UInt8) : Except PatternError UInt8 → Except PatternError UInt8
  | .ok byte => if byte ∈ options then .ok byte else .error (.notInSet byte)
  | .error e => .error e

/-- **Produce one byte.**  A producer remembers its byte only where the inner
    element yields one. -/
def generate : Element → Supply → Except PatternError UInt8 × Supply
  | .fixed byte, s => (.ok byte, s)
  | .enumerated options, s =>
    let (byte, args) := s.args.popByte
    (allow options byte, { s with args })
  | .random, s => (.ok (UInt8.ofNat (s.draws.next % 256)), { s with draws := s.draws.advance })
  | .randomEnumerated options, s =>
    (pick options s.draws.next, { s with draws := s.draws.advance })
  | .producer name value, s =>
    match value.generate s with
    | (.ok byte, s) => (.ok byte, { s with vars := s.vars.set name (Value.ofByte byte) })
    | (.error e, s) => (.error e, s)
  | .consumer name, s => (remembered s.vars name, s)

/-! ## §3. Parsing -/

/-- Whether a parsed byte goes back into the argument queue. -/
def isChoice : Element → Bool
  | .enumerated _ | .randomEnumerated _ => true
  | _ => false

/-- Read one byte back into arguments and variables.  Under a producer only
    a choice that stands directly inside it is an argument; a consumer gives
    back the remembered value itself. -/
def absorb (element : Element) (byte : UInt8) (args : Arguments) (vars : Variables) :
    Arguments × Variables :=
  match element with
  | .fixed _ | .random => (args, vars)
  | .enumerated _ | .randomEnumerated _ => (args.push (.byte byte), vars)
  | .producer name value =>
    (if value.isChoice then args.push (.byte byte) else args, vars.set name (Value.ofByte byte))
  | .consumer name =>
    (match vars.get? name with
      | some value => args.push value
      | none => args, vars)

/-! ## §4. Checking -/

/-- **Check one byte.**  The variables afterwards, or nothing where the byte
    does not fit. -/
def check : Element → UInt8 → Variables → Option Variables
  | .fixed expected, byte, vars => if byte = expected then some vars else none
  | .enumerated options, byte, vars => if byte ∈ options then some vars else none
  | .randomEnumerated options, byte, vars => if byte ∈ options then some vars else none
  | .random, _, vars => some vars
  | .producer name value, byte, vars =>
    (value.check byte vars).map (·.set name (Value.ofByte byte))
  | .consumer name, byte, vars =>
    if vars.getInt? name = some (byte.toNat : Int) then some vars else none

/-- Elements other than producers leave the variables alone. -/
theorem eq_of_check_eq_some {element : Element} {byte : UInt8} {vars vars' : Variables}
    (hnot : ∀ name value, element ≠ .producer name value)
    (h : element.check byte vars = some vars') : vars' = vars := by
  cases element with
  | producer name value => exact absurd rfl (hnot name value)
  | _ => simp_all [check]

end Element

/-! ## §5. Verdicts -/

/-- **The outcome of holding bytes against a pattern.**  Only `incomplete`
    may change when more bytes arrive. -/
inductive Verdict where
  /-- Every element found a fitting byte. -/
  | valid
  /-- A byte did not fit, or the pattern has no usable shape. -/
  | invalid
  /-- The bytes ran out first. -/
  | incomplete
  deriving DecidableEq, Repr, Inhabited

/-- The written name of a verdict. -/
def Verdict.name : Verdict → String
  | .valid => "Valid"
  | .invalid => "Invalid"
  | .incomplete => "Incomplete"

/-- Whether everything fitted. -/
def Verdict.isValid (v : Verdict) : Bool := v == .valid

/-- What is left after a check. -/
structure Checked where
  verdict : Verdict
  /-- The bytes not looked at. -/
  rest : Bytes
  vars : Variables
  deriving DecidableEq, Repr

/-- Check the front byte of a buffer.  A byte that does not fit is used up
    too. -/
def Element.validate (element : Element) (buffer : Bytes) (vars : Variables) : Checked :=
  match buffer with
  | [] => ⟨.incomplete, [], vars⟩
  | byte :: rest =>
    match element.check byte vars with
    | some vars => ⟨.valid, rest, vars⟩
    | none => ⟨.invalid, rest, vars⟩

/-- What is left after parsing. -/
structure Parsed where
  rest : Bytes
  args : Arguments
  vars : Variables
  deriving DecidableEq, Repr

/-- Parse the front byte of a buffer; an empty buffer changes nothing. -/
def Element.parse (element : Element) (buffer : Bytes) (args : Arguments) (vars : Variables) :
    Parsed :=
  match buffer with
  | [] => ⟨[], args, vars⟩
  | byte :: rest =>
    let (args, vars) := element.absorb byte args vars
    ⟨rest, args, vars⟩

/-! ## §6. Runs of elements -/

/-- How generation treats an element that fails. -/
inductive Mode where
  /-- The failure ends generation. -/
  | strict
  /-- The element is left out. -/
  | lenient
  deriving DecidableEq, Repr

/-- Generate a run of elements, accumulating the bytes in reverse. -/
def generateOnto (mode : Mode) (done : Bytes) :
    List Element → Supply → Except PatternError Bytes × Supply
  | [], s => (.ok done.reverse, s)
  | element :: rest, s =>
    match element.generate s with
    | (.ok byte, s) => generateOnto mode (byte :: done) rest s
    | (.error e, s) =>
      match mode with
      | .strict => (.error e, s)
      | .lenient => generateOnto mode done rest s

/-- **Generate a run of elements**, in order. -/
def generateRun (mode : Mode) (run : List Element) (s : Supply) :
    Except PatternError Bytes × Supply :=
  generateOnto mode [] run s

/-- Parse a run of elements, in order. -/
def parseRun : List Element → Bytes → Arguments → Variables → Parsed
  | [], buffer, args, vars => ⟨buffer, args, vars⟩
  | element :: rest, buffer, args, vars =>
    let p := element.parse buffer args vars
    parseRun rest p.rest p.args p.vars

/-- Check a run of elements, up to the first that does not fit. -/
def checkRun : List Element → Bytes → Variables → Checked
  | [], buffer, vars => ⟨.valid, buffer, vars⟩
  | element :: rest, buffer, vars =>
    let c := element.validate buffer vars
    if c.verdict = .valid then checkRun rest c.rest c.vars else c

end Masquerade
