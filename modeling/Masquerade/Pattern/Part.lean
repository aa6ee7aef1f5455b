/-
  Masquerade.Pattern.Part — PARTS: one step of a handshake script.

  A part is a run of elements, a delayed run, a run whose LENGTH is decided
  during evaluation, a part whose PRESENCE is decided during evaluation, or
  nothing.  Deciding a length or a presence leaves a RESOLUTION behind, and
  counting reads it back: a part is counted as it was last resolved.

  Inside an optional part nothing is remembered from one evaluation to the
  next, since each decision of presence takes a fresh copy of what it
  guards.  So a resolution records the whole part's length, and the inner
  parts are evaluated as if never resolved.

  Main results:
    * `Part.count_of_isFixed` — parts of a fixed shape are counted without
      a resolution.
-/
import Masquerade.Pattern.Condition
import Masquerade.Pattern.Element
import Masquerade.Pattern.SeededLength

namespace Masquerade

/-! ## §1. Parts -/

/-- Where a dynamic run takes its length from. -/
inductive LengthSource where
  /-- The front of the argument queue, at generation. -/
  | argument
  /-- The integer remembered under a name. -/
  | named (name : String)
  /-- A length below 256 seeded by the integer remembered under a name. -/
  | seeded (name : String)
  deriving DecidableEq, Repr

/-- One step of a script. -/
inductive Part where
  /-- A run of elements. -/
  | bytes (items : List Element)
  /-- A run that is sent after a delay. -/
  | timed (milliseconds : UInt64) (items : List Element)
  /-- As many copies of one element as the source says. -/
  | dynamic (length : LengthSource) (item : Element)
  /-- A part that is present where a variable meets a condition. -/
  | optional (name : String) (condition : Condition) (item : Part)
  /-- Nothing. -/
  | empty
  deriving DecidableEq, Repr, Inhabited

/-- The longest dynamic run. -/
def maxRunLength : Nat := 65535

/-- **What a part was resolved to.** -/
structure Resolution where
  /-- How many bytes it stands for. -/
  length : Nat
  /-- Whether the length is still known in a copy of the context; it is not
      where it came from a part inside an optional one. -/
  lasting : Bool
  deriving DecidableEq, Repr

/-- The bytes that one part produces, and how long to wait before sending
    them. -/
structure Message where
  delay : Option UInt64
  bytes : Bytes
  deriving DecidableEq, Repr

namespace Part

/-! ## §2. Lengths -/

/-- The length that a source names while nothing is generated.  An argument
    is remembered only as the length the part was resolved to. -/
def length? (source : LengthSource) (known : Option Nat) (vars : Variables) : Option Nat :=
  match source with
  | .argument => known
  | .named name => (vars.getInt? name).bind fun n => if 0 ≤ n then some n.toNat else none
  | .seeded name => (vars.getInt? name).map seededLength

/-- The same, if it is within the limit. -/
def usableLength? (source : LengthSource) (known : Option Nat) (vars : Variables) : Option Nat :=
  (length? source known vars).filter (· ≤ maxRunLength)

/-- The length that generation uses: an argument is taken off the queue, a
    variable has to hold a length, and the limit applies to both. -/
def takeLength (source : LengthSource) (s : Supply) : Except PatternError Nat × Supply :=
  let (length, s) : Except PatternError Nat × Supply :=
    match source with
    | .argument =>
      match s.args.popInt with
      | (.ok n, args) =>
        (if 0 ≤ n then .ok n.toNat else .error (.mismatch .length .negative), { s with args })
      | (.error e, args) => (.error e, { s with args })
    | .named name | .seeded name =>
      match length? source none s.vars with
      | some n => (.ok n, s)
      | none => (.error (.undefined name), s)
  match length with
  | .ok n => (if n ≤ maxRunLength then .ok n else .error (.tooLong n maxRunLength), s)
  | .error e => (.error e, s)

/-! ## §3. Counting -/

/-- Whether the length of a part is written in the part itself. -/
def isFixed : Part → Bool
  | .bytes _ | .timed _ _ | .empty => true
  | .dynamic _ _ | .optional _ _ _ => false

/-- **How many bytes a part stands for**, zero where that is not yet
    resolved. -/
def count (part : Part) (resolution : Option Resolution) : Nat :=
  match part with
  | .bytes items | .timed _ items => items.length
  | .dynamic _ _ | .optional _ _ _ => resolution.elim 0 Resolution.length
  | .empty => 0

/-- Parts of a fixed shape are counted without a resolution. -/
theorem count_of_isFixed {part : Part} (h : part.isFixed = true) (a b : Option Resolution) :
    part.count a = part.count b := by
  cases part <;> simp_all [isFixed, count]

/-- The resolution of a dynamic run. -/
def ofLength (n : Nat) : Resolution := ⟨n, true⟩

/-- The resolution of an optional part that is present. -/
def present (item : Part) (inner : Option Resolution) : Resolution :=
  ⟨item.count inner, item.isFixed⟩

/-- The resolution of an optional part that is absent. -/
def absent : Resolution := ⟨0, true⟩

/-! ## §4. Generation -/

/-- What generating one part gives. -/
structure Generated where
  /-- The message, nothing if the part has none, or the failure. -/
  outcome : Except PatternError (Option Message)
  supply : Supply
  /-- What the part was resolved to, if it was. -/
  resolution : Option Resolution

/-- Generation of a run, as a message. -/
def generateMessage (mode : Mode) (delay : Option UInt64) (run : List Element) (s : Supply)
    (resolution : Option Resolution) : Generated :=
  match generateRun mode run s with
  | (.ok produced, s) => ⟨.ok (some ⟨delay, produced⟩), s, resolution⟩
  | (.error e, s) => ⟨.error e, s, none⟩

/-- A part whose shape cannot be decided: a failure, or no message. -/
def unshaped (mode : Mode) (e : PatternError) (s : Supply) : Generated :=
  match mode with
  | .strict => ⟨.error e, s, none⟩
  | .lenient => ⟨.ok none, s, none⟩

/-- **Generate a part.**  A failure resolves nothing. -/
def generate (mode : Mode) : Part → Supply → Generated
  | .bytes items, s => generateMessage mode none items s none
  | .timed milliseconds items, s => generateMessage mode (some milliseconds) items s none
  | .dynamic source item, s =>
    match takeLength source s with
    | (.ok n, s) => generateMessage mode none (List.replicate n item) s (some (ofLength n))
    | (.error e, s) => unshaped mode e s
  | .optional name condition item, s =>
    match s.vars.get? name with
    | none => unshaped mode (.undefined name) s
    | some value =>
      if condition.holds value then
        let g := generate mode item s
        match g.outcome with
        | .ok message => ⟨.ok message, g.supply, some (present item g.resolution)⟩
        | .error e => ⟨.error e, g.supply, none⟩
      else ⟨.ok none, s, some absent⟩
  | .empty, s => ⟨.ok none, s, none⟩

/-! ## §5. Parsing -/

/-- **Parse a part** off the front of a buffer.  An undecided shape, and for
    dynamic and optional parts an empty buffer, leave everything alone. -/
def parse (part : Part) (known : Option Nat) (buffer : Bytes) (args : Arguments)
    (vars : Variables) : Parsed × Option Resolution :=
  match part with
  | .bytes items | .timed _ items => (parseRun items buffer args vars, none)
  | .dynamic source item =>
    if buffer.isEmpty then (⟨buffer, args, vars⟩, none)
    else
      match usableLength? source known vars with
      | none => (⟨buffer, args, vars⟩, none)
      | some n => (parseRun (List.replicate n item) buffer args vars, some (ofLength n))
  | .optional name condition item =>
    if buffer.isEmpty then (⟨buffer, args, vars⟩, none)
    else
      match vars.get? name with
      | none => (⟨buffer, args, vars⟩, none)
      | some value =>
        if condition.holds value then
          let (parsed, inner) := parse item none buffer args vars
          (parsed, some (present item inner))
        else (⟨buffer, args, vars⟩, some absent)
  | .empty => (⟨buffer, args, vars⟩, none)

/-! ## §6. Checking -/

/-- **Check a part** against the front of a buffer.  A part whose shape
    cannot be decided is invalid before any byte is looked at. -/
def validate (part : Part) (known : Option Nat) (buffer : Bytes) (vars : Variables) :
    Checked × Option Resolution :=
  match part with
  | .bytes items | .timed _ items => (checkRun items buffer vars, none)
  | .dynamic source item =>
    match usableLength? source known vars with
    | none => (⟨.invalid, buffer, vars⟩, none)
    | some n => (checkRun (List.replicate n item) buffer vars, some (ofLength n))
  | .optional name condition item =>
    match vars.get? name with
    | none => (⟨.invalid, buffer, vars⟩, none)
    | some value =>
      if condition.holds value then
        let (checked, inner) := validate item none buffer vars
        (checked, some (present item inner))
      else (⟨.valid, buffer, vars⟩, some absent)
  | .empty => (⟨.valid, buffer, vars⟩, none)

/-! ## §7. Resolving ahead -/

/-- **Resolve a part** from the variables alone, as far as they decide it. -/
def resolve (part : Part) (known : Option Nat) (vars : Variables) : Option Resolution :=
  match part with
  | .bytes _ | .timed _ _ | .empty => none
  | .dynamic source _ => (usableLength? source known vars).map ofLength
  | .optional name condition item =>
    (vars.get? name).map fun value =>
      if condition.holds value then present item (resolve item none vars) else absent

end Part

end Masquerade
