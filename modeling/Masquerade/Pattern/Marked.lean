/-
  Masquerade.Pattern.Marked — PARTS WITH THE IDENTITIES THEY CARRY.

  A dynamic or an optional part carries an identity, taken from one counter
  that every part of every connection shares.  A copy of a part takes new
  identities.  A context remembers parts under identities: a dynamic part
  leaves the run it came to, and an optional part a copy of what it guards,
  which was evaluated as a part of its own and so may have left records of
  its own.  Counting follows these records from part to part.

  `Part`, `Script` and `Context` do without all this: a step of a script has
  one identity, and a resolution is a length.  Here the same operations are
  written with the identities that parts carry, and both ways of evaluating a
  description stand side by side (`Marked.evaluate`, `Description.evaluate`).

  Main results:
    * `Marked.same_iff` — what is compared when parts are compared.
-/
import Masquerade.Pattern.Script

namespace Masquerade

/-! ## §1. Taking identities from a counter -/

/-- **A computation that takes identities** from a counter, one at a time.
    Who else takes identities meanwhile is left open. -/
inductive Minting (α : Type) where
  | done (result : α)
  | mint (next : PartId → Minting α)

namespace Minting

variable {α β : Type}

/-- One computation after another. -/
def bind : Minting α → (α → Minting β) → Minting β
  | .done result, f => f result
  | .mint next, f => .mint fun id => (next id).bind f

/-- The result, where these are the identities it is given. -/
def result : Minting α → (Nat → PartId) → α
  | .done result, _ => result
  | .mint next, ids => (next (ids 0)).result fun n => ids (n + 1)

end Minting

/-! ## §2. Parts with identities -/

/-- How many decisions stand one inside another. -/
def Part.depth : Part → Nat
  | .bytes _ | .timed _ _ | .empty => 0
  | .dynamic _ _ => 1
  | .optional _ _ item => item.depth + 1

/-- A part with the identities it carries. -/
inductive Marked where
  | bytes (items : List Element)
  | timed (milliseconds : UInt64) (items : List Element)
  | dynamic (id : PartId) (length : LengthSource) (item : Element)
  | optional (id : PartId) (name : String) (condition : Condition) (item : Marked)
  | empty
  deriving Repr, Inhabited

namespace Marked

/-- The part without its identities. -/
def part : Marked → Part
  | .bytes items => .bytes items
  | .timed milliseconds items => .timed milliseconds items
  | .dynamic _ length item => .dynamic length item
  | .optional _ name condition item => .optional name condition item.part
  | .empty => .empty

/-- The identity of the part itself. -/
def id? : Marked → Option PartId
  | .dynamic id _ _ | .optional id _ _ _ => some id
  | .bytes _ | .timed _ _ | .empty => none

/-- All identities, from the outside in. -/
def ids : Marked → List PartId
  | .dynamic id _ _ => [id]
  | .optional id _ _ item => id :: item.ids
  | .bytes _ | .timed _ _ | .empty => []

def depth (m : Marked) : Nat := m.part.depth

/-- **Comparing parts.**  Identities are not compared. -/
def same : Marked → Marked → Bool
  | .bytes items, .bytes others => items == others
  | .timed milliseconds items, .timed later others => milliseconds == later && items == others
  | .dynamic _ length item, .dynamic _ source other => length == source && item == other
  | .optional _ name condition item, .optional _ other demand inner =>
    name == other && condition == demand && item.same inner
  | .empty, .empty => true
  | _, _ => false

instance : BEq Marked := ⟨same⟩

/-- **Parts compare equal** when they are equal without their identities. -/
theorem same_iff (m : Marked) : ∀ (other : Marked), m.same other = true ↔ m.part = other.part := by
  induction m with
  | optional id name condition item ih =>
    intro other
    cases other <;> simp [same, part, ih, and_assoc]
  | _ =>
    intro other
    cases other <;> simp [same, part]

/-- **A copy of a part.**  It takes new identities, from the outside in, and
    is the same part otherwise. -/
def copy : (m : Marked) → Minting {c : Marked // c.part = m.part}
  | .bytes items => .done ⟨.bytes items, rfl⟩
  | .timed milliseconds items => .done ⟨.timed milliseconds items, rfl⟩
  | .dynamic _ length item => .mint fun id => .done ⟨.dynamic id length item, rfl⟩
  | .optional _ name condition item =>
    .mint fun id => item.copy.bind fun c =>
      .done ⟨.optional id name condition c.1, congrArg (Part.optional name condition) c.2⟩
  | .empty => .done ⟨.empty, rfl⟩

/-- **A copy of a description,** part by part. -/
def copyAll : List Marked → Minting (List Marked)
  | [] => .done []
  | m :: rest => m.copy.bind fun c => (copyAll rest).bind fun copies => .done (c.1 :: copies)

/-- The part that stands under this many decisions. -/
def within : (depth : Nat) → Marked → Option Marked
  | 0, m => some m
  | depth + 1, .optional _ _ _ item => item.within depth
  | _ + 1, _ => none

end Marked

/-! ## §3. What a context remembers -/

/-- **A context with identities:** the variables, and the parts that others
    were resolved to. -/
structure Ledger where
  vars : Variables
  /-- Newest first; an older record of the same identity is hidden. -/
  records : List (PartId × Marked)

namespace Ledger

/-- What is remembered under an identity. -/
def fixed? (ledger : Ledger) (id : PartId) : Option Marked :=
  (ledger.records.find? (fun entry => entry.1 == id)).map Prod.snd

/-- Remember a part under an identity. -/
def fix (ledger : Ledger) (id : PartId) (m : Marked) : Ledger :=
  { ledger with records := (id, m) :: ledger.records }

/-- The ledger with these variables. -/
def withVars (ledger : Ledger) (vars : Variables) : Ledger := { ledger with vars := vars }

theorem fixed?_fix (ledger : Ledger) (id other : PartId) (m : Marked) :
    (ledger.fix id m).fixed? other = if other = id then some m else ledger.fixed? other := by
  by_cases h : other = id
  · subst h
    simp [fix, fixed?]
  · have hne : (id == other) = false := by simpa using fun e : id = other => h e.symm
    simp [fix, fixed?, h, hne]

/-- **How many bytes a part stands for:** what it is remembered as is counted
    in its place.  What is remembered is shallower than the part it stands
    for (`Ledger.Shows`), so that counting comes to an end. -/
def count (ledger : Ledger) (m : Marked) : Nat :=
  match m.id? with
  | none => m.part.count none
  | some id =>
    match ledger.fixed? id with
    | none => 0
    | some p => if p.depth < m.depth then ledger.count p else 0
termination_by m.depth

/-- The length that an identity was last resolved to. -/
def known? (ledger : Ledger) (id : PartId) : Option Nat :=
  (ledger.fixed? id).map ledger.count

/-- **What an optional part comes to:** a copy of the part it guards, or
    nothing; undecided where the variable is not set. -/
def choose (ledger : Ledger) (name : String) (condition : Condition) (item : Marked) :
    Minting (Option {m : Marked // m.depth ≤ item.depth}) :=
  match ledger.vars.get? name with
  | none => .done none
  | some value =>
    if condition.holds value then
      item.copy.bind fun c => .done (some ⟨c.1, Nat.le_of_eq (congrArg Part.depth c.2)⟩)
    else .done (some ⟨.empty, Nat.zero_le _⟩)

end Ledger

/-! ## §4. Operations on a part -/

/-- What generation works on. -/
structure Tray where
  args : Arguments
  draws : Draws
  ledger : Ledger

namespace Tray

/-- What the elements of a run are generated from. -/
def supply (tray : Tray) : Supply := ⟨tray.args, tray.ledger.vars, tray.draws⟩

/-- The tray once the elements have been generated. -/
def after (tray : Tray) (s : Supply) : Tray := ⟨s.args, s.draws, tray.ledger.withVars s.vars⟩

def fix (tray : Tray) (id : PartId) (m : Marked) : Tray :=
  { tray with ledger := tray.ledger.fix id m }

end Tray

namespace Marked

/-- **Generate a part.** -/
def generate (mode : Mode) (m : Marked) (tray : Tray) :
    Minting (Except PatternError (Option Message) × Tray) :=
  match m with
  | .bytes items =>
    let g := Part.generateMessage mode none items tray.supply none
    .done (g.outcome, tray.after g.supply)
  | .timed milliseconds items =>
    let g := Part.generateMessage mode (some milliseconds) items tray.supply none
    .done (g.outcome, tray.after g.supply)
  | .dynamic id source item =>
    match Part.takeLength source tray.supply with
    | (.ok n, s) =>
      let run := List.replicate n item
      match generateRun mode run s with
      | (.ok produced, s) => .done (.ok (some ⟨none, produced⟩), (tray.after s).fix id (.bytes run))
      | (.error e, s) => .done (.error e, tray.after s)
    | (.error e, s) => .done ((Part.unshaped mode e s).outcome, tray.after s)
  | .optional id name condition item =>
    (tray.ledger.choose name condition item).bind fun
      | none => .done ((Part.unshaped mode (.undefined name) tray.supply).outcome, tray)
      | some fixed => (fixed.1.generate mode tray).bind fun
        | (.ok message, tray) => .done (.ok message, tray.fix id fixed.1)
        | (.error e, tray) => .done (.error e, tray)
  | .empty => .done (.ok none, tray)
termination_by m.depth
decreasing_by exact Nat.lt_succ_of_le fixed.2

/-- **Parse a part** off the front of a buffer. -/
def parse (m : Marked) (buffer : Bytes) (args : Arguments) (ledger : Ledger) :
    Minting (Bytes × Arguments × Ledger) :=
  match m with
  | .bytes items | .timed _ items =>
    let p := parseRun items buffer args ledger.vars
    .done (p.rest, p.args, ledger.withVars p.vars)
  | .dynamic id source item =>
    if buffer.isEmpty then .done (buffer, args, ledger)
    else
      match Part.usableLength? source (ledger.known? id) ledger.vars with
      | none => .done (buffer, args, ledger)
      | some n =>
        let run := List.replicate n item
        let p := parseRun run buffer args ledger.vars
        .done (p.rest, p.args, (ledger.withVars p.vars).fix id (.bytes run))
  | .optional id name condition item =>
    if buffer.isEmpty then .done (buffer, args, ledger)
    else
      (ledger.choose name condition item).bind fun
        | none => .done (buffer, args, ledger)
        | some fixed => (fixed.1.parse buffer args ledger).bind fun (rest, args, ledger) =>
          .done (rest, args, ledger.fix id fixed.1)
  | .empty => .done (buffer, args, ledger)
termination_by m.depth
decreasing_by exact Nat.lt_succ_of_le fixed.2

/-- **Check a part** against the front of a buffer. -/
def validate (m : Marked) (buffer : Bytes) (ledger : Ledger) :
    Minting (Verdict × Bytes × Ledger) :=
  match m with
  | .bytes items | .timed _ items =>
    let c := checkRun items buffer ledger.vars
    .done (c.verdict, c.rest, ledger.withVars c.vars)
  | .dynamic id source item =>
    match Part.usableLength? source (ledger.known? id) ledger.vars with
    | none => .done (.invalid, buffer, ledger)
    | some n =>
      let run := List.replicate n item
      let c := checkRun run buffer ledger.vars
      .done (c.verdict, c.rest, (ledger.withVars c.vars).fix id (.bytes run))
  | .optional id name condition item =>
    (ledger.choose name condition item).bind fun
      | none => .done (.invalid, buffer, ledger)
      | some fixed => (fixed.1.validate buffer ledger).bind fun (verdict, rest, ledger) =>
        .done (verdict, rest, ledger.fix id fixed.1)
  | .empty => .done (.valid, buffer, ledger)
termination_by m.depth
decreasing_by exact Nat.lt_succ_of_le fixed.2

/-- **Resolve a part** as far as the variables decide it. -/
def resolve (m : Marked) (ledger : Ledger) : Minting Ledger :=
  match m with
  | .bytes _ | .timed _ _ | .empty => .done ledger
  | .dynamic id source item =>
    match Part.usableLength? source (ledger.known? id) ledger.vars with
    | none => .done ledger
    | some n => .done (ledger.fix id (.bytes (List.replicate n item)))
  | .optional id name condition item =>
    (ledger.choose name condition item).bind fun
      | none => .done ledger
      | some fixed => (fixed.1.resolve ledger).bind fun ledger => .done (ledger.fix id fixed.1)
termination_by m.depth
decreasing_by exact Nat.lt_succ_of_le fixed.2

/-! ## §5. Operations on several parts -/

/-- One entry for each part: its message, if it has one. -/
def messages : List Marked → Tray → Minting (List (Option Message) × Tray)
  | [], tray => .done ([], tray)
  | m :: rest, tray => (m.generate .lenient tray).bind fun (outcome, tray) =>
    (messages rest tray).bind fun (more, tray) =>
      .done (outcome.toOption.join :: more, tray)

/-- The messages of the parts, up to the first failure. -/
def messages? : List Marked → Tray → Minting (Except PatternError (List (Option Message)) × Tray)
  | [], tray => .done (.ok [], tray)
  | m :: rest, tray => (m.generate .strict tray).bind fun
    | (.error e, tray) => .done (.error e, tray)
    | (.ok message, tray) => (messages? rest tray).bind fun (outcome, tray) =>
      .done (outcome.map (message :: ·), tray)

/-- Parse all parts in order. -/
def parseAll : List Marked → Bytes → Arguments → Ledger → Minting (Bytes × Arguments × Ledger)
  | [], buffer, args, ledger => .done (buffer, args, ledger)
  | m :: rest, buffer, args, ledger => (m.parse buffer args ledger).bind fun (buffer, args, ledger) =>
    parseAll rest buffer args ledger

/-- Check all parts in order, up to the first that is not valid. -/
def validateAll : List Marked → Bytes → Ledger → Minting (Verdict × Bytes × Ledger)
  | [], buffer, ledger => .done (.valid, buffer, ledger)
  | m :: rest, buffer, ledger => (m.validate buffer ledger).bind fun
    | (.valid, buffer, ledger) => validateAll rest buffer ledger
    | (verdict, buffer, ledger) => .done (verdict, buffer, ledger)

/-- Resolve all parts in order. -/
def resolveAll : List Marked → Ledger → Minting Ledger
  | [], ledger => .done ledger
  | m :: rest, ledger => (m.resolve ledger).bind fun ledger => resolveAll rest ledger

/-- How many bytes the parts stand for. -/
def countAll : List Marked → Ledger → Nat
  | [], _ => 0
  | m :: rest, ledger => ledger.count m + countAll rest ledger

end Marked

/-! ## §6. Evaluating a description, one operation after another -/

/-- What is operated on: all parts, or one of them, or a part inside one. -/
inductive Selection where
  | whole
  | part (index depth : Nat)
  deriving DecidableEq, Repr

/-- An operation, with what it is given. -/
inductive Operation where
  | generate (mode : Mode) (args : Arguments) (draws : Draws)
  | parse (buffer : Bytes) (args : Arguments)
  | validate (buffer : Bytes)
  | resolve
  | count
  /-- A variable is set. -/
  | set (name : String) (value : Value)

/-- **What an operation gives back,** besides the variables. -/
inductive Answer where
  | generated (outcome : Except PatternError (List (Option Message))) (args : Arguments)
      (draws : Draws)
  | parsed (rest : Bytes) (args : Arguments)
  | validated (verdict : Verdict) (rest : Bytes)
  | resolved
  | counted (length : Nat)
  | set

/-- The parts that are operated on. -/
def Selection.of (parts : List Marked) : Selection → List Marked
  | .whole => parts
  | .part index depth => (parts[index]?.bind (Marked.within depth)).toList

/-- One operation on these parts. -/
def Operation.on (parts : List Marked) (ledger : Ledger) : Operation → Minting (Answer × Ledger)
  | .generate .lenient args draws =>
    (Marked.messages parts ⟨args, draws, ledger⟩).bind fun (messages, tray) =>
      .done (.generated (.ok messages) tray.args tray.draws, tray.ledger)
  | .generate .strict args draws =>
    (Marked.messages? parts ⟨args, draws, ledger⟩).bind fun (outcome, tray) =>
      .done (.generated outcome tray.args tray.draws, tray.ledger)
  | .parse buffer args =>
    (Marked.parseAll parts buffer args ledger).bind fun (rest, args, ledger) =>
      .done (.parsed rest args, ledger)
  | .validate buffer =>
    (Marked.validateAll parts buffer ledger).bind fun (verdict, rest, ledger) =>
      .done (.validated verdict rest, ledger)
  | .resolve => (Marked.resolveAll parts ledger).bind fun ledger => .done (.resolved, ledger)
  | .count => .done (.counted (Marked.countAll parts ledger), ledger)
  | .set name value => .done (.set, ledger.withVars (ledger.vars.set name value))

/-- **Operations one after another,** each on its selection, and what is seen
    after each: its answer and the variables. -/
def Marked.evaluate (parts : List Marked) :
    List (Selection × Operation) → Ledger → Minting (List (Answer × Variables))
  | [], _ => .done []
  | (selection, operation) :: rest, ledger =>
    (operation.on (selection.of parts) ledger).bind fun (answer, ledger) =>
      (evaluate parts rest ledger).bind fun more => .done ((answer, ledger.vars) :: more)

/-! ## §7. The same without identities -/

/-- The part that stands under this many decisions. -/
def Part.within : (depth : Nat) → Part → Option Part
  | 0, part => some part
  | depth + 1, .optional _ _ item => item.within depth
  | _ + 1, _ => none

/-- **The script of a selection.**  The steps of a description are numbered
    upwards, then the parts that stand under one decision, and so on. -/
def Selection.script (description : Description) : Selection → Script
  | .whole => .ofDescription 0 description
  | .part index depth =>
    (description.parts[index]?.bind (Part.within depth)).toList.map
      (Step.mk (index + depth * description.parts.length))

/-- Resolve all steps in order. -/
def Script.resolve (script : Script) (ctx : Context) : Context :=
  script.foldl (fun ctx step => step.resolve ctx) ctx

/-- One operation on a script. -/
def Operation.onScript (script : Script) (ctx : Context) : Operation → Answer × Context
  | .generate .lenient args draws =>
    let (messages, pass) := script.messages ⟨args, draws, ctx⟩
    (.generated (.ok messages) pass.args pass.draws, pass.context)
  | .generate .strict args draws =>
    let (outcome, pass) := script.messages? ⟨args, draws, ctx⟩
    (.generated outcome pass.args pass.draws, pass.context)
  | .parse buffer args =>
    let (rest, args, ctx) := script.parse buffer args ctx
    (.parsed rest args, ctx)
  | .validate buffer =>
    let (verdict, rest, ctx) := script.validate buffer ctx
    (.validated verdict rest, ctx)
  | .resolve => (.resolved, script.resolve ctx)
  | .count => (.counted (script.count ctx), ctx)
  | .set name value => (.set, ctx.set name value)

/-- **Operations one after another,** without identities. -/
def Description.evaluate (description : Description) :
    List (Selection × Operation) → Context → List (Answer × Variables)
  | [], _ => []
  | (selection, operation) :: rest, ctx =>
    let (answer, ctx) := operation.onScript (selection.script description) ctx
    (answer, ctx.vars) :: description.evaluate rest ctx

end Masquerade
