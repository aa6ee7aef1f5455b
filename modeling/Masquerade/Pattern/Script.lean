/-
  Masquerade.Pattern.Script — DESCRIPTIONS, scripts and instances.

  A description lists the parts of a handshake in order.  A script is a
  description whose parts carry identities, ready to be evaluated in a
  context.  An instance is a description together with the arguments that
  drive it, ready to produce messages.

  Main results:
    * `Script.parts_ofDescription` — giving identities keeps the parts.
    * `Script.ids_nodup` — the identities so given are distinct.
-/
import Masquerade.Pattern.Context

namespace Masquerade

/-! ## §1. Descriptions and scripts -/

/-- The parts of a handshake, in order. -/
structure Description where
  parts : List Part
  deriving DecidableEq, Repr, Inhabited

/-- A part with its identity. -/
structure Step where
  id : PartId
  part : Part
  deriving DecidableEq, Repr

/-- Parts with identities, in order. -/
abbrev Script := List Step

/-- Parts numbered upwards from `first`. -/
def Script.number : (first : PartId) → List Part → Script
  | _, [] => []
  | first, part :: rest => ⟨first, part⟩ :: number (first + 1) rest

/-- **The script of a description**, with identities from `first` on. -/
def Script.ofDescription (first : PartId) (description : Description) : Script :=
  number first description.parts

/-- The description a script stands for. -/
def Script.description (script : Script) : Description := ⟨script.map Step.part⟩

/-- Giving identities keeps the parts. -/
theorem Script.parts_ofDescription (first : PartId) (description : Description) :
    (ofDescription first description).description = description := by
  have (parts : List Part) : ∀ first, (number first parts).map Step.part = parts := by
    induction parts with
    | nil => intro _; rfl
    | cons part rest ih => intro first; simp [number, ih]
  simp [ofDescription, Script.description, this]

theorem Script.le_of_mem_number {first : PartId} {parts : List Part} {step : Step}
    (h : step ∈ number first parts) : first ≤ step.id := by
  induction parts generalizing first with
  | nil => simp [number] at h
  | cons part rest ih =>
    rcases List.mem_cons.mp h with rfl | h
    · exact Nat.le_refl _
    · exact Nat.le_of_succ_le (ih h)

/-- The identities of a description's script are distinct. -/
theorem Script.ids_nodup (first : PartId) (description : Description) :
    ((ofDescription first description).map Step.id).Nodup := by
  have (parts : List Part) : ∀ first, ((number first parts).map Step.id).Nodup := by
    induction parts with
    | nil => intro _; simp [number]
    | cons part rest ih =>
      intro first
      simp only [number, List.map_cons, List.nodup_cons, List.mem_map, not_exists, not_and]
      refine ⟨fun step hstep heq => ?_, ih _⟩
      have hle : first + 1 ≤ step.id := le_of_mem_number hstep
      exact Nat.not_succ_le_self first (Nat.le_trans hle (Nat.le_of_eq heq))
  exact this _ _

/-! ## §2. One step -/

/-- **What the parts of one pass share** besides the buffer. -/
structure Pass where
  args : Arguments
  draws : Draws
  context : Context

namespace Step

/-- Generate a step and record what its part was resolved to. -/
def generate (mode : Mode) (step : Step) (pass : Pass) :
    Except PatternError (Option Message) × Pass :=
  let g := step.part.generate mode ⟨pass.args, pass.context.vars, pass.draws⟩
  (g.outcome,
    ⟨g.supply.args, g.supply.draws, pass.context.record step.id g.supply.vars g.resolution⟩)

/-- Generate a step leniently: elements that fail are left out. -/
def message (step : Step) (pass : Pass) : Option Message × Pass :=
  let (outcome, pass) := step.generate .lenient pass
  match outcome with
  | .ok message => (message, pass)
  | .error _ => (none, pass)

/-- Parse a step off the front of a buffer. -/
def parse (step : Step) (buffer : Bytes) (args : Arguments) (ctx : Context) :
    Bytes × Arguments × Context :=
  let (parsed, resolution) := step.part.parse (ctx.knownLength? step.id) buffer args ctx.vars
  (parsed.rest, parsed.args, ctx.record step.id parsed.vars resolution)

/-- Check a step against the front of a buffer. -/
def validate (step : Step) (buffer : Bytes) (ctx : Context) : Verdict × Bytes × Context :=
  let (checked, resolution) := step.part.validate (ctx.knownLength? step.id) buffer ctx.vars
  (checked.verdict, checked.rest, ctx.record step.id checked.vars resolution)

/-- How many bytes a step stands for in a context. -/
def count (step : Step) (ctx : Context) : Nat :=
  step.part.count (ctx.resolution? step.id)

/-- Resolve a step as far as the variables decide it. -/
def resolve (step : Step) (ctx : Context) : Context :=
  ctx.record step.id ctx.vars (step.part.resolve (ctx.knownLength? step.id) ctx.vars)

end Step

/-! ## §3. Whole scripts -/

namespace Script

/-- One entry per part: its message, if it has one. -/
def messages : Script → Pass → List (Option Message) × Pass
  | [], pass => ([], pass)
  | step :: rest, pass =>
    let (message, pass) := step.message pass
    let (more, pass) := messages rest pass
    (message :: more, pass)

/-- The messages of a script, up to the first failure. -/
def messages? : Script → Pass → Except PatternError (List (Option Message)) × Pass
  | [], pass => (.ok [], pass)
  | step :: rest, pass =>
    match step.generate .strict pass with
    | (.error e, pass) => (.error e, pass)
    | (.ok message, pass) =>
      match messages? rest pass with
      | (.error e, pass) => (.error e, pass)
      | (.ok more, pass) => (.ok (message :: more), pass)

/-- Parse all parts in order. -/
def parse : Script → Bytes → Arguments → Context → Bytes × Arguments × Context
  | [], buffer, args, ctx => (buffer, args, ctx)
  | step :: rest, buffer, args, ctx =>
    let (buffer, args, ctx) := step.parse buffer args ctx
    parse rest buffer args ctx

/-- **Check all parts in order**, up to the first that is not valid. -/
def validate : Script → Bytes → Context → Verdict × Bytes × Context
  | [], buffer, ctx => (.valid, buffer, ctx)
  | step :: rest, buffer, ctx =>
    match step.validate buffer ctx with
    | (.valid, buffer, ctx) => validate rest buffer ctx
    | (verdict, buffer, ctx) => (verdict, buffer, ctx)

/-- How many bytes a script stands for in a context. -/
def count : Script → Context → Nat
  | [], _ => 0
  | step :: rest, ctx => step.count ctx + count rest ctx

end Script

/-! ## §4. Instances -/

/-- A description and the arguments that drive it. -/
structure Instance where
  description : Description
  args : Arguments
  deriving DecidableEq, Repr, Inhabited

namespace Instance

/-- The pass in which an instance produces its messages. -/
def pass (inst : Instance) (draws : Draws) : Pass := ⟨inst.args, draws, .empty⟩

/-- **The messages of an instance**, elements that fail left out.  The
    instance is not used up. -/
def messages (inst : Instance) (draws : Draws) : List Message :=
  ((Script.ofDescription 0 inst.description).messages (inst.pass draws)).1.filterMap id

/-- The draws that are left when an instance has produced its messages. -/
def drawsAfter (inst : Instance) (draws : Draws) : Draws :=
  ((Script.ofDescription 0 inst.description).messages (inst.pass draws)).2.draws

/-- The messages of an instance, or its first failure. -/
def messages? (inst : Instance) (draws : Draws) : Except PatternError (List Message) :=
  ((Script.ofDescription 0 inst.description).messages? (inst.pass draws)).1.map (·.filterMap id)

end Instance

end Masquerade
