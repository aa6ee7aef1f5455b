/-
  Masquerade.Proofs.Checking — HOW CHECKING SPENDS ITS BYTES.

  Whatever its form, a part stands for a RUN of elements as soon as the
  variables are known: a dynamic part for copies of one element, an optional
  part for what it guards or for nothing.  A part that has no run yet is
  refused unseen.  Checking, counting and resolving all follow that run, so
  what holds of runs holds of parts:

    • a verdict other than `incomplete` is not changed by more input, and
      what is left over grows by exactly that input,
    • a part that has been resolved asks for as many bytes as it is counted
      to have, no more and no fewer.

  A script is checked part by part.  As long as no step of it has been
  resolved before, the identities of the steps do not matter and the script
  is checked as the bare list of its parts (`checkParts`).

  Main results:
    * `Part.validate_eq_checkRun`, `Part.foreseen_eq_length` — the run of a
      part.
    * `Part.resolution_validate` — checking records what resolving records.
    * `Part.validate_more` — more input.
    * `Part.rest_of_valid`, `Part.ne_incomplete_of_foreseen_le` — counting
      predicts what checking spends.
    * `Script.checked_eq_checkParts_of` — from scripts to parts.
-/
import Masquerade.Pattern.Script

namespace Masquerade

/-! ## §1. Runs of elements -/

theorem checkRun_cons_nil (element : Element) (run : List Element) (vars : Variables) :
    checkRun (element :: run) [] vars = ⟨.incomplete, [], vars⟩ := rfl

theorem checkRun_cons_some {element : Element} {byte : UInt8} {vars after : Variables}
    (h : element.check byte vars = some after) (run : List Element) (buffer : Bytes) :
    checkRun (element :: run) (byte :: buffer) vars = checkRun run buffer after := by
  simp [checkRun, Element.validate, h]

theorem checkRun_cons_none {element : Element} {byte : UInt8} {vars : Variables}
    (h : element.check byte vars = none) (run : List Element) (buffer : Bytes) :
    checkRun (element :: run) (byte :: buffer) vars = ⟨.invalid, buffer, vars⟩ := by
  simp [checkRun, Element.validate, h]

/-- **More input** leaves every verdict but `incomplete` as it is, and is
    left over itself. -/
theorem checkRun_more (run : List Element) (more : Bytes) :
    ∀ (buffer : Bytes) (vars : Variables),
      (checkRun run buffer vars).verdict ≠ .incomplete →
      checkRun run (buffer ++ more) vars
        = { checkRun run buffer vars with rest := (checkRun run buffer vars).rest ++ more } := by
  induction run with
  | nil =>
      intro buffer vars _
      rfl
  | cons element run ih =>
      intro buffer vars h
      cases buffer with
      | nil =>
          rw [checkRun_cons_nil] at h
          exact absurd rfl h
      | cons byte buffer =>
          -- each element spends one byte, whatever comes after it
          rw [List.cons_append]
          cases hc : element.check byte vars with
          | none => rw [checkRun_cons_none hc, checkRun_cons_none hc]
          | some after =>
              rw [checkRun_cons_some hc] at h ⊢
              rw [checkRun_cons_some hc, ih buffer after h]

/-- A run that fits has spent one byte for each of its elements. -/
theorem checkRun_rest_of_valid (run : List Element) :
    ∀ (buffer : Bytes) (vars : Variables),
      (checkRun run buffer vars).verdict = .valid →
      run.length ≤ buffer.length ∧ (checkRun run buffer vars).rest = buffer.drop run.length := by
  induction run with
  | nil =>
      intro buffer vars _
      exact ⟨Nat.zero_le _, rfl⟩
  | cons element run ih =>
      intro buffer vars h
      cases buffer with
      | nil =>
          rw [checkRun_cons_nil] at h
          cases h
      | cons byte buffer =>
          cases hc : element.check byte vars with
          | none =>
              rw [checkRun_cons_none hc] at h
              cases h
          | some after =>
              rw [checkRun_cons_some hc] at h ⊢
              obtain ⟨hle, hrest⟩ := ih buffer after h
              exact ⟨Nat.succ_le_succ hle, hrest⟩

/-- A run with a byte for each of its elements does not run out of bytes. -/
theorem checkRun_ne_incomplete (run : List Element) :
    ∀ (buffer : Bytes) (vars : Variables),
      run.length ≤ buffer.length → (checkRun run buffer vars).verdict ≠ .incomplete := by
  induction run with
  | nil =>
      intro buffer vars _
      show Verdict.valid ≠ Verdict.incomplete
      decide
  | cons element run ih =>
      intro buffer vars h
      cases buffer with
      | nil => exact absurd h (Nat.not_succ_le_zero _)
      | cons byte buffer =>
          cases hc : element.check byte vars with
          | none =>
              rw [checkRun_cons_none hc]
              show Verdict.invalid ≠ Verdict.incomplete
              decide
          | some after =>
              rw [checkRun_cons_some hc]
              exact ih buffer after (Nat.le_of_succ_le_succ h)

/-! ## §2. The run of a part -/

namespace Part

/-- **The run of elements that a part stands for**, as far as the variables
    decide it. -/
def run? (part : Part) (known : Option Nat) (vars : Variables) : Option (List Element) :=
  match part with
  | .bytes items | .timed _ items => some items
  | .dynamic source item => (usableLength? source known vars).map (List.replicate · item)
  | .optional name condition item =>
    (vars.get? name).bind fun value =>
      if condition.holds value then run? item none vars else some []
  | .empty => some []

/-- What checking makes of a run, and of a part that has none. -/
def checkRun? (run : Option (List Element)) (buffer : Bytes) (vars : Variables) : Checked :=
  run.elim ⟨.invalid, buffer, vars⟩ fun run => checkRun run buffer vars

/-- **A part is checked as its run.** -/
theorem validate_eq_checkRun (part : Part) (buffer : Bytes) (vars : Variables) :
    ∀ (known : Option Nat),
      (part.validate known buffer vars).1 = checkRun? (part.run? known vars) buffer vars := by
  induction part with
  | bytes items =>
      intro known
      rfl
  | timed milliseconds items =>
      intro known
      rfl
  | dynamic source item =>
      intro known
      -- without a usable length the buffer is not touched
      unfold validate run?
      cases usableLength? source known vars <;> rfl
  | optional name condition item ih =>
      intro known
      -- what is guarded is checked as if it had never been resolved
      unfold validate run?
      cases vars.get? name with
      | none => rfl
      | some value =>
          cases hold : condition.holds value with
          | false => simp [hold, checkRun?, checkRun]
          | true => simp [hold, ih none]
  | empty =>
      intro known
      rfl

/-- **Checking records what resolving records:** the shape of a part is
    decided before any byte is looked at. -/
theorem resolution_validate (part : Part) (buffer : Bytes) (vars : Variables) :
    ∀ (known : Option Nat), (part.validate known buffer vars).2 = part.resolve known vars := by
  induction part with
  | dynamic source item =>
      intro known
      unfold validate resolve
      cases usableLength? source known vars <;> rfl
  | optional name condition item ih =>
      intro known
      unfold validate resolve
      cases vars.get? name with
      | none => rfl
      | some value =>
          cases hold : condition.holds value with
          | false => simp [hold]
          | true => simp [hold, ih none]
  | bytes items | timed milliseconds items | empty =>
      intro known
      rfl

/-- The length that a part is counted to have once it is resolved. -/
def foreseen (part : Part) (known : Option Nat) (vars : Variables) : Nat :=
  part.count (part.resolve known vars)

/-- **A resolved part is counted as its run**, and as nothing where it has
    none. -/
theorem foreseen_eq_length (part : Part) (vars : Variables) :
    ∀ (known : Option Nat),
      part.foreseen known vars = (part.run? known vars).elim 0 List.length := by
  induction part with
  | bytes items =>
      intro known
      rfl
  | timed milliseconds items =>
      intro known
      rfl
  | dynamic source item =>
      intro known
      unfold foreseen resolve run?
      cases usableLength? source known vars with
      | none =>
          -- no length is counted as no bytes
          rfl
      | some n => exact (List.length_replicate (n := n)).symm
  | optional name condition item ih =>
      intro known
      unfold foreseen resolve run?
      cases vars.get? name with
      | none => rfl
      | some value =>
          cases hold : condition.holds value with
          | false => simp [hold, count, absent]
          | true =>
              have hitem : item.count (item.resolve none vars)
                  = (item.run? none vars).elim 0 List.length := ih none
              simp only [Option.map_some, Option.bind_some, hold, if_true]
              exact hitem
  | empty =>
      intro known
      rfl

/-- **Resolving a part does not change its run:** the length that was
    remembered is the one that would be found again. -/
theorem run?_after_resolve (part : Part) (known : Option Nat) (vars : Variables) :
    part.run? (((part.resolve known vars).map Resolution.length).or known) vars
      = part.run? known vars := by
  cases part with
  | dynamic source item =>
      cases source with
      | argument =>
          -- the one length that is read back from the record
          unfold run? resolve
          cases hlength : usableLength? .argument known vars with
          | none => simp [hlength]
          | some n =>
              obtain ⟨hknown, -⟩ := Option.filter_eq_some_iff.mp hlength
              have hknown : known = some n := hknown
              subst hknown
              simp [hlength, ofLength]
      | named name | seeded name => rfl
  | bytes items | timed milliseconds items | optional name condition item | empty => rfl

/-! ## §3. Parts -/

/-- **More input** leaves every verdict on a part but `incomplete` as it is,
    and is left over itself. -/
theorem validate_more {part : Part} {known : Option Nat} {vars : Variables} {buffer : Bytes}
    (h : (part.validate known buffer vars).1.verdict ≠ .incomplete) (more : Bytes) :
    (part.validate known (buffer ++ more) vars).1
      = { (part.validate known buffer vars).1 with
          rest := (part.validate known buffer vars).1.rest ++ more } := by
  rw [validate_eq_checkRun] at h ⊢
  rw [validate_eq_checkRun]
  cases hrun : part.run? known vars with
  | none => rfl
  | some run =>
      rw [hrun] at h
      exact checkRun_more run more buffer vars h

/-- What follows bytes that just fit a part is left over. -/
theorem validate_append_of_fits {part : Part} {known : Option Nat} {vars after : Variables}
    {word : Bytes} (h : (part.validate known word vars).1 = ⟨.valid, [], after⟩) (more : Bytes) :
    (part.validate known (word ++ more) vars).1 = ⟨.valid, more, after⟩ := by
  have hverdict : (part.validate known word vars).1.verdict ≠ .incomplete := by
    rw [h]
    show Verdict.valid ≠ Verdict.incomplete
    decide
  rw [validate_more hverdict, h]
  rfl

/-- **A part that fits has spent the length foreseen for it.** -/
theorem rest_of_valid {part : Part} {known : Option Nat} {vars : Variables} {buffer : Bytes}
    (h : (part.validate known buffer vars).1.verdict = .valid) :
    part.foreseen known vars ≤ buffer.length
      ∧ (part.validate known buffer vars).1.rest = buffer.drop (part.foreseen known vars) := by
  rw [validate_eq_checkRun] at h ⊢
  rw [foreseen_eq_length]
  cases hrun : part.run? known vars with
  | none =>
      rw [hrun] at h
      cases h
  | some run =>
      rw [hrun] at h
      exact checkRun_rest_of_valid run buffer vars h

/-- **A part that has the length foreseen for it does not run out of
    bytes.** -/
theorem ne_incomplete_of_foreseen_le {part : Part} {known : Option Nat} {vars : Variables}
    {buffer : Bytes} (h : part.foreseen known vars ≤ buffer.length) :
    (part.validate known buffer vars).1.verdict ≠ .incomplete := by
  rw [foreseen_eq_length] at h
  rw [validate_eq_checkRun]
  cases hrun : part.run? known vars with
  | none =>
      show Verdict.invalid ≠ Verdict.incomplete
      decide
  | some run =>
      rw [hrun] at h
      exact checkRun_ne_incomplete run buffer vars h

end Part

/-! ## §4. Lists of parts -/

/-- **Check parts in order**, each as if it had never been resolved, up to
    the first that does not fit. -/
def checkParts : List Part → Bytes → Variables → Checked
  | [], buffer, vars => ⟨.valid, buffer, vars⟩
  | part :: parts, buffer, vars =>
    let c := (part.validate none buffer vars).1
    if c.verdict = .valid then checkParts parts c.rest c.vars else c

theorem checkParts_cons_of_valid {part : Part} {buffer : Bytes} {vars : Variables}
    (h : (part.validate none buffer vars).1.verdict = .valid) (parts : List Part) :
    checkParts (part :: parts) buffer vars
      = checkParts parts (part.validate none buffer vars).1.rest
          (part.validate none buffer vars).1.vars := by
  show (if _ then _ else _) = _
  rw [if_pos h]

theorem checkParts_cons_of_ne_valid {part : Part} {buffer : Bytes} {vars : Variables}
    (h : (part.validate none buffer vars).1.verdict ≠ .valid) (parts : List Part) :
    checkParts (part :: parts) buffer vars = (part.validate none buffer vars).1 := by
  show (if _ then _ else _) = _
  rw [if_neg h]

/-! ## §5. Scripts -/

@[simp] theorem Context.vars_record (ctx : Context) (id : PartId) (vars : Variables)
    (resolution : Option Resolution) : (ctx.record id vars resolution).vars = vars := by
  cases resolution <;> rfl

namespace Script

/-- What checking a script leaves behind, besides its resolutions. -/
def checked (script : Script) (buffer : Bytes) (ctx : Context) : Checked :=
  let (verdict, rest, after) := script.validate buffer ctx
  ⟨verdict, rest, after.vars⟩

/-- **No step of a script has been resolved yet**, and none will be resolved
    under the identity of another. -/
structure Unresolved (script : Script) (ctx : Context) : Prop where
  distinct : (script.map Step.id).Nodup
  fresh : ∀ step ∈ script, ctx.resolution? step.id = none

/-- A numbered description is unresolved in an empty context. -/
theorem unresolved_ofDescription (first : PartId) (description : Description) :
    (ofDescription first description).Unresolved .empty :=
  ⟨ids_nodup first description, fun _ _ => rfl⟩

/-- The first step of an unresolved script is apart from the others. -/
theorem Unresolved.apart {step : Step} {script : Script} {ctx : Context}
    (h : Unresolved (step :: script) ctx) : step.id ∉ script.map Step.id :=
  (List.nodup_cons.mp h.distinct).1

theorem Unresolved.tail {step : Step} {script : Script} {ctx : Context}
    (h : Unresolved (step :: script) ctx) : script.Unresolved ctx :=
  ⟨(List.nodup_cons.mp h.distinct).2,
    fun other hother => h.fresh other (List.mem_cons_of_mem _ hother)⟩

/-- What is recorded for a step apart leaves a script unresolved. -/
theorem Unresolved.record {script : Script} {ctx : Context} (h : script.Unresolved ctx)
    {id : PartId} (hid : id ∉ script.map Step.id) (vars : Variables)
    (resolution : Option Resolution) : script.Unresolved (ctx.record id vars resolution) := by
  refine ⟨h.distinct, ?_⟩
  intro other hother
  cases resolution with
  | none => exact h.fresh other hother
  | some r =>
      have hne : other.id ≠ id := by
        intro heq
        exact hid (heq ▸ List.mem_map_of_mem hother)
      rw [Context.resolution?_record, if_neg hne]
      exact h.fresh other hother

theorem Unresolved.knownLength? {step : Step} {script : Script} {ctx : Context}
    (h : Unresolved (step :: script) ctx) : ctx.knownLength? step.id = none := by
  unfold Context.knownLength?
  rw [h.fresh step List.mem_cons_self]
  rfl

/-- A script is checked step by step. -/
theorem checked_cons (step : Step) (script : Script) (buffer : Bytes) (ctx : Context) :
    checked (step :: script) buffer ctx =
      let c := step.part.validate (ctx.knownLength? step.id) buffer ctx.vars
      if c.1.verdict = .valid then
        script.checked c.1.rest (ctx.record step.id c.1.vars c.2)
      else c.1 := by
  simp only [checked, validate, Step.validate]
  generalize step.part.validate (ctx.knownLength? step.id) buffer ctx.vars = c
  obtain ⟨⟨verdict, rest, vars⟩, resolution⟩ := c
  cases verdict <;> simp

/-- **From scripts to parts:** where resolutions play no role, and go on to
    play none, a script is checked as the list of its parts. -/
theorem checked_eq_checkParts_of (plain : Script → Context → Prop)
    (hsame : ∀ {step script ctx}, plain (step :: script) ctx → ∀ (buffer : Bytes),
      (step.part.validate (ctx.knownLength? step.id) buffer ctx.vars).1
        = (step.part.validate none buffer ctx.vars).1)
    (hkeep : ∀ {step script ctx}, plain (step :: script) ctx → ∀ vars resolution,
      plain script (ctx.record step.id vars resolution))
    (script : Script) :
    ∀ (buffer : Bytes) (ctx : Context), plain script ctx →
      script.checked buffer ctx = checkParts (script.map Step.part) buffer ctx.vars := by
  induction script with
  | nil =>
      intro buffer ctx _
      rfl
  | cons step script ih =>
      intro buffer ctx h
      -- a step that fits hands on a context that is plain for the others
      rw [checked_cons]
      dsimp only
      rw [hsame h]
      show _ = checkParts (step.part :: script.map Step.part) buffer ctx.vars
      by_cases hv : (step.part.validate none buffer ctx.vars).1.verdict = .valid
      · rw [if_pos hv, checkParts_cons_of_valid hv, ih _ _ (hkeep h _ _), Context.vars_record]
      · rw [if_neg hv, checkParts_cons_of_ne_valid hv]

/-- An unresolved script is checked as the list of its parts. -/
theorem checked_eq_checkParts (script : Script) (buffer : Bytes) (ctx : Context)
    (h : script.Unresolved ctx) :
    script.checked buffer ctx = checkParts (script.map Step.part) buffer ctx.vars := by
  refine checked_eq_checkParts_of Unresolved ?_ ?_ script buffer ctx h
  · intro step script ctx h buffer
    rw [h.knownLength?]
  · intro step script ctx h vars resolution
    exact h.tail.record h.apart vars resolution

end Script

/-! ## §6. A description to try -/

/-- **A description that counts:** a number, so many bytes, and the number
    once more if it is above two. -/
def Description.counted : Description :=
  ⟨[.bytes [.producer "n" (.randomEnumerated [2, 3])], .dynamic (.named "n") .random,
    .optional "n" (.greater 2) (.bytes [.consumer "n"]), .empty]⟩

end Masquerade
