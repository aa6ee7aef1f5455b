/-
  Masquerade.Proofs.Verdicts — VERDICTS UNDER MORE INPUT.

  Bytes are checked as they arrive, and more may follow.  A check whose
  verdict could turn around with the bytes to come would be of no use before
  the last of them is there.  Here `valid` and `invalid` are final, what
  follows is left over, and only `incomplete` waits for more: then all bytes
  have been looked at, and no beginning of them was decided either
  (`Lasting`).

  The length of a later part may hang on a byte of an earlier one, so two
  checks of the same bytes are kept side by side, with the same variables and
  the same resolutions.  What makes this work part by part is that a part is
  resolved before any byte of it is looked at (`Part.resolution_validate`).

  Main results:
    * `Lasting.andThen` — one check after another.
    * `Script.verdicts_endure` — checking a step, and checking a script.
-/
import Masquerade.Proofs.Checking

namespace Masquerade

/-! ## §1. Runs and parts -/

/-- A run that runs out of bytes has looked at all of them. -/
theorem checkRun_rest_of_incomplete (run : List Element) :
    ∀ (buffer : Bytes) (vars : Variables),
      (checkRun run buffer vars).verdict = .incomplete → (checkRun run buffer vars).rest = [] := by
  induction run with
  | nil =>
      intro buffer vars h
      cases h
  | cons element run ih =>
      intro buffer vars h
      cases buffer with
      | nil => rfl
      | cons byte buffer =>
          cases hc : element.check byte vars with
          | none =>
              rw [checkRun_cons_none hc] at h
              cases h
          | some after =>
              rw [checkRun_cons_some hc] at h ⊢
              exact ih buffer after h

namespace Part

/-- A part that runs out of bytes has looked at all of them. -/
theorem rest_of_incomplete {part : Part} {known : Option Nat} {vars : Variables} {buffer : Bytes}
    (h : (part.validate known buffer vars).1.verdict = .incomplete) :
    (part.validate known buffer vars).1.rest = [] := by
  rw [validate_eq_checkRun] at h ⊢
  cases hrun : part.run? known vars with
  | none =>
      -- a part without a run is refused, whatever the bytes
      rw [hrun] at h
      cases h
  | some run =>
      rw [hrun] at h
      exact checkRun_rest_of_incomplete run buffer vars h

end Part

/-! ## §2. Lasting verdicts -/

/-- **A check with lasting verdicts,** from bytes to a verdict, the bytes left
    over, and the context afterwards: the variables, and what every part is
    counted by. -/
structure Lasting (check : Bytes → Verdict × Bytes × Context) : Prop where
  /-- Bytes that fit go on to fit.  What follows them is left over too, and
      the context is the same. -/
  valid : ∀ {buffer rest : Bytes} {after : Context}, check buffer = (.valid, rest, after) →
    ∀ (more : Bytes), check (buffer ++ more) = (.valid, rest ++ more, after)
  /-- Bytes that do not fit are not mended by others. -/
  invalid : ∀ {buffer rest : Bytes} {after : Context}, check buffer = (.invalid, rest, after) →
    ∀ (more : Bytes), check (buffer ++ more) = (.invalid, rest ++ more, after)
  /-- Bytes that are too few have all been looked at, and nothing less of
      them was decided either. -/
  incomplete : ∀ {buffer rest : Bytes} {after : Context},
    check buffer = (.incomplete, rest, after) →
      rest = [] ∧ ∀ (front : Bytes), front <+: buffer → (check front).1 = .incomplete

namespace Lasting

variable {check first : Bytes → Verdict × Bytes × Context}

/-- Verdicts last if those that are final do, and waiting has looked at
    everything. -/
theorem of_final
    (hfinal : ∀ {buffer rest : Bytes} {verdict : Verdict} {after : Context},
      verdict ≠ .incomplete → check buffer = (verdict, rest, after) →
        ∀ (more : Bytes), check (buffer ++ more) = (verdict, rest ++ more, after))
    (hspent : ∀ {buffer rest : Bytes} {after : Context},
      check buffer = (.incomplete, rest, after) → rest = []) : Lasting check where
  valid h := hfinal (by decide) h
  invalid h := hfinal (by decide) h
  incomplete := by
    intro buffer rest after h
    refine ⟨hspent h, ?_⟩
    rintro front ⟨more, rfl⟩
    by_cases hfront : (check front).1 = .incomplete
    · exact hfront
    · -- a final verdict on the front would be the verdict on the whole
      have hwhole := hfinal hfront rfl more
      rw [h] at hwhole
      exact (Prod.mk.inj hwhole).1.symm

/-- What a final verdict says goes on to hold. -/
theorem final (h : Lasting check) {buffer rest : Bytes} {verdict : Verdict} {after : Context}
    (hne : verdict ≠ .incomplete) (hcheck : check buffer = (verdict, rest, after)) (more : Bytes) :
    check (buffer ++ more) = (verdict, rest ++ more, after) := by
  cases verdict with
  | valid => exact h.valid hcheck more
  | invalid => exact h.invalid hcheck more
  | incomplete => exact absurd rfl hne

/-- **One check after another:** the second begins where the first finds a
    fit, in the context that it leaves. -/
theorem andThen {next : Bytes → Context → Verdict × Bytes × Context} (hfirst : Lasting first)
    (hnext : ∀ ctx, Lasting fun buffer => next buffer ctx) :
    Lasting fun buffer =>
      match first buffer with
      | (.valid, rest, ctx) => next rest ctx
      | (verdict, rest, ctx) => (verdict, rest, ctx) := by
  refine of_final ?_ ?_
  · intro buffer rest verdict after hne h more
    rcases hfound : first buffer with ⟨found, left, between⟩
    rw [hfound] at h
    cases found with
    | valid =>
        dsimp only at h ⊢
        rw [hfirst.valid hfound more]
        exact (hnext between).final hne h more
    | invalid =>
        dsimp only at h ⊢
        rw [hfirst.invalid hfound more]
        cases h
        rfl
    | incomplete =>
        cases h
        exact absurd rfl hne
  · intro buffer rest after h
    rcases hfound : first buffer with ⟨found, left, between⟩
    rw [hfound] at h
    cases found with
    | valid => exact ((hnext between).incomplete h).1
    | invalid => cases h
    | incomplete =>
        cases h
        exact (hfirst.incomplete hfound).1

end Lasting

/-! ## §3. Steps and scripts -/

/-- Checking a step has lasting verdicts. -/
theorem Step.lasting_validate (step : Step) (ctx : Context) :
    Lasting fun buffer => step.validate buffer ctx := by
  refine Lasting.of_final ?_ ?_
  · intro buffer rest verdict after hne h more
    obtain ⟨hverdict, h⟩ := Prod.mk.inj h
    obtain ⟨hrest, hafter⟩ := Prod.mk.inj h
    have hverdict' : (step.part.validate (ctx.knownLength? step.id) buffer ctx.vars).1.verdict
        ≠ .incomplete := hverdict ▸ hne
    have hmore := Part.validate_more hverdict' more
    unfold Step.validate
    dsimp only
    rw [Part.resolution_validate] at hafter
    rw [hmore, Part.resolution_validate]
    dsimp only
    rw [hverdict, hrest, hafter]
  · intro buffer rest after h
    obtain ⟨hverdict, h⟩ := Prod.mk.inj h
    exact (Prod.mk.inj h).1.symm.trans (Part.rest_of_incomplete hverdict)

namespace Script

/-- **VERDICTS ENDURE.**  Let a step or a whole script be checked in any
    context.  Bytes that are found to fit still fit when others follow: these
    are left over, and the variables and all that is counted are the same.
    Bytes that are found not to fit do not fit when others follow.  And where
    the bytes run out, all of them have been looked at, and for every
    beginning of them the bytes run out too. -/
theorem verdicts_endure :
    (∀ (step : Step) (ctx : Context), Lasting fun buffer => step.validate buffer ctx)
      ∧ ∀ (script : Script) (ctx : Context), Lasting fun buffer => script.validate buffer ctx := by
  refine ⟨Step.lasting_validate, ?_⟩
  intro script
  induction script with
  | nil =>
      intro ctx
      refine Lasting.of_final ?_ ?_
      · intro buffer rest verdict after _ h more
        cases h
        rfl
      · intro buffer rest after h
        cases h
  | cons step script ih =>
      -- a script is one step after another
      intro ctx
      exact (step.lasting_validate ctx).andThen ih

/-- A number, so many bytes, and the number again if it is above two: two
    bytes after a two are all, a four is never right, and what begins with a
    three is open up to its last byte. -/
theorem verdicts_endure_counted :
    let counted := ofDescription 0 .counted
    (counted.validate [2, 7, 8] .empty).1 = .valid
      ∧ (counted.validate [2, 7, 8, 9] .empty).2.1 = [9]
      ∧ (counted.validate [2, 7, 8, 9] .empty).2.2 = (counted.validate [2, 7, 8] .empty).2.2
      ∧ (counted.validate [4, 2, 7, 8] .empty).1 = .invalid
      ∧ ∀ (front : Bytes), front <+: [3, 7, 8, 9] →
          (counted.validate front .empty).1 = .incomplete := by
  intro counted
  have hlasting := verdicts_endure.2 counted .empty
  have hfits : counted.validate [2, 7, 8] .empty
      = (.valid, [], (counted.validate [2, 7, 8] .empty).2.2) := by decide
  have hrefused : counted.validate [4] .empty
      = (.invalid, [], (counted.validate [4] .empty).2.2) := by decide
  have hopen : counted.validate [3, 7, 8, 9] .empty
      = (.incomplete, [], (counted.validate [3, 7, 8, 9] .empty).2.2) := by decide
  have hmore := hlasting.valid hfits [9]
  refine ⟨congrArg Prod.fst hfits, ?_, ?_, ?_, (hlasting.incomplete hopen).2⟩
  · exact congrArg (·.2.1) hmore
  · exact congrArg (·.2.2) hmore
  · exact congrArg Prod.fst (hlasting.invalid hrefused [2, 7, 8])

end Script

end Masquerade
