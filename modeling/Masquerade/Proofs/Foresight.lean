/-
  Masquerade.Proofs.Foresight — WHAT RESOLVING FORETELLS.

  A part can be resolved before there is a buffer to check, and its count
  then says how many bytes to read.  Resolving and checking look at the same
  variables, and neither changes them before the shape of the part is
  decided.  Where they decide it, resolving records the length of the run that
  checking goes on to (`Part.run?_after_resolve`).  Where they do not, an old
  record may be left in place and counted; but then checking refuses the part
  whatever it is given.

  Main results:
    * `Part.foresees` — one part, whatever was recorded for it.
    * `Marked.resolving_foretells` — steps in any context, and parts after
      any history.
-/
import Masquerade.Proofs.Counting

namespace Masquerade

/-! ## §1. Foreseen lengths -/

/-- **A length that was foreseen:** with so many bytes checking comes to a
    decision, with fewer it finds no fit, and a fit spends exactly so many. -/
structure Foresees (n : Nat) (buffer : Bytes) (verdict : Verdict) (rest : Bytes) : Prop where
  enough : n ≤ buffer.length → verdict ≠ .incomplete
  needed : buffer.length < n → verdict ≠ .valid
  spent : verdict = .valid → Spends n buffer rest

namespace Part

/-- **Resolving foretells what checking needs,** whatever was recorded. -/
theorem foresees (part : Part) (vars : Variables) (buffer : Bytes) (old : Option Resolution) :
    let resolution := (part.resolve (old.map Resolution.length) vars).or old
    let checked := (part.validate (resolution.map Resolution.length) buffer vars).1
    Foresees (part.count resolution) buffer checked.verdict checked.rest := by
  intro resolution checked
  have hsame := part.run?_after_resolve (old.map Resolution.length) vars
  rw [← Option.map_or] at hsame
  cases hrun : part.run? (old.map Resolution.length) vars with
  | none =>
      -- no run: refused unseen, so it does not matter what is counted
      have hrefused : checked = ⟨.invalid, buffer, vars⟩ := by
        show (part.validate _ buffer vars).1 = _
        rw [validate_eq_checkRun, hsame, hrun]
        rfl
      rw [hrefused]
      exact ⟨fun _ => nofun, fun _ => nofun, nofun⟩
  | some run =>
      have hcount : part.count resolution
          = part.foreseen (resolution.map Resolution.length) vars := by
        rw [foreseen_eq_length, hsame, count_or (settled_of_run? hrun), ← foreseen_eq_length]
        rfl
      rw [hcount]
      exact {
        enough := ne_incomplete_of_foreseen_le
        needed := fun hless hvalid => Nat.not_le.mpr hless (rest_of_valid hvalid).1
        spent := fun hvalid => ⟨(rest_of_valid hvalid).1, (rest_of_valid hvalid).2⟩ }

end Part

/-! ## §2. Steps and parts that were resolved -/

/-- **A step that was resolved** in any context. -/
theorem Step.foresees_resolve (step : Step) (ctx : Context) (buffer : Bytes) :
    Foresees (step.count (step.resolve ctx)) buffer (step.validate buffer (step.resolve ctx)).1
      (step.validate buffer (step.resolve ctx)).2.1 := by
  have hforesees := step.part.foresees ctx.vars buffer (ctx.resolution? step.id)
  unfold count validate Context.knownLength? resolve
  rw [Context.vars_record, Context.resolution?_record_or]
  exact hforesees

namespace World.Sound

variable {w : World} {m : Marked}

/-- **A part that was resolved** after any history. -/
theorem foresees_resolve (h : w.Sound) (hm : w.Holds m) :
    (m.resolve w.ledger).Ends (fun c resolved => ∀ (buffer : Bytes),
      (m.validate buffer resolved).Ends (fun _ r =>
        Foresees (resolved.count m) buffer r.1 r.2.1) c) w.counter := by
  refine (Marked.resolve_ends m (h.ready hm)).imp ?_
  intro c resolved hsettles buffer
  have hforesees := m.part.foresees w.ledger.vars buffer ((w.known? m).map Part.ofLength)
  -- checking finds what resolving recorded, or else what it found itself
  have hready := (h.settles hm hsettles).ready hm
  have hready' : m.Ready resolved (((m.part.resolve (w.known? m) w.ledger.vars).map
      Resolution.length).or (w.known? m)) c :=
    ⟨hsettles.shows_self (h.ready hm), hready.below, hready.old, hready.apart⟩
  refine (Marked.validate_ends buffer m hready').imp ?_
  intro c' r hr
  obtain ⟨after, rfl, -⟩ := hr
  rw [h.count_self hm hsettles, hsettles.vars_eq]
  dsimp only at hforesees
  rw [Option.map_or, Part.map_length_ofLength] at hforesees
  exact hforesees

end World.Sound

/-! ## §3. What resolving foretells -/

namespace Marked

/-- **RESOLVING FORETELLS WHAT CHECKING NEEDS.**  Let a step be resolved in any
    context, also one in which it was resolved before under other variables,
    and let it count n bytes then.

    • On n bytes or more, checking comes to a decision.
    • On fewer, it finds no fit.
    • Where it finds a fit, it spends exactly n bytes.

    The same holds for a part with the identities it carries, by itself or
    inside another, and a context that remembers parts, after any history of
    operations, whatever identities are given out meanwhile. -/
theorem resolving_foretells :
    (∀ (step : Step) (ctx : Context) (buffer : Bytes),
        Foresees (step.count (step.resolve ctx)) buffer
          (step.validate buffer (step.resolve ctx)).1
          (step.validate buffer (step.resolve ctx)).2.1)
      ∧ ∀ (w : World) (m : Marked), w.Reachable → w.Holds m →
          (m.resolve w.ledger).Ends (fun c resolved => ∀ (buffer : Bytes),
            (m.validate buffer resolved).Ends (fun _ r =>
              Foresees (resolved.count m) buffer r.1 r.2.1) c) w.counter :=
  ⟨Step.foresees_resolve,
    fun _ _ hreachable hheld => (World.Sound.of_reachable hreachable).foresees_resolve hheld⟩

/-- A part that counts two, since it was checked while n was two, is resolved
    once more while n is three, and three bytes are foreseen.  A run whose
    length has become negative goes on to count two, but no two bytes fit. -/
theorem resolving_foretells_again :
    let world := World.checkedBefore
    let run : Step := ⟨0, .dynamic (.named "n") .random⟩
    let negative : Context := ⟨Variables.empty.set "n" (.int (-1)), [(0, Part.ofLength 2)]⟩
    world.Reachable ∧ world.Holds World.guarded ∧ world.ledger.count World.guarded = 2
      ∧ (World.guarded.resolve world.ledger).Ends (fun c resolved =>
          resolved.count World.guarded = 3 ∧ ∀ (buffer : Bytes),
            (World.guarded.validate buffer resolved).Ends (fun _ r =>
              Foresees 3 buffer r.1 r.2.1) c) world.counter
      ∧ Foresees 2 [7, 7] .invalid [7, 7] ∧ run.count (run.resolve negative) = 2
      ∧ (run.validate [7, 7] (run.resolve negative)).1 = .invalid := by
  intro world run negative
  obtain ⟨hsteps, hparts⟩ := resolving_foretells
  have hheld : world.Holds World.guarded := World.holds_of_mem List.mem_cons_self
  have hcounts : (World.guarded.resolve world.ledger).Ends
      (fun _ resolved => resolved.count World.guarded = 3) world.counter := by
    have hsound := World.Sound.of_reachable World.reachable_checkedBefore
    refine (resolve_ends World.guarded (hsound.ready hheld)).imp ?_
    intro c resolved hsettles
    rw [hsound.count_self hheld hsettles]
    rfl
  refine ⟨World.reachable_checkedBefore, hheld, World.count_guarded, ?_,
    hsteps run negative [7, 7], rfl, rfl⟩
  refine (hcounts.and (hparts world _ World.reachable_checkedBefore hheld)).imp ?_
  intro c resolved hr
  obtain ⟨hcount, hforesees⟩ := hr
  rw [hcount] at hforesees
  exact ⟨hcount, hforesees⟩

end Marked

end Masquerade
