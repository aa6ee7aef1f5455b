/-
  Masquerade.Proofs.Streaming — CHECKING A STREAM AS IT COMES.

  An exchange never sees all that its peer sends.  It foresees the length of
  one part, reads just so many bytes and checks them alone.  Checking a
  buffer that holds everything knows no such lengths; each part takes from
  the front what it wants.  The two agree: at every moment, checking the
  whole input comes to the same as checking what has been read of the part
  in hand and what is still to come (`Exchange.Faithful`).

  Main results:
    * `Exchange.faithful_of_move` — what the whole input is worth is not
      changed by any move.
    * `Exchange.agrees_with_validate` — an exchange ends as checking the
      whole input does.
-/
import Masquerade.Proofs.Rounds

namespace Masquerade

namespace Exchange

/-! ## §1. What is left to check -/

/-- **The whole input is worth what is left of it:** checking all of it has
    the result `whole`, and so has checking what this exchange has still to
    check. -/
def Faithful (whole : Checked) (w : Wired Exchange) : Prop :=
  match w.state.phase with
  | .over (.ok ()) => whole = ⟨.valid, w.input, w.state.context.vars⟩
  | .over (.error e) =>
    whole.verdict ≠ .valid
      ∧ (e = .network .earlyEnd ∨ (e = .validation .invalid ∧ whole.verdict = .invalid))
  | .receiving step _ got =>
    whole = checkParts (step.part :: w.state.script.map Step.part) (got ++ w.input)
      w.state.context.vars
  | _ => whole = checkParts (w.state.script.map Step.part) w.input w.state.context.vars

section

variable {ended : Bool} {w w' : Wired Exchange} {whole : Checked}

/-- Bytes that ran out before the length foreseen for a part do not fit. -/
theorem checkParts_ne_valid_of_short {part : Part} {got : Bytes} {vars : Variables}
    (h : got.length < part.foreseen none vars) (parts : List Part) :
    (checkParts (part :: parts) got vars).verdict ≠ .valid := by
  have hshort : (part.validate none got vars).1.verdict ≠ .valid := by
    intro hvalid
    have hle := (Part.rest_of_valid hvalid).1
    omega
  rw [checkParts_cons_of_ne_valid hshort]
  exact hshort

/-- **No move changes what the whole input is worth.** -/
theorem faithful_of_move (htidy : w.state.Tidy) (h : Faithful whole w)
    (hmove : Move ended w w') : Faithful whole w' := by
  unfold Faithful at h
  cases hmove with
  | finish hphase hscript _ =>
      rw [hphase, hscript] at h
      exact h
  | skip hphase _ _ | listen hphase _ | delay _ hphase _ | speak hphase _ | wake hphase
  | write _ hphase _ _ | sent hphase =>
      rw [hphase] at h
      exact h
  | expect context hphase hscript hvars =>
      rw [hphase, hscript, ← hvars] at h
      exact h
  | @read step missing got bytes rest hphase hinput _ _ =>
      rw [hphase, hinput] at h
      -- the bytes read change places, no more
      show whole = checkParts _ ((got ++ bytes) ++ rest) _
      rw [List.append_assoc]
      exact h
  | @starve step missing got hphase hmissing hinput _ =>
      rw [hphase, hinput] at h
      dsimp only at h
      rw [List.append_nil] at h
      have hsize := (htidy.part step missing got hphase).size
      refine ⟨?_, .inl rfl⟩
      rw [h]
      exact checkParts_ne_valid_of_short (by omega) _
  | @accept step got context hphase hvalid =>
      -- what follows the part is left over by it
      rw [hphase] at h
      dsimp only at h
      have hmore := Part.validate_append_of_fits hvalid w.input
      rw [checkParts_cons_of_valid (by rw [hmore]), hmore] at h
      exact h
  | @refuse step got context buffer hphase hinvalid =>
      -- one part that is invalid makes the whole input invalid
      rw [hphase] at h
      dsimp only at h
      have hverdict : (step.part.validate none (got ++ w.input) w.state.context.vars).1.verdict
          = .invalid := by
        rw [Part.validate_more (by rw [hinvalid]; decide)]
        exact hinvalid
      rw [checkParts_cons_of_ne_valid (by rw [hverdict]; decide)] at h
      rw [← h] at hverdict
      refine ⟨?_, .inr ⟨rfl, hverdict⟩⟩
      rw [hverdict]
      decide

end

/-! ## §2. The end of an exchange -/

/-- An exchange whose input ends comes to an end itself. -/
theorem inevitably_over {x : Exchange} (h : x.Tidy) (input output : Bytes) :
    Inevitably (Advance act true) (fun w => ∃ outcome, w.state.phase = .over outcome)
      ⟨x, input, output⟩ := by
  refine Inevitably.of_measure (fun w => w.state.Tidy)
    (fun w => w.state.effort + w.input.length + w.output.length) ?_ ?_ ?_ h
  · intro w w' htidy hadvance
    exact (htidy.move_of_advance hadvance).2
  · intro w w' htidy hadvance
    right
    exact effort_of_move (htidy.move_of_advance hadvance).1
  · intro w _ hgoal
    refine exists_advance ?_ fun _ _ _ _ _ _ => rfl
    intro outcome hover
    exact hgoal ⟨outcome, hover⟩

/-- At the start nothing has been read, so everything is left to check. -/
theorem faithful_of_start {config : Toneburst} {draws : Draws} {x : Exchange}
    (hstart : start config draws = .ok x) (input : Bytes) :
    Faithful (config.script.checked input .empty) ⟨x, input, []⟩ := by
  have htidy : x.Tidy := tidy_of_start hstart
  unfold start at hstart
  split at hstart
  next => cases hstart
  next =>
    injection hstart with hstart
    subst hstart
    have hwhole := config.script.checked_eq_checkParts input .empty htidy.script
    unfold Faithful
    cases config.speakFirst with
    | true => exact hwhole
    | false => exact hwhole

/-- Tidiness and faithfulness are kept to the end of every run. -/
theorem faithful_of_run {ended : Bool} {w w' : Wired Exchange} {whole : Checked}
    (hrun : Relation.ReflTransGen (Advance act ended) w w') (htidy : w.state.Tidy)
    (hfaithful : Faithful whole w) : w'.state.Tidy ∧ Faithful whole w' := by
  refine keeps_of_run (fun w => w.state.Tidy ∧ Faithful whole w) ?_ hrun ⟨htidy, hfaithful⟩
  intro w w' h hadvance
  obtain ⟨hmove, htidy'⟩ := h.1.move_of_advance hadvance
  exact ⟨htidy', faithful_of_move h.1 h.2 hmove⟩

/-- **AN EXCHANGE AGREES WITH CHECKING THE WHOLE INPUT.**  Let a valid
    configuration run against any input that ends, in whatever pieces it is
    read and written.  Then the exchange comes to an end; until it fails,
    its buffer is empty whenever no part is being checked; and at its end

    • it has succeeded if and only if checking the whole input from an empty
      context finds it valid, and then it has left unread just the bytes that
      checking leaves over, with an empty buffer and the same variables,
    • it has not failed for want of bytes in its buffer, and if it has failed
      for an invalid part, the whole input is invalid. -/
theorem agrees_with_validate {config : Toneburst} {draws : Draws} {x : Exchange}
    (hstart : start config draws = .ok x) (input : Bytes) :
    Inevitably (Advance act true) (fun w => ∃ outcome, w.state.phase = .over outcome)
        ⟨x, input, []⟩
      ∧ ∀ w, Relation.ReflTransGen (Advance act true) ⟨x, input, []⟩ w →
        (w.state.phase.failed = false → w.state.buffer = [])
          ∧ ∀ outcome, w.state.phase = .over outcome →
            (outcome = .ok () ↔ (config.script.validate input .empty).1 = .valid)
              ∧ (outcome = .ok () →
                w.input = (config.script.validate input .empty).2.1
                  ∧ w.state.buffer = []
                  ∧ w.state.context.vars = (config.script.validate input .empty).2.2.vars)
              ∧ outcome ≠ .error (.validation .incomplete)
              ∧ (outcome = .error (.validation .invalid) →
                (config.script.validate input .empty).1 = .invalid) := by
  refine ⟨inevitably_over (tidy_of_start hstart) input [], ?_⟩
  intro w hrun
  obtain ⟨htidy, hfaithful⟩ :=
    faithful_of_run hrun (tidy_of_start hstart) (faithful_of_start hstart input)
  refine ⟨htidy.buffer, ?_⟩
  intro outcome hover
  unfold Faithful at hfaithful
  rw [hover] at hfaithful
  cases outcome with
  | ok done =>
      have hwhole : config.script.checked input .empty
          = ⟨.valid, w.input, w.state.context.vars⟩ := hfaithful
      obtain ⟨hverdict, hrest, hvars⟩ := Checked.mk.inj hwhole
      refine ⟨⟨fun _ => hverdict, fun _ => rfl⟩, ?_, (nomatch ·), (nomatch ·)⟩
      intro _
      refine ⟨hrest.symm, htidy.buffer ?_, hvars.symm⟩
      rw [hover]
      rfl
  | error e =>
      obtain ⟨hne, he⟩ := hfaithful
      refine ⟨⟨?_, ?_⟩, ?_, ?_, ?_⟩
      · intro h
        cases h
      · intro hvalid
        exact absurd hvalid hne
      · intro h
        cases h
      · intro h
        injection h with h
        subst h
        obtain h | ⟨h, -⟩ := he <;> cases h
      · intro h
        injection h with h
        subst h
        obtain h | ⟨-, hinvalid⟩ := he
        · cases h
        · exact hinvalid

/-- A number and its bytes come in, and one byte more: the exchange can only
    succeed, and leaves that byte. -/
theorem agrees_with_validate_counted :
    start ⟨none, some .counted, false⟩ default
        = .ok ⟨[], Script.ofDescription 0 .counted, .empty, [], .round⟩
      ∧ ∀ w, Relation.ReflTransGen (Advance act true)
          ⟨⟨[], Script.ofDescription 0 .counted, .empty, [], .round⟩, [2, 7, 8, 9], []⟩ w →
        ∀ outcome, w.state.phase = .over outcome → outcome = .ok () ∧ w.input = [9] := by
  refine ⟨rfl, ?_⟩
  intro w hrun outcome hover
  have hagrees := @agrees_with_validate ⟨none, some .counted, false⟩ default _ rfl [2, 7, 8, 9]
  obtain ⟨hiff, hok, -⟩ := (hagrees.2 w hrun).2 outcome hover
  have hvalid : outcome = .ok () := hiff.mpr (by decide)
  exact ⟨hvalid, (hok hvalid).1.trans (by decide)⟩

end Exchange

end Masquerade
