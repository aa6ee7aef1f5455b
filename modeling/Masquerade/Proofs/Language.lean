/-
  Masquerade.Proofs.Language — ONE LANGUAGE, TWO INTERPRETERS.

  Generation and checking are written apart, but a description means one
  set of byte strings: what checking accepts to the last byte is what strict
  generation can produce from some arguments and some random draws.

  One direction is that generated bytes fit.  For the other, the choices are
  read off the accepted bytes: a byte handed in for each enumerated element,
  a draw for each random one.  They are collected front to back
  (`Attainable`), so that the choices for a list of parts are those of its
  first part followed by those of the others.

  Main results:
    * `checkRun_attainable`, `checkParts_attainable` — accepted bytes can be
      generated.
    * `Script.accepts_iff_generates` — one language.
-/
import Masquerade.Proofs.Generation

namespace Masquerade

/-! ## §1. Random draws -/

namespace Draws

/-- The supply after so many draws. -/
def skip (draws : Draws) : Nat → Draws
  | 0 => draws
  | n + 1 => draws.advance.skip n

/-- The next draws are these. -/
def Begins (draws : Draws) : List Nat → Prop
  | [] => True
  | draw :: dealt => draws.next = draw ∧ draws.advance.Begins dealt

theorem skip_add (m n : Nat) : ∀ (draws : Draws), draws.skip (m + n) = (draws.skip m).skip n := by
  induction m with
  | zero =>
      intro draws
      rw [Nat.zero_add]
      rfl
  | succ m ih =>
      intro draws
      rw [Nat.succ_add]
      exact ih draws.advance

theorem begins_append (first second : List Nat) :
    ∀ (draws : Draws), draws.Begins (first ++ second) →
      draws.Begins first ∧ (draws.skip first.length).Begins second := by
  induction first with
  | nil =>
      intro draws h
      exact ⟨trivial, h⟩
  | cons draw dealt ih =>
      intro draws h
      obtain ⟨hnext, hrest⟩ := h
      obtain ⟨hdealt, hsecond⟩ := ih draws.advance hrest
      exact ⟨⟨hnext, hdealt⟩, hsecond⟩

/-- Every finite list of draws is the beginning of some supply. -/
theorem exists_begins (dealt : List Nat) : ∃ draws : Draws, draws.Begins dealt := by
  -- read at position `k`, the supply goes on with what the list has from `k` on
  have hfrom (all : List Nat) : ∀ (rest : List Nat) (k : Nat), all.drop k = rest →
      Begins ⟨fun i => all.getD i 0, k⟩ rest := by
    intro rest
    induction rest with
    | nil =>
        intro k _
        trivial
    | cons draw rest ih =>
        intro k hdrop
        have hget : all[k]? = some draw := by
          rw [← List.head?_drop, hdrop]
          rfl
        refine ⟨?_, ih (k + 1) ?_⟩
        · show all.getD k 0 = draw
          rw [List.getD_eq_getElem?_getD, hget]
          rfl
        · rw [← List.tail_drop, hdrop]
          rfl
  exact ⟨_, hfrom dealt dealt 0 rfl⟩

end Draws

/-! ## §2. Choices -/

/-- **A result that some choices lead to:** arguments and draws from which
    generation yields it, using up exactly these. -/
def Attainable {β : Type} (generate : Supply → Except PatternError β × Supply)
    (vars : Variables) (result : β) (after : Variables) : Prop :=
  ∃ (given : Arguments) (dealt : List Nat), ∀ (args : Arguments) (draws : Draws),
    draws.Begins dealt →
      generate ⟨given ++ args, vars, draws⟩
        = (.ok result, ⟨args, after, draws.skip dealt.length⟩)

/-- Nothing is attained without any choice. -/
theorem Attainable.pure {β : Type} (result : β) (vars : Variables) :
    Attainable (fun s => (.ok result, s)) vars result vars :=
  ⟨[], [], fun _ _ _ => rfl⟩

/-- **Choices in sequence:** those of the first step, then those of what
    follows it. -/
theorem Attainable.bind {β γ δ : Type} {first : Supply → Except PatternError β × Supply}
    {second : Supply → Except PatternError γ × Supply}
    {whole : Supply → Except PatternError δ × Supply} {f : β → γ → δ}
    (hwhole : ∀ {s s' : Supply} {b : β}, first s = (.ok b, s') →
      whole s = ((second s').1.map (f b), (second s').2))
    {vars between after : Variables} {b : β} {c : γ}
    (hfirst : Attainable first vars b between) (hsecond : Attainable second between c after) :
    Attainable whole vars (f b c) after := by
  obtain ⟨given, dealt, hfirst⟩ := hfirst
  obtain ⟨given', dealt', hsecond⟩ := hsecond
  refine ⟨given ++ given', dealt ++ dealt', ?_⟩
  intro args draws hbegins
  obtain ⟨hdealt, hdealt'⟩ := Draws.begins_append dealt dealt' draws hbegins
  rw [List.append_assoc, hwhole (hfirst (given' ++ args) draws hdealt),
    hsecond args _ hdealt', List.length_append, Draws.skip_add]
  rfl

/-! ## §3. Accepted bytes can be generated -/

/-- **A byte that fits an element can be generated for it.** -/
theorem Element.attainable_of_check (element : Element) :
    ∀ {byte : UInt8} {vars after : Variables}, element.check byte vars = some after →
      Attainable element.generate vars byte after := by
  induction element with
  | fixed expected =>
      intro byte vars after h
      rw [check] at h
      split at h
      next heq =>
        injection h with h
        subst heq h
        exact Attainable.pure byte vars
      next => cases h
  | enumerated options =>
      intro byte vars after h
      rw [check] at h
      split at h
      next hmem =>
        injection h with h
        subst h
        refine ⟨[.byte byte], [], ?_⟩
        intro args draws _
        show (allow options (.ok byte), _) = _
        rw [allow, if_pos hmem]
        rfl
      next => cases h
  | random =>
      intro byte vars after h
      injection h with h
      subst h
      refine ⟨[], [byte.toNat], ?_⟩
      intro args draws hbegins
      show ((.ok (UInt8.ofNat (draws.next % 256)), _) : Except PatternError UInt8 × Supply) = _
      rw [hbegins.1, Nat.mod_eq_of_lt byte.toNat_lt, UInt8.ofNat_toNat]
      rfl
  | randomEnumerated options =>
      intro byte vars after h
      rw [check] at h
      split at h
      next hmem =>
        injection h with h
        subst h
        obtain ⟨i, hi, hget⟩ := List.mem_iff_getElem.mp hmem
        refine ⟨[], [i], ?_⟩
        intro args draws hbegins
        show (pick options draws.next, _) = _
        unfold pick
        rw [hbegins.1, Nat.mod_eq_of_lt hi, List.getElem?_eq_getElem hi, hget]
        rfl
      next => cases h
  | producer name value ih =>
      intro byte vars after h
      obtain ⟨between, hvalue, rfl⟩ := Option.map_eq_some_iff.mp h
      obtain ⟨given, dealt, hgen⟩ := ih hvalue
      refine ⟨given, dealt, ?_⟩
      intro args draws hbegins
      rw [generate, hgen args draws hbegins]
  | consumer name =>
      intro byte vars after h
      rw [check] at h
      split at h
      next heq =>
        injection h with h
        subst h
        refine ⟨[], [], ?_⟩
        intro args draws _
        show (remembered vars name, _) = _
        rw [(remembered_eq_ok_iff vars name byte).mpr heq]
        rfl
      next => cases h

/-- **Bytes that fit a run can be generated for it.** -/
theorem checkRun_attainable (run : List Element) :
    ∀ {buffer rest : Bytes} {vars after : Variables},
      checkRun run buffer vars = ⟨.valid, rest, after⟩ →
      ∃ word, buffer = word ++ rest ∧ Attainable (generateRun .strict run) vars word after := by
  induction run with
  | nil =>
      intro buffer rest vars after h
      injection h with _ hrest hafter
      subst hrest hafter
      exact ⟨[], rfl, Attainable.pure [] vars⟩
  | cons element run ih =>
      intro buffer rest vars after h
      cases buffer with
      | nil =>
          rw [checkRun_cons_nil] at h
          cases h
      | cons byte buffer =>
          cases hc : element.check byte vars with
          | none =>
              rw [checkRun_cons_none hc] at h
              cases h
          | some between =>
              rw [checkRun_cons_some hc] at h
              obtain ⟨word, rfl, hword⟩ := ih h
              refine ⟨byte :: word, rfl, ?_⟩
              exact Attainable.bind (fun hgen => generateRun_cons_ok hgen .strict run)
                (element.attainable_of_check hc) hword

/-- **Bytes that fit a part can be generated for it.** -/
theorem Part.attainable_of_validate {part : Part} (hsized : part.selfSized = true)
    {buffer rest : Bytes} {vars after : Variables}
    (h : (part.validate none buffer vars).1 = ⟨.valid, rest, after⟩) :
    ∃ word, buffer = word ++ rest ∧ Attainable (part.yields .strict) vars word after := by
  rw [validate_eq_checkRun] at h
  cases hrun : part.run? none vars with
  | none =>
      rw [hrun] at h
      cases h
  | some run =>
      rw [hrun] at h
      obtain ⟨word, hbuffer, given, dealt, hgen⟩ := checkRun_attainable run h
      refine ⟨word, hbuffer, given, dealt, ?_⟩
      intro args draws hbegins
      rw [part.generate_eq_generateRun hsized hrun]
      exact hgen args draws hbegins

/-! ## §4. Lists of parts -/

/-- **Generate parts in order**, strictly: one word for each part. -/
def spellParts : List Part → Supply → Except PatternError (List Bytes) × Supply
  | [], s => (.ok [], s)
  | part :: parts, s =>
    match part.yields .strict s with
    | (.error e, s) => (.error e, s)
    | (.ok word, s) => ((spellParts parts s).1.map (word :: ·), (spellParts parts s).2)

theorem spellParts_cons_ok {part : Part} {s s' : Supply} {word : Bytes}
    (h : part.yields .strict s = (.ok word, s')) (parts : List Part) :
    spellParts (part :: parts) s
      = ((spellParts parts s').1.map (word :: ·), (spellParts parts s').2) := by
  rw [spellParts, h]

/-- Parts that are generated begin with one that is. -/
theorem spellParts_cons_eq_ok {part : Part} {parts : List Part} {s after : Supply}
    {words : List Bytes} (h : spellParts (part :: parts) s = (.ok words, after)) :
    ∃ word more between, part.yields .strict s = (.ok word, between)
      ∧ spellParts parts between = (.ok more, after) ∧ words = word :: more := by
  rw [spellParts] at h
  split at h
  next => cases (Prod.mk.inj h).1
  next word between hpart =>
    obtain ⟨more, hmore, hwords⟩ := eq_ok_of_map_eq_ok h
    exact ⟨word, more, between, hpart, hmore, hwords.symm⟩

/-- **Generated words fit** one after the other, with the variables that
    generation left. -/
theorem checkParts_of_spellParts (parts : List Part) :
    (∀ part ∈ parts, part.selfSized = true) →
    ∀ {s after : Supply} {words : List Bytes}, spellParts parts s = (.ok words, after) →
      ∀ (rest : Bytes),
        checkParts parts (words.flatten ++ rest) s.vars = ⟨.valid, rest, after.vars⟩ := by
  induction parts with
  | nil =>
      intro _ s after words h rest
      obtain ⟨hwords, rfl⟩ := Prod.mk.inj h
      injection hwords with hwords
      subst hwords
      rfl
  | cons part parts ih =>
      intro hsized s after words h rest
      obtain ⟨hpart, hparts⟩ := List.forall_mem_cons.mp hsized
      obtain ⟨word, more, between, hword, hmore, rfl⟩ := spellParts_cons_eq_ok h
      have hfit := Part.validate_of_yields hpart hword none (more.flatten ++ rest)
      rw [List.flatten_cons, List.append_assoc]
      rw [checkParts_cons_of_valid (by rw [hfit]), hfit]
      exact ih hparts hmore rest

/-- **Bytes that fit a list of parts can be generated for it**, word by
    word. -/
theorem checkParts_attainable (parts : List Part) :
    (∀ part ∈ parts, part.selfSized = true) →
    ∀ {buffer rest : Bytes} {vars after : Variables},
      checkParts parts buffer vars = ⟨.valid, rest, after⟩ →
      ∃ words, buffer = words.flatten ++ rest
        ∧ Attainable (spellParts parts) vars words after := by
  induction parts with
  | nil =>
      intro _ buffer rest vars after h
      injection h with _ hrest hafter
      subst hrest hafter
      exact ⟨[], rfl, Attainable.pure [] vars⟩
  | cons part parts ih =>
      intro hsized buffer rest vars after h
      obtain ⟨hpart, hparts⟩ := List.forall_mem_cons.mp hsized
      by_cases hv : (part.validate none buffer vars).1.verdict = .valid
      · rw [checkParts_cons_of_valid hv] at h
        obtain ⟨words, hrest, hwords⟩ := ih hparts h
        have hfit : (part.validate none buffer vars).1
            = ⟨.valid, words.flatten ++ rest, (part.validate none buffer vars).1.vars⟩ := by
          rw [← hrest, ← hv]
        obtain ⟨word, hbuffer, hword⟩ := Part.attainable_of_validate hpart hfit
        refine ⟨word :: words, ?_, ?_⟩
        · rw [List.flatten_cons, List.append_assoc]
          exact hbuffer
        · exact Attainable.bind (fun hgen => spellParts_cons_ok hgen parts) hword hwords
      · rw [checkParts_cons_of_ne_valid hv] at h
        rw [h] at hv
        exact absurd rfl hv

/-! ## §5. Scripts -/

/-- The bytes of messages, one after the other. -/
def wireOf (messages : List (Option Message)) : Bytes :=
  (messages.filterMap id).flatMap Message.bytes

theorem wireOf_eq_flatten (messages : List (Option Message)) :
    wireOf messages = (messages.map sentBytes).flatten := by
  unfold wireOf
  induction messages with
  | nil => rfl
  | cons message messages ih =>
      cases message with
      | none => exact ih
      | some message =>
          show message.bytes ++ (messages.filterMap id).flatMap Message.bytes = _
          rw [ih]
          rfl

namespace Script

/-- What strict generation of a script yields, besides its resolutions. -/
def spelled (script : Script) (pass : Pass) : Except PatternError (List Bytes) × Supply :=
  ((script.messages? pass).1.map (·.map sentBytes), (script.messages? pass).2.supply)

/-- **From scripts to parts:** the identities and resolutions of a script
    play no role in generation. -/
theorem spelled_eq_spellParts (script : Script) :
    ∀ (pass : Pass), script.spelled pass = spellParts (script.map Step.part) pass.supply := by
  induction script with
  | nil =>
      intro pass
      rfl
  | cons step script ih =>
      intro pass
      have hstep : step.part.yields .strict pass.supply
          = ((step.generate .strict pass).1.map sentBytes,
              (step.generate .strict pass).2.supply) := by
        unfold Part.yields Step.generate Pass.supply
        simp only [Context.vars_record]
      unfold spelled
      rw [List.map_cons, spellParts, hstep, messages?]
      cases step.generate .strict pass with
      | mk outcome between =>
          cases outcome with
          | error e => rfl
          | ok message =>
              dsimp only
              show _ = ((spellParts (script.map Step.part) between.supply).1.map _,
                (spellParts (script.map Step.part) between.supply).2)
              rw [← ih between]
              unfold spelled
              cases Script.messages? script between with
              | mk more after => cases more <;> rfl

/-- Where no length comes from an argument, a script is checked as the list
    of its parts, whatever it was resolved to before. -/
theorem checked_eq_checkParts_of_selfSized (script : Script)
    (hsized : ∀ step ∈ script, step.part.selfSized = true) (buffer : Bytes) (ctx : Context) :
    script.checked buffer ctx = checkParts (script.map Step.part) buffer ctx.vars := by
  refine checked_eq_checkParts_of (fun script _ => ∀ step ∈ script, step.part.selfSized = true)
    ?_ ?_ script buffer ctx hsized
  · intro step script ctx hsized buffer
    have hstep := hsized step List.mem_cons_self
    rw [Part.validate_eq_checkRun, Part.validate_eq_checkRun, Part.run?_of_selfSized hstep]
  · intro step script ctx hsized _ _
    exact (List.forall_mem_cons.mp hsized).2

/-- Checking all of a string, in terms of what is left behind. -/
theorem checked_eq_valid_iff (script : Script) (word : Bytes) (ctx : Context)
    (vars : Variables) :
    script.checked word ctx = ⟨.valid, [], vars⟩ ↔
      ∃ after, script.validate word ctx = (.valid, [], after) ∧ after.vars = vars := by
  unfold checked
  generalize script.validate word ctx = c
  obtain ⟨verdict, rest, after⟩ := c
  constructor
  · intro h
    injection h with hverdict hrest hvars
    subst hverdict hrest
    exact ⟨after, rfl, hvars⟩
  · rintro ⟨after', heq, rfl⟩
    obtain ⟨rfl, hrest⟩ := Prod.mk.inj heq
    obtain ⟨rfl, rfl⟩ := Prod.mk.inj hrest
    rfl

/-- Generating all of a script, in terms of what is left behind. -/
theorem spelled_eq_ok_iff (script : Script) (pass : Pass) (words : List Bytes)
    (supply : Supply) :
    script.spelled pass = (.ok words, supply) ↔
      ∃ messages after, script.messages? pass = (.ok messages, after)
        ∧ messages.map sentBytes = words ∧ after.supply = supply := by
  unfold spelled
  cases script.messages? pass with
  | mk outcome after =>
      cases outcome with
      | error e =>
          constructor
          · intro h
            cases (Prod.mk.inj h).1
          · rintro ⟨messages, after', h, -, -⟩
            cases (Prod.mk.inj h).1
      | ok messages =>
          constructor
          · intro h
            obtain ⟨hwords, hsupply⟩ := Prod.mk.inj h
            injection hwords with hwords
            exact ⟨messages, after, rfl, hwords, hsupply⟩
          · rintro ⟨messages', after', h, rfl, rfl⟩
            obtain ⟨hmessages, rfl⟩ := Prod.mk.inj h
            injection hmessages with hmessages
            subst hmessages
            rfl

/-! ## §6. One language -/

/-- **CHECKING ACCEPTS EXACTLY WHAT GENERATION PRODUCES.**  Let no length in
    a script come from an argument.  From equal variables, checking accepts
    a string to its last byte if and only if some arguments and draws let
    strict generation send just that string; and whenever they do, both end
    with the same variables.  The contexts may have resolved anything
    before. -/
theorem accepts_iff_generates (script : Script)
    (hsized : ∀ step ∈ script, step.part.selfSized = true) (sender receiver : Context)
    (hvars : sender.vars = receiver.vars) (word : Bytes) :
    ((∃ after, script.validate word receiver = (.valid, [], after)) ↔
        ∃ args draws messages pass,
          script.messages? ⟨args, draws, sender⟩ = (.ok messages, pass)
            ∧ wireOf messages = word)
      ∧ ∀ args draws messages pass,
          script.messages? ⟨args, draws, sender⟩ = (.ok messages, pass) →
          wireOf messages = word →
          ∃ after, script.validate word receiver = (.valid, [], after)
            ∧ after.vars = pass.context.vars := by
  have hparts : ∀ part ∈ script.map Step.part, part.selfSized = true := by
    intro part hpart
    obtain ⟨step, hstep, rfl⟩ := List.mem_map.mp hpart
    exact hsized step hstep
  -- generated bytes fit, and leave the same variables
  have hsound : ∀ args draws messages pass,
      script.messages? ⟨args, draws, sender⟩ = (.ok messages, pass) →
      wireOf messages = word →
      ∃ after, script.validate word receiver = (.valid, [], after)
        ∧ after.vars = pass.context.vars := by
    intro args draws messages pass hgen hword
    have hspell : spellParts (script.map Step.part) ⟨args, sender.vars, draws⟩
        = (.ok (messages.map sentBytes), pass.supply) := by
      have hspelled := (script.spelled_eq_ok_iff ⟨args, draws, sender⟩ _ _).mpr
        ⟨messages, pass, hgen, rfl, rfl⟩
      rw [spelled_eq_spellParts] at hspelled
      exact hspelled
    have hfit := checkParts_of_spellParts _ hparts hspell []
    rw [List.append_nil, ← wireOf_eq_flatten, hword] at hfit
    refine (script.checked_eq_valid_iff word receiver _).mp ?_
    rw [script.checked_eq_checkParts_of_selfSized hsized, ← hvars]
    exact hfit
  refine ⟨⟨?_, ?_⟩, hsound⟩
  · rintro ⟨after, hvalid⟩
    have hchecked := (script.checked_eq_valid_iff word receiver _).mpr ⟨after, hvalid, rfl⟩
    rw [script.checked_eq_checkParts_of_selfSized hsized, ← hvars] at hchecked
    obtain ⟨words, hwords, given, dealt, hgen⟩ := checkParts_attainable _ hparts hchecked
    obtain ⟨draws, hbegins⟩ := Draws.exists_begins dealt
    have hspelled := script.spelled_eq_spellParts ⟨given ++ [], draws, sender⟩
    rw [show Pass.supply ⟨given ++ [], draws, sender⟩ = ⟨given ++ [], sender.vars, draws⟩ from rfl,
      hgen [] draws hbegins] at hspelled
    obtain ⟨messages, pass, hmessages, hmap, -⟩ := (script.spelled_eq_ok_iff _ _ _).mp hspelled
    refine ⟨given ++ [], draws, messages, pass, hmessages, ?_⟩
    rw [wireOf_eq_flatten, hmap, hwords, List.append_nil]
  · rintro ⟨args, draws, messages, pass, hgen, hword⟩
    obtain ⟨after, hvalid, -⟩ := hsound args draws messages pass hgen hword
    exact ⟨after, hvalid⟩

/-- Both sides of the equivalence, for a description that counts: the word
    that carries three bytes is accepted, so it can be generated. -/
theorem accepts_iff_generates_counted :
    (∀ step ∈ ofDescription 0 .counted, step.part.selfSized = true)
      ∧ Context.empty.vars = Context.empty.vars
      ∧ ((∃ after, (ofDescription 0 .counted).validate [3, 7, 8, 9, 3] .empty
            = (.valid, [], after))
          ∧ ∃ args draws messages pass,
            (ofDescription 0 .counted).messages? ⟨args, draws, .empty⟩ = (.ok messages, pass)
              ∧ wireOf messages = [3, 7, 8, 9, 3]) := by
  have haccepts : ∃ after, (ofDescription 0 .counted).validate [3, 7, 8, 9, 3] .empty
      = (.valid, [], after) := ⟨_, rfl⟩
  refine ⟨by decide, rfl, haccepts, ?_⟩
  exact (accepts_iff_generates (ofDescription 0 .counted) (by decide) .empty .empty rfl
    [3, 7, 8, 9, 3]).1.mp haccepts

end Script

end Masquerade
