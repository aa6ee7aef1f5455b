/-
  Masquerade.Proofs.Rounds — THE ROUNDS OF AN EXCHANGE.

  Between parts the receive buffer of an exchange is empty, and what is still
  expected is unresolved; a part that is being read has been resolved, and is
  read to just the length foreseen for it (`Exchange.Tidy`).  From a tidy
  state there are only so many ways to go on, and each can be told without
  identities, resolutions or a buffer (`Exchange.Move`).

  Two things hold of every move, whatever the peer does:

    • what has been written and what is still to be written are together the
      same bytes as before,
    • the effort left, with the bytes in both pipes counted in, is less than
      before.

  Main results:
    * `Exchange.Tidy.move_of_advance` — the moves of an exchange, and
      tidiness kept.
    * `Exchange.unsent_of_move`, `Exchange.effort_of_move` — what every move
      keeps and spends.
    * `Exchange.exists_advance` — an exchange stops only at its end or for
      want of bytes.
-/
import Masquerade.Handshake.Exchange
import Masquerade.Proofs.Checking
import Masquerade.Proofs.Motion

namespace Masquerade

/-- What a step is resolved to while it is fresh. -/
theorem Step.resolution?_resolve {step : Step} {ctx : Context}
    (h : ctx.resolution? step.id = none) :
    (step.resolve ctx).resolution? step.id = step.part.resolve none ctx.vars := by
  unfold Step.resolve Context.knownLength?
  rw [h]
  show (ctx.record step.id ctx.vars (step.part.resolve none ctx.vars)).resolution? step.id = _
  cases step.part.resolve none ctx.vars with
  | none => exact h
  | some r => rw [Context.resolution?_record, if_pos rfl]

namespace Exchange

/-! ## §1. What an exchange does in each phase -/

section

variable {x : Exchange}

theorem act_round (h : x.phase = .round) : x.act = .go fun _ => x.next := by
  unfold act
  rw [h]

theorem act_check {step : Step} {got : Bytes} (h : x.phase = .receiving step 0 got) :
    x.act = .go fun _ => x.check step got := by
  unfold act
  rw [h]
  rfl

theorem act_receiving {step : Step} {missing : Nat} {got : Bytes}
    (h : x.phase = .receiving step missing got) (hmissing : missing ≠ 0) :
    x.act = .read missing none (x.receive step missing got) := by
  unfold act
  rw [h]
  cases missing with
  | zero => exact absurd rfl hmissing
  | succ missing => rfl

theorem act_speaking (h : x.phase = .speaking) : x.act = .go x.speak := by
  unfold act
  rw [h]

theorem act_pausing {bytes : Bytes} {wake : Nat} (h : x.phase = .pausing bytes wake) :
    x.act = .sleep wake (x.enter (.sending bytes)) := by
  unfold act
  rw [h]

theorem act_sent (h : x.phase = .sending []) : x.act = .go fun _ => x.enter .round := by
  unfold act
  rw [h]

theorem act_sending {left : Bytes} (h : x.phase = .sending left) (hleft : left ≠ []) :
    x.act = .write left none (x.sent left) := by
  unfold act
  rw [h]
  cases left with
  | nil => exact absurd rfl hleft
  | cons byte left => rfl

theorem act_over {outcome : Except Error Unit} (h : x.phase = .over outcome) :
    x.act = .done outcome := by
  unfold act
  rw [h]

end

theorem sent_taken (x : Exchange) (left : Bytes) {count : Nat} (h : 0 < count) :
    x.sent left (.taken count) = x.enter (.sending (left.drop count)) := by
  cases count with
  | zero => exact absurd h (Nat.lt_irrefl 0)
  | succ count => rfl

/-! ## §2. Tidiness -/

/-- **What is known of a part that is being read.** -/
structure Foreseen (x : Exchange) (step : Step) (missing : Nat) (got : Bytes) : Prop where
  apart : step.id ∉ x.script.map Step.id
  known : x.context.knownLength? step.id
    = (step.part.resolve none x.context.vars).map Resolution.length
  size : got.length + missing = step.part.foreseen none x.context.vars

/-- Whether an exchange has ended with an error. -/
def Phase.failed : Phase → Bool
  | .over (.error _) => true
  | _ => false

/-- **Tidiness:** nothing lies in the buffer unless the exchange has failed,
    what is expected later is unresolved, and the part that is being read is
    foreseen. -/
structure Tidy (x : Exchange) : Prop where
  buffer : x.phase.failed = false → x.buffer = []
  script : x.script.Unresolved x.context
  part : ∀ step missing got, x.phase = .receiving step missing got → x.Foreseen step missing got

/-- An exchange begins tidily. -/
theorem tidy_of_start {config : Toneburst} {draws : Draws} {x : Exchange}
    (h : start config draws = .ok x) : x.Tidy := by
  unfold start at h
  split at h
  next => cases h
  next =>
    injection h with h
    subst h
    refine ⟨fun _ => rfl, ?_, ?_⟩
    · show config.script.Unresolved .empty
      unfold Toneburst.script
      cases config.remove with
      | none => exact ⟨List.nodup_nil, fun _ h => absurd h List.not_mem_nil⟩
      | some description => exact Script.unresolved_ofDescription 0 description
    · intro step missing got hphase
      dsimp only at hphase
      split at hphase <;> cases hphase

section

variable {x : Exchange}

/-- A phase in which no part is being read keeps what is tidy. -/
theorem Tidy.enter (h : x.Tidy) (hlive : x.phase.failed = false) {phase : Phase}
    (hphase : ∀ step missing got, phase ≠ .receiving step missing got) :
    (x.enter phase).Tidy :=
  ⟨fun _ => h.buffer hlive, h.script, fun step missing got heq =>
    absurd heq (hphase step missing got)⟩

/-- **Taking up a part** resolves it, and foresees its length. -/
theorem Tidy.next_cons (h : x.Tidy) (hphase : x.phase = .round) {step : Step} {rest : Script}
    (hscript : x.script = step :: rest) :
    ∃ context, context.vars = x.context.vars
      ∧ x.next = ⟨x.messages, rest, context, [],
          .receiving step (step.part.foreseen none context.vars) []⟩
      ∧ x.next.Tidy := by
  have hunresolved : Script.Unresolved (step :: rest) x.context := hscript ▸ h.script
  have hbuffer : x.buffer = [] := h.buffer (by rw [hphase]; rfl)
  have hresolved := Step.resolution?_resolve (hunresolved.fresh step List.mem_cons_self)
  have hvars : (step.resolve x.context).vars = x.context.vars := Context.vars_record ..
  have hnext : x.next = ⟨x.messages, rest, step.resolve x.context, [],
      .receiving step (step.part.foreseen none (step.resolve x.context).vars) []⟩ := by
    have hraw : x.next = ⟨x.messages, rest, step.resolve x.context, x.buffer,
        .receiving step (step.count (step.resolve x.context)) []⟩ := by
      unfold next
      rw [hscript]
    rw [hraw, hbuffer]
    unfold Step.count Part.foreseen
    rw [hresolved, hvars]
  refine ⟨step.resolve x.context, hvars, hnext, ?_⟩
  rw [hnext]
  refine ⟨fun _ => rfl, hunresolved.tail.record hunresolved.apart _ _, ?_⟩
  intro step' missing got hreceiving
  injection hreceiving with hstep hmissing hgot
  subst hstep hmissing hgot
  refine ⟨hunresolved.apart, ?_, Nat.zero_add _⟩
  show (Context.resolution? (step.resolve x.context) step.id).map _ = _
  rw [hresolved, hvars]

/-- **Checking a part that was read to its foreseen length** leaves nothing
    over if it fits, and does not run out of bytes. -/
theorem Tidy.check (h : x.Tidy) {step : Step} {got : Bytes}
    (hphase : x.phase = .receiving step 0 got) :
    ∃ context, context.vars = (step.part.validate none got x.context.vars).1.vars
      ∧ (x.check step got).Tidy
      ∧ (((step.part.validate none got x.context.vars).1.verdict = .valid
          ∧ (step.part.validate none got x.context.vars).1.rest = []
          ∧ x.check step got = ⟨x.messages, x.script, context, [], .speaking⟩)
        ∨ ((step.part.validate none got x.context.vars).1.verdict = .invalid
          ∧ x.check step got = ⟨x.messages, x.script, context,
              (step.part.validate none got x.context.vars).1.rest,
              .over (.error (.validation .invalid))⟩)) := by
  obtain ⟨hapart, hknown, hsize⟩ := h.part step 0 got hphase
  have hbuffer : x.buffer = [] := h.buffer (by rw [hphase]; rfl)
  -- the remembered length does not matter for the verdict
  have hchecked : (step.part.validate (x.context.knownLength? step.id) got x.context.vars).1
      = (step.part.validate none got x.context.vars).1 := by
    have hrun := step.part.run?_after_resolve none x.context.vars
    rw [Option.or_none] at hrun
    rw [Part.validate_eq_checkRun, Part.validate_eq_checkRun, hknown, hrun]
  have hcheck : x.check step got
      = ⟨x.messages, x.script,
          x.context.record step.id (step.part.validate none got x.context.vars).1.vars
            (step.part.validate (x.context.knownLength? step.id) got x.context.vars).2,
          (step.part.validate none got x.context.vars).1.rest,
          if (step.part.validate none got x.context.vars).1.verdict = .valid then .speaking
          else .over (.error (.validation
            (step.part.validate none got x.context.vars).1.verdict))⟩ := by
    rw [← hchecked]
    unfold Exchange.check Step.validate
    rw [hbuffer]
    rfl
  have hunresolved := h.script.record hapart
    (step.part.validate none got x.context.vars).1.vars
    (step.part.validate (x.context.knownLength? step.id) got x.context.vars).2
  -- the part has all the bytes it was counted to have
  have henough : (step.part.validate none got x.context.vars).1.verdict ≠ .incomplete :=
    Part.ne_incomplete_of_foreseen_le (by omega)
  refine ⟨_, Context.vars_record x.context step.id _
    (step.part.validate (x.context.knownLength? step.id) got x.context.vars).2, ?_⟩
  cases hv : (step.part.validate none got x.context.vars).1.verdict with
  | incomplete => exact absurd hv henough
  | valid =>
      have hrest : (step.part.validate none got x.context.vars).1.rest = [] := by
        rw [(Part.rest_of_valid hv).2]
        exact List.drop_eq_nil_of_le (by omega)
      rw [hv, if_pos rfl, hrest] at hcheck
      rw [hcheck]
      refine ⟨⟨fun _ => rfl, hunresolved, ?_⟩, .inl ⟨rfl, hrest, rfl⟩⟩
      intro _ _ _ hreceiving
      cases hreceiving
  | invalid =>
      rw [hv, if_neg (by decide)] at hcheck
      rw [hcheck]
      refine ⟨⟨?_, hunresolved, ?_⟩, .inr ⟨rfl, rfl⟩⟩
      · intro hlive
        cases hlive
      · intro _ _ _ hreceiving
        cases hreceiving

end

/-! ## §3. Moves -/

/-- **The moves of a tidy exchange** between two pipes. -/
inductive Move (ended : Bool) (w : Wired Exchange) : Wired Exchange → Prop where
  | finish (hphase : w.state.phase = .round) (hscript : w.state.script = [])
      (hmessages : w.state.messages = []) :
      Move ended w { w with state := w.state.enter (.over (.ok ())) }
  | skip {message : Message} {messages : List Message} (hphase : w.state.phase = .round)
      (hscript : w.state.script = []) (hmessages : w.state.messages = message :: messages) :
      Move ended w { w with state := w.state.enter .speaking }
  | expect {step : Step} {rest : Script} (context : Context) (hphase : w.state.phase = .round)
      (hscript : w.state.script = step :: rest)
      (hvars : context.vars = w.state.context.vars) :
      Move ended w
        { w with state := ⟨w.state.messages, rest, context, [],
            .receiving step (step.part.foreseen none context.vars) []⟩ }
  | read {step : Step} {missing : Nat} {got : Bytes} (bytes rest : Bytes)
      (hphase : w.state.phase = .receiving step missing got)
      (hinput : w.input = bytes ++ rest) (hsome : bytes ≠ [])
      (hroom : bytes.length ≤ missing) :
      Move ended w
        { w with
          state := w.state.enter (.receiving step (missing - bytes.length) (got ++ bytes))
          input := rest }
  | starve {step : Step} {missing : Nat} {got : Bytes}
      (hphase : w.state.phase = .receiving step missing got) (hmissing : missing ≠ 0)
      (hinput : w.input = []) (hended : ended = true) :
      Move ended w { w with state := w.state.fail (.network .earlyEnd) }
  | accept {step : Step} {got : Bytes} (context : Context)
      (hphase : w.state.phase = .receiving step 0 got)
      (hvalid : (step.part.validate none got w.state.context.vars).1 = ⟨.valid, [], context.vars⟩) :
      Move ended w
        { w with state := ⟨w.state.messages, w.state.script, context, [], .speaking⟩ }
  | refuse {step : Step} {got : Bytes} (context : Context) (buffer : Bytes)
      (hphase : w.state.phase = .receiving step 0 got)
      (hinvalid : (step.part.validate none got w.state.context.vars).1.verdict = .invalid) :
      Move ended w
        { w with state := ⟨w.state.messages, w.state.script, context, buffer,
            .over (.error (.validation .invalid))⟩ }
  | listen (hphase : w.state.phase = .speaking) (hmessages : w.state.messages = []) :
      Move ended w { w with state := w.state.enter .round }
  | delay {message : Message} {messages : List Message} (wake : Nat)
      (hphase : w.state.phase = .speaking) (hmessages : w.state.messages = message :: messages) :
      Move ended w
        { w with state := { w.state with messages, phase := .pausing message.bytes wake } }
  | speak {message : Message} {messages : List Message}
      (hphase : w.state.phase = .speaking) (hmessages : w.state.messages = message :: messages) :
      Move ended w
        { w with state := { w.state with messages, phase := .sending message.bytes } }
  | wake {bytes : Bytes} {instant : Nat} (hphase : w.state.phase = .pausing bytes instant) :
      Move ended w { w with state := w.state.enter (.sending bytes) }
  | write {left : Bytes} (count : Nat) (hphase : w.state.phase = .sending left)
      (hsome : 0 < count) (hle : count ≤ left.length) :
      Move ended w
        { w with
          state := w.state.enter (.sending (left.drop count))
          output := w.output ++ left.take count }
  | sent (hphase : w.state.phase = .sending []) :
      Move ended w { w with state := w.state.enter .round }

section

variable {ended : Bool} {w w' : Wired Exchange}

theorem Tidy.move_of_round (h : w.state.Tidy) (hphase : w.state.phase = .round) :
    Move ended w { w with state := w.state.next } ∧ w.state.next.Tidy := by
  have hlive : w.state.phase.failed = false := by
    rw [hphase]
    rfl
  cases hscript : w.state.script with
  | nil =>
      cases hmessages : w.state.messages with
      | nil =>
          have hnext : w.state.next = w.state.enter (.over (.ok ())) := by
            unfold next
            rw [hscript, hmessages]
          rw [hnext]
          exact ⟨.finish hphase hscript hmessages, h.enter hlive fun _ _ _ he => by cases he⟩
      | cons message messages =>
          have hnext : w.state.next = w.state.enter .speaking := by
            unfold next
            rw [hscript, hmessages]
          rw [hnext]
          exact ⟨.skip hphase hscript hmessages, h.enter hlive fun _ _ _ he => by cases he⟩
  | cons step rest =>
      obtain ⟨context, hvars, hnext, htidy⟩ := h.next_cons hphase hscript
      refine ⟨?_, htidy⟩
      rw [hnext]
      exact .expect context hphase hscript hvars

theorem Tidy.move_of_check (h : w.state.Tidy) {step : Step} {got : Bytes}
    (hphase : w.state.phase = .receiving step 0 got) :
    Move ended w { w with state := w.state.check step got } ∧ (w.state.check step got).Tidy := by
  obtain ⟨context, hvars, htidy, ⟨hvalid, hrest, hcheck⟩ | ⟨hinvalid, hcheck⟩⟩ := h.check hphase
  · refine ⟨?_, htidy⟩
    rw [hcheck]
    refine .accept context hphase ?_
    rw [hvars, ← hvalid, ← hrest]
  · refine ⟨?_, htidy⟩
    rw [hcheck]
    exact .refuse context _ hphase hinvalid

theorem Tidy.move_of_speak (h : w.state.Tidy) (hphase : w.state.phase = .speaking) (now : Nat) :
    Move ended w { w with state := w.state.speak now } ∧ (w.state.speak now).Tidy := by
  have hbuffer : w.state.buffer = [] := h.buffer (by rw [hphase]; rfl)
  have hlive : w.state.phase.failed = false := by
    rw [hphase]
    rfl
  cases hmessages : w.state.messages with
  | nil =>
      have hspeak : w.state.speak now = w.state.enter .round := by
        unfold speak
        rw [hmessages]
      rw [hspeak]
      exact ⟨.listen hphase hmessages, h.enter hlive fun _ _ _ he => by cases he⟩
  | cons message messages =>
      cases hdelay : message.delay with
      | none =>
          have hspeak : w.state.speak now
              = { w.state with messages, phase := .sending message.bytes } := by
            unfold speak
            rw [hmessages]
            dsimp only
            rw [hdelay]
          rw [hspeak]
          exact ⟨.speak hphase hmessages, fun _ => hbuffer, h.script, fun _ _ _ he => by cases he⟩
      | some delay =>
          have hspeak : w.state.speak now
              = { w.state with
                  messages, phase := .pausing message.bytes (now + delay.toNat) } := by
            unfold speak
            rw [hmessages]
            dsimp only
            rw [hdelay]
          rw [hspeak]
          exact ⟨.delay _ hphase hmessages, fun _ => hbuffer, h.script,
            fun _ _ _ he => by cases he⟩

/-- **Every motion of a tidy exchange is one of its moves**, and leaves it
    tidy. -/
theorem Tidy.move_of_advance (h : w.state.Tidy) (hadvance : Advance act ended w w') :
    Move ended w w' ∧ w'.state.Tidy := by
  -- each phase has one action, and the action decides the motion
  cases hphase : w.state.phase with
  | round =>
      obtain ⟨now, rfl⟩ := hadvance.of_go (act_round hphase)
      exact h.move_of_round hphase
  | receiving step missing got =>
      have hlive : w.state.phase.failed = false := by
        rw [hphase]
        rfl
      by_cases hmissing : missing = 0
      · subst hmissing
        obtain ⟨now, rfl⟩ := hadvance.of_go (act_check hphase)
        exact h.move_of_check hphase
      · obtain ⟨bytes, rest, hinput, hsome, hroom, rfl⟩ | ⟨hinput, hended, rfl⟩ :=
          hadvance.of_read (act_receiving hphase hmissing)
        · refine ⟨.read bytes rest hphase hinput hsome hroom, fun _ => h.buffer hlive, h.script, ?_⟩
          intro step' missing' got' hreceiving
          injection hreceiving with hstep hmissing' hgot
          subst hstep hmissing' hgot
          -- what was read is missing no longer
          obtain ⟨hapart, hknown, hsize⟩ := h.part step missing got hphase
          refine ⟨hapart, hknown, ?_⟩
          rw [List.length_append]
          show _ = step.part.foreseen none w.state.context.vars
          omega
        · exact ⟨.starve hphase hmissing hinput hended, h.enter hlive fun _ _ _ he => by cases he⟩
  | speaking =>
      obtain ⟨now, rfl⟩ := hadvance.of_go (act_speaking hphase)
      exact h.move_of_speak hphase now
  | pausing bytes instant =>
      cases hadvance.of_sleep (act_pausing hphase)
      have hlive : w.state.phase.failed = false := by
        rw [hphase]
        rfl
      exact ⟨.wake hphase, h.enter hlive fun _ _ _ he => by cases he⟩
  | sending left =>
      have hlive : w.state.phase.failed = false := by
        rw [hphase]
        rfl
      by_cases hleft : left = []
      · subst hleft
        obtain ⟨now, rfl⟩ := hadvance.of_go (act_sent hphase)
        exact ⟨.sent hphase, h.enter hlive fun _ _ _ he => by cases he⟩
      · obtain ⟨count, hsome, hle, rfl⟩ := hadvance.of_write (act_sending hphase hleft)
        rw [sent_taken _ _ hsome]
        exact ⟨.write count hphase hsome hle, h.enter hlive fun _ _ _ he => by cases he⟩
  | «over» outcome => exact (hadvance.not_of_done (act_over hphase)).elim

end

/-! ## §4. What every move keeps and spends -/

/-- The bytes of the message in hand that are still to be written. -/
def Phase.unsent : Phase → Bytes
  | .pausing bytes _ => bytes
  | .sending left => left
  | _ => []

/-- **The bytes that are still to be written.** -/
def unsent (x : Exchange) : Bytes := x.phase.unsent ++ x.messages.flatMap Message.bytes

/-- What a phase costs, so that each move makes the rest cheaper. -/
def Phase.effort (messages : List Message) : Phase → Nat
  | .receiving _ _ _ | .pausing _ _ => 5
  | .sending _ => 4
  | .speaking => if messages = [] then 3 else 1
  | .round => 2
  | .over _ => 0

theorem Phase.effort_speaking_nil : effort [] .speaking = 3 := rfl

theorem Phase.effort_speaking_cons (message : Message) (messages : List Message) :
    effort (message :: messages) .speaking = 1 := rfl

theorem Phase.effort_speaking_le (messages : List Message) : effort messages .speaking ≤ 3 := by
  cases messages with
  | nil => exact Nat.le_refl 3
  | cons message messages =>
      rw [effort_speaking_cons]
      decide

/-- **The effort left:** what the phase costs, a flat price for each message
    and each part, and the bytes still to be written, once for writing them
    and once for the peer to read them. -/
def effort (x : Exchange) : Nat :=
  x.phase.effort x.messages + 10 * (x.messages.length + x.script.length) + 2 * x.unsent.length

section

variable {ended : Bool} {w w' : Wired Exchange}

/-- **No move loses or adds a byte to send.** -/
theorem unsent_of_move (h : Move ended w w') :
    w'.output ++ w'.state.unsent = w.output ++ w.state.unsent := by
  unfold unsent
  cases h with
  | finish hphase _ _ | skip hphase _ _ | expect _ hphase _ _ | read _ _ hphase _ _ _
  | starve hphase _ _ _ | accept _ hphase _ | refuse _ _ hphase _ | listen hphase _
  | wake hphase | sent hphase =>
      rw [hphase]
      rfl
  | delay wake hphase hmessages =>
      rw [hphase, hmessages]
      rfl
  | speak hphase hmessages =>
      rw [hphase, hmessages]
      rfl
  | @write left count hphase _ _ =>
      rw [hphase]
      show (w.output ++ left.take count)
        ++ (left.drop count ++ w.state.messages.flatMap Message.bytes) = _
      rw [List.append_assoc, ← List.append_assoc (left.take count), List.take_append_drop]
      rfl

/-- **Every move brings the end nearer:** the effort left and the bytes in
    the two pipes become fewer. -/
theorem effort_of_move (h : Move ended w w') :
    w'.state.effort + w'.input.length + w'.output.length
      < w.state.effort + w.input.length + w.output.length := by
  -- the price of the bytes is read off `unsent_of_move`; what remains is one
  -- inequality on phases and lists for each move
  have hbytes := congrArg List.length (unsent_of_move h)
  rw [List.length_append, List.length_append] at hbytes
  unfold effort
  cases h with
  | finish hphase _ _ =>
      rw [hphase]
      dsimp only [enter, Phase.effort] at hbytes ⊢
      omega
  | skip hphase _ hmessages =>
      rw [hphase]
      dsimp only [enter] at hbytes ⊢
      rw [hmessages] at hbytes ⊢
      rw [Phase.effort_speaking_cons]
      dsimp only [Phase.effort]
      omega
  | expect context hphase hscript _ =>
      rw [hphase, hscript, List.length_cons]
      dsimp only [Phase.effort] at hbytes ⊢
      omega
  | read bytes rest hphase hinput hsome _ =>
      have hcount := List.length_pos_iff.mpr hsome
      rw [hphase, hinput, List.length_append]
      dsimp only [enter, Phase.effort] at hbytes ⊢
      omega
  | starve hphase _ _ _ =>
      rw [hphase]
      dsimp only [fail, enter, Phase.effort] at hbytes ⊢
      omega
  | accept context hphase _ =>
      have hprice := Phase.effort_speaking_le w.state.messages
      rw [hphase]
      dsimp only at hbytes ⊢
      show _ < 5 + _ + _ + _ + _
      omega
  | refuse context buffer hphase _ =>
      rw [hphase]
      dsimp only [Phase.effort] at hbytes ⊢
      omega
  | listen hphase hmessages =>
      dsimp only [enter] at hbytes ⊢
      rw [hmessages] at hbytes ⊢
      rw [hphase, Phase.effort_speaking_nil]
      dsimp only [Phase.effort]
      omega
  | delay wake hphase hmessages =>
      rw [hmessages, List.length_cons]
      dsimp only [Phase.effort] at hbytes ⊢
      omega
  | speak hphase hmessages =>
      rw [hmessages, List.length_cons]
      dsimp only [Phase.effort] at hbytes ⊢
      omega
  | wake hphase =>
      rw [hphase]
      dsimp only [enter, Phase.effort] at hbytes ⊢
      omega
  | @write left count hphase hsome hle =>
      have hcount : (left.take count).length = count := by
        rw [List.length_take]
        exact Nat.min_eq_left hle
      rw [hphase]
      dsimp only [enter, Phase.effort] at hbytes ⊢
      rw [List.length_append, hcount] at hbytes ⊢
      omega
  | sent hphase =>
      rw [hphase]
      dsimp only [enter, Phase.effort] at hbytes ⊢
      omega

end

/-- **An exchange stops only at its end or for want of bytes.** -/
theorem exists_advance {ended : Bool} {w : Wired Exchange}
    (hlive : ∀ outcome, w.state.phase ≠ .over outcome)
    (hbytes : ∀ step missing got, w.state.phase = .receiving step missing got → missing ≠ 0 →
      w.input = [] → ended = true) :
    ∃ w', Advance act ended w w' := by
  cases hphase : w.state.phase with
  | round => exact ⟨_, .go 0 (act_round hphase)⟩
  | receiving step missing got =>
      by_cases hmissing : missing = 0
      · subst hmissing
        exact ⟨_, .go 0 (act_check hphase)⟩
      · have hact := act_receiving hphase hmissing
        cases hinput : w.input with
        | nil => exact ⟨_, .closed hact hinput (hbytes _ _ _ hphase hmissing hinput)⟩
        | cons byte rest =>
            refine ⟨_, .read [byte] rest hact hinput (List.cons_ne_nil _ _) ?_⟩
            show 1 ≤ missing
            omega
  | speaking => exact ⟨_, .go 0 (act_speaking hphase)⟩
  | pausing bytes instant => exact ⟨_, .sleep (act_pausing hphase)⟩
  | sending left =>
      by_cases hleft : left = []
      · subst hleft
        exact ⟨_, .go 0 (act_sent hphase)⟩
      · refine ⟨_, .write 1 (act_sending hphase hleft) Nat.zero_lt_one ?_⟩
        exact List.length_pos_iff.mpr hleft
  | «over» outcome => exact absurd hphase (hlive outcome)

end Exchange

end Masquerade
