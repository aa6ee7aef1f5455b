/-
  Masquerade.Proofs.Pacing — THE PACE OF AN EXCHANGE.

  Rounds, sends, receives and delays go side by side through an exchange, and
  it may be cut short in any part.  Here it runs on a clock that goes forward
  and against an input that may end in three ways (`Performance.Step`).
  Beside it stand how many rounds it has begun, how many parts it has taken
  up, and how many bytes these ask for.

  One count carries the order of all this (`Counted`): in round number `k`
  the first `k` parts have been taken up, and the messages taken up are as
  many, one more if the exchange speaks first, and one fewer while the
  round's own message is still to come.

  Main results:
    * `Performance.Step.move` — the steps of a performance.
    * `Exchange.counted_of_move` — the count is kept.
    * `Exchange.due_of_step` — a delay runs in full.
    * `Exchange.keeps_pace` — what an exchange has sent, read and waited for
      is fixed by how far it got.
-/
import Masquerade.Proofs.Streaming

namespace Masquerade

/-! ## §1. Performances -/

/-- **An exchange between its pipes, on a clock.** -/
structure Performance extends Wired Exchange where
  now : Nat
  /-- How many rounds have begun. -/
  rounds : Nat
  /-- How many parts have been taken up. -/
  parts : Nat
  /-- How many bytes these parts ask for. -/
  asked : Nat

/-- Whether a round begins with this change of phase. -/
def Exchange.Phase.begins : Phase → Phase → Nat
  | .round, .over _ => 0
  | .round, _ => 1
  | _, _ => 0

/-- Whether a part is taken up with this change of phase. -/
def Exchange.Phase.takes : Phase → Phase → Nat
  | .round, .receiving _ _ _ => 1
  | _, _ => 0

/-- How many bytes the part taken up with this change of phase asks for. -/
def Exchange.Phase.asks : Phase → Phase → Nat
  | .round, .receiving _ missing _ => missing
  | _, _ => 0

namespace Performance

/-- At the beginning. -/
def start (x : Exchange) (input : Bytes) (now : Nat) : Performance := ⟨⟨x, input, []⟩, now, 0, 0, 0⟩

/-- The performance with what one motion has led to. -/
def after (p : Performance) (w : Wired Exchange) (now : Nat) : Performance :=
  ⟨w, now, p.rounds + p.state.phase.begins w.state.phase,
    p.parts + p.state.phase.takes w.state.phase, p.asked + p.state.phase.asks w.state.phase⟩

/-- **One step of a performance.**  It takes as long as it likes; what looks
    at the clock sees the instant at which the step ends, and no sleep ends
    before its time. -/
inductive Step (ending : Ending) (p : Performance) : Performance → Prop where
  | advance {w : Wired Exchange} (now : Nat) (hclock : p.now ≤ now)
      (h : Advance Exchange.act ending.isClosed p.toWired w)
      (hgo : ∀ next, p.state.act = .go next → w.state = next now)
      (hsleep : ∀ wake next, p.state.act = .sleep wake next → wake ≤ now) :
      Step ending p (p.after w now)
  | fault {room : Nat} {limit : Option (Nat × Exchange)} {next : Arrival → Exchange}
      (now : Nat) (hclock : p.now ≤ now) (f : StreamFault)
      (h : p.state.act = .read room limit next) (hinput : p.input = [])
      (hending : ending = .broken f) :
      Step ending p (p.after { p.toWired with state := next (.fault f) } now)

/-- A motion of the exchange takes place at some instant. -/
theorem exists_step_of_advance {ending : Ending} {p : Performance} {w : Wired Exchange}
    (h : Advance Exchange.act ending.isClosed p.toWired w) : ∃ p', Step ending p p' := by
  cases hact : p.state.act with
  | done outcome => exact (h.not_of_done hact).elim
  | go next =>
      -- the motion may have seen another instant
      refine ⟨_, .advance p.now (Nat.le_refl _) (.go p.now hact) ?_ ?_⟩
      · intro next' hnext
        cases hact.symm.trans hnext
        rfl
      · intro wake next' hwake
        cases hact.symm.trans hwake
  | sleep wake next =>
      refine ⟨_, .advance (max p.now wake) (Nat.le_max_left _ _) h ?_ ?_⟩
      · intro next' hnext
        cases hact.symm.trans hnext
      · intro wake' next' hwake
        cases hact.symm.trans hwake
        exact Nat.le_max_right _ _
  | read room limit next =>
      refine ⟨_, .advance p.now (Nat.le_refl _) h ?_ ?_⟩
      · intro next' hnext
        cases hact.symm.trans hnext
      · intro wake next' hwake
        cases hact.symm.trans hwake
  | write bytes limit next =>
      refine ⟨_, .advance p.now (Nat.le_refl _) h ?_ ?_⟩
      · intro next' hnext
        cases hact.symm.trans hnext
      · intro wake next' hwake
        cases hact.symm.trans hwake
  | shutdown next => exact (h.not_of_shutdown hact).elim

end Performance

namespace Exchange

/-- The fault of a stream breaks off the part that is being read. -/
theorem receiving_of_act_read {x : Exchange} {room : Nat} {limit : Option (Nat × Exchange)}
    {next : Arrival → Exchange} (h : x.act = .read room limit next) :
    ∃ step got, x.phase = .receiving step room got ∧ next = x.receive step room got := by
  unfold act at h
  split at h
  next => cases h
  next => cases h
  next step missing got _ hphase =>
    cases h
    exact ⟨step, got, hphase, rfl⟩
  next => cases h
  next => cases h
  next => cases h
  next => cases h
  next => cases h

end Exchange

section

open Exchange

variable {ending : Ending} {p p' : Performance}

/-- **The steps of a performance** of a tidy exchange are the moves of the
    exchange, and the fault that breaks off a part.  Time passes, and the
    exchange stays tidy. -/
theorem Performance.Step.move (h : Step ending p p') (htidy : p.state.Tidy) :
    p.now ≤ p'.now ∧ p'.state.Tidy ∧ p' = p.after p'.toWired p'.now
      ∧ (Move ending.isClosed p.toWired p'.toWired
        ∨ ∃ step missing got f, p.state.phase = .receiving step missing got
          ∧ p'.toWired = { p.toWired with state := p.state.fail (.network f) }) := by
  cases h with
  | advance now hclock hadvance =>
      obtain ⟨hmove, htidy'⟩ := htidy.move_of_advance hadvance
      exact ⟨hclock, htidy', rfl, .inl hmove⟩
  | fault now hclock f hact hinput hending =>
      obtain ⟨step, got, hphase, rfl⟩ := receiving_of_act_read hact
      refine ⟨hclock, ?_, rfl, .inr ⟨step, _, got, f, hphase, rfl⟩⟩
      refine htidy.enter ?_ fun _ _ _ he => by cases he
      rw [hphase]
      rfl

end

namespace Exchange

/-! ## §2. Counting -/

/-- **How many messages of its round are still to be taken up.** -/
def Phase.behind : Phase → Nat
  | .receiving _ _ _ | .speaking | .over (.error _) => 1
  | _ => 0

/-- Whether a part is being read or was the last thing to be read. -/
def Phase.inPart : Phase → Bool
  | .receiving _ _ _ | .over (.error _) => true
  | _ => false

/-- **How far an exchange has got**, in numbers: of so many messages and
    parts, where `lead` messages go out before the first round, it has begun
    `rounds` rounds and taken up `taken` parts, and `script` parts and `left`
    messages are still to come. -/
structure Tally (messages parts lead rounds taken script left : Nat) (phase : Phase) : Prop where
  rounds_le : rounds ≤ max messages parts
  taken_eq : taken = min parts rounds
  script_eq : script = parts - rounds
  left_eq : left = messages - (rounds + lead - phase.behind)
  behind_le : phase.behind ≤ rounds + lead
  inPart : phase.inPart = true → 1 ≤ rounds ∧ rounds ≤ parts
  finished : phase = .over (.ok ()) → left = 0

namespace Tally

variable {messages parts lead rounds taken script left : Nat} {phase phase' : Phase}

/-- A change of phase that is no progress in these numbers. -/
theorem stay (h : Tally messages parts lead rounds taken script left phase)
    (hbehind : phase'.behind = phase.behind) (hpart : phase'.inPart = true → phase.inPart = true)
    (hgoes : phase' ≠ .over (.ok ())) :
    Tally messages parts lead rounds taken script left phase' := by
  obtain ⟨hbound, htaken, hscript, hleft, hturn, hin, -⟩ := h
  rw [← hbehind] at hleft hturn
  exact ⟨hbound, htaken, hscript, hleft, hturn, fun h => hin (hpart h), fun h => absurd h hgoes⟩

/-- The end is reached when nothing is to come. -/
theorem finish (h : Tally messages parts lead rounds taken 0 0 .round) :
    Tally messages parts lead rounds taken 0 0 (.over (.ok ())) := by
  obtain ⟨hbound, htaken, hscript, hleft, hturn, -, -⟩ := h
  exact ⟨hbound, htaken, hscript, hleft, hturn, nofun, fun _ => rfl⟩

/-- A round begins that has no part. -/
theorem skip (h : Tally messages parts lead rounds taken 0 (left + 1) .round) :
    Tally messages parts lead (rounds + 1) taken 0 (left + 1) .speaking := by
  obtain ⟨hbound, htaken, hscript, hleft, -, -, -⟩ := h
  have hleft : left + 1 = messages - (rounds + lead) := hleft
  refine ⟨by omega, by omega, by omega, ?_, ?_, nofun, nofun⟩
  · show left + 1 = messages - (rounds + 1 + lead - 1)
    omega
  · show 1 ≤ rounds + 1 + lead
    omega

/-- A round begins, and its part is taken up. -/
theorem expect {step : Step} {missing : Nat} {got : Bytes}
    (h : Tally messages parts lead rounds taken (script + 1) left .round) :
    Tally messages parts lead (rounds + 1) (taken + 1) script left
      (.receiving step missing got) := by
  obtain ⟨hbound, htaken, hscript, hleft, -, -, -⟩ := h
  have hleft : left = messages - (rounds + lead) := hleft
  refine ⟨by omega, by omega, by omega, ?_, ?_, fun _ => by omega, nofun⟩
  · show left = messages - (rounds + 1 + lead - 1)
    omega
  · show 1 ≤ rounds + 1 + lead
    omega

/-- There is no message to take up. -/
theorem listen (h : Tally messages parts lead rounds taken script 0 .speaking) :
    Tally messages parts lead rounds taken script 0 .round := by
  obtain ⟨hbound, htaken, hscript, hleft, -, -, -⟩ := h
  have hleft : 0 = messages - (rounds + lead - 1) := hleft
  refine ⟨hbound, htaken, hscript, ?_, Nat.zero_le _, nofun, nofun⟩
  show 0 = messages - (rounds + lead)
  omega

/-- A message is taken up. -/
theorem speak (h : Tally messages parts lead rounds taken script (left + 1) .speaking)
    (hbehind : phase.behind = 0) (hpart : phase.inPart = false) (hgoes : phase ≠ .over (.ok ())) :
    Tally messages parts lead rounds taken script left phase := by
  obtain ⟨hbound, htaken, hscript, hleft, hturn, -, -⟩ := h
  have hleft : left + 1 = messages - (rounds + lead - 1) := hleft
  have hturn : 1 ≤ rounds + lead := hturn
  refine ⟨hbound, htaken, hscript, ?_, ?_, ?_, fun h => absurd h hgoes⟩
  · rw [hbehind]
    omega
  · rw [hbehind]
    exact Nat.zero_le _
  · intro hin
    exact absurd (hpart.symm.trans hin) Bool.false_ne_true

end Tally

/-- **How far a performance has got.** -/
def Counted (messages parts lead : Nat) (p : Performance) : Prop :=
  Tally messages parts lead p.rounds p.parts p.state.script.length p.state.messages.length
    p.state.phase

/-- **Every move keeps the count.** -/
theorem counted_of_move {ended : Bool} {messages parts lead : Nat} {p : Performance}
    {w : Wired Exchange} (h : Counted messages parts lead p) (hmove : Move ended p.toWired w)
    (now : Nat) : Counted messages parts lead (p.after w now) := by
  unfold Counted Performance.after at *
  cases hmove with
  | read _ _ hphase _ _ _ | starve hphase _ _ _ | refuse _ _ hphase _ | wake hphase
  | write _ hphase _ _ | sent hphase =>
      rw [hphase] at h ⊢
      exact h.stay rfl id nofun
  | accept _ hphase _ =>
      rw [hphase] at h ⊢
      exact h.stay rfl nofun nofun
  | finish hphase hscript hmessages =>
      rw [hphase, hscript, hmessages] at h
      rw [hphase]
      dsimp only [enter]
      rw [hscript, hmessages]
      exact h.finish
  | skip hphase hscript hmessages =>
      rw [hphase, hscript, hmessages] at h
      rw [hphase]
      dsimp only [enter]
      rw [hscript, hmessages]
      exact h.skip
  | expect context hphase hscript hvars =>
      rw [hphase, hscript] at h
      rw [hphase]
      exact h.expect
  | listen hphase hmessages =>
      rw [hphase, hmessages] at h
      rw [hphase]
      dsimp only [enter]
      rw [hmessages]
      exact h.listen
  | delay _ hphase hmessages | speak hphase hmessages =>
      rw [hphase, hmessages] at h
      rw [hphase]
      exact h.speak rfl rfl nofun

/-! ## §3. What a performance keeps -/

/-- How many bytes of the part in hand are missing. -/
def Phase.missing : Phase → Nat
  | .receiving _ missing _ => missing
  | _ => 0

/-- **What holds all through a performance** that sends `messages`, expects
    `parts` parts and is given `input`: the count; the bytes written and to
    be written are those of the messages, of which the ones that are left
    are the last; and no more has been read than was asked for. -/
structure Kept (messages : List Message) (parts lead : Nat) (input : Bytes) (p : Performance) :
    Prop where
  tidy : p.state.Tidy
  counted : Counted messages.length parts lead p
  sent : p.output ++ p.state.unsent = messages.flatMap Message.bytes
  left : p.state.messages <:+ messages
  read : ∃ consumed, input = consumed ++ p.input
    ∧ consumed.length + p.state.phase.missing ≤ p.asked

/-- At the start of an exchange nothing is counted. -/
theorem kept_of_start {config : Toneburst} {draws : Draws} {x : Exchange}
    (h : start config draws = .ok x) (input : Bytes) (now : Nat) :
    Kept (config.messages draws) config.script.length (if config.speakFirst then 1 else 0) input
      (.start x input now) := by
  have htidy : x.Tidy := tidy_of_start h
  unfold start at h
  split at h
  next => cases h
  next =>
    injection h with h
    subst h
    cases hfirst : config.speakFirst with
    | true =>
        rw [hfirst] at htidy
        refine ⟨htidy, ⟨Nat.zero_le _, (Nat.min_zero _).symm, rfl, ?_, ?_, nofun, nofun⟩, rfl,
          List.suffix_refl _, [], rfl, Nat.le_refl 0⟩
        · rfl
        · exact Nat.le_refl 1
    | false =>
        rw [hfirst] at htidy
        exact ⟨htidy, ⟨Nat.zero_le _, (Nat.min_zero _).symm, rfl, rfl, Nat.le_refl 0, nofun, nofun⟩,
          rfl, List.suffix_refl _, [], rfl, Nat.le_refl 0⟩

section

variable {ending : Ending} {messages : List Message} {parts lead : Nat} {input : Bytes}
  {p p' : Performance} {w : Wired Exchange}

/-- No move brings a message back. -/
theorem messages_of_move {ended : Bool} (h : Move ended p.toWired w) :
    w.state.messages <:+ p.state.messages := by
  cases h with
  | delay _ _ hmessages | speak _ hmessages =>
      rw [hmessages]
      exact List.suffix_cons ..
  | _ => exact List.suffix_refl _

/-- **No move reads more than was asked for.** -/
theorem read_of_move {ended : Bool} (hmove : Move ended p.toWired w) (now : Nat)
    (h : ∃ consumed, input = consumed ++ p.input
      ∧ consumed.length + p.state.phase.missing ≤ p.asked) :
    ∃ consumed, input = consumed ++ (p.after w now).input
      ∧ consumed.length + (p.after w now).state.phase.missing ≤ (p.after w now).asked := by
  obtain ⟨consumed, hinput, hle⟩ := h
  unfold Performance.after
  cases hmove with
  | @read step missing got bytes rest hphase hrest hsome hroom =>
      refine ⟨consumed ++ bytes, ?_, ?_⟩
      · rw [hinput, hrest, List.append_assoc]
      · rw [hphase] at hle ⊢
        rw [List.length_append]
        dsimp only [enter, Phase.missing, Phase.asks] at hle ⊢
        omega
  | expect context hphase hscript hvars =>
      refine ⟨consumed, hinput, ?_⟩
      rw [hphase] at hle ⊢
      dsimp only [Phase.missing, Phase.asks] at hle ⊢
      omega
  | _ =>
      -- nothing is read, and less may be missing
      refine ⟨consumed, hinput, ?_⟩
      show consumed.length + 0 ≤ p.asked + _
      omega

/-- **Every step keeps what holds all through a performance.** -/
theorem kept_of_step (h : Kept messages parts lead input p) (hstep : p.Step ending p') :
    Kept messages parts lead input p' := by
  obtain ⟨-, htidy, hafter, hmove | ⟨step, missing, got, f, hphase, hfault⟩⟩ := hstep.move h.tidy
  · rw [hafter]
    refine ⟨htidy, counted_of_move h.counted hmove _, ?_, ?_, read_of_move hmove _ h.read⟩
    · exact (unsent_of_move hmove).trans h.sent
    · exact (messages_of_move hmove).trans h.left
  · rw [hfault] at hafter
    rw [hafter] at htidy ⊢
    obtain ⟨consumed, hinput, hle⟩ := h.read
    refine ⟨htidy, ?_, ?_, h.left, consumed, hinput, ?_⟩
    · have hcounted := h.counted
      unfold Counted Performance.after at *
      rw [hphase] at hcounted ⊢
      exact hcounted.stay rfl id nofun
    · have hsent := h.sent
      unfold unsent at hsent ⊢
      rw [hphase] at hsent
      exact hsent
    · show consumed.length + 0 ≤ p.asked + p.state.phase.asks _
      omega

/-- A performance whose input ends comes to an end. -/
theorem performance_ends (hending : ending ≠ .never) (h : p.state.Tidy) :
    Inevitably (Performance.Step ending) (fun p => ∃ outcome, p.state.phase = .over outcome) p := by
  refine Inevitably.of_measure (fun p => p.state.Tidy)
    (fun p => p.state.effort + p.input.length + p.output.length) ?_ ?_ ?_ h
  · intro p p' htidy hstep
    exact (hstep.move htidy).2.1
  · intro p p' htidy hstep
    obtain ⟨-, -, -, hmove | ⟨step, missing, got, f, -, hfault⟩⟩ := hstep.move htidy
    · exact .inr (effort_of_move hmove)
    · left
      rw [show p'.state = p.state.fail (.network f) from congrArg Wired.state hfault]
      exact ⟨_, rfl⟩
  · intro p htidy hlive
    have hlive' : ∀ outcome, p.state.phase ≠ .over outcome := fun outcome hover =>
      hlive ⟨outcome, hover⟩
    -- a broken stream answers the reader that would wait for ever
    by_cases hstarved : ∃ step missing got, p.state.phase = .receiving step missing got
        ∧ missing ≠ 0 ∧ p.input = [] ∧ ending.isClosed = false
    · obtain ⟨step, missing, got, hphase, hmissing, hinput, hopen⟩ := hstarved
      cases ending with
      | never => exact absurd rfl hending
      | closed => cases hopen
      | broken f =>
          exact ⟨_, .fault p.now (Nat.le_refl _) f (act_receiving hphase hmissing) hinput rfl⟩
    · have hmoves : ∃ w, Advance act ending.isClosed p.toWired w := by
        refine exists_advance hlive' ?_
        intro step missing got hphase hmissing hinput
        cases hclosed : ending.isClosed with
        | true => rfl
        | false => exact absurd ⟨step, missing, got, hphase, hmissing, hinput, hclosed⟩ hstarved
      obtain ⟨w, hadvance⟩ := hmoves
      exact Performance.exists_step_of_advance hadvance

end

/-! ## §4. Delays -/

/-- **Where a delayed message stands** that was next to be sent at the
    instant `since`: it still is, or it waits for its time, or its time has
    come. -/
inductive Due (since delay : Nat) (m : Message) (rest : List Message) (p : Performance) : Prop where
  | next (hmessages : p.state.messages = m :: rest)
  | waiting (wake : Nat) (hmessages : p.state.messages = rest)
      (hphase : p.state.phase = .pausing m.bytes wake) (hwake : since + delay ≤ wake)
  | passed (h : since + delay ≤ p.now)

section

variable {ending : Ending} {p p' : Performance} {since : Nat} {m : Message} {rest : List Message}
  {delay : UInt64}

/-- A message is taken up only when it is time to speak. -/
theorem messages_of_move_of_ne_speaking {ended : Bool} {w w' : Wired Exchange}
    (h : Move ended w w') (hphase : w.state.phase ≠ .speaking) :
    w'.state.messages = w.state.messages := by
  cases h with
  | delay _ hspeaking _ | speak hspeaking _ => exact absurd hspeaking hphase
  | _ => rfl

/-- **A delay runs in full,** from any instant at which its message is next. -/
theorem due_of_step (htidy : p.state.Tidy) (hdelay : m.delay = some delay)
    (hsince : since ≤ p.now) (h : Due since delay.toNat m rest p) (hstep : p.Step ending p') :
    Due since delay.toNat m rest p' := by
  cases h with
  | next hmessages =>
      by_cases hphase : p.state.phase = .speaking
      · -- the delay is counted from the instant at which the message is taken up
        have hact := act_speaking hphase
        cases hstep with
        | @advance w now hclock hadvance hgo hsleep =>
            have hstate : w.state = { p.state with
                messages := rest, phase := .pausing m.bytes (now + delay.toNat) } := by
              rw [hgo _ hact]
              unfold speak
              rw [hmessages]
              dsimp only
              rw [hdelay]
            refine .waiting (now + delay.toNat) ?_ ?_ (by omega)
            · exact congrArg Exchange.messages hstate
            · exact congrArg Exchange.phase hstate
        | fault now hclock f hread _ _ => cases hact.symm.trans hread
      · obtain ⟨-, -, hafter, hmove | ⟨step, missing, got, f, -, hfault⟩⟩ := hstep.move htidy
        · exact .next ((messages_of_move_of_ne_speaking hmove hphase).trans hmessages)
        · refine .next ?_
          rw [show p'.state = p.state.fail (.network f) from congrArg Wired.state hfault]
          exact hmessages
  | waiting wake hmessages hphase hwake =>
      have hact := act_pausing hphase
      cases hstep with
      | advance now hclock hadvance hgo hsleep =>
          refine .passed ?_
          have hslept := hsleep _ _ hact
          show since + delay.toNat ≤ now
          omega
      | fault now hclock f hread _ _ => cases hact.symm.trans hread
  | passed hpassed =>
      have hclock := (hstep.move htidy).1
      exact .passed (by omega)

/-- A message whose time has not come has not been written. -/
theorem passed_of_due {before : List Message} (h : Due since delay.toNat m rest p)
    (hsent : p.output ++ p.state.unsent = (before ++ m :: rest).flatMap Message.bytes)
    (hwritten : (before.flatMap Message.bytes).length < p.output.length) :
    since + delay.toNat ≤ p.now := by
  have hlength := congrArg List.length hsent
  unfold unsent at hlength
  cases h with
  | next hmessages =>
      rw [hmessages] at hlength
      simp only [List.flatMap_append, List.flatMap_cons, List.length_append] at hlength
      omega
  | waiting wake hmessages hphase _ =>
      rw [hmessages, hphase] at hlength
      simp only [List.flatMap_append, List.flatMap_cons, List.length_append, Phase.unsent]
        at hlength
      omega
  | passed h => exact h

end

/-! ## §5. The pace of an exchange -/

section

variable {ending : Ending} {messages : List Message} {parts lead : Nat} {input : Bytes}
  {p p' : Performance}

theorem kept_of_run (hrun : Relation.ReflTransGen (Performance.Step ending) p p')
    (h : Kept messages parts lead input p) : Kept messages parts lead input p' :=
  keeps_of_run (Kept messages parts lead input) kept_of_step hrun h

/-- **At a success** all messages have been written. -/
theorem Kept.output_of_ok (h : Kept messages parts lead input p)
    (hover : p.state.phase = .over (.ok ())) : p.output = messages.flatMap Message.bytes := by
  have hsent := h.sent
  unfold unsent at hsent
  rw [hover, List.length_eq_zero_iff.mp (h.counted.finished hover)] at hsent
  exact (List.append_nil _).symm.trans hsent

/-- **At a failure** the messages of the rounds that came before have been
    written, and those that went out before the first round. -/
theorem Kept.output_of_error (h : Kept messages parts lead input p) {e : Error}
    (hover : p.state.phase = .over (.error e)) :
    1 ≤ p.parts ∧ p.parts ≤ parts
      ∧ p.output = (messages.take (p.parts - 1 + lead)).flatMap Message.bytes := by
  have hpart := h.counted.inPart (by rw [hover]; rfl)
  have htaken : p.parts = p.rounds := by
    rw [h.counted.taken_eq]
    omega
  have hleft : p.state.messages = messages.drop (p.parts - 1 + lead) := by
    rw [List.suffix_iff_eq_drop.mp h.left, h.counted.left_eq, hover, htaken]
    apply List.drop_eq_drop_iff.mpr
    show min (messages.length - (messages.length - (p.rounds + lead - 1))) _ = _
    omega
  -- what has been written and what is left are the whole
  have hsent := h.sent
  unfold unsent at hsent
  rw [hover, hleft] at hsent
  refine ⟨by omega, by omega, List.append_cancel_right (hsent.trans ?_)⟩
  show _ = _ ++ (messages.drop (p.parts - 1 + lead)).flatMap Message.bytes
  rw [← List.flatMap_append, List.take_append_drop]

/-- **A timed message is not written before its time.** -/
theorem Kept.wait_of_run {before rest : List Message} {m : Message} {delay : UInt64}
    (h : Kept messages parts lead input p) (hplace : messages = before ++ m :: rest)
    (hdelay : m.delay = some delay) (hnext : p.state.messages = m :: rest)
    (hrun : Relation.ReflTransGen (Performance.Step ending) p p')
    (hwritten : (before.flatMap Message.bytes).length < p'.output.length) :
    p.now + delay.toNat ≤ p'.now := by
  -- the invariant is `Due`, from the instant that `p` shows
  have hdue : Kept messages parts lead input p' ∧ p.now ≤ p'.now
      ∧ Due p.now delay.toNat m rest p' := by
    refine keeps_of_run (fun q => Kept messages parts lead input q ∧ p.now ≤ q.now
      ∧ Due p.now delay.toNat m rest q) ?_ hrun ⟨h, Nat.le_refl _, .next hnext⟩
    intro q q' hq hstep
    obtain ⟨hkept, hsince, hdue⟩ := hq
    have hclock := (hstep.move hkept.tidy).1
    exact ⟨kept_of_step hkept hstep, by omega, due_of_step hkept.tidy hdelay hsince hdue hstep⟩
  obtain ⟨hkept, -, hdue⟩ := hdue
  exact passed_of_due hdue (hkept.sent.trans (congrArg _ hplace)) hwritten

end

/-- **WHAT AN EXCHANGE HAS SENT IS FIXED BY HOW FAR IT GOT.**  Let a valid
    configuration run against any input with any end, in whatever pieces and
    at whatever pace it is read and written.  If the input ends, so does the
    exchange.  At every moment,

    • it has begun no more rounds than there are messages, or than there are
      parts if these are more,
    • if it has succeeded, it has written all messages in order, and nothing
      else,
    • if it has failed, it has failed in some part, the last one it took up,
      and has written the messages of the rounds before that part's and, if
      it speaks first, one more, and nothing else,
    • it has read no more bytes than the parts taken up so far asked for,
    • and no byte of a delayed message is written before the delay has run in
      full, from any instant at which that message was next. -/
theorem keeps_pace {config : Toneburst} {draws : Draws} {x : Exchange}
    (hstart : start config draws = .ok x) (input : Bytes) (ending : Ending) (now : Nat) :
    (ending ≠ .never →
        Inevitably (Performance.Step ending) (fun p => ∃ outcome, p.state.phase = .over outcome)
          (.start x input now))
      ∧ ∀ p, Relation.ReflTransGen (Performance.Step ending) (.start x input now) p →
        p.rounds ≤ max (config.messages draws).length config.script.length
          ∧ (p.state.phase = .over (.ok ()) →
            p.output = (config.messages draws).flatMap Message.bytes)
          ∧ (∀ e, p.state.phase = .over (.error e) →
            1 ≤ p.parts ∧ p.parts ≤ config.script.length
              ∧ p.output = ((config.messages draws).take
                (p.parts - 1 + if config.speakFirst then 1 else 0)).flatMap Message.bytes)
          ∧ (∃ consumed, input = consumed ++ p.input ∧ consumed.length ≤ p.asked)
          ∧ ∀ before m rest delay, config.messages draws = before ++ m :: rest →
            m.delay = some delay → p.state.messages = m :: rest →
            ∀ p', Relation.ReflTransGen (Performance.Step ending) p p' →
              (before.flatMap Message.bytes).length < p'.output.length →
              p.now + delay.toNat ≤ p'.now := by
  have hkept := kept_of_start hstart input now
  refine ⟨fun hending => performance_ends hending hkept.tidy, ?_⟩
  intro p hrun
  have h := kept_of_run hrun hkept
  refine ⟨h.counted.rounds_le, h.output_of_ok, fun e hover => h.output_of_error hover, ?_, ?_⟩
  · obtain ⟨consumed, hinput, hle⟩ := h.read
    exact ⟨consumed, hinput, by omega⟩
  · intro before m rest delay hplace hdelay hnext p' hrun' hwritten
    exact h.wait_of_run hplace hdelay hnext hrun' hwritten

/-- A configuration to try: it speaks first, after a pause, and has one more
    message for an answer. -/
def hailing : Toneburst :=
  ⟨some ⟨⟨[.timed 5 [.fixed 1], .bytes [.fixed 2]]⟩, []⟩, some ⟨[.bytes [.fixed 7]]⟩, true⟩

/-- The wrong answer comes: then the first message is all that was written,
    and it was not written before its time. -/
theorem keeps_pace_hailing :
    ∃ x, start hailing default = .ok x
      ∧ ∀ p, Relation.ReflTransGen (Performance.Step .closed) (.start x [8] 3) p →
        p.rounds ≤ 2 ∧ (∀ e, p.state.phase = .over (.error e) → p.output = [1])
          ∧ (p.output ≠ [] → 8 ≤ p.now) := by
  obtain ⟨x, hstart⟩ := (start_eq_ok_iff hailing default).mpr rfl
  have hpace := keeps_pace hstart [8] .closed 3
  have hfirst : x.messages = [⟨some 5, [1]⟩, ⟨none, [2]⟩] := by
    cases hstart
    rfl
  refine ⟨x, hstart, ?_⟩
  intro p hrun
  obtain ⟨hbound, -, hfailed, -, -⟩ := hpace.2 p hrun
  refine ⟨hbound, ?_, ?_⟩
  · intro e hover
    obtain ⟨hpos, hle, houtput⟩ := hfailed e hover
    have hone : p.parts = 1 := Nat.le_antisymm hle hpos
    rw [hone] at houtput
    exact houtput
  · intro hwritten
    obtain ⟨-, -, -, -, hdelay⟩ := hpace.2 _ .refl
    exact hdelay [] _ _ _ rfl rfl hfirst p hrun (List.length_pos_iff.mpr hwritten)

end Exchange

end Masquerade
