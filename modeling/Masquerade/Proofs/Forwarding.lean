/-
  Masquerade.Proofs.Forwarding — ONE DIRECTION OF A RELAY, between two
  streams that may cut the data into any pieces.

  What a direction has written is at any time the beginning of what its
  source holds, and once it closes its output, all of it.  This needs nothing
  from the streams: they may fail at any time, and a receiving side may hold
  anything back.  Where they do not fail, and what comes off the wire ends
  well, a direction is bound to come to its proper end.

  Main results:
    * `Inbound.move_of_step`, `Outbound.move_of_step` — the moves of each
      direction.
    * `Inbound.faithful_of_move`, `Outbound.faithful_of_move` — each direction
      forwards its source in order, and counts what it forwards.
    * `Inbound.hale_of_move`, `Outbound.hale_of_move` — where nothing fails
      each move brings the end nearer.
-/
import Masquerade.Connection.Relay
import Masquerade.Proofs.Transmission
import Masquerade.Proofs.Yield

namespace Masquerade

/-! ## §1. One direction between two streams -/

/-- **A process with its pipes,** whose output it may close. -/
structure Conduit (σ : Type) where
  wired : Wired σ
  shut : Bool

namespace Conduit

variable {σ α : Type}

/-- The process at its beginning. -/
def start (s : σ) (input : Bytes) : Conduit σ := ⟨⟨s, input, []⟩, false⟩

/-- The same pipes with another state of the process. -/
def enter (d : Conduit σ) (s : σ) : Conduit σ := { d with wired := { d.wired with state := s } }

/-- **One step of a process between two streams.**  The input ends after what
    it holds.  `faulty` tells whether the streams may fail, and `breaks` how
    the process takes a failure that is no answer to a read or a write. -/
inductive Step (act : σ → Action σ α) (breaks : σ → σ → Prop) (faulty : Bool) (d : Conduit σ) :
    Conduit σ → Prop where
  | move {w : Wired σ} (h : Advance act true d.wired w) :
      Step act breaks faulty d { d with wired := w }
  | shutdown {s : σ} (h : act d.wired.state = .shutdown s) :
      Step act breaks faulty d { d.enter s with shut := true }
  | fail {s : σ} (hfaulty : faulty = true) (h : (act d.wired.state).Adverse s) :
      Step act breaks faulty d (d.enter s)
  | breakOff {s : σ} (hfaulty : faulty = true) (h : breaks d.wired.state s) :
      Step act breaks faulty d (d.enter s)

/-- **A direction is faithful:** what it has written is right, and it closes
    its output exactly when it has come to its proper end. -/
structure Faithful (forwards : Wired σ → Prop) (ended : σ → Bool) (d : Conduit σ) : Prop where
  forwards : forwards d.wired
  shut : d.shut = ended d.wired.state

/-- A step that does not end a direction leaves its output open. -/
theorem Faithful.enter {forwards : Wired σ → Prop} {ended : σ → Bool} {d : Conduit σ}
    (h : Faithful forwards ended d) (hlive : ended d.wired.state = false) {w : Wired σ}
    (hlive' : ended w.state = false) (hforwards : forwards w) :
    Faithful forwards ended { d with wired := w } :=
  ⟨hforwards, (h.shut.trans hlive).trans hlive'.symm⟩

end Conduit

/-! ## §2. From the connection to the plain stream -/

namespace Inbound

section

variable {x : Inbound}

theorem act_reading {reading : Reading} (h : x.phase = .reading reading) :
    x.act = reading.act.within (fun reading => x.enter (.reading reading))
      (x.forward reading.reader) := by
  unfold act
  rw [h]

theorem act_forwarded {length : Nat} (h : x.phase = .forwarding [] length) :
    x.act = .go fun _ => x.again length := by
  unfold act
  rw [h]

theorem act_forwarding {left : Bytes} {length : Nat} (h : x.phase = .forwarding left length)
    (hleft : left ≠ []) : x.act = .write left none (x.sent left length) := by
  unfold act
  rw [h]
  cases left with
  | nil => exact absurd rfl hleft
  | cons byte left => rfl

theorem act_closing (h : x.phase = .closing) :
    x.act = .shutdown (x.enter (.over (.ok x.total))) := by
  unfold act
  rw [h]

theorem act_over {outcome : Except Error Nat} (h : x.phase = .over outcome) :
    x.act = .done outcome := by
  unfold act
  rw [h]

end

theorem sent_taken (x : Inbound) (left : Bytes) (length : Nat) {count : Nat} (h : 0 < count) :
    x.sent left length (.taken count) = x.enter (.forwarding (left.drop count) length) := by
  cases count with
  | zero => exact absurd h (Nat.lt_irrefl 0)
  | succ count => rfl

/-- The stream of the inbound direction fails to close. -/
def Breaks (x x' : Inbound) : Prop :=
  x.phase = .closing ∧ ∃ f, x' = x.enter (.over (.error (.network f)))

/-- **The moves of the inbound direction.** -/
inductive Move (faulty : Bool) (d : Conduit Inbound) : Conduit Inbound → Prop where
  | read {reading : Reading} {w : Wired Reading} (hphase : d.wired.state.phase = .reading reading)
      (h : Reading.Move true ⟨reading, d.wired.input, d.wired.output⟩ w) :
      Move faulty d { d with
        wired := ⟨d.wired.state.enter (.reading w.state), w.input, w.output⟩ }
  | unread {reading reading' : Reading} (hfaulty : faulty = true)
      (hphase : d.wired.state.phase = .reading reading)
      (h : reading.act.Adverse reading') :
      Move faulty d (d.enter (d.wired.state.enter (.reading reading')))
  | take {reading : Reading} {outcome : Except Error Bytes}
      (hphase : d.wired.state.phase = .reading reading) (hover : reading.phase = .over outcome) :
      Move faulty d (d.enter (d.wired.state.forward reading.reader outcome))
  | write {left : Bytes} {length : Nat} (count : Nat)
      (hphase : d.wired.state.phase = .forwarding left length) (hsome : 0 < count)
      (hle : count ≤ left.length) :
      Move faulty d { d with
        wired := ⟨d.wired.state.enter (.forwarding (left.drop count) length), d.wired.input,
          d.wired.output ++ left.take count⟩ }
  | breakOff {left : Bytes} {length : Nat} (hfaulty : faulty = true) (f : StreamFault)
      (hphase : d.wired.state.phase = .forwarding left length) :
      Move faulty d (d.enter (d.wired.state.enter (.over (.error (.network f)))))
  | again {length : Nat} (hphase : d.wired.state.phase = .forwarding [] length) :
      Move faulty d (d.enter (d.wired.state.again length))
  | close (hphase : d.wired.state.phase = .closing) :
      Move faulty d { d.enter (d.wired.state.enter (.over (.ok d.wired.state.total))) with shut := true }
  | unclosed (hfaulty : faulty = true) (f : StreamFault)
      (hphase : d.wired.state.phase = .closing) :
      Move faulty d (d.enter (d.wired.state.enter (.over (.error (.network f)))))

/-- **Every step of the inbound direction is one of its moves.** -/
theorem move_of_step {faulty : Bool} {d d' : Conduit Inbound}
    (h : Conduit.Step act Breaks faulty d d') : Move faulty d d' := by
  cases h with
  | breakOff hfaulty h =>
      obtain ⟨hphase, f, rfl⟩ := h
      exact .unclosed hfaulty f hphase
  | move h =>
      cases hphase : d.wired.state.phase with
      | reading reading =>
          obtain ⟨w, hadvance, rfl⟩ | ⟨outcome, hdone, rfl⟩ :=
            Advance.of_within (w := ⟨reading, d.wired.input, d.wired.output⟩) h
              (act_reading hphase)
          · exact .read hphase (Reading.move_of_advance hadvance)
          · exact .take hphase (Reading.phase_of_act_done hdone)
      | forwarding left length =>
          by_cases hleft : left = []
          · subst hleft
            obtain ⟨_, rfl⟩ := h.of_go (act_forwarded hphase)
            exact .again hphase
          · obtain ⟨count, hsome, hle, rfl⟩ := h.of_write (act_forwarding hphase hleft)
            rw [sent_taken _ _ _ hsome]
            exact .write count hphase hsome hle
      | closing => exact (h.not_of_shutdown (act_closing hphase)).elim
      | «over» outcome => exact (h.not_of_done (act_over hphase)).elim
  | fail hfaulty h =>
      cases hphase : d.wired.state.phase with
      | reading reading =>
          rw [act_reading hphase] at h
          obtain ⟨reading', hfails, rfl⟩ := h.of_within
          exact .unread hfaulty hphase hfails
      | forwarding left length =>
          by_cases hleft : left = []
          · subst hleft
            rw [act_forwarded hphase] at h
            cases h
          · rw [act_forwarding hphase hleft] at h
            cases h with
            | refused => exact .breakOff hfaulty _ hphase
            | unwritable f => exact .breakOff hfaulty f hphase
      | closing =>
          rw [act_closing hphase] at h
          cases h
      | «over» outcome =>
          rw [act_over hphase] at h
          cases h
  | shutdown h =>
      cases hphase : d.wired.state.phase with
      | reading reading =>
          rw [act_reading hphase] at h
          obtain ⟨reading', hshut, -⟩ := Action.eq_shutdown_of_within h
          exact (reading.act_ne_shutdown reading' hshut).elim
      | forwarding left length =>
          by_cases hleft : left = []
          · subst hleft
            cases (act_forwarded hphase).symm.trans h
          · cases (act_forwarding hphase hleft).symm.trans h
      | closing =>
          cases (act_closing hphase).symm.trans h
          exact .close hphase
      | «over» outcome => cases (act_over hphase).symm.trans h

/-- **What the inbound direction has forwarded** of all that its connection
    delivers, and how it counts it. -/
def Forwards (total : Yield) (w : Wired Inbound) : Prop :=
  match w.state.phase with
  | .reading reading => reading.Due total w.output w.input ∧ w.state.total = w.output.length
  | .forwarding left length =>
    total = (w.state.reader.yield w.input).behind (w.output ++ left)
      ∧ w.state.total + length = (w.output ++ left).length
  | .closing => total = ⟨w.output, .ok ()⟩ ∧ w.state.total = w.output.length
  | .over (.ok count) => total = ⟨w.output, .ok ()⟩ ∧ count = w.output.length
  | .over (.error _) => w.output <+: total.data

/-- Whether the inbound direction has come to its proper end. -/
def ended (x : Inbound) : Bool :=
  match x.phase with
  | .over (.ok _) => true
  | _ => false

section

variable {total : Yield} {faulty : Bool} {d d' : Conduit Inbound}

/-- What has been written is the beginning of what there is to write. -/
theorem Forwards.output_begins {w : Wired Inbound} (h : Forwards total w) :
    w.output <+: total.data := by
  unfold Forwards at h
  split at h
  next => exact h.1.given_begins
  next => exact (List.prefix_append _ _).trans (Reading.prefix_of_yield h.1)
  next => exact ⟨[], (List.append_nil _).trans (congrArg Yield.data h.1).symm⟩
  next => exact ⟨[], (List.append_nil _).trans (congrArg Yield.data h.1).symm⟩
  next => exact h

/-- **The inbound direction stays faithful.** -/
theorem faithful_of_move (h : d.Faithful (Forwards total) ended) (hmove : Move faulty d d') :
    d'.Faithful (Forwards total) ended := by
  have hforwards := h.forwards
  unfold Forwards at hforwards
  cases hmove with
  | @read reading w hphase hread =>
      rw [hphase] at hforwards
      refine h.enter (by rw [ended, hphase]) rfl ?_
      have houtput : w.output = d.wired.output := Reading.output_of_move hread
      have hdue : w.state.Due total d.wired.output w.input := Reading.Due.of_move hforwards.1 hread
      show w.state.Due total w.output w.input ∧ d.wired.state.total = w.output.length
      rw [houtput]
      exact ⟨hdue, hforwards.2⟩
  | unread _ hphase hfails =>
      rw [hphase] at hforwards
      exact h.enter (by rw [ended, hphase]) rfl ⟨hforwards.1.of_adverse hfails, hforwards.2⟩
  | @take reading outcome hphase hover =>
      rw [hphase] at hforwards
      obtain ⟨⟨-, -, hdue⟩, htotal⟩ := hforwards
      rw [hover] at hdue
      cases outcome with
      | error e => exact h.enter (by rw [ended, hphase]) rfl hdue
      | ok bytes =>
          cases bytes with
          | nil => exact h.enter (by rw [ended, hphase]) rfl ⟨hdue, htotal⟩
          | cons byte bytes =>
              refine h.enter (by rw [ended, hphase]) rfl ⟨hdue, ?_⟩
              rw [List.length_append, ← htotal]
              rfl
  | write count hphase _ _ =>
      rw [hphase] at hforwards
      refine h.enter (by rw [ended, hphase]) rfl ?_
      show total = Yield.behind ((d.wired.output ++ _) ++ _) _ ∧ _ = ((d.wired.output ++ _) ++ _).length
      rw [List.append_assoc, List.take_append_drop]
      exact hforwards
  | breakOff _ f hphase =>
      exact h.enter (by rw [ended, hphase]) rfl h.forwards.output_begins
  | again hphase =>
      rw [hphase] at hforwards
      obtain ⟨hdue, hcount⟩ := hforwards
      rw [List.append_nil] at hdue hcount
      exact h.enter (by rw [ended, hphase]) rfl
        ⟨Reading.due_start hdue (by decide), hcount⟩
  | close hphase =>
      rw [hphase] at hforwards
      exact ⟨hforwards, rfl⟩
  | unclosed _ f hphase =>
      exact h.enter (by rw [ended, hphase]) rfl h.forwards.output_begins

/-- **A direction that has not failed,** over a receiving side that holds no
    more than one chunk back. -/
def Hale (w : Wired Inbound) : Prop :=
  match w.state.phase with
  | .reading reading => reading.Hale
  | .forwarding _ _ => w.state.reader.Whole
  | .closing | .over (.ok _) => True
  | .over (.error _) => False

/-- **What is left to do:** the bytes to come, and what the phase costs. -/
def cost (w : Wired Inbound) : Nat :=
  13 * w.input.length
    + match w.state.phase with
      | .reading reading => reading.cost
      | .forwarding left _ =>
        6 + left.length + 12 * w.state.reader.pending.length
          + 12 * w.state.reader.received.length
      | .closing => 1
      | .over _ => 0

/-- **Where nothing fails** and the wire ends well, the inbound direction does
    not fail, and each of its moves leaves less to do. -/
theorem hale_of_move (h : Hale d.wired) (hforwards : Forwards total d.wired)
    (hends : total.ending = .ok ()) (hmove : Move false d d') :
    Hale d'.wired ∧ cost d'.wired < cost d.wired := by
  unfold Hale at h
  unfold Forwards at hforwards
  unfold cost
  cases hmove with
  | @read reading w hphase hread =>
      rw [hphase] at h hforwards
      have hdue : reading.Due total d.wired.output d.wired.input := hforwards.1
      obtain ⟨hhale, hless⟩ :=
        Reading.Hale.of_move (w := ⟨reading, d.wired.input, d.wired.output⟩) h hdue hends hread
      refine ⟨hhale, ?_⟩
      rw [hphase]
      show 13 * w.input.length + w.state.cost < 13 * d.wired.input.length + reading.cost
      dsimp only at hless
      omega
  | @take reading outcome hphase hover =>
      rw [hphase] at h hforwards
      have hhale : reading.Hale := h
      cases outcome with
      | error e => exact absurd hover (hhale.sound e)
      | ok bytes =>
          have hcost : reading.cost = Reading.Phase.price (.over (.ok bytes))
              + 12 * reading.reader.pending.length + 12 * reading.reader.received.length := by
            unfold Reading.cost
            rw [hover]
          rw [hphase]
          cases bytes with
          | nil =>
              refine ⟨trivial, ?_⟩
              show _ + 1 < _ + reading.cost
              rw [hcost]
              dsimp only [Conduit.enter, Reading.Phase.price]
              omega
          | cons byte bytes =>
              refine ⟨hhale.whole, ?_⟩
              have hprice : Reading.Phase.price (.over (.ok (byte :: bytes)))
                  = 7 + (byte :: bytes).length := rfl
              show 13 * d.wired.input.length + (6 + (byte :: bytes).length
                  + 12 * reading.reader.pending.length + 12 * reading.reader.received.length)
                < 13 * d.wired.input.length + reading.cost
              rw [hcost, hprice]
              omega
  | @write left length count hphase hsome hle =>
      rw [hphase] at h
      refine ⟨h, ?_⟩
      rw [hphase]
      dsimp only [enter]
      rw [List.length_drop]
      omega
  | again hphase =>
      rw [hphase] at h
      refine ⟨⟨h, nofun⟩, ?_⟩
      rw [hphase]
      dsimp only [Conduit.enter, Inbound.again, Reading.cost, Reading.start, Reading.Phase.price,
        List.length_nil]
      omega
  | close hphase =>
      refine ⟨trivial, ?_⟩
      rw [hphase]
      exact Nat.lt_succ_self _
  | unread hfaulty | breakOff hfaulty | unclosed hfaulty => cases hfaulty

/-- **Where nothing fails,** the inbound direction stops only at its proper
    end. -/
theorem exists_step (h : Hale d.wired) (hforwards : Forwards total d.wired)
    (hlive : ended d.wired.state = false) : ∃ d', Conduit.Step act Breaks false d d' := by
  unfold Hale at h
  unfold Forwards at hforwards
  cases hphase : d.wired.state.phase with
  | reading reading =>
      rw [hphase] at h hforwards
      have hhale : reading.Hale := h
      have hroom : reading.room ≠ 0 := hforwards.1.room
      by_cases hover : ∃ outcome, reading.phase = .over outcome
      · obtain ⟨outcome, hover⟩ := hover
        have hgo : d.wired.state.act
            = .go fun _ => d.wired.state.forward reading.reader outcome := by
          rw [act_reading hphase, Reading.act_over hover]
          rfl
        exact ⟨_, .move (.go 0 hgo)⟩
      · obtain ⟨w, hadvance⟩ :=
          Reading.exists_advance (w := ⟨reading, d.wired.input, d.wired.output⟩) hroom
            (fun outcome heq => hover ⟨outcome, heq⟩)
        exact ⟨_, .move (hadvance.within (act_reading hphase))⟩
  | forwarding left length =>
      by_cases hleft : left = []
      · subst hleft
        exact ⟨_, .move (.go 0 (act_forwarded hphase))⟩
      · exact ⟨_, .move (.write 1 (act_forwarding hphase hleft) Nat.one_pos
          (List.length_pos_iff.mpr hleft))⟩
  | closing => exact ⟨_, .shutdown (act_closing hphase)⟩
  | «over» outcome =>
      rw [hphase] at h
      cases outcome with
      | error e => exact h.elim
      | ok count =>
          rw [ended, hphase] at hlive
          cases hlive

end

end Inbound

/-! ## §3. From the plain stream to the connection -/

namespace Outbound

section

variable {x : Outbound}

theorem act_reading (h : x.phase = .reading) : x.act = .read relayBufferSize none x.forward := by
  unfold act
  rw [h]

theorem act_forwarding {writing : Writing} (h : x.phase = .forwarding writing) :
    x.act = writing.act.within (fun writing => x.enter (.forwarding writing))
      (x.again writing.writer writing.draws) := by
  unfold act
  rw [h]

theorem act_closing (h : x.phase = .closing) :
    x.act = .shutdown (x.enter (.over (.ok x.total))) := by
  unfold act
  rw [h]

theorem act_ended {outcome : Except Error Nat} (h : x.phase = .over outcome) :
    x.act = .done outcome := by
  unfold act
  rw [h]

end

/-- **What else can fail** in the outbound direction: the stream does not pass
    on what it took, or not in time, or it does not close. -/
inductive Breaks (x : Outbound) : Outbound → Prop where
  | unflushed {writing : Writing} {length : Nat} {deadline : Option Deadline} (f : StreamFault)
      (hphase : x.phase = .forwarding writing) (hsent : writing.phase = .sending [] length deadline) :
      Breaks x (x.enter (.forwarding (writing.fail (.network f))))
  | lapse {writing : Writing} {length : Nat} {deadline : Deadline}
      (hphase : x.phase = .forwarding writing)
      (hsent : writing.phase = .sending [] length (some deadline)) :
      Breaks x (x.enter (.forwarding (writing.fail deadline.error)))
  | unclosed (f : StreamFault) (hphase : x.phase = .closing) :
      Breaks x (x.enter (.over (.error (.network f))))

/-- **The moves of the outbound direction.** -/
inductive Move (faulty : Bool) (d : Conduit Outbound) : Conduit Outbound → Prop where
  | read (bytes rest : Bytes) (hphase : d.wired.state.phase = .reading)
      (hinput : d.wired.input = bytes ++ rest) (hsome : bytes ≠ []) :
      Move faulty d { d with
        wired := ⟨d.wired.state.enter
            (.forwarding (.start d.wired.state.writer d.wired.state.draws bytes)),
          rest, d.wired.output⟩ }
  | finish (hphase : d.wired.state.phase = .reading) (hinput : d.wired.input = []) :
      Move faulty d (d.enter (d.wired.state.enter .closing))
  | unread (hfaulty : faulty = true) (f : StreamFault)
      (hphase : d.wired.state.phase = .reading) :
      Move faulty d (d.enter (d.wired.state.enter (.over (.error (.network f)))))
  | write {writing : Writing} {w : Wired Writing} (hphase : d.wired.state.phase = .forwarding writing)
      (h : Advance Writing.act true ⟨writing, d.wired.input, d.wired.output⟩ w) :
      Move faulty d { d with
        wired := ⟨d.wired.state.enter (.forwarding w.state), w.input, w.output⟩ }
  | breakOff {writing : Writing} {left : Bytes} {length : Nat} {deadline : Option Deadline}
      (hfaulty : faulty = true) (e : Error)
      (hphase : d.wired.state.phase = .forwarding writing)
      (hsending : writing.phase = .sending left length deadline) :
      Move faulty d (d.enter (d.wired.state.enter (.forwarding (writing.fail e))))
  | take {writing : Writing} {outcome : Except Error Nat}
      (hphase : d.wired.state.phase = .forwarding writing) (hover : writing.phase = .over outcome) :
      Move faulty d (d.enter (d.wired.state.again writing.writer writing.draws outcome))
  | close (hphase : d.wired.state.phase = .closing) :
      Move faulty d { d.enter (d.wired.state.enter (.over (.ok d.wired.state.total))) with shut := true }
  | unclosed (hfaulty : faulty = true) (f : StreamFault)
      (hphase : d.wired.state.phase = .closing) :
      Move faulty d (d.enter (d.wired.state.enter (.over (.error (.network f)))))

/-- **Every step of the outbound direction is one of its moves.** -/
theorem move_of_step {faulty : Bool} {d d' : Conduit Outbound}
    (h : Conduit.Step act Breaks faulty d d') : Move faulty d d' := by
  cases h with
  | breakOff hfaulty h =>
      cases h with
      | unflushed f hphase hsent => exact .breakOff hfaulty _ hphase hsent
      | lapse hphase hsent => exact .breakOff hfaulty _ hphase hsent
      | unclosed f hphase => exact .unclosed hfaulty f hphase
  | move h =>
      cases hphase : d.wired.state.phase with
      | reading =>
          obtain ⟨bytes, rest, hinput, hsome, -, rfl⟩ | ⟨hinput, -, rfl⟩ :=
            h.of_read (act_reading hphase)
          · exact .read bytes rest hphase hinput hsome
          · exact .finish hphase hinput
      | forwarding writing =>
          obtain ⟨w, hadvance, rfl⟩ | ⟨outcome, hdone, rfl⟩ :=
            Advance.of_within (w := ⟨writing, d.wired.input, d.wired.output⟩) h
              (act_forwarding hphase)
          · exact .write hphase hadvance
          · exact .take hphase (Writing.phase_of_act_done hdone)
      | closing => exact (h.not_of_shutdown (act_closing hphase)).elim
      | «over» outcome => exact (h.not_of_done (act_ended hphase)).elim
  | fail hfaulty h =>
      cases hphase : d.wired.state.phase with
      | reading =>
          rw [act_reading hphase] at h
          cases h with
          | unreadable f => exact .unread hfaulty f hphase
      | forwarding writing =>
          rw [act_forwarding hphase] at h
          obtain ⟨writing', hfails, rfl⟩ := h.of_within
          obtain ⟨left, length, deadline, e, hsending, rfl⟩ := Writing.fail_of_adverse hfails
          exact .breakOff hfaulty e hphase hsending
      | closing =>
          rw [act_closing hphase] at h
          cases h
      | «over» outcome =>
          rw [act_ended hphase] at h
          cases h
  | shutdown h =>
      cases hphase : d.wired.state.phase with
      | reading => cases (act_reading hphase).symm.trans h
      | forwarding writing =>
          rw [act_forwarding hphase] at h
          obtain ⟨writing', hshut, -⟩ := Action.eq_shutdown_of_within h
          exact (writing.act_ne_shutdown writing' hshut).elim
      | closing =>
          cases (act_closing hphase).symm.trans h
          exact .close hphase
      | «over» outcome => cases (act_ended hphase).symm.trans h

/-- **What the outbound direction has forwarded** of all that the plain stream
    holds, and how it counts it. -/
def Forwards (cipher : Option Cipher) (plain : Bytes) (w : Wired Outbound) : Prop :=
  match w.state.phase with
  | .reading =>
    ∃ done, plain = done ++ w.input ∧ Carries cipher w.output done
      ∧ w.state.total = done.length ∧ w.state.writer.cipher = cipher
  | .forwarding writing =>
    ∃ done data, plain = done ++ (data ++ w.input) ∧ writing.Bears cipher done data w.output
      ∧ w.state.total = done.length
  | .closing => Carries cipher w.output plain ∧ w.state.total = plain.length
  | .over (.ok count) => Carries cipher w.output plain ∧ count = plain.length
  | .over (.error _) => Begins cipher w.output plain

/-- Whether the outbound direction has come to its proper end. -/
def ended (x : Outbound) : Bool :=
  match x.phase with
  | .over (.ok _) => true
  | _ => false

section

variable {cipher : Option Cipher} {plain : Bytes} {faulty : Bool} {d d' : Conduit Outbound}

/-- What has been written carries the beginning of what there is to write. -/
theorem Forwards.begins {w : Wired Outbound} (h : Forwards cipher plain w) :
    Begins cipher w.output plain := by
  unfold Forwards at h
  split at h
  next =>
    obtain ⟨done, rfl, hcarries, -⟩ := h
    exact hcarries.begins (List.prefix_append _ _)
  next =>
    obtain ⟨done, data, rfl, hbears, -⟩ := h
    refine hbears.begins.more ?_
    rw [← List.append_assoc]
    exact List.prefix_append _ _
  next => exact h.1.begins (List.prefix_refl _)
  next => exact h.1.begins (List.prefix_refl _)
  next => exact h

/-- **The outbound direction stays faithful.** -/
theorem faithful_of_move (h : d.Faithful (Forwards cipher plain) ended) (hmove : Move faulty d d') :
    d'.Faithful (Forwards cipher plain) ended := by
  have hforwards := h.forwards
  unfold Forwards at hforwards
  cases hmove with
  | read bytes rest hphase hinput _ =>
      rw [hphase] at hforwards
      obtain ⟨done, hplain, hcarries, htotal, hpolish⟩ := hforwards
      rw [hinput] at hplain
      exact h.enter (by rw [ended, hphase]) rfl
        ⟨done, bytes, hplain, ⟨hpolish, rfl, hcarries⟩, htotal⟩
  | finish hphase hinput =>
      rw [hphase] at hforwards
      obtain ⟨done, hplain, hcarries, htotal, -⟩ := hforwards
      rw [hinput, List.append_nil] at hplain
      subst hplain
      exact h.enter (by rw [ended, hphase]) rfl ⟨hcarries, htotal⟩
  | unread _ f hphase =>
      exact h.enter (by rw [ended, hphase]) rfl h.forwards.begins
  | @write writing w hphase hwrite =>
      rw [hphase] at hforwards
      obtain ⟨done, data, hplain, hbears, htotal⟩ := hforwards
      obtain ⟨hbears', hinput⟩ :=
        Writing.Bears.of_move (w := ⟨writing, d.wired.input, d.wired.output⟩) hbears
          (Writing.move_of_advance hwrite)
      refine h.enter (by rw [ended, hphase]) rfl ⟨done, data, ?_, hbears', htotal⟩
      show plain = done ++ (data ++ w.input)
      rw [hinput]
      exact hplain
  | breakOff _ e hphase hsending =>
      rw [hphase] at hforwards
      obtain ⟨done, data, hplain, hbears, htotal⟩ := hforwards
      exact h.enter (by rw [ended, hphase]) rfl
        ⟨done, data, hplain, hbears.fail hsending e, htotal⟩
  | @take writing outcome hphase hover =>
      rw [hphase] at hforwards
      cases outcome with
      | error e => exact h.enter (by rw [ended, hphase]) rfl h.forwards.begins
      | ok length =>
          obtain ⟨done, data, hplain, ⟨hpolish, hbears⟩, htotal⟩ := hforwards
          rw [hover] at hbears
          obtain ⟨hlength, hcarries⟩ := hbears
          refine h.enter (by rw [ended, hphase]) rfl
            ⟨done ++ data, ?_, hcarries, ?_, hpolish⟩
          · rw [List.append_assoc]
            exact hplain
          · show d.wired.state.total + length = (done ++ data).length
            rw [htotal, hlength, List.length_append]
  | close hphase =>
      rw [hphase] at hforwards
      exact ⟨hforwards, rfl⟩
  | unclosed _ f hphase =>
      exact h.enter (by rw [ended, hphase]) rfl h.forwards.begins

/-- **A direction that has not failed,** over a sending side that can write. -/
def Hale (cipher : Option Cipher) (w : Wired Outbound) : Prop :=
  match w.state.phase with
  | .reading => w.state.writer.cipher = cipher ∧ w.state.writer.poisoned = false
  | .forwarding writing => writing.Sound cipher
  | .closing | .over (.ok _) => True
  | .over (.error _) => False

/-- **What is left to do:** a byte to come costs at most a chunk of the wire
    and a new round. -/
def cost (cipher : Option Cipher) (w : Wired Outbound) : Nat :=
  (cipher.elim 1 Cipher.chunkSize + 4) * w.input.length
    + match w.state.phase with
      | .reading => 2
      | .forwarding writing => writing.cost
      | .closing => 1
      | .over _ => 0

/-- **Where nothing fails,** the outbound direction does not fail, and each of
    its moves leaves less to do. -/
theorem hale_of_move (h : Hale cipher d.wired) (hmove : Move false d d') :
    Hale cipher d'.wired ∧ cost cipher d'.wired < cost cipher d.wired := by
  unfold Hale at h
  unfold cost
  cases hmove with
  | read bytes rest hphase hinput hsome =>
      rw [hphase] at h
      obtain ⟨hpolish, hclean⟩ := h
      refine ⟨⟨hpolish, hclean⟩, ?_⟩
      have hform := d.wired.state.writer.length_wireForm_le hsome d.wired.state.draws
      have hcount := List.length_pos_iff.mpr hsome
      rw [hpolish] at hform
      rw [hphase, hinput, List.length_append, Nat.mul_add]
      show _ + ((d.wired.state.writer.wireForm bytes d.wired.state.draws).1.length + 5) < _ + _ + 2
      rw [Nat.add_mul _ 4 bytes.length]
      dsimp only
      omega
  | finish hphase hinput =>
      refine ⟨trivial, ?_⟩
      rw [hphase]
      exact Nat.lt_succ_self _
  | @write writing w hphase hwrite =>
      rw [hphase] at h
      have hmove := Writing.move_of_advance hwrite
      have hsound : w.state.Sound cipher :=
        Writing.sound_of_move (w := ⟨writing, d.wired.input, d.wired.output⟩) h hmove
      have hless : w.state.cost < writing.cost := Writing.cost_of_advance hwrite
      have hinput : w.input = d.wired.input := by
        cases hmove <;> rfl
      refine ⟨hsound, ?_⟩
      rw [hphase]
      show _ * w.input.length + w.state.cost < _ + writing.cost
      rw [hinput]
      omega
  | @take writing outcome hphase hover =>
      rw [hphase] at h
      obtain ⟨hpolish, hclean⟩ := h
      rw [hover] at hclean
      cases outcome with
      | error e => exact hclean.elim
      | ok length =>
          refine ⟨⟨hpolish, hclean⟩, ?_⟩
          rw [hphase]
          have hcost : writing.cost = 3 := by
            unfold Writing.cost
            rw [hover]
          show _ + 2 < _ + writing.cost
          rw [hcost]
          exact Nat.lt_succ_self _
  | close hphase =>
      refine ⟨trivial, ?_⟩
      rw [hphase]
      exact Nat.lt_succ_self _
  | unread hfaulty | breakOff hfaulty | unclosed hfaulty => cases hfaulty

/-- **Where nothing fails,** the outbound direction stops only at its proper
    end. -/
theorem exists_step (h : Hale cipher d.wired) (hlive : ended d.wired.state = false) :
    ∃ d', Conduit.Step act Breaks false d d' := by
  unfold Hale at h
  cases hphase : d.wired.state.phase with
  | reading =>
      cases hinput : d.wired.input with
      | nil => exact ⟨_, .move (.closed (act_reading hphase) hinput rfl)⟩
      | cons byte rest =>
          have hroom : 1 ≤ relayBufferSize := by decide
          exact ⟨_, .move (.read [byte] rest (act_reading hphase) hinput (List.cons_ne_nil _ _)
            hroom)⟩
  | forwarding writing =>
      by_cases hover : ∃ outcome, writing.phase = .over outcome
      · obtain ⟨outcome, hover⟩ := hover
        have hgo : d.wired.state.act
            = .go fun _ => d.wired.state.again writing.writer writing.draws outcome := by
          rw [act_forwarding hphase, Writing.act_over hover]
          rfl
        exact ⟨_, .move (.go 0 hgo)⟩
      · obtain ⟨w, hadvance⟩ :=
          Writing.exists_advance (w := ⟨writing, d.wired.input, d.wired.output⟩)
            (fun outcome heq => hover ⟨outcome, heq⟩)
        exact ⟨_, .move (hadvance.within (act_forwarding hphase))⟩
  | closing => exact ⟨_, .shutdown (act_closing hphase)⟩
  | «over» outcome =>
      rw [hphase] at h
      cases outcome with
      | error e => exact h.elim
      | ok count =>
          rw [ended, hphase] at hlive
          cases hlive

end

end Outbound

end Masquerade
