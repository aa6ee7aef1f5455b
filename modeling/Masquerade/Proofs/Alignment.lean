/-
  Masquerade.Proofs.Alignment — THE SENDING SIDE NEVER MISALIGNS THE WIRE.

  A raw stream may take a write in any pieces, take nothing, fail, fail to
  pass on what it took, or keep a write waiting until its time limit passes
  or its owner drops it.  Whatever it does, what stands on the wire is the
  wire forms of the writes that landed, one after the other, and behind them
  at most the beginning of one more: the first write that did not land is
  the last that touches the wire.

  An outlet is a sending side, the wire, and a record of every write: its
  wire form, what the wire took of it, and what became of it.

  Main results:
    * `Writing.Fares.of_suffers` — what can happen to a write, whatever the
      stream does.
    * `Flight.Sound.step` — what a write in flight has put on the wire.
    * `Outlet.Aligned.step` — every step keeps the wire aligned.
    * `Outlet.stays_aligned` — the wire after any run.
-/
import Masquerade.Proofs.Delivery

namespace Masquerade

/-! ## §1. A write on a stream that may do anything -/

namespace Writing

/-- **What a raw stream does to a write.**  It never speaks of an earlier
    write; that is the sending side's own word. -/
inductive Suffers (w : Wired Writing) : Wired Writing → Prop where
  /-- It takes some, or the write goes on by itself. -/
  | move {w' : Wired Writing} (h : Advance act false w w') : Suffers w w'
  /-- It takes nothing. -/
  | refuse {bytes : Bytes} {limit : Option (Nat × Writing)} {next : Acceptance → Writing}
      (h : act w.state = .write bytes limit next) :
      Suffers w { w with state := next (.taken 0) }
  /-- It fails. -/
  | fault {bytes : Bytes} {limit : Option (Nat × Writing)} {next : Acceptance → Writing}
      (f : StreamFault) (hown : f ≠ .unfinishedWrite) (h : act w.state = .write bytes limit next) :
      Suffers w { w with state := next (.fault f) }
  /-- It keeps the write waiting until the time limit passes. -/
  | expire {bytes : Bytes} {instant : Nat} {expired : Writing} {next : Acceptance → Writing}
      (h : act w.state = .write bytes (some (instant, expired)) next) :
      Suffers w { w with state := expired }
  /-- It has taken everything and fails to pass it on. -/
  | unflushed {length : Nat} {deadline : Option Deadline} (f : StreamFault)
      (hown : f ≠ .unfinishedWrite) (hphase : w.state.phase = .sending [] length deadline) :
      Suffers w { w with state := w.state.fail (.network f) }
  /-- It has taken everything and does not pass it on in time. -/
  | lapse {length : Nat} {deadline : Deadline}
      (hphase : w.state.phase = .sending [] length (some deadline)) :
      Suffers w { w with state := w.state.fail deadline.error }

/-- **What can happen to a write:** one of its moves, or it breaks off while
    it is sending. -/
inductive Fares (w : Wired Writing) : Wired Writing → Prop where
  | move {w' : Wired Writing} (h : Move w w') : Fares w w'
  | breakOff {left : Bytes} {length : Nat} {deadline : Option Deadline} (e : Error)
      (hown : e ≠ .network .unfinishedWrite)
      (hphase : w.state.phase = .sending left length deadline) :
      Fares w { w with state := w.state.fail e }

section

variable {w w' : Wired Writing}

/-- Only a write that is sending offers anything to the stream. -/
theorem sending_of_act_write {bytes : Bytes} {limit : Option (Nat × Writing)}
    {next : Acceptance → Writing} {r : Writing} (h : r.act = .write bytes limit next) :
    ∃ length deadline, r.phase = .sending bytes length deadline
      ∧ limit = Deadline.limit deadline r.fail ∧ next = r.sent bytes length deadline := by
  cases hphase : r.phase with
  | start data => cases (act_start hphase).symm.trans h
  | sending left length deadline =>
      by_cases hleft : left = []
      · subst hleft
        cases (act_sent hphase).symm.trans h
      · cases (act_sending hphase hleft).symm.trans h
        exact ⟨length, deadline, rfl, rfl, rfl⟩
  | «over» outcome => cases (act_over hphase).symm.trans h

/-- **Whatever the stream does,** the write moves or breaks off. -/
theorem Fares.of_suffers (h : Suffers w w') : Fares w w' := by
  cases h with
  | move h => exact .move (move_of_advance h)
  | refuse h =>
      obtain ⟨length, deadline, hphase, -, rfl⟩ := sending_of_act_write h
      exact .breakOff (.network .nothingWritten) nofun hphase
  | fault f hown h =>
      obtain ⟨length, deadline, hphase, -, rfl⟩ := sending_of_act_write h
      refine .breakOff (.network f) ?_ hphase
      intro heq
      injection heq with heq
      exact hown heq
  | @expire bytes instant expired next h =>
      obtain ⟨length, deadline, hphase, hlimit, -⟩ := sending_of_act_write h
      obtain ⟨d, -, hd⟩ := Option.map_eq_some_iff.mp hlimit.symm
      obtain rfl : w.state.fail d.error = expired := (Prod.mk.inj hd).2
      exact .breakOff d.error nofun hphase
  | unflushed f hown hphase =>
      refine .breakOff (.network f) ?_ hphase
      intro heq
      injection heq with heq
      exact hown heq
  | lapse hphase => exact .breakOff _ nofun hphase

end

end Writing

/-! ## §2. Records of writes -/

/-- What became of a write. -/
inductive Fate where
  | returned (outcome : Except Error Nat)
  /-- Its owner gave it up while it was sending. -/
  | dropped

/-- **A write that is over.** -/
structure Attempt where
  data : Bytes
  /-- What was to go onto the wire for the data. -/
  form : Bytes
  /-- What the wire took of it. -/
  sent : Bytes
  fate : Fate

namespace Attempt

/-- The wire form is that of the data, under some draws. -/
def Formed (cipher : Option Cipher) (data form : Bytes) : Prop :=
  ∃ draws, form = ((Writer.start cipher).wireForm data draws).1

/-- **A write that landed:** it reports the size of its data, and the wire
    took all of its form. -/
def Landed (a : Attempt) : Prop := a.fate = .returned (.ok a.data.length) ∧ a.sent = a.form

/-- **A write that broke off:** it failed for a reason of its own or was
    dropped, and the wire took the beginning of its form. -/
def Broken (a : Attempt) : Prop :=
  (a.fate = .dropped ∨ ∃ e, e ≠ .network .unfinishedWrite ∧ a.fate = .returned (.error e))
    ∧ a.sent <+: a.form

/-- **A write that was refused** on account of an earlier one: it touched
    nothing. -/
def Refused (a : Attempt) : Prop :=
  a.fate = .returned (.error (.network .unfinishedWrite)) ∧ a.sent = []

end Attempt

/-- **The record of a sending side:** as long as it is not poisoned all
    writes have landed; it is poisoned from the first that broke off, and all
    later ones are refused. -/
inductive Chronicle : (poisoned : Bool) → List Attempt → Prop where
  | clean {landed : List Attempt} (h : ∀ a ∈ landed, a.Landed) : Chronicle false landed
  | broken {landed : List Attempt} {first : Attempt} {refused : List Attempt}
      (h : ∀ a ∈ landed, a.Landed) (hfirst : first.Broken) (hlater : ∀ a ∈ refused, a.Refused) :
      Chronicle true (landed ++ first :: refused)

namespace Chronicle

variable {attempts : List Attempt} {a : Attempt}

theorem land (h : Chronicle false attempts) (ha : a.Landed) : Chronicle false (attempts ++ [a]) := by
  cases h with
  | clean h =>
      refine .clean ?_
      intro b hb
      rcases List.mem_append.mp hb with hb | hb
      · exact h b hb
      · rw [List.mem_singleton.mp hb]
        exact ha

theorem breakOff (h : Chronicle false attempts) (ha : a.Broken) :
    Chronicle true (attempts ++ [a]) := by
  cases h with
  | clean h => exact .broken h ha nofun

theorem refuse (h : Chronicle true attempts) (ha : a.Refused) : Chronicle true (attempts ++ [a]) := by
  cases h with
  | @broken landed first refused h hfirst hlater =>
      rw [List.append_assoc]
      refine .broken h hfirst ?_
      intro b hb
      rcases List.mem_append.mp hb with hb | hb
      · exact hlater b hb
      · rw [List.mem_singleton.mp hb]
        exact ha

end Chronicle

/-! ## §3. A write in flight -/

/-- **A write in flight:** its data, its wire form, and how long the wire was
    when it began. -/
structure Flight where
  writing : Writing
  data : Bytes
  form : Bytes
  mark : Nat

namespace Flight

/-- **What a write in flight has done so far:** on a sending side that was
    so before it, with these draws, the wire has taken this of its form. -/
structure Sound (before : Writer) (draws : Draws) (f : Flight) (sent : Bytes) : Prop where
  form : f.form = (before.wireForm f.data draws).1
  phase : match f.writing.phase with
    | .start data =>
      data = f.data ∧ sent = [] ∧ f.writing.writer = before ∧ f.writing.draws = draws
    | .sending left length _ =>
      before.poisoned = false ∧ f.writing.writer = { before with poisoned := true }
        ∧ sent ++ left = f.form ∧ length = f.data.length
    | .over (.ok length) =>
      before.poisoned = false ∧ f.writing.writer = { before with poisoned := false }
        ∧ sent = f.form ∧ length = f.data.length
    | .over (.error e) =>
      (before.poisoned = true ∧ f.writing.writer = before
          ∧ e = .network .unfinishedWrite ∧ sent = [])
        ∨ (before.poisoned = false ∧ f.writing.writer = { before with poisoned := true }
          ∧ e ≠ .network .unfinishedWrite ∧ sent <+: f.form)

section

variable {before : Writer} {draws : Draws} {f : Flight} {sent base wire : Bytes} {w' : Wired Writing}

/-- **Whatever happens to a write,** what it adds to the wire is the next of
    its form. -/
theorem Sound.step (h : f.Sound before draws sent) (hwire : wire = base ++ sent)
    (hfares : Writing.Fares ⟨f.writing, [], wire⟩ w') :
    ∃ sent', w'.output = base ++ sent'
      ∧ Sound before draws { f with writing := w'.state } sent' := by
  obtain ⟨hform, hphase'⟩ := h
  cases hfares with
  | breakOff e hown hphase =>
      have hphase : f.writing.phase = _ := hphase
      rw [hphase] at hphase'
      obtain ⟨hclean, hwriter, hsent, -⟩ := hphase'
      refine ⟨sent, hwire, hform, .inr ⟨hclean, hwriter, hown, ?_⟩⟩
      rw [← hsent]
      exact List.prefix_append _ _
  | move hmove =>
      cases hmove with
      | refuse hphase hpoisoned =>
          have hphase : f.writing.phase = _ := hphase
          rw [hphase] at hphase'
          obtain ⟨-, hsent, hwriter, -⟩ := hphase'
          have hpoisoned : f.writing.writer.poisoned = true := hpoisoned
          refine ⟨sent, hwire, hform, .inl ⟨?_, hwriter, rfl, hsent⟩⟩
          rw [← hwriter]
          exact hpoisoned
      | @begin data deadline hphase hclean =>
          have hphase : f.writing.phase = _ := hphase
          rw [hphase] at hphase'
          obtain ⟨rfl, rfl, rfl, rfl⟩ := hphase'
          exact ⟨[], hwire, hform, hclean, rfl, hform.symm, rfl⟩
      | @write left length deadline count hphase =>
          have hphase : f.writing.phase = _ := hphase
          rw [hphase] at hphase'
          obtain ⟨hclean, hwriter, hsent, hlength⟩ := hphase'
          refine ⟨sent ++ left.take count, ?_, hform, hclean, hwriter, ?_, hlength⟩
          · show wire ++ left.take count = _
            rw [hwire, List.append_assoc]
          · rw [List.append_assoc, List.take_append_drop]
            exact hsent
      | finish hphase =>
          have hphase : f.writing.phase = _ := hphase
          rw [hphase] at hphase'
          obtain ⟨hclean, hwriter, hsent, hlength⟩ := hphase'
          rw [List.append_nil] at hsent
          refine ⟨sent, hwire, hform, hclean, ?_, hsent, hlength⟩
          show { f.writing.writer with poisoned := false } = _
          rw [hwriter]

/-- A write on a poisoned sending side touches nothing. -/
theorem Sound.eq_nil (h : f.Sound before draws sent) (hpoisoned : before.poisoned = true) :
    sent = [] := by
  have hphase := h.phase
  split at hphase
  next => exact hphase.2.1
  next =>
    rw [hpoisoned] at hphase
    cases hphase.1
  next =>
    rw [hpoisoned] at hphase
    cases hphase.1
  next =>
    rcases hphase with ⟨-, -, -, hnone⟩ | ⟨hclean, -⟩
    · exact hnone
    · rw [hpoisoned] at hclean
      cases hclean

/-- **A write puts no more on the wire than its form,** and that in order. -/
theorem Sound.sent_prefix (h : f.Sound before draws sent) : sent <+: f.form := by
  have hphase := h.phase
  split at hphase
  next =>
    rw [hphase.2.1]
    exact List.nil_prefix
  next =>
    rw [← hphase.2.2.1]
    exact List.prefix_append _ _
  next =>
    exact ⟨[], by rw [List.append_nil, hphase.2.2.1]⟩
  next =>
    rcases hphase with ⟨-, -, -, hnone⟩ | ⟨-, -, -, hprefix⟩
    · rw [hnone]
      exact List.nil_prefix
    · exact hprefix

end

/-- The record of a write that is over, with what the wire took since it
    began. -/
def attempt (f : Flight) (wire : Bytes) (fate : Fate) : Attempt :=
  ⟨f.data, f.form, wire.drop f.mark, fate⟩

end Flight

/-! ## §4. An outlet -/

/-- **A sending end on a raw stream**, whole or split, with the wire and a
    record of its writes. -/
structure Outlet where
  sender : Endpoint
  draws : Draws
  /-- The write in flight. -/
  flight : Option Flight
  wire : Bytes
  /-- The writes that are over, in order. -/
  attempts : List Attempt

namespace Outlet

/-- A sending end that has sent nothing. -/
def start (cipher : Option Cipher) (draws : Draws) : Outlet where
  sender := .whole (.ofCipher cipher)
  draws := draws
  flight := none
  wire := []
  attempts := []

/-- A write is over: its sending side goes back to its owner. -/
def land (o : Outlet) (f : Flight) (fate : Fate) : Outlet where
  sender := o.sender.setWriter f.writing.writer
  draws := f.writing.draws
  flight := none
  wire := o.wire
  attempts := o.attempts ++ [f.attempt o.wire fate]

/-- **One step of a sending end**, its owner and its stream. -/
inductive Step (o : Outlet) : Outlet → Prop where
  | begin (data : Bytes) (hidle : o.flight = none) :
      Step o
        { o with flight := some {
            writing := .start o.sender.writer o.draws data
            data
            form := (o.sender.writer.wireForm data o.draws).1
            mark := o.wire.length } }
  | suffer {f : Flight} {w : Wired Writing} (hflight : o.flight = some f)
      (hsuffers : Writing.Suffers ⟨f.writing, [], o.wire⟩ w) :
      Step o { o with flight := some { f with writing := w.state }, wire := w.output }
  | finish {f : Flight} {outcome : Except Error Nat} (hflight : o.flight = some f)
      (hover : f.writing.phase = .over outcome) : Step o (o.land f (.returned outcome))
  /-- The owner drops a write where it waits for the stream. -/
  | drop {f : Flight} {left : Bytes} {length : Nat} {deadline : Option Deadline}
      (hflight : o.flight = some f) (hphase : f.writing.phase = .sending left length deadline) :
      Step o (o.land f .dropped)
  /-- The owner drops a write that has not begun. -/
  | withdraw {f : Flight} {data : Bytes} (hflight : o.flight = some f)
      (hphase : f.writing.phase = .start data) : Step o { o with flight := none }
  | limit (timeout : Option Nat) {connection : Connection} (hidle : o.flight = none)
      (hwhole : o.sender = .whole connection) :
      Step o { o with sender := .whole (connection.setWriteTimeout timeout) }
  | split (hidle : o.flight = none) : Step o { o with sender := o.sender.split }
  /-- The receiving side of the end goes its own way. -/
  | receive (reader : Reader) : Step o { o with sender := o.sender.setReader reader }

/-- What the wire took of the writes that are over. -/
def settled (o : Outlet) : Bytes := o.attempts.flatMap Attempt.sent

/-- **The wire is aligned:** it holds what it took of each write, and these
    writes make up a proper record. -/
structure Aligned (cipher : Option Cipher) (o : Outlet) : Prop where
  polish : o.sender.writer.cipher = cipher
  chronicle : Chronicle o.sender.writer.poisoned o.attempts
  formed : ∀ a ∈ o.attempts, Attempt.Formed cipher a.data a.form
  wire : match o.flight with
    | none => o.wire = o.settled
    | some f => f.mark = o.settled.length
      ∧ ∃ sent, o.wire = o.settled ++ sent ∧ f.Sound o.sender.writer o.draws sent

theorem aligned_start (cipher : Option Cipher) (draws : Draws) :
    (start cipher draws).Aligned cipher where
  polish := rfl
  chronicle := .clean nofun
  formed := nofun
  wire := rfl

section

variable {cipher : Option Cipher} {o o' : Outlet}

/-- **Taking note of a write keeps the wire aligned,** if the write fits the
    record. -/
theorem Aligned.land (h : o.Aligned cipher) {f : Flight} {fate : Fate} {sent : Bytes}
    (hmark : f.mark = o.settled.length) (hwire : o.wire = o.settled ++ sent)
    (hsound : f.Sound o.sender.writer o.draws sent)
    (hpolish : f.writing.writer.cipher = o.sender.writer.cipher)
    (hchronicle : Chronicle f.writing.writer.poisoned
      (o.attempts ++ [⟨f.data, f.form, sent, fate⟩])) :
    (o.land f fate).Aligned cipher := by
  have hattempt : f.attempt o.wire fate = ⟨f.data, f.form, sent, fate⟩ := by
    unfold Flight.attempt
    rw [hmark, hwire, List.drop_left]
  unfold Outlet.land
  rw [hattempt]
  refine ⟨?_, ?_, ?_, ?_⟩
  · rw [Endpoint.writer_setWriter, hpolish]
    exact h.polish
  · rw [Endpoint.writer_setWriter]
    exact hchronicle
  · intro a ha
    rcases List.mem_append.mp ha with ha | ha
    · exact h.formed a ha
    · rw [List.mem_singleton.mp ha, ← h.polish]
      exact ⟨o.draws, hsound.form⟩
  · show o.wire = (o.attempts ++ [_]).flatMap Attempt.sent
    rw [List.flatMap_append, List.flatMap_singleton]
    exact hwire

/-- **Every step keeps the wire aligned.** -/
theorem Aligned.step (h : o.Aligned cipher) (hstep : Step o o') : o'.Aligned cipher := by
  have hwhole := h
  obtain ⟨hpolish, hchronicle, hformed, hwire⟩ := h
  cases hstep with
  | begin data hidle =>
      rw [hidle] at hwire
      refine ⟨hpolish, hchronicle, hformed, ?_, [], ?_, rfl, rfl, rfl, rfl, rfl⟩
      · exact congrArg List.length hwire
      · show o.wire = o.settled ++ []
        rw [List.append_nil]
        exact hwire
  | @suffer f w hflight hsuffers =>
      rw [hflight] at hwire
      obtain ⟨hmark, sent, hwire, hsound⟩ := hwire
      obtain ⟨sent', houtput, hsound'⟩ := hsound.step hwire (.of_suffers hsuffers)
      exact ⟨hpolish, hchronicle, hformed, hmark, sent', houtput, hsound'⟩
  | @finish f outcome hflight hover =>
      rw [hflight] at hwire
      obtain ⟨hmark, sent, hwire, hsound⟩ := hwire
      have hphase := hsound.phase
      rw [hover] at hphase
      cases outcome with
      | ok length =>
          obtain ⟨hclean, hwriter, hsent, rfl⟩ := hphase
          refine hwhole.land hmark hwire hsound (by rw [hwriter]) ?_
          rw [hwriter]
          rw [hclean] at hchronicle
          exact hchronicle.land ⟨rfl, hsent⟩
      | error e =>
          rcases hphase with ⟨hpoisoned, hwriter, rfl, hsent⟩ | ⟨hclean, hwriter, hown, hprefix⟩
          · refine hwhole.land hmark hwire hsound (by rw [hwriter]) ?_
            rw [hwriter, hpoisoned]
            rw [hpoisoned] at hchronicle
            exact hchronicle.refuse ⟨rfl, hsent⟩
          · refine hwhole.land hmark hwire hsound (by rw [hwriter]) ?_
            rw [hwriter]
            rw [hclean] at hchronicle
            exact hchronicle.breakOff ⟨.inr ⟨e, hown, rfl⟩, hprefix⟩
  | @drop f left length deadline hflight hover =>
      rw [hflight] at hwire
      obtain ⟨hmark, sent, hwire, hsound⟩ := hwire
      have hphase := hsound.phase
      rw [hover] at hphase
      obtain ⟨hclean, hwriter, -, -⟩ := hphase
      refine hwhole.land hmark hwire hsound (by rw [hwriter]) ?_
      rw [hwriter]
      rw [hclean] at hchronicle
      exact hchronicle.breakOff ⟨.inl rfl, hsound.sent_prefix⟩
  | @withdraw f data hflight hover =>
      rw [hflight] at hwire
      obtain ⟨-, sent, hwire, hsound⟩ := hwire
      have hphase := hsound.phase
      rw [hover] at hphase
      obtain ⟨-, rfl, -, -⟩ := hphase
      refine ⟨hpolish, hchronicle, hformed, ?_⟩
      rw [List.append_nil] at hwire
      exact hwire
  | @limit timeout connection hidle heq =>
      rw [heq] at hpolish hchronicle
      rw [hidle] at hwire
      refine ⟨hpolish, hchronicle, hformed, ?_⟩
      dsimp only
      rw [hidle]
      exact hwire
  | split hidle =>
      rw [hidle] at hwire
      refine ⟨?_, ?_, hformed, ?_⟩
      · rw [Endpoint.writer_split]
        exact hpolish
      · rw [Endpoint.writer_split]
        exact hchronicle
      · dsimp only
        rw [hidle]
        exact hwire
  | receive reader =>
      refine ⟨?_, ?_, hformed, ?_⟩
      · rw [Endpoint.writer_setReader]
        exact hpolish
      · rw [Endpoint.writer_setReader]
        exact hchronicle
      · rw [Endpoint.writer_setReader]
        exact hwire

end

/-! ## §5. After any run -/

/-- The wire forms of writes that landed are what the wire took of them. -/
theorem flatMap_sent_of_landed {landed : List Attempt} (h : ∀ a ∈ landed, a.Landed) :
    landed.flatMap Attempt.sent = landed.flatMap Attempt.form := by
  induction landed with
  | nil => rfl
  | cons a landed ih =>
      obtain ⟨ha, hmore⟩ := List.forall_mem_cons.mp h
      rw [List.flatMap_cons, List.flatMap_cons, ih hmore, ha.2]

/-- What was refused left nothing on the wire. -/
theorem flatMap_sent_of_refused {refused : List Attempt} (h : ∀ a ∈ refused, a.Refused) :
    refused.flatMap Attempt.sent = [] := by
  rw [List.flatMap_eq_nil_iff]
  intro a ha
  exact (h a ha).2

/-- Sealed wire forms are whole chunks. -/
theorem dvd_length_forms {c : Cipher} {attempts : List Attempt}
    (h : ∀ a ∈ attempts, Attempt.Formed (some c) a.data a.form) :
    c.chunkSize ∣ (attempts.flatMap Attempt.form).length := by
  induction attempts with
  | nil => exact Nat.dvd_zero _
  | cons a attempts ih =>
      obtain ⟨⟨draws, hform⟩, hmore⟩ := List.forall_mem_cons.mp h
      have hcarries := (Writer.start (some c)).carries_wireForm a.data draws
      rw [← hform] at hcarries
      have hframed : c.Framed a.form a.data := hcarries
      rw [List.flatMap_cons, List.length_append]
      exact Nat.dvd_add hframed.dvd_length (ih hmore)

/-- **THE SENDING SIDE NEVER MISALIGNS THE WIRE.**  After any run of writes,
    whatever the stream and the owner have done to them,

    • the writes up to some point have landed, and the wire holds their wire
      forms, one after the other, and then one more part;
    • the next write, if there is one, broke off; the part is the beginning
      of its wire form, and all later writes have been refused and have
      touched nothing;
    • if there is none, the part is the beginning of the wire form of the
      write in flight, or nothing;
    • between writes the sending side is poisoned exactly if one broke off,
      and if it is not, sealed bytes on the wire are whole chunks. -/
theorem stays_aligned (cipher : Option Cipher) (draws : Draws) {o : Outlet}
    (hrun : Relation.ReflTransGen Step (start cipher draws) o) :
    ∃ (landed rest : List Attempt) (part : Bytes),
      o.attempts = landed ++ rest
        ∧ o.wire = landed.flatMap Attempt.form ++ part
        ∧ (∀ a ∈ landed, a.Landed)
        ∧ (∀ a ∈ o.attempts, Attempt.Formed cipher a.data a.form)
        ∧ (match rest with
            | first :: refused =>
              first.Broken ∧ part = first.sent ∧ ∀ a ∈ refused, a.Refused
            | [] =>
              match o.flight with
              | some f => Attempt.Formed cipher f.data f.form ∧ part <+: f.form
              | none => part = [])
        ∧ (o.sender.writer.poisoned = true ↔ rest ≠ [])
        ∧ ∀ c, cipher = some c → o.sender.writer.poisoned = false → o.flight = none →
            c.chunkSize ∣ o.wire.length := by
  have h : o.Aligned cipher :=
    keeps_of_run (Aligned cipher) (fun h hstep => h.step hstep) hrun (aligned_start cipher draws)
  obtain ⟨hpolish, hchronicle, hformed, hwire⟩ := h
  unfold settled at hwire
  generalize hpoisoned : o.sender.writer.poisoned = poisoned at hchronicle ⊢
  generalize hattempts : o.attempts = attempts at hchronicle hformed hwire ⊢
  cases hchronicle with
  | clean hlanded =>
      rw [flatMap_sent_of_landed hlanded] at hwire
      cases hflight : o.flight with
      | none =>
          rw [hflight] at hwire
          refine ⟨attempts, [], [], (List.append_nil _).symm, ?_, hlanded, hformed, rfl, ?_, ?_⟩
          · rw [List.append_nil]
            exact hwire
          · exact ⟨nofun, fun hne => absurd rfl hne⟩
          · rintro c rfl - -
            rw [hwire]
            exact dvd_length_forms hformed
      | some f =>
          rw [hflight] at hwire
          obtain ⟨-, sent, hwire, hsound⟩ := hwire
          refine ⟨attempts, [], sent, (List.append_nil _).symm, hwire, hlanded, hformed,
            ⟨⟨o.draws, ?_⟩, hsound.sent_prefix⟩, ?_, ?_⟩
          · rw [← hpolish]
            exact hsound.form
          · exact ⟨nofun, fun hne => absurd rfl hne⟩
          · intro c _ _ hidle
            cases hidle
  | @broken landed first refused hlanded hfirst hrefused =>
      rw [List.flatMap_append, List.flatMap_cons, flatMap_sent_of_landed hlanded,
        flatMap_sent_of_refused hrefused, List.append_nil] at hwire
      -- a write in flight on a poisoned sending side has added nothing
      have hall : o.wire = landed.flatMap Attempt.form ++ first.sent := by
        cases hflight : o.flight with
        | none =>
            rw [hflight] at hwire
            exact hwire
        | some f =>
            rw [hflight] at hwire
            obtain ⟨-, sent, hwire, hsound⟩ := hwire
            rw [hsound.eq_nil hpoisoned, List.append_nil] at hwire
            exact hwire
      refine ⟨landed, first :: refused, first.sent, rfl, hall, hlanded, hformed,
        ⟨hfirst, rfl, hrefused⟩, ?_, ?_⟩
      · exact ⟨fun _ => List.cons_ne_nil _ _, fun _ => rfl⟩
      · intro c _ hclean
        cases hclean

/-- One write lands, the next is dropped when one byte of it is taken, and the
    third is refused: the wire holds the first and a byte of the second. -/
theorem stays_aligned_broken :
    ∃ o, Relation.ReflTransGen Step (start none default) o
      ∧ o.wire = [1, 2, 3] ∧ o.flight = none
      ∧ ∃ (landed refused : List Attempt) (first : Attempt),
          o.attempts = landed ++ first :: refused
            ∧ [1, 2, 3] = landed.flatMap Attempt.form ++ first.sent
            ∧ (∀ a ∈ landed, a.Landed) ∧ first.Broken ∧ ∀ a ∈ refused, a.Refused := by
  have hexists : ∃ o, Relation.ReflTransGen Step (start none default) o
      ∧ o.wire = [1, 2, 3] ∧ o.flight = none ∧ o.sender.writer.poisoned = true := by
    refine ⟨_, .head (.begin [1, 2] rfl)
      (.head (.suffer rfl (.move (.go 0 rfl)))
      (.head (.suffer rfl (.move (.write 2 rfl (by decide) (by decide))))
      (.head (.suffer rfl (.move (.go 0 rfl)))
      (.head (.finish rfl rfl)
      (.head (.begin [3, 4] rfl)
      (.head (.suffer rfl (.move (.go 0 rfl)))
      (.head (.suffer rfl (.move (.write 1 rfl (by decide) (by decide))))
      (.head (.drop rfl rfl)
      (.head (.begin [5] rfl)
      (.head (.suffer rfl (.move (.go 0 rfl)))
      (.head (.finish rfl rfl) .refl))))))))))), rfl, rfl, rfl⟩
  obtain ⟨o, hrun, hwire, hidle, hpoisoned⟩ := hexists
  refine ⟨o, hrun, hwire, hidle, ?_⟩
  obtain ⟨landed, rest, part, hattempts, hpart, hlanded, -, hrest, hiff, -⟩ :=
    stays_aligned none default hrun
  cases rest with
  | nil => exact absurd rfl (hiff.mp hpoisoned)
  | cons first refused =>
      obtain ⟨hbroken, rfl, hrefused⟩ := hrest
      rw [hwire] at hpart
      exact ⟨landed, refused, first, hattempts, hpart, hlanded, hbroken, hrefused⟩

end Outlet

end Masquerade
