/-
  Masquerade.Handshake.Exchange — THE SCRIPTED EXCHANGE at the start of a
  connection.

  In each round the next expected part is resolved, read to its full size
  and checked, and then the next message goes out.  A round that has no part
  or no message left leaves that half out.  An exchange that speaks first
  begins in the middle of a round.

  Main results:
    * `Exchange.start_eq_ok_iff` — an exchange can begin exactly if its
      configuration is valid.
-/
import Masquerade.Config
import Masquerade.Stream.Action

namespace Masquerade

/-- Where an exchange stands. -/
inductive Exchange.Phase where
  /-- At the start of a round. -/
  | round
  /-- Reading a part. -/
  | receiving (step : Step) (missing : Nat) (got : Bytes)
  /-- About to take up the next message, if there is one. -/
  | speaking
  /-- Waiting before a message. -/
  | pausing (bytes : Bytes) (wake : Nat)
  /-- Writing the rest of a message. -/
  | sending (left : Bytes)
  | over (outcome : Except Error Unit)

/-- **The state of an exchange.** -/
structure Exchange where
  /-- The messages that are still to be sent. -/
  messages : List Message
  /-- The parts that are still expected. -/
  script : Script
  /-- What the parts received so far were resolved to. -/
  context : Context
  /-- Bytes received and not consumed by any part. -/
  buffer : Bytes
  phase : Exchange.Phase

namespace Exchange

/-- **Begin an exchange.** -/
def start (config : Toneburst) (draws : Draws) : Except Error Exchange :=
  match config.validate draws with
  | .error e => .error e
  | .ok () =>
    .ok ⟨config.messages draws, config.script, .empty, [],
      if config.speakFirst then .speaking else .round⟩

/-- An exchange can begin exactly if its configuration is valid. -/
theorem start_eq_ok_iff (config : Toneburst) (draws : Draws) :
    (∃ x, start config draws = .ok x) ↔ config.validate draws = .ok () := by
  unfold start
  cases h : config.validate draws <;> simp

/-- Go to another phase. -/
def enter (x : Exchange) (phase : Phase) : Exchange := { x with phase }

/-- End with an error. -/
def fail (x : Exchange) (e : Error) : Exchange := x.enter (.over (.error e))

/-- Begin a round. -/
def next (x : Exchange) : Exchange :=
  match x.script, x.messages with
  | [], [] => x.enter (.over (.ok ()))
  | [], _ :: _ => x.enter .speaking
  | step :: rest, _ =>
    let context := step.resolve x.context
    { x with script := rest, context, phase := .receiving step (step.count context) [] }

/-- Check a part that has been read. -/
def check (x : Exchange) (step : Step) (got : Bytes) : Exchange :=
  let (verdict, buffer, context) := step.validate (x.buffer ++ got) x.context
  { x with
    buffer, context
    phase := if verdict = .valid then .speaking else .over (.error (.validation verdict)) }

/-- Take up the next message. -/
def speak (x : Exchange) (now : Nat) : Exchange :=
  match x.messages with
  | [] => x.enter .round
  | message :: rest =>
    { x with
      messages := rest
      phase :=
        match message.delay with
        | some delay => .pausing message.bytes (now + delay.toNat)
        | none => .sending message.bytes }

/-- Part of a part has arrived, or nothing more will. -/
def receive (x : Exchange) (step : Step) (missing : Nat) (got : Bytes) : Arrival → Exchange
  | .data bytes => x.enter (.receiving step (missing - bytes.length) (got ++ bytes))
  | .closed => x.fail (.network .earlyEnd)
  | .fault f => x.fail (.network f)

/-- Part of a message has been written, or nothing more can be. -/
def sent (x : Exchange) (left : Bytes) : Acceptance → Exchange
  | .taken 0 => x.fail (.network .nothingWritten)
  | .taken count => x.enter (.sending (left.drop count))
  | .fault f => x.fail (.network f)

/-- **What an exchange does next.** -/
def act (x : Exchange) : Action Exchange (Except Error Unit) :=
  match x.phase with
  | .round => .go fun _ => x.next
  | .receiving step 0 got => .go fun _ => x.check step got
  | .receiving step missing got => .read missing none (x.receive step missing got)
  | .speaking => .go x.speak
  | .pausing bytes wake => .sleep wake (x.enter (.sending bytes))
  | .sending [] => .go fun _ => x.enter .round
  | .sending left => .write left none (x.sent left)
  | .over outcome => .done outcome

end Exchange

end Masquerade
