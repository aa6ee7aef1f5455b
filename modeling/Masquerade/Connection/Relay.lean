/-
  Masquerade.Connection.Relay — BETWEEN A CONNECTION AND A PLAIN STREAM.

  Two processes run side by side, one for each direction.  Each forwards
  until its source closes and then closes its destination.  A failure of
  either ends both.
-/
import Masquerade.Connection.Basic

namespace Masquerade

/-- The most bytes that are forwarded at once. -/
def relayBufferSize : Nat := 16384

/-! ## §1. From the connection to the plain stream -/

/-- Where the inbound direction stands. -/
inductive Inbound.Phase where
  | reading (reading : Reading)
  /-- Writing the rest of so many bytes. -/
  | forwarding (left : Bytes) (length : Nat)
  | closing
  | over (outcome : Except Error Nat)

/-- **The inbound direction:** the connection's receiving side, and how many
    bytes have been forwarded. -/
structure Inbound where
  reader : Reader
  total : Nat
  phase : Inbound.Phase

namespace Inbound

/-- Begin to forward. -/
def start (reader : Reader) : Inbound := ⟨reader, 0, .reading (.start reader relayBufferSize)⟩

/-- Go to another phase. -/
def enter (x : Inbound) (phase : Phase) : Inbound := { x with phase }

/-- A read has ended. -/
def forward (x : Inbound) (reader : Reader) : Except Error Bytes → Inbound
  | .error e => { x with reader, phase := .over (.error e) }
  | .ok [] => { x with reader, phase := .closing }
  | .ok bytes => { x with reader, phase := .forwarding bytes bytes.length }

/-- Part has been written, or nothing more can be. -/
def sent (x : Inbound) (left : Bytes) (length : Nat) : Acceptance → Inbound
  | .taken 0 => x.enter (.over (.error (.network .nothingWritten)))
  | .taken count => x.enter (.forwarding (left.drop count) length)
  | .fault f => x.enter (.over (.error (.network f)))

/-- Everything read has been written: read on. -/
def again (x : Inbound) (length : Nat) : Inbound :=
  { x with
    total := x.total + length
    phase := .reading (.start x.reader relayBufferSize) }

/-- **What the inbound direction does next.** -/
def act (x : Inbound) : Action Inbound (Except Error Nat) :=
  match x.phase with
  | .reading reading =>
    reading.act.within (fun reading => x.enter (.reading reading)) (x.forward reading.reader)
  | .forwarding [] length => .go fun _ => x.again length
  | .forwarding left length => .write left none (x.sent left length)
  | .closing => .shutdown (x.enter (.over (.ok x.total)))
  | .over outcome => .done outcome

end Inbound

/-! ## §2. From the plain stream to the connection -/

/-- Where the outbound direction stands. -/
inductive Outbound.Phase where
  | reading
  | forwarding (writing : Writing)
  | closing
  | over (outcome : Except Error Nat)

/-- **The outbound direction:** the connection's sending side, and how many
    bytes have been forwarded. -/
structure Outbound where
  writer : Writer
  draws : Draws
  total : Nat
  phase : Outbound.Phase

namespace Outbound

/-- Begin to forward. -/
def start (writer : Writer) (draws : Draws) : Outbound := ⟨writer, draws, 0, .reading⟩

/-- Go to another phase. -/
def enter (x : Outbound) (phase : Phase) : Outbound := { x with phase }

/-- Something has been read from the plain stream. -/
def forward (x : Outbound) : Arrival → Outbound
  | .data bytes => x.enter (.forwarding (.start x.writer x.draws bytes))
  | .closed => x.enter .closing
  | .fault f => x.enter (.over (.error (.network f)))

/-- A write has ended: read on. -/
def again (x : Outbound) (writer : Writer) (draws : Draws) : Except Error Nat → Outbound
  | .ok length => ⟨writer, draws, x.total + length, .reading⟩
  | .error e => ⟨writer, draws, x.total, .over (.error e)⟩

/-- **What the outbound direction does next.** -/
def act (x : Outbound) : Action Outbound (Except Error Nat) :=
  match x.phase with
  | .reading => .read relayBufferSize none x.forward
  | .forwarding writing =>
    writing.act.within (fun writing => x.enter (.forwarding writing))
      (x.again writing.writer writing.draws)
  | .closing => .shutdown (x.enter (.over (.ok x.total)))
  | .over outcome => .done outcome

end Outbound

end Masquerade
