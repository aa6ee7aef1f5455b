/-
  Masquerade.Connection.Writer — THE SENDING SIDE of a connection.

  Without a cipher a write passes through, with one it is sealed into whole
  chunks.  A write that does not complete leaves the wire in the middle of
  something, so nothing can be written after it.

  Main results:
    * `Writing.begin_poisoned` — after an unfinished write the next one
      fails and touches nothing.
-/
import Masquerade.Silver.Cipher
import Masquerade.Stream.Action

namespace Masquerade

/-! ## §1. State -/

/-- **The state of a sending side.** -/
structure Writer where
  cipher : Option Cipher
  /-- How long a write may take, in milliseconds. -/
  timeout : Option Nat
  /-- Whether a write has begun that did not complete. -/
  poisoned : Bool
  deriving DecidableEq, Repr

namespace Writer

/-- A sending side that has sent nothing. -/
def start (cipher : Option Cipher) : Writer := ⟨cipher, none, false⟩

/-- What goes onto the wire for some data. -/
def wireForm (w : Writer) (data : Bytes) (draws : Draws) : Bytes × Draws :=
  match w.cipher with
  | none => (data, draws)
  | some cipher => cipher.polish data draws

end Writer

/-! ## §2. One write -/

/-- Where a write stands. -/
inductive Writing.Phase where
  /-- About to begin. -/
  | start (data : Bytes)
  /-- Sending the rest of the wire form of so many bytes. -/
  | sending (left : Bytes) (length : Nat) (deadline : Option Deadline)
  | over (outcome : Except Error Nat)

/-- **A write in progress.**  Its outcome is how many bytes were written. -/
structure Writing where
  writer : Writer
  draws : Draws
  phase : Writing.Phase

namespace Writing

/-- Begin to write. -/
def start (writer : Writer) (draws : Draws) (data : Bytes) : Writing :=
  ⟨writer, draws, .start data⟩

/-- Go to another phase. -/
def enter (w : Writing) (phase : Phase) : Writing := { w with phase }

/-- End with an error. -/
def fail (w : Writing) (e : Error) : Writing := w.enter (.over (.error e))

/-- Seal the data and begin to send it. -/
def begin (w : Writing) (data : Bytes) (now : Nat) : Writing :=
  if w.writer.poisoned then w.fail (.network .unfinishedWrite)
  else
    let (wire, draws) := w.writer.wireForm data w.draws
    { writer := { w.writer with poisoned := true }
      draws
      phase := .sending wire data.length (Deadline.start now w.writer.timeout) }

/-- After an unfinished write the next one fails and touches nothing. -/
theorem begin_poisoned (w : Writing) (data : Bytes) (now : Nat) (h : w.writer.poisoned = true) :
    w.begin data now = w.fail (.network .unfinishedWrite) := by
  simp [begin, h]

/-- Part of the wire form has been taken, or nothing more can be. -/
def sent (w : Writing) (left : Bytes) (length : Nat) (deadline : Option Deadline) :
    Acceptance → Writing
  | .taken 0 => w.fail (.network .nothingWritten)
  | .taken count => w.enter (.sending (left.drop count) length deadline)
  | .fault f => w.fail (.network f)

/-- Everything is written. -/
def finish (w : Writing) (length : Nat) : Writing :=
  { w with writer := { w.writer with poisoned := false }, phase := .over (.ok length) }

/-- **What a write does next.** -/
def act (w : Writing) : Action Writing (Except Error Nat) :=
  match w.phase with
  | .start data => .go (w.begin data)
  | .sending [] length _ => .go fun _ => w.finish length
  | .sending left length deadline =>
    .write left (Deadline.limit deadline w.fail) (w.sent left length deadline)
  | .over outcome => .done outcome

end Writing

end Masquerade
