/-
  Masquerade.Stream.Action — PROCESSES over a byte stream.

  A process is a type of states with a function that tells, for each state,
  what it does next: go on at once, read, write, sleep, shut its output
  down, or finish.  It has one input and one output, and it does not know
  what they are connected to.

  A read or write may carry a limit: an instant, and the state in which the
  process goes on if nothing happened until then.
-/
import Masquerade.Error

namespace Masquerade

/-! ## §1. What a stream answers -/

/-- What a read gives. -/
inductive Arrival where
  /-- At least one byte, and no more than there was room for. -/
  | data (bytes : Bytes)
  /-- The end of the stream. -/
  | closed
  | fault (f : StreamFault)
  deriving DecidableEq, Repr

/-- What a write gives. -/
inductive Acceptance where
  /-- This many of the bytes offered were taken. -/
  | taken (count : Nat)
  | fault (f : StreamFault)
  deriving DecidableEq, Repr

/-! ## §2. Actions -/

/-- **What a process does next.**  Instants are milliseconds on one clock. -/
inductive Action (σ α : Type) where
  /-- It has finished. -/
  | done (result : α)
  /-- It goes on at once; it may look at the clock. -/
  | go (next : Nat → σ)
  /-- It waits for at most `room` bytes. -/
  | read (room : Nat) (limit : Option (Nat × σ)) (next : Arrival → σ)
  /-- It waits until some of these bytes are taken. -/
  | write (bytes : Bytes) (limit : Option (Nat × σ)) (next : Acceptance → σ)
  /-- It waits for an instant. -/
  | sleep (wake : Nat) (next : σ)
  /-- It closes its output. -/
  | shutdown (next : σ)

namespace Action

variable {σ τ α β : Type}

/-- **A process inside another:** its states are renamed, and where it
    finishes the outer process goes on. -/
def within (f : σ → τ) (finish : α → τ) : Action σ α → Action τ β
  | done result => go fun _ => finish result
  | go next => go fun now => f (next now)
  | read room limit next => read room (limit.map fun l => (l.1, f l.2)) fun a => f (next a)
  | write bytes limit next => write bytes (limit.map fun l => (l.1, f l.2)) fun a => f (next a)
  | sleep wake next => sleep wake (f next)
  | shutdown next => shutdown (f next)

end Action

/-! ## §3. Time limits -/

/-- A running time limit: its length, and the instant at which it ends. -/
structure Deadline where
  length : Nat
  instant : Nat
  deriving DecidableEq, Repr

namespace Deadline

/-- The limit that starts now, if there is one. -/
def start (now : Nat) (timeout : Option Nat) : Option Deadline :=
  timeout.map fun length => ⟨length, now + length⟩

/-- What is reported when the limit passes. -/
def error (deadline : Deadline) : Error := .timeout deadline.length

/-- The limit of an action: its instant, and the state after it. -/
def limit {σ : Type} (deadline : Option Deadline) (expired : Error → σ) : Option (Nat × σ) :=
  deadline.map fun d => (d.instant, expired d.error)

end Deadline

end Masquerade
