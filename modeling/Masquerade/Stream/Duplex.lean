/-
  Masquerade.Stream.Duplex — A PIPE WITH TWO ENDS.

  Each direction holds a limited number of bytes.  A direction is closed
  when its writer closes it or either end goes away: what it holds can still
  be read, and nothing can be written to it any more.

  Main results:
    * `Pipe.length_write` — a pipe never holds more than its capacity.
-/
import Masquerade.Stream.Action

namespace Masquerade

/-! ## §1. One direction -/

/-- One direction of a pipe. -/
structure Pipe where
  held : Bytes
  capacity : Nat
  closed : Bool
  deriving DecidableEq, Repr

namespace Pipe

/-- An empty pipe. -/
def empty (capacity : Nat) : Pipe := ⟨[], capacity, false⟩

/-- Read; no answer means that the reader has to wait. -/
def read (p : Pipe) (room : Nat) : Option Arrival × Pipe :=
  if p.held.isEmpty then (if p.closed then some .closed else none, p)
  else (some (.data (p.held.take room)), { p with held := p.held.drop room })

/-- Write; no answer means that the writer has to wait. -/
def write (p : Pipe) (bytes : Bytes) : Option Acceptance × Pipe :=
  if p.closed then (some (.fault .brokenPipe), p)
  else
    let count := min (p.capacity - p.held.length) bytes.length
    if count = 0 then (none, p)
    else (some (.taken count), { p with held := p.held ++ bytes.take count })

/-- Close a direction. -/
def close (p : Pipe) : Pipe := { p with closed := true }

/-- A pipe never holds more than its capacity. -/
theorem length_write (p : Pipe) (bytes : Bytes) (h : p.held.length ≤ p.capacity) :
    (p.write bytes).2.held.length ≤ (p.write bytes).2.capacity := by
  unfold write
  split
  · exact h
  · dsimp only
    split
    · exact h
    · simp only [List.length_append, List.length_take]
      omega

end Pipe

/-! ## §2. Both directions -/

/-- The two directions between a client and a server. -/
structure Duplex where
  toServer : Pipe
  toClient : Pipe
  deriving DecidableEq, Repr

namespace Duplex

/-- A fresh pipe. -/
def empty (capacity : Nat) : Duplex := ⟨.empty capacity, .empty capacity⟩

/-- An end goes away. -/
def drop (d : Duplex) : Duplex := ⟨d.toServer.close, d.toClient.close⟩

end Duplex

end Masquerade
