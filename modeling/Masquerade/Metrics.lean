/-
  Masquerade.Metrics — COUNTERS of a running server.

  Eight counters of 64 bits that wrap around, a report of them as text, and
  two rates.

  Main results:
    * `Metrics.active_disconnect_connect` — a connection that comes and goes
      leaves no active connection behind.
-/

namespace Masquerade

/-- The counters. -/
structure Metrics where
  total : UInt64
  active : UInt64
  established : UInt64
  handshakeErrors : UInt64
  handshakeTimeouts : UInt64
  forwardErrors : UInt64
  bytesSent : UInt64
  bytesReceived : UInt64
  deriving DecidableEq, Repr, Inhabited

namespace Metrics

/-- Nothing counted yet. -/
def zero : Metrics := ⟨0, 0, 0, 0, 0, 0, 0, 0⟩

/-- What is counted. -/
inductive Event where
  | connect
  | disconnect
  | established
  | handshakeError
  | handshakeTimeout
  | forwardError
  | sent (bytes : UInt64)
  | received (bytes : UInt64)
  deriving DecidableEq, Repr

/-- Count an event. -/
def count (m : Metrics) : Event → Metrics
  | .connect => { m with total := m.total + 1, active := m.active + 1 }
  | .disconnect => { m with active := m.active - 1 }
  | .established => { m with established := m.established + 1 }
  | .handshakeError => { m with handshakeErrors := m.handshakeErrors + 1 }
  | .handshakeTimeout => { m with handshakeTimeouts := m.handshakeTimeouts + 1 }
  | .forwardError => { m with forwardErrors := m.forwardErrors + 1 }
  | .sent bytes => { m with bytesSent := m.bytesSent + bytes }
  | .received bytes => { m with bytesReceived := m.bytesReceived + bytes }

/-- A connection that comes and goes leaves no active connection behind. -/
theorem active_disconnect_connect (m : Metrics) :
    ((m.count .connect).count .disconnect).active = m.active := by
  simp [count]

/-- The counters, in the order in which they are listed. -/
def list (m : Metrics) : List UInt64 :=
  [m.total, m.active, m.established, m.handshakeErrors, m.handshakeTimeouts, m.forwardErrors,
   m.bytesSent, m.bytesReceived]

/-- The lines of the report. -/
def report (m : Metrics) (uptime : Nat) : List String :=
  ["Replicant Server Metrics",
   "========================",
   "Uptime: " ++ toString uptime ++ " seconds",
   "",
   "Connections:",
   "  Total:         " ++ toString m.total.toNat,
   "  Active:        " ++ toString m.active.toNat,
   "  Established:   " ++ toString m.established.toNat,
   "",
   "Traffic:",
   "  Sent:     " ++ toString m.bytesSent.toNat ++ " bytes",
   "  Received: " ++ toString m.bytesReceived.toNat ++ " bytes",
   "",
   "Errors:",
   "  Handshake Errors:   " ++ toString m.handshakeErrors.toNat,
   "  Handshake Timeouts: " ++ toString m.handshakeTimeouts.toNat,
   "  Forward Errors:     " ++ toString m.forwardErrors.toNat]

/-- A quotient of two counters, zero where the divisor is zero. -/
def ratio (a b : UInt64) : Float := if b = 0 then 0 else a.toFloat / b.toFloat

/-- The share of connections that completed the handshake. -/
def successRate (m : Metrics) : Float := ratio m.established m.total

/-- Bytes per second in both directions together. -/
def throughput (m : Metrics) (uptime : UInt64) : Float :=
  ratio (m.bytesSent + m.bytesReceived) uptime

end Metrics

end Masquerade
