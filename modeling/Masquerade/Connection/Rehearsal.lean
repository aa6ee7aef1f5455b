/-
  Masquerade.Connection.Rehearsal — CONNECTIONS ON A VIRTUAL CLOCK: opened,
  used and relayed between scripted peers or over a pipe.

  Nothing here waits for real time.  An operation that is still waiting after
  an hour is cancelled, and what it had done so far stays done.
-/
import Masquerade.Connection.Relay
import Masquerade.Stream.Schedule

namespace Masquerade

namespace Rehearsal

/-- How long an operation may take, in milliseconds. -/
def longest : Nat := 3600000

/-- How many actions a run may take; far more than an hour of waiting
    needs. -/
def fuel : Nat := 0x10000000000

/-- Run one process until it finishes or an hour has passed. -/
def run {σ α ω : Type} (act : σ → Action σ α) (ports : Ports ω) (wake : ω → Option Nat)
    (now : Nat) (s : σ) (w : ω) : Schedule.Ran σ α ω :=
  Schedule.run act ports wake (now + longest) fuel now s w

/-! ## §1. Operations -/

/-- What can be done with an open connection. -/
inductive Operation where
  | read (room : Nat)
  | readExact (size : Nat)
  | write (data : Bytes)
  | close
  | readTimeout (timeout : Option Nat)
  | writeTimeout (timeout : Option Nat)
  | sleep (milliseconds : Nat)
  deriving DecidableEq, Repr

/-- What an operation gives. -/
inductive Outcome where
  /-- There is nothing to tell. -/
  | nothing
  | read (bytes : Bytes)
  | filled (bytes : Bytes)
  | wrote (count : Nat)
  | closed
  | failed (e : Error)
  /-- It was cancelled. -/
  | stalled

/-- The outcome of a run. -/
def outcomeOf {σ α ω : Type} (success : α → Outcome) (ran : Schedule.Ran σ (Except Error α) ω) :
    Outcome :=
  match ran.stage.result? with
  | some (.ok a) => success a
  | some (.error e) => .failed e
  | none => .stalled

/-- **An open connection, its world and the clock.** -/
structure Scene (ω : Type) where
  connection : Connection
  draws : Draws
  world : ω
  now : Nat

namespace Scene

variable {ω : Type}

/-- **Perform an operation.** -/
def perform (ports : Ports ω) (wake : ω → Option Nat) (s : Scene ω) :
    Operation → Outcome × Scene ω
  | .read room =>
    let ran := run Reading.act ports wake s.now (.start s.connection.reader room) s.world
    (outcomeOf .read ran,
      { s with connection := { s.connection with reader := ran.stage.state.reader },
               world := ran.world, now := ran.now })
  | .readExact size =>
    let ran := run Collecting.act ports wake s.now (.start s.connection.reader size) s.world
    (outcomeOf .filled ran,
      { s with connection := { s.connection with reader := ran.stage.state.reading.reader },
               world := ran.world, now := ran.now })
  | .write data =>
    let ran := run Writing.act ports wake s.now (.start s.connection.writer s.draws data) s.world
    (outcomeOf .wrote ran,
      { connection := { s.connection with writer := ran.stage.state.writer },
        draws := ran.stage.state.draws, world := ran.world, now := ran.now })
  | .close =>
    let ran := run Closing.act ports wake s.now .start s.world
    (outcomeOf (fun _ => .closed) ran, { s with world := ran.world, now := ran.now })
  | .readTimeout timeout => (.nothing, { s with connection := s.connection.setReadTimeout timeout })
  | .writeTimeout timeout =>
    (.nothing, { s with connection := s.connection.setWriteTimeout timeout })
  | .sleep milliseconds => (.nothing, { s with now := s.now + milliseconds })

end Scene

/-! ## §2. Handshakes -/

/-- **Open a connection with a scripted peer.**  With a time limit the
    handshake fails when it passes, without one it may stall.  The peer and
    the time at the end are given too. -/
def openScripted (opening : Opening) (limited : Bool) (peer : Scripted) :
    Option (Except Error Connection) × Scripted × Nat :=
  let last := if limited then Opening.timeout else longest
  let ran := Schedule.run Opening.act .scripted Scripted.wake last fuel 0 opening peer
  let result := ran.stage.result?.orElse fun _ => if limited then some Opening.timedOut else none
  (result.map (·.map .ofCipher), ran.world, ran.now)

/-- One end of a pipe during the handshake; an end that fails goes away. -/
def opener (ports : Ports Duplex) (limit : Option Nat) :
    Schedule.Side Opening (Except Error (Option Cipher)) Duplex where
  act := Opening.act
  ports := ports
  limit := limit.map fun instant => (instant, Opening.timedOut)
  leave := fun result world =>
    match result with
    | .ok _ => world
    | .error _ => world.drop
  endsBoth := fun _ => false

/-- The state of both ends during the handshake. -/
abbrev Meeting := Schedule.Joint Opening (Except Error (Option Cipher)) Opening
  (Except Error (Option Cipher)) Duplex

/-- **Open both ends of a pipe.** -/
def openPair (client server : Opening) (capacity : Nat) : Meeting :=
  Schedule.runBoth (opener .clientEnd none) (opener .serverEnd (some Opening.timeout))
    (fun _ => []) longest fuel (.start client server (.empty capacity) 0)

/-! ## §3. Relays -/

/-- A failure ends both directions of a relay. -/
def endsRelay : Except Error Nat → Bool
  | .ok _ => false
  | .error _ => true

/-- One direction of a relay. -/
def direction {σ : Type} (act : σ → Action σ (Except Error Nat))
    (ports : Ports (Scripted × Scripted)) :
    Schedule.Side σ (Except Error Nat) (Scripted × Scripted) where
  act := act
  ports := ports
  limit := none
  leave := fun _ world => world
  endsBoth := endsRelay

/-- How a relay ended. -/
inductive RelayOutcome where
  /-- Both directions ended: how many bytes went in and out. -/
  | over (received sent : Nat)
  | failed (e : Error)
  | stalled

/-- **Relay between a connection and a plain stream**, both with scripted
    peers.  The peers and the time at the end are given too. -/
def relay (connection : Connection) (draws : Draws) (peer plain : Scripted) (now : Nat) :
    RelayOutcome × Scripted × Scripted × Nat :=
  let (reader, writer) := connection.split
  let joint := Schedule.runBoth
    (direction Inbound.act .across) (direction Outbound.act .back)
    (fun world => [world.1.wake, world.2.wake]) (now + longest) fuel
    (.start (.start reader) (.start writer draws) (peer, plain) now)
  let outcome : RelayOutcome :=
    match joint.left.result?, joint.right.result? with
    | some (.error e), _ => .failed e
    | _, some (.error e) => .failed e
    | some (.ok received), some (.ok sent) => .over received sent
    | _, _ => .stalled
  (outcome, joint.world.1, joint.world.2, joint.now)

end Rehearsal

end Masquerade
