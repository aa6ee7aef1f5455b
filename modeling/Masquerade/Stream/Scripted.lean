/-
  Masquerade.Stream.Scripted — A SCRIPTED PEER, for running processes without
  a network.

  The script says what arrives and when, how much one read or write moves at
  most, and what happens to writes beyond a total.  Everything that moves is
  logged.

  Main results:
    * `Scripted.ne_nil_of_serve` — what arrives has at least one byte.
-/
import Masquerade.Stream.Action

namespace Masquerade

/-! ## §1. Scripts -/

/-- One thing that the peer does. -/
inductive Item where
  /-- It sends these bytes. -/
  | data (bytes : Bytes)
  /-- It closes its side, for ever. -/
  | closed
  /-- It breaks the connection, for ever. -/
  | reset
  /-- It sends nothing for so long, counted from the first read that gets
      here. -/
  | wait (milliseconds : Nat)
  deriving DecidableEq, Repr

/-- What becomes of writes beyond the total. -/
inductive OnLimit where
  /-- They wait for ever. -/
  | stall
  | error
  /-- They take nothing. -/
  | zero
  deriving DecidableEq, Repr

/-- What is logged. -/
inductive EventKind where
  | read | write | shutdown
  deriving DecidableEq, Repr

/-- A logged event. -/
structure Event where
  kind : EventKind
  bytes : Bytes
  instant : Nat
  deriving DecidableEq, Repr

/-- **A scripted peer.** -/
structure Scripted where
  incoming : List Item
  /-- The end of the wait at the front of the script, once it has begun. -/
  awake : Option Nat
  maxRead : Option Nat
  maxWrite : Option Nat
  /-- How many bytes can be written in total. -/
  writeLimit : Option Nat
  onLimit : OnLimit
  written : Nat
  /-- Newest first. -/
  log : List Event
  deriving Repr

namespace Scripted

/-- A number, no larger than a limit if there is one. -/
def atMost (limit : Option Nat) (n : Nat) : Nat :=
  match limit with
  | some limit => min limit n
  | none => n

/-! ## §2. Reading and writing -/

/-- The fault of a broken connection. -/
def broken : StreamFault := .told "scripted reset"

/-- What a script gives to a read: an answer unless it has to wait, and the
    rest of the script.  A read that has no room takes data for the end. -/
def serve (now room : Nat) : (script : List Item) → (awake : Option Nat) →
    Option Arrival × List Item × Option Nat
  | [], _ => (none, [], none)
  | .data [] :: rest, _ => serve now room rest none
  | .data (b :: bytes) :: rest, _ =>
    if room = 0 then (some .closed, .data (b :: bytes) :: rest, none)
    else
      let left := (b :: bytes).drop room
      (some (.data ((b :: bytes).take room)), if left.isEmpty then rest else .data left :: rest,
        none)
  | .closed :: rest, _ => (some .closed, .closed :: rest, none)
  | .reset :: rest, _ => (some (.fault broken), .reset :: rest, none)
  | .wait milliseconds :: rest, awake =>
    let instant := awake.getD (now + milliseconds)
    if instant ≤ now then serve now room rest none
    else (none, .wait milliseconds :: rest, some instant)

/-- **What arrives has at least one byte.** -/
theorem ne_nil_of_serve {now room : Nat} {script : List Item} {awake : Option Nat} {bytes : Bytes}
    (h : (serve now room script awake).1 = some (.data bytes)) : bytes ≠ [] := by
  induction script generalizing awake with
  | nil => simp [serve] at h
  | cons item rest ih =>
    cases item with
    | closed => simp [serve] at h
    | reset => simp [serve] at h
    | wait milliseconds =>
      simp only [serve] at h
      split at h
      · exact ih h
      · simp at h
    | data held =>
      cases held with
      | nil => exact ih h
      | cons b held =>
        simp only [serve] at h
        split at h
        · simp at h
        · rename_i hroom
          simp only [Option.some.injEq, Arrival.data.injEq] at h
          cases room with
          | zero => exact absurd rfl hroom
          | succ room => simp [← h]

/-- Add to the log. -/
def note (s : Scripted) (kind : EventKind) (bytes : Bytes) (now : Nat) : Scripted :=
  { s with log := ⟨kind, bytes, now⟩ :: s.log }

/-- **Read;** no answer means that the reader has to wait. -/
def read (s : Scripted) (now room : Nat) : Option Arrival × Scripted :=
  let (answer, incoming, awake) := serve now (atMost s.maxRead room) s.incoming s.awake
  let s := { s with incoming, awake }
  (answer, match answer with
    | some (.data bytes) => s.note .read bytes now
    | _ => s)

/-- How many of these bytes may still be written. -/
def allowance (s : Scripted) (bytes : Bytes) : Nat :=
  match s.writeLimit with
  | some limit => min (limit - s.written) bytes.length
  | none => bytes.length

/-- **Write;** no answer means that the writer has to wait. -/
def write (s : Scripted) (now : Nat) (bytes : Bytes) : Option Acceptance × Scripted :=
  if s.allowance bytes = 0 then
    match s.onLimit with
    | .stall => (none, s)
    | .error => (some (.fault broken), s)
    | .zero => (some (.taken 0), s)
  else
    let count := atMost s.maxWrite (s.allowance bytes)
    (some (.taken count), { s with written := s.written + count }.note .write (bytes.take count) now)

/-- Close the output. -/
def shutdown (s : Scripted) (now : Nat) : Scripted := s.note .shutdown [] now

/-- The peer does more at the end of its script. -/
def extend (s : Scripted) (items : List Item) : Scripted :=
  { s with incoming := s.incoming ++ items }

/-! ## §3. Looking at a peer -/

/-- What an item sends. -/
def itemBytes : Item → Bytes
  | .data bytes => bytes
  | _ => []

/-- How many bytes of the script have not been read. -/
def unread (s : Scripted) : Nat := (s.incoming.flatMap itemBytes).length

/-- Put an event in front of later ones, merged with the next if they have
    one kind and one instant. -/
def mergeEvent (event : Event) : List Event → List Event
  | [] => [event]
  | next :: rest =>
    if event.kind = next.kind ∧ event.instant = next.instant then
      { event with bytes := event.bytes ++ next.bytes } :: rest
    else event :: next :: rest

/-- Events in order, merged. -/
def mergeEvents (events : List Event) : List Event := events.foldr mergeEvent []

/-- **What has moved**, oldest first. -/
def events (s : Scripted) : List Event := mergeEvents s.log.reverse

/-- All bytes written, as far as the log goes. -/
def output (s : Scripted) : Bytes :=
  (s.log.reverse.filter (·.kind = .write)).flatMap Event.bytes

/-- When something may arrive next, if that is known. -/
def wake (s : Scripted) : Option Nat := s.awake

/-- Forget what has moved. -/
def clear (s : Scripted) : Scripted := { s with log := [] }

end Scripted

end Masquerade
