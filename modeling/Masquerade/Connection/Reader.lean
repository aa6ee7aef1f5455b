/-
  Masquerade.Connection.Reader — THE RECEIVING SIDE of a connection.

  Without a cipher a read passes through.  With one, whole chunks are read
  off the wire and opened; what does not fit the caller's room is kept for
  the next read, and so are the bytes of a chunk that is not complete when a
  read is given up.  A chunk that carries nothing is skipped, and the time
  limit starts again.

  Main results:
    * `Reader.drain_append` — draining loses nothing.
-/
import Masquerade.Silver.Cipher
import Masquerade.Stream.Action

namespace Masquerade

/-! ## §1. State -/

/-- **The state of a receiving side.** -/
structure Reader where
  cipher : Option Cipher
  /-- The bytes of a chunk that is not complete. -/
  pending : Bytes
  /-- Plaintext that nobody has taken yet. -/
  received : Bytes
  /-- How long a read may wait, in milliseconds. -/
  timeout : Option Nat
  deriving DecidableEq, Repr

namespace Reader

/-- A receiving side that has received nothing. -/
def start (cipher : Option Cipher) : Reader := ⟨cipher, [], [], none⟩

/-- Take kept plaintext. -/
def drain (r : Reader) (room : Nat) : Bytes × Reader :=
  (r.received.take room, { r with received := r.received.drop room })

/-- Draining loses nothing. -/
theorem drain_append (r : Reader) (room : Nat) :
    (r.drain room).1 ++ (r.drain room).2.received = r.received :=
  List.take_append_drop room r.received

/-- Where there is room and something to take, something is taken. -/
theorem drain_ne_nil {r : Reader} {room : Nat} (hroom : room ≠ 0) (hkept : r.received ≠ []) :
    (r.drain room).1 ≠ [] := by
  intro hnone
  obtain hzero | hnil := List.take_eq_nil_iff.mp hnone
  · exact hroom hzero
  · exact hkept hnil

end Reader

/-! ## §2. One read -/

/-- Where a read stands. -/
inductive Reading.Phase where
  /-- About to look at what is there already. -/
  | start
  /-- Waiting for bytes that pass through. -/
  | passing (deadline : Option Deadline)
  /-- About to begin or to resume a chunk, with a new time limit. -/
  | chunk (cipher : Cipher)
  /-- Filling a chunk. -/
  | filling (cipher : Cipher) (deadline : Option Deadline)
  | over (outcome : Except Error Bytes)

/-- **A read in progress.**  No bytes as the outcome mean that the peer has
    closed its side, or that there was no room. -/
structure Reading where
  reader : Reader
  room : Nat
  phase : Reading.Phase

namespace Reading

/-- Begin to read. -/
def start (reader : Reader) (room : Nat) : Reading := ⟨reader, room, .start⟩

/-- Go to another phase. -/
def enter (r : Reading) (phase : Phase) : Reading := { r with phase }

/-- End with an error. -/
def fail (r : Reading) (e : Error) : Reading := r.enter (.over (.error e))

/-- End with kept plaintext. -/
def finish (r : Reading) : Reading :=
  let (taken, reader) := r.reader.drain r.room
  { r with reader, phase := .over (.ok taken) }

/-- Look at what is there already. -/
def begin (r : Reading) (now : Nat) : Reading :=
  if r.room = 0 then r.enter (.over (.ok []))
  else if ¬ r.reader.received.isEmpty then r.finish
  else
    match r.reader.cipher with
    | none => r.enter (.passing (Deadline.start now r.reader.timeout))
    | some cipher => r.enter (.chunk cipher)

/-- Bytes that pass through. -/
def pass (r : Reading) : Arrival → Reading
  | .data bytes => r.enter (.over (.ok bytes))
  | .closed => r.enter (.over (.ok []))
  | .fault f => r.fail (.network f)

/-- Part of a chunk. -/
def fill (r : Reading) (cipher : Cipher) (deadline : Option Deadline) : Arrival → Reading
  | .data bytes =>
    { r with
      reader := { r.reader with pending := r.reader.pending ++ bytes }
      phase := .filling cipher deadline }
  | .closed =>
    if r.reader.pending.isEmpty then r.enter (.over (.ok []))
    else r.fail (.buffer cipher.chunkSize r.reader.pending.length)
  | .fault f => r.fail (.network f)

/-- **Open a complete chunk.**  It is used up whether or not it opens. -/
def openPending (r : Reading) (cipher : Cipher) : Reading :=
  let opened := cipher.unpolish r.reader.pending
  let r := { r with reader := { r.reader with pending := [] } }
  match opened with
  | .error e => r.fail e
  | .ok [] => r.enter (.chunk cipher)
  | .ok plain => { r with reader := { r.reader with received := plain } }.finish

/-- **What a read does next.** -/
def act (r : Reading) : Action Reading (Except Error Bytes) :=
  match r.phase with
  | .start => .go r.begin
  | .passing deadline => .read r.room (Deadline.limit deadline r.fail) r.pass
  | .chunk cipher => .go fun now => r.enter (.filling cipher (Deadline.start now r.reader.timeout))
  | .filling cipher deadline =>
    match cipher.chunkSize - r.reader.pending.length with
    | 0 => .go fun _ => r.openPending cipher
    | missing => .read missing (Deadline.limit deadline r.fail) (r.fill cipher deadline)
  | .over outcome => .done outcome

end Reading

/-! ## §3. Reading an exact count -/

/-- **Reads in a row**, until there are as many bytes as asked for.  What was
    read before a failure is lost. -/
structure Collecting where
  size : Nat
  got : Bytes
  reading : Reading
  outcome : Option (Except Error Bytes)

namespace Collecting

/-- Begin to collect. -/
def start (reader : Reader) (size : Nat) : Collecting :=
  ⟨size, [], .start reader size, if size = 0 then some (.ok []) else none⟩

/-- One of the reads has ended. -/
def collect (c : Collecting) : Except Error Bytes → Collecting
  | .error e => { c with outcome := some (.error e) }
  | .ok [] => { c with outcome := some (.error (.buffer c.size c.got.length)) }
  | .ok bytes =>
    let got := c.got ++ bytes
    let reading := Reading.start c.reading.reader (c.size - got.length)
    { c with
      got, reading
      outcome := if got.length < c.size then none else some (.ok got) }

/-- What collecting does next. -/
def act (c : Collecting) : Action Collecting (Except Error Bytes) :=
  match c.outcome with
  | some outcome => .done outcome
  | none => c.reading.act.within (fun reading => { c with reading }) c.collect

end Collecting

end Masquerade
