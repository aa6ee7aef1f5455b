/-
  Masquerade.Proofs.Delivery — FROM ONE END OF A CONNECTION TO THE OTHER.

  A channel is a sending end, the wire, and a receiving end, under the same
  state of polish.  Its owner writes when no write is in progress and closes
  the sending end in the end; its peer reads into room of any size.  The wire
  hands over as many bytes as it likes, and a read may run into its time
  limit or be cancelled at any moment, and the receiving end be split
  between reads.

  One equation carries everything (`Channel.Exact`): what was written is
  what was delivered, what is owed by the receiving end for the bytes on
  their way, and what a write has still to seal.

  Main results:
    * `Channel.Exact.step` — every step keeps the equation.
    * `Channel.delivers_exactly` — the byte stream is delivered exactly.
-/
import Masquerade.Connection.Basic
import Masquerade.Proofs.Reception
import Masquerade.Proofs.Transmission

namespace Masquerade

/-! ## §1. Ends -/

/-- **One end of a connection**, whole or split into its two sides. -/
inductive Endpoint where
  | whole (connection : Connection)
  | halves (reader : Reader) (writer : Writer)

namespace Endpoint

def reader : Endpoint → Reader
  | .whole c => c.reader
  | .halves reader _ => reader

def writer : Endpoint → Writer
  | .whole c => c.writer
  | .halves _ writer => writer

/-- The end after a read. -/
def setReader (e : Endpoint) (reader : Reader) : Endpoint :=
  match e with
  | .whole c => .whole { c with reader }
  | .halves _ writer => .halves reader writer

/-- The end after a write. -/
def setWriter (e : Endpoint) (writer : Writer) : Endpoint :=
  match e with
  | .whole c => .whole { c with writer }
  | .halves reader _ => .halves reader writer

/-- Split an end, once. -/
def split : Endpoint → Endpoint
  | .whole c => .halves c.split.1 c.split.2
  | .halves reader writer => .halves reader writer

@[simp] theorem reader_setReader (e : Endpoint) (reader : Reader) :
    (e.setReader reader).reader = reader := by
  cases e <;> rfl

@[simp] theorem writer_setWriter (e : Endpoint) (writer : Writer) :
    (e.setWriter writer).writer = writer := by
  cases e <;> rfl

@[simp] theorem writer_setReader (e : Endpoint) (reader : Reader) :
    (e.setReader reader).writer = e.writer := by
  cases e <;> rfl

@[simp] theorem reader_split (e : Endpoint) : e.split.reader = e.reader := by
  cases e <;> rfl

@[simp] theorem writer_split (e : Endpoint) : e.split.writer = e.writer := by
  cases e <;> rfl

end Endpoint

/-! ## §2. Channels -/

/-- **One direction of a connection**, with a record of what was written and
    of what the reads returned. -/
structure Channel where
  sender : Endpoint
  draws : Draws
  /-- The write in progress. -/
  writing : Option Writing
  /-- Whether the sending end has been closed. -/
  closed : Bool
  wire : Bytes
  receiver : Endpoint
  /-- The read in progress. -/
  reading : Option Reading
  /-- The data of all writes, in order. -/
  written : Bytes
  /-- What the reads have returned, in order. -/
  outcomes : List (Except Error Bytes)

namespace Channel

/-- A channel between two connections that agreed on this state of polish. -/
def start (cipher : Option Cipher) (draws : Draws) : Channel where
  sender := .whole (.ofCipher cipher)
  draws := draws
  writing := none
  closed := false
  wire := []
  receiver := .whole (.ofCipher cipher)
  reading := none
  written := []
  outcomes := []

/-- **What has been delivered:** the bytes of the successful reads. -/
def delivered (ch : Channel) : Bytes := ch.outcomes.flatMap Reading.returned

/-- **What the sending end does.** -/
inductive Sends (ch : Channel) : Channel → Prop where
  | begin (data : Bytes) (hidle : ch.writing = none) (hopen : ch.closed = false) :
      Sends ch
        { ch with
          writing := some (.start ch.sender.writer ch.draws data)
          written := ch.written ++ data }
  | move {writing : Writing} {w : Wired Writing} (hwriting : ch.writing = some writing)
      (hadvance : Advance Writing.act false ⟨writing, [], ch.wire⟩ w) :
      Sends ch { ch with writing := some w.state, wire := w.output }
  | finish {writing : Writing} {outcome : Except Error Nat} (hwriting : ch.writing = some writing)
      (hover : writing.phase = .over outcome) :
      Sends ch
        { ch with
          sender := ch.sender.setWriter writing.writer
          draws := writing.draws
          writing := none }
  | split (hidle : ch.writing = none) : Sends ch { ch with sender := ch.sender.split }
  | close (hidle : ch.writing = none) : Sends ch { ch with closed := true }

/-- **What the receiving end does** when nothing comes between. -/
inductive Reads (ch : Channel) : Channel → Prop where
  | begin (room : Nat) (hidle : ch.reading = none) (hroom : room ≠ 0) :
      Reads ch { ch with reading := some (.start ch.receiver.reader room) }
  | move {reading : Reading} {w : Wired Reading} (hreading : ch.reading = some reading)
      (hadvance : Advance Reading.act ch.closed ⟨reading, ch.wire, []⟩ w) :
      Reads ch { ch with reading := some w.state, wire := w.input }
  | finish {reading : Reading} {outcome : Except Error Bytes}
      (hreading : ch.reading = some reading) (hover : reading.phase = .over outcome) :
      Reads ch
        { ch with
          receiver := ch.receiver.setReader reading.reader
          reading := none
          outcomes := ch.outcomes ++ [outcome] }

/-- **What comes between:** time limits, cancelled reads, and the receiving
    end being given a time limit or split. -/
inductive Interrupts (ch : Channel) : Channel → Prop where
  | expire {reading reading' : Reading} (hreading : ch.reading = some reading)
      (hexpires : Expires Reading.act reading reading') :
      Interrupts ch { ch with reading := some reading' }
  | cancel {reading : Reading} (hreading : ch.reading = some reading)
      (hlive : ∀ outcome, reading.phase ≠ .over outcome) :
      Interrupts ch
        { ch with receiver := ch.receiver.setReader reading.reader, reading := none }
  | limit (timeout : Option Nat) {connection : Connection} (hidle : ch.reading = none)
      (hwhole : ch.receiver = .whole connection) :
      Interrupts ch { ch with receiver := .whole (connection.setReadTimeout timeout) }
  | split (hidle : ch.reading = none) : Interrupts ch { ch with receiver := ch.receiver.split }

/-- One step of a channel. -/
def Step (ch ch' : Channel) : Prop := Sends ch ch' ∨ Reads ch ch' ∨ Interrupts ch ch'

/-! ## §3. The equation -/

/-- The data that the write in progress has still to seal. -/
def unsealed (ch : Channel) : Bytes := ch.writing.elim [] (·.phase.unsealed)

/-- The sealed bytes that the write in progress has still to send. -/
def unsent (ch : Channel) : Bytes := ch.writing.elim [] (·.phase.unsent)

/-- The bytes on their way: on the wire, and still to be sent. -/
def coming (ch : Channel) : Bytes := ch.wire ++ ch.unsent

/-- What a receiving end owes, between reads or during one. -/
def Owed (cipher : Option Cipher) (receiver : Endpoint) (reading : Option Reading)
    (coming data : Bytes) : Prop :=
  match reading with
  | none => receiver.reader.Owes cipher coming data
  | some reading => reading.Owes cipher coming data

theorem Owed.more {cipher : Option Cipher} {receiver : Endpoint} {reading : Option Reading}
    {coming data more extra : Bytes} (h : Owed cipher receiver reading coming data)
    (hmore : Carries cipher more extra) :
    Owed cipher receiver reading (coming ++ more) (data ++ extra) := by
  cases reading with
  | none => exact Reader.Owes.more h hmore
  | some reading => exact Reading.Owes.more h hmore

/-- The sending end can write, or is writing. -/
def CanSend (cipher : Option Cipher) (ch : Channel) : Prop :=
  match ch.writing with
  | none => ch.sender.writer.cipher = cipher ∧ ch.sender.writer.poisoned = false
  | some writing => writing.Sound cipher

/-- The end of the stream has been seen: a read has returned it, or is about
    to. -/
def SeenEnd (ch : Channel) : Prop :=
  .ok [] ∈ ch.outcomes ∨ ∃ reading, ch.reading = some reading ∧ reading.phase = .over (.ok [])

/-- **Nothing is lost, made up or out of place.** -/
structure Exact (cipher : Option Cipher) (ch : Channel) : Prop where
  sender : ch.CanSend cipher
  closed : ch.closed = true → ch.writing = none
  owes : ∃ data, ch.written = ch.delivered ++ data ++ ch.unsealed
    ∧ Owed cipher ch.receiver ch.reading ch.coming data
  ended : ch.SeenEnd → ch.closed = true ∧ ch.delivered = ch.written
  timeouts : ∀ e, .error e ∈ ch.outcomes → ∃ milliseconds, e = .timeout milliseconds

theorem exact_start (cipher : Option Cipher) (draws : Draws) :
    (start cipher draws).Exact cipher where
  sender := ⟨rfl, rfl⟩
  closed := fun _ => rfl
  owes := ⟨[], rfl, Reader.Owes.of_start cipher⟩
  ended := by
    rintro (hmem | ⟨reading, hnone, -⟩)
    · exact absurd hmem List.not_mem_nil
    · cases hnone
  timeouts := fun _ hmem => absurd hmem List.not_mem_nil

section

variable {cipher : Option Cipher} {ch ch' : Channel}

/-- With no write in progress, nothing is left to seal or to send. -/
theorem unsent_of_idle (hidle : ch.writing = none) : ch.unsent = [] ∧ ch.unsealed = [] := by
  unfold unsent unsealed
  rw [hidle]
  exact ⟨rfl, rfl⟩

/-- **What the sending end does keeps the equation.** -/
theorem Exact.sends (h : ch.Exact cipher) (hstep : Sends ch ch') : ch'.Exact cipher := by
  obtain ⟨data, hwritten, howes⟩ := h.owes
  have hsender := h.sender
  unfold CanSend at hsender
  cases hstep with
  | begin extra hidle hopen =>
      obtain ⟨hsent, hsealed⟩ := unsent_of_idle hidle
      rw [hidle] at hsender
      unfold coming at howes
      rw [hsent] at howes
      rw [hsealed, List.append_nil] at hwritten
      refine ⟨⟨hsender.1, hsender.2⟩, ?_, ⟨data, ?_, ?_⟩, ?_, h.timeouts⟩
      · intro hshut
        rw [hopen] at hshut
        cases hshut
      · show ch.written ++ extra = ch.delivered ++ data ++ extra
        rw [hwritten]
      · exact howes
      · intro hseen
        have hshut := (h.ended hseen).1
        rw [hopen] at hshut
        cases hshut
  | @move writing w hwriting hadvance =>
      rw [hwriting] at hsender
      unfold unsealed at hwritten
      unfold coming unsent at howes
      rw [hwriting] at hwritten howes
      have hmove := Writing.move_of_advance hadvance
      -- what the move seals becomes owed, whatever is sent of it at once
      obtain ⟨more, extra, hcarries, hsent, hsealed⟩ := Writing.carried_of_move hsender hmove
      have hsealed : writing.phase.unsealed = extra ++ w.state.phase.unsealed := hsealed
      refine ⟨Writing.sound_of_move hsender hmove, ?_, ⟨data ++ extra, ?_, ?_⟩, h.ended, h.timeouts⟩
      · intro hshut
        have hidle := h.closed hshut
        rw [hwriting] at hidle
        cases hidle
      · show ch.written = ch.delivered ++ (data ++ extra) ++ w.state.phase.unsealed
        rw [hwritten]
        show ch.delivered ++ data ++ writing.phase.unsealed = _
        rw [hsealed, List.append_assoc, List.append_assoc, List.append_assoc]
      · show Owed cipher ch.receiver ch.reading (w.output ++ w.state.phase.unsent) (data ++ extra)
        rw [hsent]
        exact howes.more hcarries
  | @finish writing outcome hwriting hover =>
      rw [hwriting] at hsender
      unfold unsealed at hwritten
      unfold coming unsent at howes
      rw [hwriting] at hwritten howes
      dsimp only [Option.elim] at hwritten howes
      rw [hover] at hwritten howes
      obtain ⟨hpolish, hclean⟩ := hsender
      rw [hover] at hclean
      cases outcome with
      | error e => exact absurd hclean id
      | ok length =>
          refine ⟨⟨?_, ?_⟩, fun _ => rfl, ⟨data, hwritten, howes⟩, h.ended, h.timeouts⟩
          · rw [Endpoint.writer_setWriter]
            exact hpolish
          · rw [Endpoint.writer_setWriter]
            exact hclean
  | split hidle =>
      refine ⟨?_, h.closed, h.owes, h.ended, h.timeouts⟩
      rw [hidle] at hsender
      unfold CanSend
      dsimp only
      rw [hidle, Endpoint.writer_split]
      exact hsender
  | close hidle =>
      refine ⟨h.sender, fun _ => hidle, h.owes, ?_, h.timeouts⟩
      intro hseen
      exact ⟨rfl, (h.ended hseen).2⟩

/-- What a read has returned is delivered. -/
theorem delivered_finish (ch : Channel) (receiver : Endpoint) (outcome : Except Error Bytes) :
    Channel.delivered
        { ch with receiver, reading := none, outcomes := ch.outcomes ++ [outcome] }
      = ch.delivered ++ Reading.returned outcome := by
  unfold delivered
  rw [List.flatMap_append, List.flatMap_singleton]

/-- **What the receiving end does keeps the equation.** -/
theorem Exact.reads (h : ch.Exact cipher) (hstep : Reads ch ch') : ch'.Exact cipher := by
  obtain ⟨data, hwritten, howes⟩ := h.owes
  cases hstep with
  | begin room hidle hroom =>
      rw [hidle] at howes
      refine ⟨h.sender, h.closed, ⟨data, hwritten, Reading.owes_start howes hroom⟩, ?_, h.timeouts⟩
      rintro (hmem | ⟨reading, hreading, hover⟩)
      · exact h.ended (.inl hmem)
      · injection hreading with hreading
        subst hreading
        cases hover
  | @move reading w hreading hadvance =>
      rw [hreading] at howes
      have howes : reading.Owes cipher (ch.wire ++ ch.unsent) data := howes
      -- a closed sending end has nothing left to send
      have htail : ch.closed = true → ch.unsent = [] := fun hshut =>
        (unsent_of_idle (h.closed hshut)).1
      obtain ⟨hnext, hend⟩ :=
        @Reading.owes_of_move _ _ ⟨reading, ch.wire, []⟩ _ _ _ howes htail
          (Reading.move_of_advance hadvance)
      refine ⟨h.sender, h.closed, ⟨data, hwritten, hnext⟩, ?_, h.timeouts⟩
      rintro (hmem | ⟨reading', hreading', hover⟩)
      · exact h.ended (.inl hmem)
      · injection hreading' with hreading'
        subst hreading'
        obtain ⟨hshut, rfl⟩ := hend hover
        obtain ⟨-, hsealed⟩ := unsent_of_idle (h.closed hshut)
        rw [hsealed, List.append_nil, List.append_nil] at hwritten
        exact ⟨hshut, hwritten.symm⟩
  | @finish reading outcome hreading hover =>
      rw [hreading] at howes
      obtain ⟨-, hfits, rest, hdata, hrest⟩ := howes
      rw [hover] at hfits hdata
      have hdata : data = Reading.returned outcome ++ rest := hdata
      have hwritten' : ch.written
          = (ch.delivered ++ Reading.returned outcome) ++ rest ++ ch.unsealed := by
        rw [hwritten, hdata, ← List.append_assoc ch.delivered]
      refine ⟨h.sender, h.closed, ⟨rest, ?_, ?_⟩, ?_, ?_⟩
      · rw [delivered_finish]
        exact hwritten'
      · show (ch.receiver.setReader reading.reader).reader.Owes cipher ch.coming rest
        rw [Endpoint.reader_setReader]
        exact hrest
      · intro hseen
        have hbefore : ch.SeenEnd := by
          obtain hmem | ⟨_, hnone, -⟩ := hseen
          · obtain hmem | hmem := List.mem_append.mp hmem
            · exact .inl hmem
            · cases List.mem_singleton.mp hmem
              exact .inr ⟨reading, hreading, hover⟩
          · cases hnone
        obtain ⟨hshut, hall⟩ := h.ended hbefore
        refine ⟨hshut, ?_⟩
        rw [delivered_finish]
        -- everything was delivered before, so this read returned nothing
        have hlength := congrArg List.length hwritten'
        rw [← hall, List.length_append, List.length_append, List.length_append] at hlength
        have hnone : Reading.returned outcome = [] := List.length_eq_zero_iff.mp (by omega)
        rw [hnone, List.append_nil]
        exact hall
      · intro e hmem
        obtain hmem | hmem := List.mem_append.mp hmem
        · exact h.timeouts e hmem
        · cases List.mem_singleton.mp hmem
          exact hfits

/-- **What comes between keeps the equation.** -/
theorem Exact.interrupts (h : ch.Exact cipher) (hstep : Interrupts ch ch') :
    ch'.Exact cipher := by
  obtain ⟨data, hwritten, howes⟩ := h.owes
  cases hstep with
  | @expire reading reading' hreading hexpires =>
      rw [hreading] at howes
      obtain ⟨hnext, hne⟩ := Reading.owes_of_expires howes hexpires
      refine ⟨h.sender, h.closed, ⟨data, hwritten, hnext⟩, ?_, h.timeouts⟩
      rintro (hmem | ⟨_, hsome, hover⟩)
      · exact h.ended (.inl hmem)
      · injection hsome with hsome
        subst hsome
        exact absurd hover hne
  | @cancel reading hreading hlive =>
      rw [hreading] at howes
      refine ⟨h.sender, h.closed, ⟨data, hwritten, ?_⟩, ?_, h.timeouts⟩
      · show (ch.receiver.setReader reading.reader).reader.Owes cipher ch.coming data
        rw [Endpoint.reader_setReader]
        exact Reading.Owes.of_cancel howes hlive
      · rintro (hmem | ⟨_, hnone, -⟩)
        · exact h.ended (.inl hmem)
        · cases hnone
  | @limit timeout connection hidle hwhole =>
      rw [hidle, hwhole] at howes
      refine ⟨h.sender, h.closed, ⟨data, hwritten, ?_⟩, h.ended, h.timeouts⟩
      show Owed cipher _ ch.reading ch.coming data
      rw [hidle]
      exact ⟨howes.polish, howes.whole, howes.carries⟩
  | split hidle =>
      rw [hidle] at howes
      refine ⟨h.sender, h.closed, ⟨data, hwritten, ?_⟩, h.ended, h.timeouts⟩
      show Owed cipher ch.receiver.split ch.reading ch.coming data
      rw [hidle]
      show ch.receiver.split.reader.Owes cipher ch.coming data
      rw [Endpoint.reader_split]
      exact howes

/-- **Every step keeps the equation.** -/
theorem Exact.step (h : ch.Exact cipher) (hstep : Step ch ch') : ch'.Exact cipher := by
  obtain hsends | hreads | hinterrupts := hstep
  · exact h.sends hsends
  · exact h.reads hreads
  · exact h.interrupts hinterrupts

end

/-! ## §4. Reading on -/

/-- **The effort of reading on:** what is not delivered yet, what is on the
    wire, and what the receiving end has begun. -/
def effort (ch : Channel) : Nat :=
  10 * (ch.written.length - ch.delivered.length) + 2 * ch.wire.length
    + ch.reading.elim (6 + ch.receiver.reader.pending.length) Reading.effort

/-- The end of the stream has been read, after these outcomes. -/
def Exhausted (before : List (Except Error Bytes)) (ch : Channel) : Prop :=
  ch.delivered = ch.written ∧ ∃ more, ch.outcomes = before ++ more ++ [.ok []]

section

variable {cipher : Option Cipher} {ch ch' : Channel} {before : List (Except Error Bytes)}

/-- Reading on adds outcomes, and nothing else is written or opened. -/
theorem Reads.frame (hstep : Reads ch ch') :
    ch'.closed = ch.closed ∧ ch'.written = ch.written
      ∧ ∃ more, ch'.outcomes = ch.outcomes ++ more := by
  cases hstep with
  | begin room _ _ => exact ⟨rfl, rfl, [], (List.append_nil _).symm⟩
  | move _ _ => exact ⟨rfl, rfl, [], (List.append_nil _).symm⟩
  | @finish reading outcome _ _ => exact ⟨rfl, rfl, [outcome], rfl⟩

/-- **Reading on exhausts a closed channel, or brings its end nearer.** -/
theorem Exact.exhausted_or_less (h : ch.Exact cipher)
    (hbefore : ∃ more, ch.outcomes = before ++ more) (hstep : Reads ch ch') :
    ch'.Exhausted before ∨ ch'.effort < ch.effort := by
  have hnext := h.reads hstep
  obtain ⟨data, hwritten, howes⟩ := h.owes
  unfold effort
  cases hstep with
  | begin room hidle hroom =>
      right
      rw [hidle]
      show _ + 2 * ch.wire.length + (5 + ch.receiver.reader.pending.length)
        < _ + 2 * ch.wire.length + (6 + ch.receiver.reader.pending.length)
      show 10 * (ch.written.length - ch.delivered.length) + _ + _ < _
      omega
  | @move reading w hreading hadvance =>
      right
      rw [hreading] at howes ⊢
      have howes : reading.Owes cipher (ch.wire ++ ch.unsent) data := howes
      have htail : ch.closed = true → ch.unsent = [] := fun hshut =>
        (unsent_of_idle (h.closed hshut)).1
      have hless := @Reading.effort_of_move _ _ ⟨reading, ch.wire, []⟩ _ _ _ howes htail
        (Reading.move_of_advance hadvance)
      have hless : w.state.effort + 2 * w.input.length
          < reading.effort + 2 * ch.wire.length := hless
      show 10 * (ch.written.length - ch.delivered.length) + 2 * w.input.length + w.state.effort
        < _ + _ + reading.effort
      omega
  | @finish reading outcome hreading hover =>
      obtain ⟨more, hmore⟩ := hbefore
      obtain ⟨rest, hwritten', -⟩ := hnext.owes
      have hlength := congrArg List.length hwritten'
      rw [delivered_finish, List.length_append, List.length_append, List.length_append] at hlength
      have hlength : ch.written.length = ch.delivered.length
          + (Reading.returned outcome).length + rest.length + ch.unsealed.length := hlength
      rw [hreading, delivered_finish, List.length_append]
      show _ ∨ 10 * (ch.written.length - (ch.delivered.length + (Reading.returned outcome).length))
          + 2 * ch.wire.length
          + (6 + (ch.receiver.setReader reading.reader).reader.pending.length)
        < _ + _ + (reading.phase.effort + reading.reader.pending.length)
      rw [Endpoint.reader_setReader, hover]
      match outcome with
      | .ok [] =>
          left
          refine ⟨(hnext.ended (.inl ?_)).2, more, ?_⟩
          · exact List.mem_append_right _ List.mem_cons_self
          · show ch.outcomes ++ [.ok []] = _
            rw [hmore]
      | .ok (byte :: bytes) =>
          right
          have hone : (Reading.returned (.ok (byte :: bytes))).length = bytes.length + 1 := rfl
          show _ < _ + _ + (4 + _)
          rw [hone] at hlength ⊢
          omega
      | .error e =>
          right
          have hnone : (Reading.returned (.error e)).length = 0 := rfl
          show _ < _ + _ + (7 + _)
          rw [hnone]
          omega

/-- Whoever reads on in a channel always can. -/
theorem Exact.exists_reads (h : ch.Exact cipher) (hclosed : ch.closed = true) :
    ∃ ch', Reads ch ch' := by
  obtain ⟨data, -, howes⟩ := h.owes
  cases hreading : ch.reading with
  | none => exact ⟨_, .begin 1 hreading Nat.one_ne_zero⟩
  | some reading =>
      rw [hreading] at howes
      by_cases hover : ∃ outcome, reading.phase = .over outcome
      · obtain ⟨outcome, hover⟩ := hover
        exact ⟨_, .finish hreading hover⟩
      · obtain ⟨w, hadvance⟩ := @Reading.exists_advance ⟨reading, ch.wire, []⟩ howes.room
          fun outcome he => hover ⟨outcome, he⟩
        rw [← hclosed] at hadvance
        exact ⟨_, .move hreading hadvance⟩

/-- **Reading on delivers what is left** of a closed channel. -/
theorem Exact.inevitably_exhausted (h : ch.Exact cipher) (hclosed : ch.closed = true) :
    Inevitably Reads
      (fun later => later.written = ch.written ∧ later.Exhausted ch.outcomes) ch := by
  refine Inevitably.of_measure
    (fun later => later.Exact cipher ∧ later.closed = true ∧ later.written = ch.written
      ∧ ∃ more, later.outcomes = ch.outcomes ++ more) effort ?_ ?_ ?_
    ⟨h, hclosed, rfl, [], (List.append_nil _).symm⟩
  · rintro later next ⟨hexact, hshut, hwritten, more, hmore⟩ hstep
    obtain ⟨hshut', hwritten', more', hmore'⟩ := hstep.frame
    refine ⟨hexact.reads hstep, hshut'.trans hshut, hwritten'.trans hwritten, more ++ more', ?_⟩
    rw [hmore', hmore, List.append_assoc]
  · rintro later next ⟨hexact, hshut, hwritten, hmore⟩ hstep
    obtain ⟨-, hwritten', -⟩ := hstep.frame
    obtain hthere | hless := hexact.exhausted_or_less hmore hstep
    · exact .inl ⟨hwritten'.trans hwritten, hthere⟩
    · exact .inr hless
  · rintro later ⟨hexact, hshut, -, -⟩ -
    exact hexact.exists_reads hshut

end

/-! ## §5. Exact delivery -/

/-- **A CONNECTION'S BYTE STREAM IS DELIVERED EXACTLY.**  Under one state of
    polish at both ends, whatever is written in whatever pieces, however the
    wire cuts it up, into whatever room it is read, and wherever reads are
    timed out or cancelled and the ends are split: at every moment

    • what the reads have returned is the beginning of what was written,
    • a read has returned no bytes only if everything is delivered,
    • no read has failed but for its time limit,
    • and once the sending end is closed, reading on is bound to deliver all
      that was written and then to return no bytes. -/
theorem delivers_exactly (cipher : Option Cipher) (draws : Draws) {ch : Channel}
    (hrun : Relation.ReflTransGen Step (start cipher draws) ch) :
    ch.delivered <+: ch.written
      ∧ (.ok [] ∈ ch.outcomes → ch.delivered = ch.written)
      ∧ (∀ e, .error e ∈ ch.outcomes → ∃ milliseconds, e = .timeout milliseconds)
      ∧ (ch.closed = true → Inevitably Reads
          (fun later => later.written = ch.written ∧ later.Exhausted ch.outcomes) ch) := by
  have h : ch.Exact cipher :=
    keeps_of_run (Exact cipher) (fun h hstep => h.step hstep) hrun (exact_start cipher draws)
  refine ⟨?_, fun hmem => (h.ended (.inl hmem)).2, h.timeouts, h.inevitably_exhausted⟩
  obtain ⟨data, hwritten, -⟩ := h.owes
  rw [hwritten, List.append_assoc]
  exact List.prefix_append _ _

/-- Two bytes are written without a cipher, one of them is read, and the
    sending end is closed: the other is bound to be read. -/
theorem delivers_exactly_two :
    ∃ ch, Relation.ReflTransGen Step (start none default) ch
      ∧ ch.closed = true ∧ ch.written = [7, 8] ∧ ch.outcomes = [.ok [7]]
      ∧ Inevitably Reads
          (fun later => later.written = ch.written ∧ later.Exhausted ch.outcomes) ch := by
  have hexists : ∃ ch, Relation.ReflTransGen Step (start none default) ch
      ∧ ch.closed = true ∧ ch.written = [7, 8] ∧ ch.outcomes = [.ok [7]] := by
    -- the write is sealed, sent and over; the read waits, takes one byte and
    -- is over; then the sending end is closed
    refine ⟨_, .head (.inl (.begin [7, 8] rfl rfl))
      (.head (.inl (.move rfl (.go 0 rfl)))
      (.head (.inl (.move rfl (.write 2 rfl (by decide) (by decide))))
      (.head (.inl (.move rfl (.go 0 rfl)))
      (.head (.inl (.finish rfl rfl))
      (.head (.inr (.inl (.begin 1 rfl (by decide))))
      (.head (.inr (.inl (.move rfl (.go 0 rfl))))
      (.head (.inr (.inl (.move rfl (.read [7] [8] rfl rfl (by decide) (by decide)))))
      (.head (.inr (.inl (.finish rfl rfl)))
      (.head (.inl (.close rfl)) .refl))))))))), rfl, rfl, rfl⟩
  obtain ⟨ch, hrun, hclosed, hwritten, houtcomes⟩ := hexists
  exact ⟨ch, hrun, hclosed, hwritten, houtcomes,
    (delivers_exactly none default hrun).2.2.2 hclosed⟩

end Channel

end Masquerade
