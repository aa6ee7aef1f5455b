/-
  Masquerade.Proofs.Breakage — WHERE THE FRAMING OF A WIRE BREAKS.

  Any bytes at all are well-formed chunks, as many as there are, and behind
  them nothing, the beginning of a chunk, or a chunk that is faulty
  (`Cipher.Breaks`).  There is one way only to see them so.  The receiving
  end of a connection finds it: its reads return the data of these chunks
  and then report what comes behind.

  A time limit that passes is no end of reading, since the next read goes on
  where the last one stopped.  Without interruptions none is ever reported.

  Main results:
    * `Cipher.exists_breaks`, `Cipher.Breaks.longest` — every wire breaks
      somewhere, and nowhere else.
    * `Channel.Tells.receives` — no step changes what reading will come to.
    * `Channel.stops_where_framing_breaks` — what reading comes to, on any
      wire.
-/
import Masquerade.Proofs.Resumption
import Masquerade.Proofs.Yield
import Mathlib.Data.List.TakeWhile

namespace Masquerade

/-! ## §1. Any wire -/

/-- What is reported where a stretch of the wire ends. -/
def Yield.outcome (y : Yield) : Except Error Bytes := y.ending.map fun _ => []

namespace Cipher

/-- **What may come behind the chunks that open,** and how it is reported. -/
inductive Breaks (c : Cipher) : Bytes → Except Error Bytes → Prop where
  /-- The wire ends. -/
  | closed : Breaks c [] (.ok [])
  /-- It ends within a chunk. -/
  | cut {rest : Bytes} (hsome : rest ≠ []) (hshort : rest.length < c.chunkSize) :
      Breaks c rest (.error (.buffer c.chunkSize rest.length))
  /-- There is a chunk that does not open. -/
  | faulty {chunk : Bytes} {e : Error} (rest : Bytes) (hchunk : chunk.length = c.chunkSize)
      (hfaulty : c.Faulty chunk e) : Breaks c (chunk ++ rest) (.error e)

variable {c : Cipher}

/-- **Every wire breaks somewhere,** and yields what comes before. -/
theorem exists_breaks (wire : Bytes) :
    ∃ chunks data rest, wire = chunks.flatten ++ rest ∧ List.Forall₂ c.Wellformed chunks data
      ∧ c.Breaks rest (c.yield wire).outcome ∧ (c.yield wire).data = data.flatten := by
  have hpos := c.chunkSize_pos
  induction wire using Bytes.pieces.induct c.chunkSize with
  | case1 wire hnone =>
      obtain rfl : wire = [] := hnone.resolve_left (Nat.ne_of_gt hpos)
      rw [yield_nil]
      exact ⟨[], [], [], rfl, .nil, .closed, rfl⟩
  | case2 wire hsome ih =>
      have hne : wire ≠ [] := fun hnone => hsome (.inr hnone)
      by_cases hshort : wire.length < c.chunkSize
      · rw [yield_of_short hne hshort]
        exact ⟨[], [], wire, rfl, .nil, .cut hne hshort, rfl⟩
      · have hchunk : (wire.take c.chunkSize).length = c.chunkSize := by
          rw [List.length_take]
          omega
        have hyield := @yield_of_chunk c _ (wire.drop c.chunkSize) hchunk
        rw [List.take_append_drop] at hyield
        cases hopen : c.openChunk (wire.take c.chunkSize) with
        | error e =>
            rw [hopen] at hyield
            refine ⟨[], [], wire, rfl, .nil, ?_, ?_⟩
            · rw [hyield]
              have hbreaks := Breaks.faulty (wire.drop c.chunkSize) hchunk
                ((openChunk_eq_error_iff _ e).mp hopen)
              rw [List.take_append_drop] at hbreaks
              exact hbreaks
            · rw [hyield]
              rfl
        | ok first =>
            rw [hopen] at hyield
            obtain ⟨chunks, data, rest, hwire, hchunks, hbreaks, hdata⟩ := ih
            refine ⟨wire.take c.chunkSize :: chunks, first :: data, rest, ?_, ?_, ?_, ?_⟩
            · rw [List.flatten_cons, List.append_assoc, ← hwire, List.take_append_drop]
            · exact .cons ((openChunk_eq_ok_iff hchunk first).mp hopen) hchunks
            · rw [hyield]
              exact hbreaks
            · rw [hyield, List.flatten_cons, ← hdata]
              rfl

/-- No well-formed chunk stands where a wire breaks. -/
theorem Breaks.not_wellformed {rest chunk data : Bytes} {ending : Except Error Bytes}
    (h : c.Breaks rest ending) (hchunk : c.Wellformed chunk data) (more : Bytes) :
    rest ≠ chunk ++ more := by
  have hpos := c.chunkSize_pos
  have hlength := hchunk.whole
  intro hrest
  cases h with
  | closed =>
      rw [(List.append_eq_nil_iff.mp hrest.symm).1] at hlength
      exact absurd hlength (Nat.ne_of_lt hpos)
  | cut _ hshort =>
      rw [hrest, List.length_append] at hshort
      omega
  | faulty _ hbad hfaulty =>
      obtain ⟨rfl, -⟩ := List.append_inj hrest (hbad.trans hlength.symm)
      have hopens := (openChunk_eq_ok_iff hlength data).mpr hchunk
      rw [(openChunk_eq_error_iff _ _).mpr hfaulty] at hopens
      cases hopens

/-- **A wire breaks nowhere else:** well-formed chunks at its front are among
    those before the break. -/
theorem Breaks.longest {rest : Bytes} {ending : Except Error Bytes} (h : c.Breaks rest ending)
    (chunks' : List Bytes) :
    ∀ {chunks data data' : List Bytes} {rest' : Bytes}, List.Forall₂ c.Wellformed chunks data →
      List.Forall₂ c.Wellformed chunks' data' →
      chunks.flatten ++ rest = chunks'.flatten ++ rest' → chunks' <+: chunks := by
  induction chunks' with
  | nil =>
      intro chunks data data' rest' _ _ _
      exact List.nil_prefix
  | cons chunk' chunks' ih =>
      intro chunks data data' rest' hchunks hchunks' hwire
      cases hchunks' with
      | cons hfirst' hmore' =>
          cases hchunks with
          | nil =>
              rw [List.flatten_cons, List.append_assoc] at hwire
              exact absurd hwire (h.not_wellformed hfirst' _)
          | cons hfirst hmore =>
              rw [List.flatten_cons, List.flatten_cons, List.append_assoc, List.append_assoc]
                at hwire
              obtain ⟨rfl, hrest⟩ :=
                List.append_inj hwire (hfirst.whole.trans hfirst'.whole.symm)
              exact (List.prefix_cons_inj _).mpr (ih hmore hmore' hrest)

theorem Faulty.ne_timeout {chunk : Bytes} {e : Error} (h : c.Faulty chunk e) (milliseconds : Nat) :
    e ≠ .timeout milliseconds := by
  cases h <;> exact nofun

/-- No chunk is refused for being late. -/
theorem Refuses.ne_timeout {wire : Bytes} {e : Error} (h : c.Refuses wire e) (milliseconds : Nat) :
    e ≠ .timeout milliseconds := by
  cases h with
  | short _ => exact nofun
  | ragged _ _ => exact nofun
  | faulty _ _ _ hchunk => exact hchunk.ne_timeout milliseconds

/-- No wire ends with a time limit. -/
theorem Breaks.ne_timeout {rest : Bytes} {ending : Except Error Bytes} (h : c.Breaks rest ending)
    (milliseconds : Nat) : ending ≠ .error (.timeout milliseconds) := by
  cases h with
  | closed => exact nofun
  | cut _ _ => exact nofun
  | faulty _ _ hfaulty =>
      intro hlate
      injection hlate with hlate
      exact hfaulty.ne_timeout milliseconds hlate

end Cipher

/-! ## §2. What reading comes to -/

namespace Reading

/-- Whether reading goes on after an outcome: there were bytes, or only a time
    limit has passed. -/
def goesOn : Except Error Bytes → Bool
  | .ok bytes => ! bytes.isEmpty
  | .error (.timeout _) => true
  | .error _ => false

/-- **What reads return in all,** before reading fails or comes to the end. -/
def gathered (outcomes : List (Except Error Bytes)) : Bytes :=
  (outcomes.takeWhile goesOn).flatMap returned

/-- **How reading fails or comes to the end,** if it did. -/
def conclusion? (outcomes : List (Except Error Bytes)) : Option (Except Error Bytes) :=
  outcomes.find? fun outcome => ! goesOn outcome

section

variable {outcomes : List (Except Error Bytes)} {outcome : Except Error Bytes}

/-- While reading goes on, all that later reads come to is added. -/
theorem conclude_append (h : conclusion? outcomes = none) (more : List (Except Error Bytes)) :
    conclusion? (outcomes ++ more) = conclusion? more
      ∧ gathered (outcomes ++ more) = gathered outcomes ++ gathered more := by
  have hall : ∀ o ∈ outcomes, goesOn o = true := by
    intro o hmem
    have hpasses := List.find?_eq_none.mp h o hmem
    simpa using hpasses
  constructor
  · unfold conclusion? at h ⊢
    rw [List.find?_append, h, Option.none_or]
  · unfold gathered
    rw [List.takeWhile_append_of_pos hall, List.flatMap_append,
      List.takeWhile_eq_self_iff.mpr hall]

/-- A read that fails, or finds the end, concludes. -/
theorem conclude_cons (hends : goesOn outcome = false) (more : List (Except Error Bytes)) :
    conclusion? (outcome :: more) = some outcome ∧ gathered (outcome :: more) = [] := by
  constructor
  · unfold conclusion?
    rw [List.find?_cons_of_pos (by rw [hends]; rfl)]
  · unfold gathered
    rw [List.takeWhile_cons_of_neg (by rw [hends]; exact Bool.false_ne_true)]
    rfl

/-- **Once reading has ended,** later reads do not change how. -/
theorem conclude_stays (h : conclusion? outcomes = some outcome)
    (more : List (Except Error Bytes)) :
    conclusion? (outcomes ++ more) = some outcome
      ∧ gathered (outcomes ++ more) = gathered outcomes := by
  obtain ⟨hends, before, after, rfl, hbefore⟩ := List.find?_eq_some_iff_append.mp h
  have hends : goesOn outcome = false := by simpa using hends
  have hbefore : conclusion? before = none := by
    apply List.find?_eq_none.mpr
    intro o hmem
    simpa using hbefore o hmem
  rw [List.append_assoc, List.cons_append, (conclude_append hbefore _).1,
    (conclude_append hbefore _).2, (conclude_append hbefore _).2, (conclude_cons hends _).1,
    (conclude_cons hends _).2, (conclude_cons hends _).2]
  exact ⟨rfl, rfl⟩

/-- A read after which reading goes on adds what it returned. -/
theorem conclude_goesOn (h : conclusion? outcomes = none) (hon : goesOn outcome = true) :
    conclusion? (outcomes ++ [outcome]) = none
      ∧ gathered (outcomes ++ [outcome]) = gathered outcomes ++ returned outcome := by
  rw [(conclude_append h _).1, (conclude_append h _).2]
  constructor
  · unfold conclusion?
    rw [List.find?_singleton, hon]
    rfl
  · unfold gathered
    rw [List.takeWhile_cons_of_pos hon, List.takeWhile_nil, List.flatMap_singleton]

/-- A read that fails, or finds the end, adds nothing. -/
theorem conclude_ends (h : conclusion? outcomes = none) (hends : goesOn outcome = false) :
    conclusion? (outcomes ++ [outcome]) = some outcome
      ∧ gathered (outcomes ++ [outcome]) = gathered outcomes := by
  rw [(conclude_append h _).1, (conclude_append h _).2, (conclude_cons hends _).1,
    (conclude_cons hends _).2, List.append_nil]
  exact ⟨rfl, rfl⟩

end

/-- No move of a read fails with a time limit. -/
theorem ne_timeout_of_move {ended : Bool} {w w' : Wired Reading} (hmove : Move ended w w')
    (milliseconds : Nat) : w'.state.phase ≠ .over (.error (.timeout milliseconds)) := by
  intro hover
  cases hmove with
  | openUp _ _ =>
      have hopen := error_of_openPending hover
      exact ((Cipher.unpolish_eq_error_iff _ _).mp hopen).ne_timeout milliseconds rfl
  | refuse _ _ | drain _ _ | listen _ _ _ _ _ | frame _ _ _ _ | arm _ _ | pass _ _ _ _ _
  | finish _ _ _ | fill _ _ _ _ _ _ | close _ _ _ _ | cut _ _ _ _ _ => cases hover

/-- **Why a read has failed:** this is how the wire ends, or its time limit
    has passed and all that was due is still due. -/
def Explains (total : Yield) (given : Bytes) (r : Reading) (coming : Bytes) : Prop :=
  ∀ e, r.phase = .over (.error e) →
    total = ⟨given, .error e⟩
      ∨ (∃ milliseconds, e = .timeout milliseconds) ∧ total = (r.reader.yield coming).behind given

/-- While a read is under way, what was due to its receiving side still is. -/
theorem Due.yield_of_live {total : Yield} {given coming : Bytes} {r : Reading}
    (h : r.Due total given coming) (hlive : ∀ outcome, r.phase ≠ .over outcome) :
    total = (r.reader.yield coming).behind given := by
  have hdue := h.due
  split at hdue
  next e hover => exact absurd hover (hlive _)
  next hover => exact absurd hover (hlive _)
  next byte bytes hover => exact absurd hover (hlive _)
  next => exact hdue

end Reading

namespace Channel

/-- What the receiving end does, whether or not something comes between. -/
def Receives (ch ch' : Channel) : Prop := Reads ch ch' ∨ Interrupts ch ch'

/-- **What is left to tell** while reading goes on: with what the reads have
    returned it is all that the wire yields. -/
def Remains (total : Yield) (ch : Channel) : Prop :=
  match ch.reading with
  | none =>
    ch.receiver.reader.Whole
      ∧ total = (ch.receiver.reader.yield ch.wire).behind (Reading.gathered ch.outcomes)
  | some reading =>
    reading.reader.Whole ∧ reading.Due total (Reading.gathered ch.outcomes) ch.wire
      ∧ reading.Explains total (Reading.gathered ch.outcomes) ch.wire

/-- **Reading tells what the wire yields:** it has, or it will. -/
structure Tells (total : Yield) (ch : Channel) : Prop where
  closed : ch.closed = true
  timely : ∀ milliseconds, total.ending ≠ .error (.timeout milliseconds)
  told : Reading.conclusion? ch.outcomes = some total.outcome
      ∧ Reading.gathered ch.outcomes = total.data
    ∨ Reading.conclusion? ch.outcomes = none ∧ ch.Remains total

section

variable {total : Yield} {ch ch' : Channel}

/-- An error that ends what the wire yields ends reading. -/
theorem goesOn_of_timely {given : Bytes} {e : Error} (h : total = ⟨given, .error e⟩)
    (htimely : ∀ milliseconds, total.ending ≠ .error (.timeout milliseconds)) :
    Reading.goesOn (.error e) = false := by
  rw [h] at htimely
  cases e with
  | timeout milliseconds => exact absurd rfl (htimely milliseconds)
  | _ => rfl

/-- **Noting the outcome of a read** tells what the wire yields, or leaves the
    rest to be told. -/
theorem Tells.noted {reading : Reading} {outcome : Except Error Bytes}
    (hclosed : ch.closed = true)
    (htimely : ∀ milliseconds, total.ending ≠ .error (.timeout milliseconds))
    (hopen : Reading.conclusion? ch.outcomes = none) (hreading : ch.reading = some reading)
    (hover : reading.phase = .over outcome) (h : ch.Remains total) :
    Tells total { ch with
      receiver := ch.receiver.setReader reading.reader
      reading := none
      outcomes := ch.outcomes ++ [outcome] } := by
  unfold Remains at h
  rw [hreading] at h
  obtain ⟨hwhole, hdue, hexplains⟩ := h
  have hdue := hdue.due
  rw [hover] at hdue
  -- after some bytes, or a time limit, the rest remains
  have hgoes : Reading.goesOn outcome = true →
      total = (reading.reader.yield ch.wire).behind
        (Reading.gathered ch.outcomes ++ Reading.returned outcome) →
      Tells total { ch with
        receiver := ch.receiver.setReader reading.reader
        reading := none
        outcomes := ch.outcomes ++ [outcome] } := by
    intro hon htotal
    obtain ⟨hstill, hgathered⟩ := Reading.conclude_goesOn hopen hon
    refine ⟨hclosed, htimely, .inr ⟨hstill, ?_⟩⟩
    show (ch.receiver.setReader reading.reader).reader.Whole
      ∧ total = Yield.behind _ ((ch.receiver.setReader reading.reader).reader.yield ch.wire)
    rw [Endpoint.reader_setReader, hgathered]
    exact ⟨hwhole, htotal⟩
  -- otherwise this read has told how the wire ends
  have hends : Reading.goesOn outcome = false → outcome = total.outcome →
      Reading.gathered ch.outcomes = total.data →
      Tells total { ch with
        receiver := ch.receiver.setReader reading.reader
        reading := none
        outcomes := ch.outcomes ++ [outcome] } := by
    intro hoff houtcome hdata
    obtain ⟨hconcluded, hgathered⟩ := Reading.conclude_ends hopen hoff
    refine ⟨hclosed, htimely, .inl ⟨?_, ?_⟩⟩
    · rw [hconcluded, houtcome]
    · rw [hgathered, hdata]
  match outcome with
  | .ok [] =>
      have htotal : total = ⟨Reading.gathered ch.outcomes, .ok ()⟩ := hdue
      exact hends rfl (by rw [htotal]; rfl) (by rw [htotal])
  | .ok (byte :: bytes) => exact hgoes rfl hdue
  | .error e =>
      obtain htotal | ⟨⟨milliseconds, rfl⟩, htotal⟩ := hexplains e hover
      · exact hends (goesOn_of_timely htotal htimely) (by rw [htotal]; rfl) (by rw [htotal])
      · refine hgoes rfl ?_
        show total = Yield.behind (_ ++ []) _
        rw [List.append_nil]
        exact htotal

/-- At the border of a chunk all that the wire yields is to be told. -/
theorem tells_of_border {c : Cipher} {rest : Bytes} (hidle : ch.reading = none)
    (hfresh : ch.outcomes = []) (hclosed : ch.closed = true)
    (hborder : ch.receiver.reader.AtBorder c)
    (hbreaks : c.Breaks rest (c.yield ch.wire).outcome) : ch.Tells (c.yield ch.wire) := by
  obtain ⟨hpolish, hbegun, hkept⟩ := hborder
  refine ⟨hclosed, ?_, .inr ⟨by rw [hfresh]; rfl, ?_⟩⟩
  · intro milliseconds hlate
    refine hbreaks.ne_timeout milliseconds ?_
    unfold Yield.outcome
    rw [hlate]
    rfl
  · unfold Remains
    rw [hidle]
    refine ⟨?_, ?_⟩
    · intro c' _
      rw [hbegun]
      exact Nat.zero_le _
    · rw [hfresh]
      unfold Reader.yield
      rw [hpolish, hbegun, hkept]
      rfl

/-- **Every step of a read** leaves what is to be told. -/
theorem Tells.reads (h : ch.Tells total) (hstep : Reads ch ch') : ch'.Tells total := by
  obtain ⟨hclosed, htimely, htold⟩ := h
  obtain ⟨hclosed', -, more, hmore⟩ := hstep.frame
  obtain ⟨hdone, hdata⟩ | ⟨hopen, hremains⟩ := htold
  · obtain ⟨hstill, hgathered⟩ := Reading.conclude_stays hdone more
    refine ⟨hclosed'.trans hclosed, htimely, .inl ?_⟩
    rw [hmore, hgathered]
    exact ⟨hstill, hdata⟩
  · cases hstep with
    | begin room hidle hroom =>
        unfold Remains at hremains
        rw [hidle] at hremains
        obtain ⟨hwhole, htotal⟩ := hremains
        refine ⟨hclosed, htimely, .inr ⟨hopen, hwhole, Reading.due_start htotal hroom, ?_⟩⟩
        intro e hover
        cases hover
    | @move reading w hreading hadvance =>
        unfold Remains at hremains
        rw [hreading] at hremains
        obtain ⟨hwhole, hdue, -⟩ := hremains
        have hmove := Reading.move_of_advance hadvance
        rw [hclosed] at hmove
        refine ⟨hclosed, htimely, .inr ⟨hopen, ?_, ?_, ?_⟩⟩
        · exact Reading.Due.whole_of_move hdue hwhole hmove
        · exact Reading.Due.of_move hdue hmove
        · intro e hover
          exact .inl (Reading.Due.error_of_move hdue hwhole hmove hover)
    | finish hreading hover => exact Tells.noted hclosed htimely hopen hreading hover hremains

/-- **Nothing that comes between** changes what is to be told. -/
theorem Tells.interrupts (h : ch.Tells total) (hstep : Interrupts ch ch') : ch'.Tells total := by
  obtain ⟨hclosed, htimely, htold⟩ := h
  have hframe : ch'.closed = ch.closed ∧ ch'.outcomes = ch.outcomes := by
    cases hstep <;> exact ⟨rfl, rfl⟩
  refine ⟨hframe.1.trans hclosed, htimely, ?_⟩
  rw [hframe.2]
  refine htold.imp_right fun ⟨hopen, hremains⟩ => ⟨hopen, ?_⟩
  unfold Remains at hremains ⊢
  cases hstep with
  | @expire reading reading' hreading hexpires =>
      rw [hreading] at hremains
      obtain ⟨hwhole, hdue, -⟩ := hremains
      obtain ⟨⟨milliseconds, rfl⟩, hlive⟩ := Reading.fail_of_expires hexpires
      refine ⟨hwhole, Reading.due_fail hdue.room hdue.given_begins _, ?_⟩
      intro e hover
      injection hover with hover
      injection hover with hover
      exact .inr ⟨⟨milliseconds, hover.symm⟩, hdue.yield_of_live hlive⟩
  | @cancel reading hreading hlive =>
      rw [hreading] at hremains
      obtain ⟨hwhole, hdue, -⟩ := hremains
      show (ch.receiver.setReader reading.reader).reader.Whole
        ∧ total = Yield.behind _ ((ch.receiver.setReader reading.reader).reader.yield ch.wire)
      rw [Endpoint.reader_setReader]
      exact ⟨hwhole, hdue.yield_of_live hlive⟩
  | @limit timeout connection hidle hconnection =>
      -- a time limit is no part of what a receiving side yields
      rw [hidle, hconnection] at hremains
      dsimp only
      rw [hidle]
      exact hremains
  | split hidle =>
      rw [hidle] at hremains
      dsimp only
      rw [hidle]
      dsimp only
      rw [Endpoint.reader_split]
      exact hremains

/-- **No step changes what reading will come to.** -/
theorem Tells.receives (h : ch.Tells total) (hstep : Receives ch ch') : ch'.Tells total := by
  obtain hreads | hinterrupts := hstep
  · exact h.reads hreads
  · exact h.interrupts hinterrupts

/-- What the reads have returned is the beginning of what there is. -/
theorem Tells.gathered_begins (h : ch.Tells total) :
    Reading.gathered ch.outcomes <+: total.data := by
  obtain ⟨-, hdata⟩ | ⟨-, hremains⟩ := h.told
  · rw [hdata]
  · unfold Remains at hremains
    cases hreading : ch.reading with
    | none =>
        rw [hreading] at hremains
        exact Reading.prefix_of_yield hremains.2
    | some reading =>
        rw [hreading] at hremains
        exact hremains.2.1.given_begins

/-! ## §3. Reading to the end -/

/-- No time limit has just passed. -/
def Quiet (ch : Channel) : Prop :=
  ∀ reading, ch.reading = some reading →
    ∀ milliseconds, reading.phase ≠ .over (.error (.timeout milliseconds))

/-- Without interruptions no time limit passes. -/
theorem quiet_of_reads (hstep : Reads ch ch') : ch'.Quiet := by
  intro reading' hreading' milliseconds
  cases hstep with
  | begin _ _ _ =>
      injection hreading' with hreading'
      subst hreading'
      exact nofun
  | move _ hadvance =>
      injection hreading' with hreading'
      subst hreading'
      exact Reading.ne_timeout_of_move (Reading.move_of_advance hadvance) milliseconds
  | finish _ _ => cases hreading'

/-- Without interruptions no read reports a time limit. -/
theorem not_timeout_of_run (hrun : Relation.ReflTransGen Reads ch ch') (hquiet : ch.Quiet)
    (hnone : ∀ milliseconds, .error (.timeout milliseconds) ∉ ch.outcomes) :
    ch'.Quiet ∧ ∀ milliseconds, .error (.timeout milliseconds) ∉ ch'.outcomes := by
  induction hrun with
  | refl => exact ⟨hquiet, hnone⟩
  | tail _ hstep ih =>
      obtain ⟨hquiet, hnone⟩ := ih
      refine ⟨quiet_of_reads hstep, ?_⟩
      intro milliseconds
      cases hstep with
      | begin _ _ _ => exact hnone milliseconds
      | move _ _ => exact hnone milliseconds
      | finish hreading hover =>
          intro hmem
          obtain hmem | hmem := List.mem_append.mp hmem
          · exact hnone milliseconds hmem
          · rw [← List.mem_singleton.mp hmem] at hover
            exact hquiet _ hreading milliseconds hover

/-- What is left to do on the way to the end. -/
def toil (ch : Channel) : Nat :=
  13 * ch.wire.length + ch.reading.elim
    (6 + 12 * ch.receiver.reader.pending.length + 12 * ch.receiver.reader.received.length)
    Reading.cost

/-- **Every step of a read ends reading or leaves less to do.** -/
theorem Tells.toil_of_reads (h : ch.Tells total) (hquiet : ch.Quiet)
    (hopen : Reading.conclusion? ch.outcomes = none) (hstep : Reads ch ch') :
    Reading.conclusion? ch'.outcomes ≠ none ∨ ch'.toil < ch.toil := by
  obtain ⟨hclosed, htimely, ⟨hdone, -⟩ | ⟨-, hremains⟩⟩ := h
  · rw [hopen] at hdone
    cases hdone
  unfold Remains at hremains
  unfold toil
  cases hstep with
  | begin room hidle hroom =>
      right
      rw [hidle]
      show 13 * ch.wire.length + (5 + _ + _) < 13 * ch.wire.length + (6 + _ + _)
      dsimp only [Reading.start]
      omega
  | @move reading w hreading hadvance =>
      right
      rw [hreading] at hremains ⊢
      obtain ⟨hwhole, hdue, -⟩ := hremains
      have hmove := Reading.move_of_advance hadvance
      rw [hclosed] at hmove
      have hless := Reading.Due.cost_of_move hdue hwhole hmove
      show 13 * w.input.length + w.state.cost < 13 * ch.wire.length + reading.cost
      dsimp only at hless
      omega
  | @finish reading outcome hreading hover =>
      rw [hreading]
      match outcome with
      | .ok [] =>
          left
          rw [(Reading.conclude_ends hopen rfl).1]
          exact nofun
      | .ok (byte :: bytes) =>
          right
          show 13 * ch.wire.length
              + (6 + 12 * (ch.receiver.setReader reading.reader).reader.pending.length
                + 12 * (ch.receiver.setReader reading.reader).reader.received.length)
            < 13 * ch.wire.length + (reading.phase.price + _ + _)
          rw [Endpoint.reader_setReader, hover]
          show _ < _ + (7 + (bytes.length + 1) + _ + _)
          omega
      | .error e =>
          left
          have hoff : Reading.goesOn (.error e) = false := by
            cases e with
            | timeout milliseconds => exact absurd hover (hquiet reading hreading milliseconds)
            | _ => rfl
          rw [(Reading.conclude_ends hopen hoff).1]
          exact nofun

/-- Before reading has ended there always is a step. -/
theorem Tells.exists_reads (h : ch.Tells total) (hopen : Reading.conclusion? ch.outcomes = none) :
    ∃ ch', Reads ch ch' := by
  obtain ⟨hclosed, -, ⟨hdone, -⟩ | ⟨-, hremains⟩⟩ := h
  · rw [hopen] at hdone
    cases hdone
  unfold Remains at hremains
  cases hreading : ch.reading with
  | none => exact ⟨_, .begin 1 hreading Nat.one_ne_zero⟩
  | some reading =>
      rw [hreading] at hremains
      by_cases hover : ∃ outcome, reading.phase = .over outcome
      · obtain ⟨outcome, hover⟩ := hover
        exact ⟨_, .finish hreading hover⟩
      · obtain ⟨w, hadvance⟩ := @Reading.exists_advance ⟨reading, ch.wire, []⟩ hremains.2.1.room
          fun outcome houtcome => hover ⟨outcome, houtcome⟩
        rw [← hclosed] at hadvance
        exact ⟨_, .move hreading hadvance⟩

/-- **Reading is bound to tell what the wire yields,** where no time limit has
    just passed. -/
theorem Tells.inevitably_of_quiet (h : ch.Tells total) (hquiet : ch.Quiet) :
    Inevitably Reads (fun there => Reading.conclusion? there.outcomes = some total.outcome
      ∧ Reading.gathered there.outcomes = total.data) ch := by
  have hopen : ∀ {s : Channel}, s.Tells total →
      ¬ (Reading.conclusion? s.outcomes = some total.outcome
        ∧ Reading.gathered s.outcomes = total.data) →
      Reading.conclusion? s.outcomes = none := by
    intro s htells hnot
    obtain hdone | ⟨hopen, -⟩ := htells.told
    · exact absurd hdone hnot
    · exact hopen
  refine Inevitably.of_approach (fun s => s.Tells total ∧ s.Quiet) toil ?_ ?_ ⟨h, hquiet⟩
  · rintro s s' ⟨htells, hquiet⟩ hnot hstep
    have htells' := htells.reads hstep
    obtain hdone | hless := htells.toil_of_reads hquiet (hopen htells hnot) hstep
    · left
      obtain htold | ⟨hstill, -⟩ := htells'.told
      · exact htold
      · exact absurd hstill hdone
    · exact .inr ⟨⟨htells', quiet_of_reads hstep⟩, hless⟩
  · rintro s ⟨htells, -⟩ hnot
    exact htells.exists_reads (hopen htells hnot)

/-- **Reading is bound to tell what the wire yields.** -/
theorem Tells.inevitably (h : ch.Tells total) :
    Inevitably Reads (fun there => Reading.conclusion? there.outcomes = some total.outcome
      ∧ Reading.gathered there.outcomes = total.data) ch := by
  by_cases hlate : ∃ reading outcome, ch.reading = some reading ∧ reading.phase = .over outcome
  · -- whatever the read in progress has come to is noted first
    obtain ⟨reading, outcome, hreading, hover⟩ := hlate
    refine (inevitably_noted hreading hover).andThen ?_
    rintro _ rfl
    refine (h.reads (.finish hreading hover)).inevitably_of_quiet ?_
    intro _ hnone
    cases hnone
  · refine h.inevitably_of_quiet ?_
    intro reading hreading milliseconds hover
    exact hlate ⟨reading, _, hreading, hover⟩

end

/-- **READING STOPS WHERE THE FRAMING BREAKS.**  Whatever bytes wait before
    the end of the stream for a receiving end at the border of a chunk, they
    are well-formed chunks, more of them than in any other view, and behind
    these nothing, less than a chunk, or a chunk that is faulty.  However the
    bytes arrive, whatever room they are read into, and whatever comes
    between,

    • what the reads return before the first that fails or finds the end is
      the beginning of the data of these chunks,
    • the first that fails or finds the end does so for what is behind them,
      and then all of the data has been returned,
    • reading on is bound to come to this,
    • and without interruptions no read fails for a time limit. -/
theorem stops_where_framing_breaks {c : Cipher} {ch : Channel} (hidle : ch.reading = none)
    (hfresh : ch.outcomes = []) (hclosed : ch.closed = true)
    (hborder : ch.receiver.reader.AtBorder c) :
    ∃ chunks data rest ending, ch.wire = chunks.flatten ++ rest
      ∧ List.Forall₂ c.Wellformed chunks data ∧ c.Breaks rest ending
      ∧ (∀ chunks' data' rest', ch.wire = chunks'.flatten ++ rest' →
          List.Forall₂ c.Wellformed chunks' data' → chunks' <+: chunks)
      ∧ ∀ later, Relation.ReflTransGen Receives ch later →
          Reading.gathered later.outcomes <+: data.flatten
          ∧ (∀ outcome, Reading.conclusion? later.outcomes = some outcome →
              outcome = ending ∧ Reading.gathered later.outcomes = data.flatten)
          ∧ Inevitably Reads (fun there => Reading.conclusion? there.outcomes = some ending
              ∧ Reading.gathered there.outcomes = data.flatten) later
          ∧ (Relation.ReflTransGen Reads ch later →
              ∀ milliseconds, .error (.timeout milliseconds) ∉ later.outcomes) := by
  obtain ⟨chunks, data, rest, hwire, hchunks, hbreaks, hdata⟩ := @Cipher.exists_breaks c ch.wire
  refine ⟨chunks, data, rest, _, hwire, hchunks, hbreaks, ?_, ?_⟩
  · intro chunks' data' rest' hwire' hchunks'
    exact hbreaks.longest chunks' hchunks hchunks' (hwire.symm.trans hwire')
  have htells : ch.Tells (c.yield ch.wire) := tells_of_border hidle hfresh hclosed hborder hbreaks
  rw [← hdata]
  intro later hrun
  have hlater : later.Tells (c.yield ch.wire) :=
    keeps_of_run _ (fun htells hstep => htells.receives hstep) hrun htells
  refine ⟨hlater.gathered_begins, ?_, hlater.inevitably, ?_⟩
  · intro outcome hdone
    obtain ⟨hconcluded, hgathered⟩ | ⟨hopen, -⟩ := hlater.told
    · rw [hdone] at hconcluded
      injection hconcluded with hconcluded
      exact ⟨hconcluded, hgathered⟩
    · rw [hdone] at hopen
      cases hopen
  · intro hreads
    refine (not_timeout_of_run hreads ?_ ?_).2
    · intro reading hreading
      rw [hidle] at hreading
      cases hreading
    · intro milliseconds
      rw [hfresh]
      exact List.not_mem_nil

/-- The stream ends one byte into the chunk behind a good one: the data of
    the good one is bound to be read, and then the cut reported. -/
theorem stops_where_framing_breaks_cut : ∃ (c : Cipher) (chunk : Bytes),
    chunk.length = c.chunkSize ∧ c.unpolish chunk = .ok [7]
      ∧ Inevitably Reads
          (fun there => Reading.conclusion? there.outcomes = some (.error (.buffer 93 1))
            ∧ Reading.gathered there.outcomes = [7])
          { start (some c) default with closed := true, wire := chunk ++ [0] } := by
  let c : Cipher := ⟨List.replicate 32 0, 93, by decide, by decide⟩
  let nonce : Bytes := List.replicate 12 1
  let good : Bytes := c.sealChunk nonce [7]
  have hgood : good.length = c.chunkSize := c.length_sealChunk nonce [7] rfl
  have hopens : c.openChunk good = .ok [7] := c.openChunk_sealChunk nonce [7] rfl (by decide)
  have hchunk : c.Wellformed good [7] := (Cipher.openChunk_eq_ok_iff hgood [7]).mp hopens
  refine ⟨c, good, hgood, (Cipher.unpolish_of_length hgood).trans hopens, ?_⟩
  obtain ⟨chunks, data, rest, ending, hwire, hchunks, hbreaks, hlongest, hreads⟩ :=
    @stops_where_framing_breaks c
      { start (some c) default with closed := true, wire := good ++ [0] } rfl rfl rfl ⟨rfl, rfl, rfl⟩
  have hwire : good ++ [0] = chunks.flatten ++ rest := hwire
  obtain ⟨more, rfl⟩ := hlongest [good] [[7]] [0] (by rw [List.flatten_singleton])
    (.cons hchunk .nil)
  have hshort : [0] = more.flatten ++ rest := by
    rw [List.flatten_append, List.flatten_singleton, List.append_assoc] at hwire
    exact List.append_cancel_left hwire
  -- one byte is no chunk, so there is only the good one before the break
  have hsmall : ∀ (piece left : Bytes), piece.length = c.chunkSize → [0] ≠ piece ++ left := by
    intro piece left hpiece hsplit
    have hlength := congrArg List.length hsplit
    rw [List.length_append, hpiece] at hlength
    exact absurd hlength (by change ¬ (1 = 93 + _); omega)
  cases hchunks with
  | @cons _ first _ _ hfirst hmore =>
      have hfirst := (Cipher.openChunk_eq_ok_iff hgood first).mpr hfirst
      rw [hopens] at hfirst
      injection hfirst with hfirst
      subst hfirst
      cases hmore with
      | cons hnext _ =>
          rw [List.flatten_cons, List.append_assoc] at hshort
          exact absurd hshort (hsmall _ _ hnext.whole)
      | nil =>
          obtain rfl : [0] = rest := hshort
          have hending : ending = .error (.buffer 93 1) := by
            generalize hrest : ([0] : Bytes) = rest at hbreaks
            cases hbreaks with
            | closed => cases hrest
            | cut _ _ =>
                rw [← hrest]
                rfl
            | faulty left hbad _ => exact absurd hrest (hsmall _ _ hbad)
          rw [← hending]
          exact (hreads _ .refl).2.2.1

end Channel

end Masquerade
