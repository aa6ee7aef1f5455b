/-
  Masquerade.Proofs.Resumption — READING ON after a chunk that did not open.

  A complete chunk is used up before it is opened.  So a read that fails to
  open one leaves the receiving end at the border of the next, as if the
  chunk had never come, and unlike a sending end after an unfinished write
  the receiving end is not marked as broken.  The next read therefore takes
  up the next chunk, whatever was wrong with the one before.

  Main results:
    * `Channel.inevitably_holding` — reading at the border of a chunk is
      bound to collect exactly that chunk.
    * `Channel.inevitably_failed`, `Channel.inevitably_opened` — what
      becomes of a chunk that does not open, and of one that does.
    * `Channel.reads_past_unopened` — what follows a chunk that does not
      open is handed out.
-/
import Masquerade.Proofs.Delivery

namespace Masquerade

/-- **A receiving side at the border of a chunk:** nothing is kept and
    nothing is begun. -/
structure Reader.AtBorder (c : Cipher) (r : Reader) : Prop where
  polish : r.cipher = some c
  begun : r.pending = []
  kept : r.received = []

/-! ## §1. On the way through a chunk -/

namespace Reading

/-- The phases before a chunk is complete. -/
def Phase.Collects (c : Cipher) : Phase → Prop
  | .start => True
  | .chunk c' | .filling c' _ => c' = c
  | .passing _ | .over _ => False

/-- **A read on its way through a chunk:** what it holds and what is on the
    wire are together the chunk and the rest. -/
structure Nearing (c : Cipher) (chunk rest : Bytes) (r : Reading) (wire : Bytes) : Prop where
  room : r.room ≠ 0
  polish : r.reader.cipher = some c
  kept : r.reader.received = []
  short : r.reader.pending.length ≤ c.chunkSize
  whole : r.reader.pending ++ wire = chunk ++ rest
  phase : r.phase.Collects c

/-- **A read that holds a whole chunk** and is about to open it. -/
structure Holding (c : Cipher) (chunk : Bytes) (r : Reading) : Prop where
  room : r.room ≠ 0
  polish : r.reader.cipher = some c
  kept : r.reader.received = []
  pending : r.reader.pending = chunk
  phase : ∃ deadline, r.phase = .filling c deadline

section

variable {c : Cipher} {chunk rest : Bytes} {ended : Bool} {w w' : Wired Reading}

/-- A read on its way that holds as many bytes as a chunk holds the chunk. -/
theorem Nearing.holding (h : Nearing c chunk rest w.state w.input) (hchunk : chunk.length = c.chunkSize)
    {deadline : Option Deadline} (hphase : w.state.phase = .filling c deadline)
    (hfull : c.chunkSize ≤ w.state.reader.pending.length) :
    w.state.Holding c chunk ∧ w.input = rest := by
  have hlength : w.state.reader.pending.length = chunk.length := by
    have hshort := h.short
    omega
  obtain ⟨hpending, hinput⟩ := List.append_inj h.whole hlength
  exact ⟨⟨h.room, h.polish, h.kept, hpending, deadline, hphase⟩, hinput⟩

/-- **Short of the whole chunk every move stays on the way,** and brings the
    read nearer. -/
theorem Nearing.step (h : Nearing c chunk rest w.state w.input) (hchunk : chunk.length = c.chunkSize)
    (hshort : ¬ (w.state.Holding c chunk ∧ w.input = rest)) (hmove : Move ended w w') :
    Nearing c chunk rest w'.state w'.input
      ∧ w'.state.effort + 2 * w'.input.length < w.state.effort + 2 * w.input.length := by
  have hpos := c.chunkSize_pos
  obtain ⟨hroom, hpolish, hkept, hlength, hwhole, hcollects⟩ := id h
  -- the input does not end within the chunk
  have hsupply : w.input = [] → chunk.length ≤ w.state.reader.pending.length := by
    intro hinput
    have hcount := congrArg List.length hwhole
    rw [hinput, List.append_nil, List.length_append] at hcount
    omega
  unfold effort
  cases hmove with
  | refuse _ hnone => exact absurd hnone hroom
  | drain _ hsome => exact absurd hkept hsome
  | listen _ _ _ _ hplain =>
      rw [hpolish] at hplain
      cases hplain
  | @frame c' hphase _ _ hcipher =>
      rw [hpolish] at hcipher
      injection hcipher with hcipher
      subst hcipher
      refine ⟨⟨hroom, hpolish, hkept, hlength, hwhole, rfl⟩, ?_⟩
      rw [hphase]
      dsimp only [enter, Phase.effort]
      omega
  | @arm c' deadline hphase =>
      rw [hphase] at hcollects ⊢
      refine ⟨⟨hroom, hpolish, hkept, hlength, hwhole, hcollects⟩, ?_⟩
      dsimp only [enter, Phase.effort]
      omega
  | pass _ _ hphase _ _ | finish hphase _ _ =>
      rw [hphase] at hcollects
      exact hcollects.elim
  | @fill c' deadline bytes left hphase hinput hsome hspace =>
      rw [hphase] at hcollects ⊢
      obtain rfl : c' = c := hcollects
      have hcount := List.length_pos_iff.mpr hsome
      refine ⟨⟨hroom, hpolish, hkept, ?_, ?_, rfl⟩, ?_⟩
      · show (w.state.reader.pending ++ bytes).length ≤ c'.chunkSize
        rw [List.length_append]
        exact hspace
      · show (w.state.reader.pending ++ bytes) ++ left = chunk ++ rest
        rw [List.append_assoc, ← hinput]
        exact hwhole
      · rw [hinput, List.length_append]
        dsimp only [Phase.effort]
        rw [List.length_append]
        omega
  | close hphase hpending hinput _ =>
      have hcount := hsupply hinput
      rw [hpending, List.length_nil] at hcount
      omega
  | @cut c' deadline hphase _ hlt hinput _ =>
      rw [hphase] at hcollects
      obtain rfl : c' = c := hcollects
      have hcount := hsupply hinput
      omega
  | @openUp c' deadline hphase hfull =>
      rw [hphase] at hcollects
      obtain rfl : c' = c := hcollects
      exact absurd (h.holding hchunk hphase hfull) hshort

/-- **Short of the whole chunk a read can always go on.** -/
theorem Nearing.exists_advance (h : Nearing c chunk rest w.state w.input) (hchunk : chunk.length = c.chunkSize) :
    ∃ w', Advance act ended w w' := by
  have hcollects := h.phase
  cases hphase : w.state.phase with
  | start => exact ⟨_, .go 0 (act_start hphase)⟩
  | chunk c' => exact ⟨_, .go 0 (act_chunk hphase)⟩
  | filling c' deadline =>
      rw [hphase] at hcollects
      obtain rfl : c' = c := hcollects
      by_cases hfull : c'.chunkSize - w.state.reader.pending.length = 0
      · exact ⟨_, .go 0 (act_full hphase hfull)⟩
      · cases hinput : w.input with
        | nil =>
            -- all of the chunk is there or on the wire
            have hcount := congrArg List.length h.whole
            rw [hinput, List.append_nil, List.length_append] at hcount
            omega
        | cons byte left =>
            refine ⟨_, .read [byte] left (act_filling hphase hfull) hinput (List.cons_ne_nil _ _) ?_⟩
            show 1 ≤ _
            omega
  | passing _ | «over» _ =>
      rw [hphase] at hcollects
      exact hcollects.elim

end

end Reading

/-! ## §2. Reading at the border of a chunk -/

namespace Channel

section

variable {c : Cipher} {chunk rest : Bytes} {ch ch' : Channel}

/-- **The receiving end is on its way through a chunk.** -/
structure Nearing (c : Cipher) (chunk rest : Bytes) (outcomes : List (Except Error Bytes))
    (ch : Channel) : Prop where
  outcomes : ch.outcomes = outcomes
  side : match ch.reading with
    | none => ch.receiver.reader.AtBorder c ∧ ch.wire = chunk ++ rest
    | some reading => reading.Nearing c chunk rest ch.wire

/-- **A read holds a whole chunk**, and the rest is on the wire. -/
def Holding (c : Cipher) (chunk rest : Bytes) (outcomes : List (Except Error Bytes))
    (ch : Channel) : Prop :=
  ch.outcomes = outcomes ∧ ch.wire = rest
    ∧ ∃ reading, ch.reading = some reading ∧ reading.Holding c chunk

/-- How far the receiving end is from the whole chunk. -/
def distance (ch : Channel) : Nat :=
  2 * ch.wire.length + ch.reading.elim (6 + ch.receiver.reader.pending.length) Reading.effort

/-- **Reading at the border of a chunk is bound to collect exactly that
    chunk**, however the wire hands it over. -/
theorem inevitably_holding (hidle : ch.reading = none) (hborder : ch.receiver.reader.AtBorder c)
    (hwire : ch.wire = chunk ++ rest) (hchunk : chunk.length = c.chunkSize) :
    Inevitably Reads (Holding c chunk rest ch.outcomes) ch := by
  have hnearing : ch.Nearing c chunk rest ch.outcomes := by
    refine ⟨rfl, ?_⟩
    rw [hidle]
    exact ⟨hborder, hwire⟩
  refine Inevitably.of_approach (Nearing c chunk rest ch.outcomes) distance ?_ ?_ hnearing
  · rintro s s' ⟨houtcomes, hside⟩ hshort hstep
    right
    unfold distance
    cases hstep with
    | begin room hnone hroom =>
        rw [hnone] at hside ⊢
        obtain ⟨⟨hpolish, hbegun, hkept⟩, hwhole⟩ := hside
        refine ⟨⟨houtcomes, hroom, hpolish, hkept, ?_, ?_, trivial⟩, ?_⟩
        · show s.receiver.reader.pending.length ≤ c.chunkSize
          rw [hbegun]
          exact Nat.zero_le _
        · show s.receiver.reader.pending ++ s.wire = chunk ++ rest
          rw [hbegun]
          exact hwhole
        · show 2 * s.wire.length + (5 + s.receiver.reader.pending.length) < _ + (6 + _)
          omega
    | @move reading w hreading hadvance =>
        rw [hreading] at hside ⊢
        have hshort' : ¬ (reading.Holding c chunk ∧ s.wire = rest) := by
          rintro ⟨hholding, hrest⟩
          exact hshort ⟨houtcomes, hrest, reading, hreading, hholding⟩
        obtain ⟨hnext, hless⟩ :=
          hside.step hchunk hshort' (Reading.move_of_advance hadvance)
        refine ⟨⟨houtcomes, hnext⟩, ?_⟩
        show 2 * w.input.length + w.state.effort < 2 * s.wire.length + reading.effort
        have hless : w.state.effort + 2 * w.input.length
            < reading.effort + 2 * s.wire.length := hless
        omega
    | @finish reading outcome hreading hover =>
        rw [hreading] at hside
        have hcollects := hside.phase
        rw [hover] at hcollects
        exact hcollects.elim
  · rintro s ⟨-, hside⟩ -
    cases hreading : s.reading with
    | none => exact ⟨_, .begin 1 hreading Nat.one_ne_zero⟩
    | some reading =>
        rw [hreading] at hside
        obtain ⟨w, hadvance⟩ := @Reading.Nearing.exists_advance c chunk rest s.closed
          ⟨reading, s.wire, []⟩ hside hchunk
        exact ⟨_, .move hreading hadvance⟩

/-- A read that is over is bound to be taken note of. -/
theorem inevitably_noted {reading : Reading} {outcome : Except Error Bytes}
    (hreading : ch.reading = some reading) (hover : reading.phase = .over outcome) :
    Inevitably Reads (· = { ch with
      receiver := ch.receiver.setReader reading.reader
      reading := none
      outcomes := ch.outcomes ++ [outcome] }) ch := by
  refine Inevitably.of_only_step (.finish hreading hover) ?_
  intro ch' hstep
  cases hstep with
  | begin _ hidle _ =>
      rw [hreading] at hidle
      cases hidle
  | move hreading' hadvance =>
      rw [hreading] at hreading'
      injection hreading' with hreading'
      subst hreading'
      exact (hadvance.not_of_done (Reading.act_over hover)).elim
  | finish hreading' hover' =>
      rw [hreading] at hreading'
      injection hreading' with hreading'
      subst hreading'
      rw [hover] at hover'
      injection hover' with houtcome
      rw [houtcome]

/-- A read that holds a whole chunk is bound to open it. -/
theorem inevitably_openPending {reading : Reading} (hreading : ch.reading = some reading)
    (hholding : reading.Holding c chunk) (hchunk : chunk.length = c.chunkSize) :
    Inevitably Reads (· = { ch with reading := some (reading.openPending c) }) ch := by
  obtain ⟨deadline, hphase⟩ := hholding.phase
  have hact : reading.act = .go fun _ => reading.openPending c := by
    refine Reading.act_full hphase ?_
    rw [hholding.pending, hchunk]
    exact Nat.sub_self _
  refine Inevitably.of_only_step (.move hreading (.go 0 hact)) ?_
  intro ch' hstep
  cases hstep with
  | begin _ hidle _ =>
      rw [hreading] at hidle
      cases hidle
  | move hreading' hadvance =>
      rw [hreading] at hreading'
      injection hreading' with hreading'
      subst hreading'
      obtain ⟨now, rfl⟩ := hadvance.of_go hact
      rfl
  | finish hreading' hover =>
      rw [hreading] at hreading'
      injection hreading' with hreading'
      subst hreading'
      rw [hphase] at hover
      cases hover

/-- **A chunk at the front of the wire is bound to be collected, opened and
    reported**, where opening it ends the read. -/
theorem inevitably_reported {outcome : Reading → Except Error Bytes} (hidle : ch.reading = none)
    (hborder : ch.receiver.reader.AtBorder c) (hwire : ch.wire = chunk ++ rest)
    (hchunk : chunk.length = c.chunkSize)
    (hover : ∀ reading : Reading, reading.Holding c chunk →
      (reading.openPending c).phase = .over (outcome reading)) :
    Inevitably Reads (fun later => ∃ reading : Reading, reading.Holding c chunk
      ∧ later.reading = none ∧ later.receiver.reader = (reading.openPending c).reader
      ∧ later.wire = rest ∧ later.outcomes = ch.outcomes ++ [outcome reading]) ch := by
  refine (inevitably_holding hidle hborder hwire hchunk).andThen ?_
  rintro there ⟨houtcomes, hrest, reading, hreading, hholding⟩
  refine (inevitably_openPending hreading hholding hchunk).andThen ?_
  rintro _ rfl
  refine (inevitably_noted rfl (hover reading hholding)).andThen ?_
  rintro _ rfl
  refine .now ⟨reading, hholding, rfl, Endpoint.reader_setReader _ _, hrest, ?_⟩
  show there.outcomes ++ _ = _
  rw [houtcomes]

/-- **What becomes of a chunk that does not open:** it is used up, reading is
    bound to fail with the reason, and the receiving end is at the border of
    the next. -/
theorem inevitably_failed {e : Error} (hidle : ch.reading = none)
    (hborder : ch.receiver.reader.AtBorder c) (hwire : ch.wire = chunk ++ rest)
    (hchunk : chunk.length = c.chunkSize) (hfails : c.unpolish chunk = .error e) :
    Inevitably Reads (fun later => later.reading = none ∧ later.receiver.reader.AtBorder c
      ∧ later.wire = rest ∧ later.outcomes = ch.outcomes ++ [.error e]) ch := by
  have hopen : ∀ reading : Reading, reading.Holding c chunk →
      reading.openPending c = { reading with
        reader := { reading.reader with pending := [] }, phase := .over (.error e) } := by
    intro reading hholding
    apply Reading.openPending_of_error
    rw [hholding.pending]
    exact hfails
  refine (@inevitably_reported _ _ _ _ (fun _ => .error e) hidle hborder hwire hchunk
    fun reading hholding => by rw [hopen reading hholding]).andThen ?_
  rintro later ⟨reading, hholding, hnone, hreader, hrest, houtcomes⟩
  refine .now ⟨hnone, ?_, hrest, houtcomes⟩
  rw [hreader, hopen reading hholding]
  exact ⟨hholding.polish, rfl, hholding.kept⟩

/-- **What becomes of a chunk that opens to some data:** reading is bound to
    return the beginning of it. -/
theorem inevitably_opened {plain : Bytes} (hidle : ch.reading = none)
    (hborder : ch.receiver.reader.AtBorder c) (hwire : ch.wire = chunk ++ rest)
    (hchunk : chunk.length = c.chunkSize) (hopens : c.unpolish chunk = .ok plain)
    (hplain : plain ≠ []) :
    Inevitably Reads (fun later => ∃ bytes, bytes ≠ [] ∧ bytes <+: plain
      ∧ later.outcomes = ch.outcomes ++ [.ok bytes]) ch := by
  have hopen : ∀ reading : Reading, reading.Holding c chunk →
      reading.openPending c = Reading.finish { reading with
        reader := { reading.reader with pending := [], received := plain } } := by
    intro reading hholding
    apply Reading.openPending_of_ok _ hplain
    rw [hholding.pending]
    exact hopens
  refine (@inevitably_reported _ _ _ _ (fun reading => .ok (plain.take reading.room)) hidle hborder
    hwire hchunk fun reading hholding => by rw [hopen reading hholding]; rfl).andThen ?_
  rintro later ⟨reading, hholding, -, -, -, houtcomes⟩
  refine .now ⟨plain.take reading.room, ?_, List.take_prefix _ _, houtcomes⟩
  intro hnone
  obtain hzero | hnil := List.take_eq_nil_iff.mp hnone
  · exact hholding.room hzero
  · exact hplain hnil

end

/-! ## §3. Past a chunk that does not open -/

/-- **WHAT FOLLOWS A CHUNK THAT DOES NOT OPEN IS HANDED OUT.**  At the border
    of a chunk that does not open, with one behind it that opens to some
    data, reading on is bound to fail with the reason and then to return the
    beginning of that data: whatever the reason, in whatever pieces the wire
    hands the chunks over, and into whatever room they are read. -/
theorem reads_past_unopened {c : Cipher} {ch : Channel} {bad good rest plain : Bytes} {e : Error}
    (hidle : ch.reading = none) (hborder : ch.receiver.reader.AtBorder c)
    (hwire : ch.wire = bad ++ (good ++ rest)) (hbad : bad.length = c.chunkSize)
    (hgood : good.length = c.chunkSize) (hfails : c.unpolish bad = .error e)
    (hopens : c.unpolish good = .ok plain) (hplain : plain ≠ []) :
    Inevitably Reads (fun later => ∃ bytes, bytes ≠ [] ∧ bytes <+: plain
      ∧ later.outcomes = ch.outcomes ++ [.error e, .ok bytes]) ch := by
  refine (inevitably_failed hidle hborder hwire hbad hfails).andThen ?_
  rintro failed ⟨hidle', hborder', hwire', houtcomes⟩
  refine (inevitably_opened hidle' hborder' hwire' hgood hopens hplain).andThen ?_
  rintro later ⟨bytes, hsome, hprefix, houtcomes'⟩
  refine .now ⟨bytes, hsome, hprefix, ?_⟩
  rw [houtcomes', houtcomes, List.append_assoc]
  rfl

/-- A chunk is authentic but claims more data than it can hold; the one
    behind it holds the byte 7, which is bound to be read. -/
theorem reads_past_overlong : ∃ (c : Cipher) (bad good : Bytes),
    bad.length = c.chunkSize ∧ good.length = c.chunkSize
      ∧ c.unpolish bad = .error (.invalidMessage (.beyondCapacity 65535 63))
      ∧ c.unpolish good = .ok [7]
      ∧ Inevitably Reads
          (fun later => later.outcomes
            = [.error (.invalidMessage (.beyondCapacity 65535 63)), .ok [7]])
          { start (some c) default with wire := bad ++ good } := by
  let c : Cipher := ⟨List.replicate 32 0, 93, by decide, by decide⟩
  let nonce : Bytes := List.replicate 12 1
  let payload : Bytes := List.replicate 65 255
  have hnonce : nonce.length = Aead.nonceSize := rfl
  have hbad : (nonce ++ Aead.encrypt c.key nonce payload).length = c.chunkSize := by
    rw [List.length_append, Aead.length_encrypt]
    rfl
  have hgood : (c.sealChunk nonce [7]).length = c.chunkSize := c.length_sealChunk nonce [7] hnonce
  have hfails : c.unpolish (nonce ++ Aead.encrypt c.key nonce payload)
      = .error (.invalidMessage (.beyondCapacity 65535 63)) := by
    rw [c.unpolish_encrypt hnonce rfl]
    rfl
  have hopens : c.unpolish (c.sealChunk nonce [7]) = .ok [7] := by
    rw [Cipher.unpolish_of_length hgood]
    exact c.openChunk_sealChunk nonce [7] hnonce (by decide)
  refine ⟨c, _, _, hbad, hgood, hfails, hopens, ?_⟩
  refine (@reads_past_unopened c _ _ _ [] [7] _ rfl ⟨rfl, rfl, rfl⟩ (by rw [List.append_nil])
    hbad hgood hfails hopens (List.cons_ne_nil _ _)).andThen ?_
  rintro later ⟨bytes, hsome, hprefix, houtcomes⟩
  obtain ⟨more, hmore⟩ := hprefix
  -- the only beginning of one byte that is not empty is the byte
  cases bytes with
  | nil => exact absurd rfl hsome
  | cons byte bytes =>
      injection hmore with hbyte hnil
      rw [hbyte, (List.append_eq_nil_iff.mp hnil).1] at houtcomes
      exact .now houtcomes

end Channel

end Masquerade
