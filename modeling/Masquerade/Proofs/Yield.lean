/-
  Masquerade.Proofs.Yield — WHAT A RECEIVER GETS OUT OF ANY WIRE.

  A receiving side takes chunk after chunk off the wire, up to the first that
  does not open or is cut short.  What it gets in all, if the wire then
  closes, and how it ends, is a function of the wire alone (`Reader.yield`):
  it does not depend on how the bytes arrive, how much the caller asks for,
  or how often.  Nothing is assumed of the wire.  A wire that carries data
  yields that data and ends well (`Carries.yield_eq`), and the beginning of a
  wire yields the beginning of the data (`Reader.yield_of_begin`).

  Main results:
    * `Cipher.yield_of_unpolish` — what opens is yielded first.
    * `Reading.Due.of_move`, `Reading.Due.of_adverse` — every read hands out
      the next of what the wire yields, and reports the end of the stream
      only if there is no more.
-/
import Masquerade.Proofs.Reception
import Masquerade.Proofs.Transmission
import Masquerade.Proofs.Wellformed

namespace Masquerade

/-! ## §1. Yields -/

/-- **What a stretch of the wire yields:** its data, and how it ends. -/
structure Yield where
  data : Bytes
  ending : Except Error Unit

namespace Yield

/-- Nothing more, and the end is in order. -/
def nothing : Yield := ⟨[], .ok ()⟩

/-- The same behind other data. -/
def behind (first : Bytes) (y : Yield) : Yield := ⟨first ++ y.data, y.ending⟩

@[simp] theorem behind_nil (y : Yield) : y.behind [] = y := rfl

theorem behind_behind (first second : Bytes) (y : Yield) :
    (y.behind second).behind first = y.behind (first ++ second) := by
  unfold behind
  rw [List.append_assoc]

end Yield

namespace Cipher

variable {c : Cipher}

/-- What chunks yield, up to the first that is cut short or does not open. -/
def yieldChunks (c : Cipher) : List Bytes → Yield
  | [] => .nothing
  | chunk :: rest =>
    if chunk.length < c.chunkSize then ⟨[], .error (.buffer c.chunkSize chunk.length)⟩
    else
      match c.openChunk chunk with
      | .error e => ⟨[], .error e⟩
      | .ok data => (yieldChunks c rest).behind data

/-- **What a stretch of the wire yields under a cipher.** -/
def yield (c : Cipher) (wire : Bytes) : Yield := c.yieldChunks (Bytes.pieces c.chunkSize wire)

theorem yield_nil (c : Cipher) : c.yield [] = .nothing := by
  unfold yield
  rw [Bytes.pieces_nil]
  rfl

/-- A chunk that is cut short yields nothing. -/
theorem yield_of_short {wire : Bytes} (hsome : wire ≠ []) (hshort : wire.length < c.chunkSize) :
    c.yield wire = ⟨[], .error (.buffer c.chunkSize wire.length)⟩ := by
  unfold yield
  rw [Bytes.pieces_of_length_le (Nat.ne_of_gt c.chunkSize_pos) hsome (Nat.le_of_lt hshort)]
  unfold yieldChunks
  rw [if_pos hshort]

/-- A chunk yields its data, if it opens, and then the rest. -/
theorem yield_of_chunk {chunk rest : Bytes} (hchunk : chunk.length = c.chunkSize) :
    c.yield (chunk ++ rest) =
      match c.openChunk chunk with
      | .error e => ⟨[], .error e⟩
      | .ok data => (c.yield rest).behind data := by
  have hpos := c.chunkSize_pos
  have hsome : chunk ++ rest ≠ [] := by
    intro hnone
    rw [(List.append_eq_nil_iff.mp hnone).1] at hchunk
    exact absurd hchunk (Nat.ne_of_lt hpos)
  unfold yield
  rw [Bytes.pieces_cons (Nat.ne_of_gt hpos) hsome, List.take_left' hchunk, List.drop_left' hchunk,
    yieldChunks, if_neg (by omega)]

/-- Chunks that open are yielded before the others. -/
theorem yieldChunks_append (chunks more : List Bytes) :
    (∀ chunk ∈ chunks, chunk.length = c.chunkSize) → ∀ {data : Bytes},
      c.openChunks chunks = .ok data →
      c.yieldChunks (chunks ++ more) = (c.yieldChunks more).behind data := by
  induction chunks with
  | nil =>
      intro _ data hopen
      injection hopen with hopen
      rw [← hopen]
      rfl
  | cons chunk chunks ih =>
      intro hchunks data hopen
      obtain ⟨hchunk, hmore⟩ := List.forall_mem_cons.mp hchunks
      rw [openChunks] at hopen
      rw [List.cons_append, yieldChunks, if_neg (by omega)]
      cases hfirst : c.openChunk chunk with
      | error e =>
          rw [hfirst] at hopen
          cases hopen
      | ok first =>
          cases hrest : c.openChunks chunks with
          | error e =>
              rw [hfirst, hrest] at hopen
              cases hopen
          | ok rest =>
              rw [hfirst, hrest] at hopen
              injection hopen with hopen
              dsimp only
              rw [ih hmore hrest, Yield.behind_behind, hopen]

/-- **What opens is yielded first.** -/
theorem yield_of_unpolish {chunks : Bytes} {data : Bytes} (h : c.unpolish chunks = .ok data)
    (rest : Bytes) : c.yield (chunks ++ rest) = (c.yield rest).behind data := by
  have hpos := c.chunkSize_pos
  obtain ⟨hsome, hwhole, -⟩ := (unpolish_eq_ok_iff chunks data).mp h
  rw [unpolish_of_whole hsome hwhole] at h
  unfold yield
  rw [Bytes.pieces_append (by omega) chunks rest hwhole]
  exact yieldChunks_append _ _ (fun _ hmem => Bytes.length_of_mem_pieces hwhole hmem) h

/-- Whole chunks yield what they hold. -/
theorem Framed.yield_eq {wire data : Bytes} (h : Framed c wire data) :
    c.yield wire = ⟨data, .ok ()⟩ := by
  induction h with
  | nil => exact c.yield_nil
  | @cons nonce piece wire data hnonce hpiece _ ih =>
      rw [yield_of_chunk (c.length_sealChunk nonce piece hnonce),
        c.openChunk_sealChunk nonce piece hnonce hpiece]
      dsimp only
      rw [ih]
      rfl

/-- **The beginning of a wire** yields the beginning of the data. -/
theorem yield_of_begin (short : Bytes) :
    ∀ {wire : Bytes}, short <+: wire → (c.yield short).data <+: (c.yield wire).data := by
  have hpos := c.chunkSize_pos
  induction short using Bytes.pieces.induct c.chunkSize with
  | case1 short hnone =>
      intro wire _
      obtain rfl : short = [] := hnone.resolve_left (Nat.ne_of_gt hpos)
      rw [yield_nil]
      exact List.nil_prefix
  | case2 short hsome ih =>
      rintro _ ⟨tail, rfl⟩
      have hne : short ≠ [] := fun hnone => hsome (.inr hnone)
      by_cases hshort : short.length < c.chunkSize
      · rw [yield_of_short hne hshort]
        exact List.nil_prefix
      · have htake : (short.take c.chunkSize).length = c.chunkSize := by
          rw [List.length_take]
          omega
        have hmore : (c.yield (short.drop c.chunkSize)).data
            <+: (c.yield (short.drop c.chunkSize ++ tail)).data := ih (List.prefix_append _ _)
        rw [← List.take_append_drop c.chunkSize short, List.append_assoc, yield_of_chunk htake,
          yield_of_chunk htake]
        cases c.openChunk (short.take c.chunkSize) with
        | error e => exact List.nil_prefix
        | ok data => exact (List.prefix_append_right_inj data).mpr hmore

end Cipher

/-- **What a receiving side gets in all** from these bytes before the wire
    closes. -/
def Reader.yield (r : Reader) (coming : Bytes) : Yield :=
  match r.cipher with
  | none => ⟨r.received ++ coming, .ok ()⟩
  | some c => (c.yield (r.pending ++ coming)).behind r.received

/-- What is taken from the kept data, and then the rest, is what there was to
    get. -/
theorem Reader.yield_drain (r : Reader) (room : Nat) (coming : Bytes) :
    ((r.drain room).2.yield coming).behind (r.drain room).1 = r.yield coming := by
  have hkept := r.drain_append room
  have hcipher : (r.drain room).2.cipher = r.cipher := rfl
  have hpending : (r.drain room).2.pending = r.pending := rfl
  unfold yield
  rw [hcipher, hpending]
  cases r.cipher with
  | none =>
      dsimp only
      unfold Yield.behind
      rw [← List.append_assoc, hkept]
  | some c =>
      dsimp only
      rw [Yield.behind_behind, hkept]

/-- **A wire that carries data yields it.** -/
theorem Carries.yield_eq {cipher : Option Cipher} {wire data : Bytes}
    (h : Carries cipher wire data) : (Reader.start cipher).yield wire = ⟨data, .ok ()⟩ := by
  cases cipher with
  | none =>
      obtain rfl : wire = data := h
      rfl
  | some c => exact Cipher.Framed.yield_eq h

/-- **What a receiving side owes it yields.** -/
theorem Reader.Owes.yield_eq {cipher : Option Cipher} {r : Reader} {coming data : Bytes}
    (h : r.Owes cipher coming data) : r.yield coming = ⟨data, .ok ()⟩ := by
  obtain ⟨hpolish, hwhole, ahead, hcarries, rfl⟩ := h
  unfold yield
  rw [hpolish]
  cases cipher with
  | none =>
      have hpending : r.pending = [] := List.length_eq_zero_iff.mp (Nat.le_zero.mp hwhole)
      rw [hpending] at hcarries
      obtain rfl : coming = ahead := hcarries
      rfl
  | some c =>
      dsimp only
      rw [Cipher.Framed.yield_eq hcarries]
      rfl

/-- The beginning of a wire yields the beginning of the data. -/
theorem Reader.yield_of_begin {cipher : Option Cipher} {short wire : Bytes} (h : short <+: wire) :
    ((start cipher).yield short).data <+: ((start cipher).yield wire).data := by
  cases cipher with
  | none => exact h
  | some c => exact c.yield_of_begin short h

/-- What is begun yields the beginning of the data. -/
theorem Begins.yield_of_begin {cipher : Option Cipher} {wire data : Bytes}
    (h : Begins cipher wire data) : ((Reader.start cipher).yield wire).data <+: data := by
  obtain ⟨left, carried, hcarries, hbegin⟩ := h
  have hyield : ((Reader.start cipher).yield wire).data
      <+: ((Reader.start cipher).yield (wire ++ left)).data :=
    Reader.yield_of_begin (List.prefix_append wire left)
  rw [hcarries.yield_eq] at hyield
  exact hyield.trans hbegin

/-! ## §2. Reads on any wire -/

namespace Reading

/-- What a phase of a read knows of its receiving side. -/
def Phase.Suits (r : Reader) : Phase → Prop
  | .passing _ => r.cipher = none ∧ r.received = []
  | .chunk c | .filling c _ => r.cipher = some c ∧ r.received = []
  | .start | .over _ => True

/-- **What a read in progress still stands for:** with this handed out by
    earlier reads, and these bytes coming, of all that there is to get. -/
structure Due (total : Yield) (given : Bytes) (r : Reading) (coming : Bytes) : Prop where
  room : r.room ≠ 0
  suits : r.phase.Suits r.reader
  due : match r.phase with
    | .over (.error _) => given <+: total.data
    | .over (.ok []) => total = ⟨given, .ok ()⟩
    | .over (.ok (byte :: bytes)) =>
      total = (r.reader.yield coming).behind (given ++ byte :: bytes)
    | _ => total = (r.reader.yield coming).behind given

section

variable {total : Yield} {given coming : Bytes} {r : Reading}

/-- Beginning a read changes nothing. -/
theorem due_start {reader : Reader} (h : total = (reader.yield coming).behind given) {room : Nat}
    (hroom : room ≠ 0) : (Reading.start reader room).Due total given coming :=
  ⟨hroom, trivial, h⟩

/-- What is handed out is next. -/
theorem due_over {bytes : Bytes} (hroom : r.room ≠ 0) (hsome : bytes ≠ [])
    (hphase : r.phase = .over (.ok bytes))
    (h : total = (r.reader.yield coming).behind (given ++ bytes)) : r.Due total given coming := by
  refine ⟨hroom, ?_, ?_⟩
  · rw [hphase]
    trivial
  · cases bytes with
    | nil => exact absurd rfl hsome
    | cons byte bytes =>
        rw [hphase]
        exact h

/-- What was handed out before is the first of what there is to get. -/
theorem prefix_of_yield {reader : Reader} (h : total = (reader.yield coming).behind given) :
    given <+: total.data := by
  rw [h]
  exact List.prefix_append _ _

/-- Giving up with an error hands out nothing. -/
theorem due_fail (hroom : r.room ≠ 0) (h : given <+: total.data) (e : Error) :
    (r.fail e).Due total given coming :=
  ⟨hroom, trivial, h⟩

/-- Handing out what is kept keeps what is due. -/
theorem due_finish (hroom : r.room ≠ 0) (hkept : r.reader.received ≠ [])
    (h : total = (r.reader.yield coming).behind given) : r.finish.Due total given coming := by
  refine due_over hroom (Reader.drain_ne_nil hroom hkept) rfl ?_
  have hsplit : (r.finish.reader.yield coming).behind (r.reader.drain r.room).1
      = r.reader.yield coming := r.reader.yield_drain r.room coming
  rw [h, ← hsplit, Yield.behind_behind]

/-- **Opening a complete chunk** hands out its data, skips it, or fails. -/
theorem due_openPending {c : Cipher} (hroom : r.room ≠ 0) (hcipher : r.reader.cipher = some c)
    (hkept : r.reader.received = []) (h : total = (r.reader.yield coming).behind given) :
    (r.openPending c).Due total given coming := by
  cases hopen : c.unpolish r.reader.pending with
  | error e =>
      rw [openPending_of_error hopen]
      exact ⟨hroom, trivial, prefix_of_yield h⟩
  | ok data =>
      have hyield : r.reader.yield coming = (c.yield coming).behind data := by
        unfold Reader.yield
        rw [hcipher]
        dsimp only
        rw [hkept, Yield.behind_nil, Cipher.yield_of_unpolish hopen]
      rw [hyield] at h
      cases data with
      | nil =>
          rw [openPending_of_ok_nil hopen]
          refine ⟨hroom, ⟨hcipher, hkept⟩, ?_⟩
          show total = Yield.behind given (Reader.yield { r.reader with pending := [] } coming)
          unfold Reader.yield
          rw [hcipher]
          dsimp only
          rw [hkept]
          exact h
      | cons byte data =>
          rw [openPending_of_ok hopen (List.cons_ne_nil byte data)]
          refine due_finish hroom (List.cons_ne_nil byte data) ?_
          unfold Reader.yield
          dsimp only
          rw [hcipher]
          exact h

end

section

variable {total : Yield} {given : Bytes} {w w' : Wired Reading}

/-- **Every move of a read** keeps what is due. -/
theorem Due.of_move (h : w.state.Due total given w.input) (hmove : Move true w w') :
    w'.state.Due total given w'.input := by
  obtain ⟨hroom, hsuits, hdue⟩ := h
  cases hmove with
  | refuse _ hnone => exact absurd hnone hroom
  | drain hphase hkept =>
      rw [hphase] at hdue
      exact due_finish hroom hkept hdue
  | listen deadline hphase _ hkept hcipher =>
      rw [hphase] at hdue
      exact ⟨hroom, ⟨hcipher, hkept⟩, hdue⟩
  | frame hphase _ hkept hcipher =>
      rw [hphase] at hdue
      exact ⟨hroom, ⟨hcipher, hkept⟩, hdue⟩
  | arm deadline hphase =>
      rw [hphase] at hsuits hdue
      exact ⟨hroom, hsuits, hdue⟩
  | pass bytes rest hphase hinput hsome =>
      rw [hphase] at hsuits hdue
      obtain ⟨hcipher, hkept⟩ := hsuits
      refine due_over hroom hsome rfl ?_
      show total = Yield.behind (given ++ bytes) (w.state.reader.yield rest)
      have hyield : w.state.reader.yield w.input = (w.state.reader.yield rest).behind bytes := by
        unfold Reader.yield Yield.behind
        rw [hcipher, hkept, hinput]
        rfl
      rw [hdue, hyield, Yield.behind_behind]
  | finish hphase hinput _ =>
      rw [hphase] at hsuits hdue
      obtain ⟨hcipher, hkept⟩ := hsuits
      refine ⟨hroom, trivial, ?_⟩
      show total = ⟨given, .ok ()⟩
      rw [hdue, hinput]
      unfold Reader.yield Yield.behind
      rw [hcipher, hkept]
      dsimp only
      rw [List.append_nil, List.append_nil]
  | fill bytes rest hphase hinput _ _ =>
      rw [hphase] at hsuits hdue
      refine ⟨hroom, hsuits, ?_⟩
      show total = Yield.behind given
        (Reader.yield { w.state.reader with pending := w.state.reader.pending ++ bytes } rest)
      rw [hdue, hinput]
      unfold Reader.yield
      rw [hsuits.1]
      dsimp only
      rw [List.append_assoc]
  | close hphase hpending hinput _ =>
      rw [hphase] at hsuits hdue
      obtain ⟨hcipher, hkept⟩ := hsuits
      refine ⟨hroom, trivial, ?_⟩
      show total = ⟨given, .ok ()⟩
      rw [hdue, hinput]
      unfold Reader.yield
      rw [hcipher, hkept, hpending]
      dsimp only
      rw [List.append_nil, Cipher.yield_nil]
      show (⟨given ++ [], .ok ()⟩ : Yield) = _
      rw [List.append_nil]
  | cut hphase _ _ _ _ =>
      rw [hphase] at hdue
      exact due_fail hroom (prefix_of_yield hdue) _
  | openUp hphase _ =>
      rw [hphase] at hsuits hdue
      exact due_openPending hroom hsuits.1 hsuits.2 hdue

end

/-- A read closes nothing. -/
theorem act_ne_shutdown (r r' : Reading) : r.act ≠ .shutdown r' := by
  intro h
  cases hphase : r.phase with
  | start => cases (act_start hphase).symm.trans h
  | passing deadline => cases (act_passing hphase).symm.trans h
  | chunk c => cases (act_chunk hphase).symm.trans h
  | filling c deadline =>
      by_cases hfull : c.chunkSize - r.reader.pending.length = 0
      · cases (act_full hphase hfull).symm.trans h
      · cases (act_filling hphase hfull).symm.trans h
  | «over» outcome => cases (act_over hphase).symm.trans h

/-- A read writes nothing. -/
theorem output_of_move {ended : Bool} {w w' : Wired Reading} (h : Move ended w w') :
    w'.output = w.output := by
  cases h <;> rfl

/-- **Where the stream of a read fails,** or its time limit passes, the read
    fails. -/
theorem fail_of_adverse {r r' : Reading} (h : r.act.Adverse r') : ∃ e, r' = r.fail e := by
  cases hphase : r.phase with
  | start =>
      rw [act_start hphase] at h
      cases h
  | chunk c =>
      rw [act_chunk hphase] at h
      cases h
  | «over» outcome =>
      rw [act_over hphase] at h
      cases h
  | passing deadline =>
      rw [act_passing hphase] at h
      cases deadline with
      | none =>
          cases h with
          | unreadable f => exact ⟨.network f, rfl⟩
      | some d =>
          cases h with
          | unreadable f => exact ⟨.network f, rfl⟩
          | unread => exact ⟨d.error, rfl⟩
  | filling c deadline =>
      by_cases hfull : c.chunkSize - r.reader.pending.length = 0
      · rw [act_full hphase hfull] at h
        cases h
      · rw [act_filling hphase hfull] at h
        cases deadline with
        | none =>
            cases h with
            | unreadable f => exact ⟨.network f, rfl⟩
        | some d =>
            cases h with
            | unreadable f => exact ⟨.network f, rfl⟩
            | unread => exact ⟨d.error, rfl⟩

/-- What was handed out before a read is the first of what there is. -/
theorem Due.given_begins {total : Yield} {given coming : Bytes} {r : Reading}
    (h : r.Due total given coming) : given <+: total.data := by
  have hdue := h.due
  split at hdue
  next => exact hdue
  next => exact ⟨[], (List.append_nil _).trans (congrArg Yield.data hdue).symm⟩
  next => exact (List.prefix_append _ _).trans (prefix_of_yield hdue)
  next => exact prefix_of_yield hdue

/-- **A read whose stream fails** has handed out nothing more. -/
theorem Due.of_adverse {total : Yield} {given coming : Bytes} {r r' : Reading}
    (h : r.Due total given coming) (hfails : r.act.Adverse r') : r'.Due total given coming := by
  obtain ⟨e, rfl⟩ := fail_of_adverse hfails
  exact due_fail h.room h.given_begins e

/-! ## §3. A wire that ends well -/

end Reading

/-- The data in a chunk is less than the chunk. -/
theorem Cipher.length_openChunk_lt {c : Cipher} {chunk data : Bytes}
    (hchunk : chunk.length = c.chunkSize) (h : c.openChunk chunk = .ok data) :
    data.length < c.chunkSize := by
  have hfits := ((openChunk_eq_ok_iff hchunk data).mp h).fits
  have hsize := c.chunkSize_eq
  unfold Aead.nonceSize at hsize
  omega

/-- **A receiving side that holds no more than one chunk back.** -/
def Reader.Whole (r : Reader) : Prop := ∀ c, r.cipher = some c → r.pending.length ≤ c.chunkSize

namespace Reading

/-- A read that has not failed, over a receiving side that holds no more than
    one chunk back. -/
structure Hale (r : Reading) : Prop where
  whole : r.reader.Whole
  sound : ∀ e, r.phase ≠ .over (.error e)

/-- What a phase costs, so that each move makes the rest cheaper. -/
def Phase.price : Phase → Nat
  | .start => 5
  | .chunk _ => 4
  | .passing _ | .filling _ _ => 3
  | .over (.ok []) => 2
  | .over (.ok (byte :: bytes)) => 7 + (byte :: bytes).length
  | .over (.error _) => 0

/-- **What is left to do:** what the phase costs, and the bytes held back.  A
    byte that is handed out is cheaper than one that is kept, and that is no
    dearer than one on the wire. -/
def cost (r : Reading) : Nat :=
  r.phase.price + 12 * r.reader.pending.length + 12 * r.reader.received.length

theorem Phase.price_over_le (bytes : Bytes) : Phase.price (.over (.ok bytes)) ≤ 7 + bytes.length := by
  cases bytes with
  | nil => exact Nat.le_add_left 2 5
  | cons byte bytes => exact Nat.le_refl _

/-- What is kept is handed out or kept on. -/
theorem length_take_add_drop (r : Reading) :
    (r.reader.received.take r.room).length + (r.reader.received.drop r.room).length
      = r.reader.received.length := by
  rw [← List.length_append, List.take_append_drop]

/-- Handing out what is kept costs no more than keeping it. -/
theorem cost_finish_le (r : Reading) :
    r.finish.cost ≤ 7 + 12 * r.reader.pending.length + 12 * r.reader.received.length := by
  have hprice := Phase.price_over_le (r.reader.received.take r.room)
  have hsplit := r.length_take_add_drop
  show Phase.price (.over (.ok (r.reader.received.take r.room))) + 12 * r.reader.pending.length
    + 12 * (r.reader.received.drop r.room).length ≤ _
  omega

/-- Handing out some of what is kept is cheaper than beginning to. -/
theorem cost_finish_lt {r : Reading} (hroom : r.room ≠ 0) (hkept : r.reader.received ≠ []) :
    r.finish.cost < 5 + 12 * r.reader.pending.length + 12 * r.reader.received.length := by
  have hprice := Phase.price_over_le (r.reader.received.take r.room)
  have hsplit := r.length_take_add_drop
  have hsome : 0 < (r.reader.received.take r.room).length :=
    List.length_pos_iff.mpr (Reader.drain_ne_nil hroom hkept)
  show Phase.price (.over (.ok (r.reader.received.take r.room))) + 12 * r.reader.pending.length
    + 12 * (r.reader.received.drop r.room).length < _
  omega

/-- Opening a complete chunk leaves nothing begun. -/
theorem pending_openPending (r : Reading) (c : Cipher) : (r.openPending c).reader.pending = [] := by
  cases hopen : c.unpolish r.reader.pending with
  | error e => rw [openPending_of_error hopen]
  | ok data =>
      cases data with
      | nil => rw [openPending_of_ok_nil hopen]
      | cons byte data =>
          rw [openPending_of_ok hopen (List.cons_ne_nil byte data)]
          rfl

/-- Opening a complete chunk fails only if the chunk does not open. -/
theorem error_of_openPending {r : Reading} {c : Cipher} {e : Error}
    (h : (r.openPending c).phase = .over (.error e)) : c.unpolish r.reader.pending = .error e := by
  cases hopen : c.unpolish r.reader.pending with
  | error e' =>
      rw [openPending_of_error hopen] at h
      injection h
  | ok data =>
      cases data with
      | nil =>
          rw [openPending_of_ok_nil hopen] at h
          cases h
      | cons byte data =>
          rw [openPending_of_ok hopen (List.cons_ne_nil byte data)] at h
          cases h

/-- **Opening a complete chunk** leaves less to do: its data is less than the
    chunk was. -/
theorem cost_openPending_lt {r : Reading} {c : Cipher}
    (hchunk : r.reader.pending.length = c.chunkSize) :
    (r.openPending c).cost < 3 + 12 * r.reader.pending.length + 12 * r.reader.received.length := by
  have hpos := c.chunkSize_pos
  have hunpolish := Cipher.unpolish_of_length hchunk
  cases hopen : c.openChunk r.reader.pending with
  | error e =>
      rw [hopen] at hunpolish
      rw [openPending_of_error hunpolish]
      dsimp only [cost, Phase.price, List.length_nil]
      omega
  | ok data =>
      rw [hopen] at hunpolish
      have hlt := Cipher.length_openChunk_lt hchunk hopen
      cases data with
      | nil =>
          rw [openPending_of_ok_nil hunpolish]
          dsimp only [cost, Phase.price, List.length_nil]
          omega
      | cons byte data =>
          rw [openPending_of_ok hunpolish (List.cons_ne_nil byte data)]
          have hle := cost_finish_le { r with
            reader := { r.reader with pending := [], received := byte :: data } }
          dsimp only [List.length_nil] at hle ⊢
          omega

section

variable {total : Yield} {given : Bytes} {w w' : Wired Reading}

/-- No move holds back more than one chunk. -/
theorem Due.whole_of_move (h : w.state.Due total given w.input) (hwhole : w.state.reader.Whole)
    (hmove : Move true w w') : w'.state.reader.Whole := by
  have hsuits := h.suits
  cases hmove with
  | @fill c deadline bytes rest hphase _ _ hspace =>
      rw [hphase] at hsuits
      intro c' hcipher
      obtain rfl : c = c' := Option.some.inj (hsuits.1.symm.trans hcipher)
      show (w.state.reader.pending ++ bytes).length ≤ c.chunkSize
      rw [List.length_append]
      exact hspace
  | openUp _ _ =>
      intro c' _
      dsimp only
      rw [pending_openPending]
      exact Nat.zero_le _
  | refuse _ _ | drain _ _ | listen _ _ _ _ _ | frame _ _ _ _ | arm _ _ | pass _ _ _ _ _
  | finish _ _ _ | close _ _ _ _ | cut _ _ _ _ _ => exact hwhole

/-- A read that is about to open a chunk holds exactly one. -/
theorem Due.length_pending (h : w.state.Due total given w.input) (hwhole : w.state.reader.Whole)
    {c : Cipher} {deadline : Option Deadline} (hphase : w.state.phase = .filling c deadline)
    (hfull : c.chunkSize ≤ w.state.reader.pending.length) :
    w.state.reader.pending.length = c.chunkSize := by
  have hsuits := h.suits
  rw [hphase] at hsuits
  exact Nat.le_antisymm (hwhole c hsuits.1) hfull

/-- **Each move of a read** leaves less to do. -/
theorem Due.cost_of_move (h : w.state.Due total given w.input) (hwhole : w.state.reader.Whole)
    (hmove : Move true w w') :
    w'.state.cost + 13 * w'.input.length < w.state.cost + 13 * w.input.length := by
  unfold cost
  cases hmove with
  | refuse _ hnone => exact absurd hnone h.room
  | drain hphase hkept =>
      have hless := cost_finish_lt h.room hkept
      rw [hphase]
      show w.state.finish.cost + 13 * w.input.length < 5 + _ + _ + 13 * w.input.length
      omega
  | listen deadline hphase _ _ _ | frame hphase _ _ _ | arm deadline hphase
  | finish hphase _ _ | close hphase _ _ _ | cut hphase _ _ _ _ =>
      rw [hphase]
      dsimp only [enter, fail, Phase.price]
      omega
  | pass bytes rest hphase hinput hsome =>
      have hprice := Phase.price_over_le bytes
      have hcount := List.length_pos_iff.mpr hsome
      rw [hphase, hinput, List.length_append]
      show _ < 3 + _ + _ + _
      dsimp only [enter]
      omega
  | fill bytes rest hphase hinput hsome _ =>
      have hcount := List.length_pos_iff.mpr hsome
      rw [hphase, hinput, List.length_append]
      dsimp only [Phase.price]
      rw [List.length_append]
      omega
  | @openUp c deadline hphase hfull =>
      have hless := cost_openPending_lt (h.length_pending hwhole hphase hfull)
      rw [hphase]
      show (w.state.openPending c).cost + 13 * w.input.length < 3 + _ + _ + 13 * w.input.length
      omega

/-- **A read fails by itself only where the wire does:** all that there was to
    get has been handed out, and this is how it ends. -/
theorem Due.error_of_move (h : w.state.Due total given w.input) (hwhole : w.state.reader.Whole)
    (hmove : Move true w w') {e : Error} (hover : w'.state.phase = .over (.error e)) :
    total = ⟨given, .error e⟩ := by
  have hsuits := h.suits
  have hdue := h.due
  -- only a chunk that is cut short and one that does not open fail
  cases hmove with
  | @cut c deadline hphase hpending hshort hinput _ =>
      rw [hphase] at hsuits hdue
      obtain ⟨hcipher, hkept⟩ := hsuits
      injection hover with hover
      injection hover with hover
      rw [hdue, hinput, ← hover]
      unfold Reader.yield
      rw [hcipher]
      dsimp only
      rw [List.append_nil, Cipher.yield_of_short hpending hshort, hkept]
      exact congrArg (Yield.mk · _) (List.append_nil given)
  | @openUp c deadline hphase hfull =>
      have hchunk := h.length_pending hwhole hphase hfull
      have hopen := error_of_openPending hover
      rw [Cipher.unpolish_of_length hchunk] at hopen
      rw [hphase] at hsuits hdue
      obtain ⟨hcipher, hkept⟩ := hsuits
      rw [hdue]
      unfold Reader.yield
      rw [hcipher]
      dsimp only
      rw [Cipher.yield_of_chunk hchunk, hopen, hkept]
      exact congrArg (Yield.mk · _) (List.append_nil given)
  | refuse _ _ | drain _ _ | listen _ _ _ _ _ | frame _ _ _ _ | arm _ _ | pass _ _ _ _ _
  | finish _ _ _ | fill _ _ _ _ _ _ | close _ _ _ _ => cases hover

/-- **A read of a wire that ends well** does not fail, and each of its moves
    leaves less to do. -/
theorem Hale.of_move (h : w.state.Hale) (hdue : w.state.Due total given w.input)
    (hends : total.ending = .ok ()) (hmove : Move true w w') :
    w'.state.Hale ∧ w'.state.cost + 13 * w'.input.length < w.state.cost + 13 * w.input.length := by
  refine ⟨⟨hdue.whole_of_move h.whole hmove, ?_⟩, hdue.cost_of_move h.whole hmove⟩
  intro e hover
  rw [hdue.error_of_move h.whole hmove hover] at hends
  cases hends

end

end Reading

end Masquerade
