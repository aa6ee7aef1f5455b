/-
  Masquerade.Proofs.Reception — ONE READ, whatever interrupts it.

  A receiving side holds back what it has opened and not yet handed out, and
  the beginning of a chunk that is not complete.  Together with the bytes
  still on their way these determine what it has yet to hand out: what it
  OWES.  No move of a read changes what is owed, and neither does giving the
  read up.

  Main results:
    * `Reading.move_of_advance` — the moves of a read.
    * `Reading.owes_of_move` — every move keeps what is owed, and a read
      reports the end only if nothing is.
    * `Reading.effort_of_move`, `Reading.exists_advance` — a read whose
      input ends comes to an end.
-/
import Masquerade.Connection.Reader
import Masquerade.Proofs.Framing
import Masquerade.Proofs.Motion

namespace Masquerade

namespace Reading

/-! ## §1. Moves -/

section

variable {r : Reading}

theorem act_start (h : r.phase = .start) : r.act = .go r.begin := by
  unfold act
  rw [h]

theorem act_passing {deadline : Option Deadline} (h : r.phase = .passing deadline) :
    r.act = .read r.room (Deadline.limit deadline r.fail) r.pass := by
  unfold act
  rw [h]

theorem act_chunk {c : Cipher} (h : r.phase = .chunk c) :
    r.act = .go fun now => r.enter (.filling c (Deadline.start now r.reader.timeout)) := by
  unfold act
  rw [h]

theorem act_full {c : Cipher} {deadline : Option Deadline} (h : r.phase = .filling c deadline)
    (hfull : c.chunkSize - r.reader.pending.length = 0) :
    r.act = .go fun _ => r.openPending c := by
  unfold act
  rw [h]
  dsimp only
  rw [hfull]
  rfl

theorem act_filling {c : Cipher} {deadline : Option Deadline} (h : r.phase = .filling c deadline)
    (hmissing : c.chunkSize - r.reader.pending.length ≠ 0) :
    r.act = .read (c.chunkSize - r.reader.pending.length) (Deadline.limit deadline r.fail)
      (r.fill c deadline) := by
  unfold act
  rw [h]
  dsimp only
  cases hroom : c.chunkSize - r.reader.pending.length with
  | zero => exact absurd hroom hmissing
  | succ missing => rfl

theorem act_over {outcome : Except Error Bytes} (h : r.phase = .over outcome) :
    r.act = .done outcome := by
  unfold act
  rw [h]

/-- What a read that is done has come to. -/
theorem phase_of_act_done {outcome : Except Error Bytes}
    (h : r.act = .done outcome) : r.phase = .over outcome := by
  cases hphase : r.phase with
  | start => cases (act_start hphase).symm.trans h
  | passing deadline => cases (act_passing hphase).symm.trans h
  | chunk c => cases (act_chunk hphase).symm.trans h
  | filling c deadline =>
      by_cases hfull : c.chunkSize - r.reader.pending.length = 0
      · cases (act_full hphase hfull).symm.trans h
      · cases (act_filling hphase hfull).symm.trans h
  | «over» outcome' =>
      cases (act_over hphase).symm.trans h
      rfl

end

/-- **The moves of a read** whose input is a pipe. -/
inductive Move (ended : Bool) (w : Wired Reading) : Wired Reading → Prop where
  | refuse (hphase : w.state.phase = .start) (hroom : w.state.room = 0) :
      Move ended w { w with state := w.state.enter (.over (.ok [])) }
  | drain (hphase : w.state.phase = .start) (hkept : w.state.reader.received ≠ []) :
      Move ended w { w with state := w.state.finish }
  | listen (deadline : Option Deadline) (hphase : w.state.phase = .start)
      (hroom : w.state.room ≠ 0) (hkept : w.state.reader.received = [])
      (hcipher : w.state.reader.cipher = none) :
      Move ended w { w with state := w.state.enter (.passing deadline) }
  | frame {c : Cipher} (hphase : w.state.phase = .start) (hroom : w.state.room ≠ 0)
      (hkept : w.state.reader.received = []) (hcipher : w.state.reader.cipher = some c) :
      Move ended w { w with state := w.state.enter (.chunk c) }
  | arm {c : Cipher} (deadline : Option Deadline) (hphase : w.state.phase = .chunk c) :
      Move ended w { w with state := w.state.enter (.filling c deadline) }
  | pass {deadline : Option Deadline} (bytes rest : Bytes)
      (hphase : w.state.phase = .passing deadline) (hinput : w.input = bytes ++ rest)
      (hsome : bytes ≠ []) :
      Move ended w { w with state := w.state.enter (.over (.ok bytes)), input := rest }
  | finish {deadline : Option Deadline} (hphase : w.state.phase = .passing deadline)
      (hinput : w.input = []) (hended : ended = true) :
      Move ended w { w with state := w.state.enter (.over (.ok [])) }
  | fill {c : Cipher} {deadline : Option Deadline} (bytes rest : Bytes)
      (hphase : w.state.phase = .filling c deadline) (hinput : w.input = bytes ++ rest)
      (hsome : bytes ≠ []) (hroom : w.state.reader.pending.length + bytes.length ≤ c.chunkSize) :
      Move ended w
        { w with
          state := { w.state with
            reader := { w.state.reader with pending := w.state.reader.pending ++ bytes }
            phase := .filling c deadline }
          input := rest }
  | close {c : Cipher} {deadline : Option Deadline} (hphase : w.state.phase = .filling c deadline)
      (hpending : w.state.reader.pending = []) (hinput : w.input = []) (hended : ended = true) :
      Move ended w { w with state := w.state.enter (.over (.ok [])) }
  | cut {c : Cipher} {deadline : Option Deadline} (hphase : w.state.phase = .filling c deadline)
      (hpending : w.state.reader.pending ≠ [])
      (hshort : w.state.reader.pending.length < c.chunkSize) (hinput : w.input = [])
      (hended : ended = true) :
      Move ended w
        { w with state := w.state.fail (.buffer c.chunkSize w.state.reader.pending.length) }
  | openUp {c : Cipher} {deadline : Option Deadline} (hphase : w.state.phase = .filling c deadline)
      (hfull : c.chunkSize ≤ w.state.reader.pending.length) :
      Move ended w { w with state := w.state.openPending c }

section

variable {ended : Bool} {w w' : Wired Reading}

theorem move_of_begin (hphase : w.state.phase = .start) (now : Nat) :
    Move ended w { w with state := w.state.begin now } := by
  unfold begin
  by_cases hroom : w.state.room = 0
  · rw [if_pos hroom]
    exact .refuse hphase hroom
  · rw [if_neg hroom]
    by_cases hkept : w.state.reader.received = []
    · rw [if_neg (by rw [hkept]; exact fun h => h rfl)]
      cases hcipher : w.state.reader.cipher with
      | none => exact .listen _ hphase hroom hkept hcipher
      | some c => exact .frame hphase hroom hkept hcipher
    · rw [if_pos (by rw [List.isEmpty_iff]; exact hkept)]
      exact .drain hphase hkept

/-- **Every motion of a read is one of its moves.** -/
theorem move_of_advance (h : Advance act ended w w') : Move ended w w' := by
  cases hphase : w.state.phase with
  | start =>
      obtain ⟨now, rfl⟩ := h.of_go (act_start hphase)
      exact move_of_begin hphase now
  | passing deadline =>
      obtain ⟨bytes, rest, hinput, hsome, -, rfl⟩ | ⟨hinput, hended, rfl⟩ :=
        h.of_read (act_passing hphase)
      · exact .pass bytes rest hphase hinput hsome
      · exact .finish hphase hinput hended
  | chunk c =>
      obtain ⟨now, rfl⟩ := h.of_go (act_chunk hphase)
      exact .arm _ hphase
  | filling c deadline =>
      by_cases hfull : c.chunkSize - w.state.reader.pending.length = 0
      · obtain ⟨now, rfl⟩ := h.of_go (act_full hphase hfull)
        exact .openUp hphase (by omega)
      · obtain ⟨bytes, rest, hinput, hsome, hroom, rfl⟩ | ⟨hinput, hended, rfl⟩ :=
          h.of_read (act_filling hphase hfull)
        · exact .fill bytes rest hphase hinput hsome (by omega)
        · by_cases hpending : w.state.reader.pending = []
          · have hfill : w.state.fill c deadline .closed = w.state.enter (.over (.ok [])) := by
              unfold fill
              rw [hpending]
              rfl
            rw [hfill]
            exact .close hphase hpending hinput hended
          · have hfill : w.state.fill c deadline .closed
                = w.state.fail (.buffer c.chunkSize w.state.reader.pending.length) := by
              unfold fill
              rw [if_neg (by rw [List.isEmpty_iff]; exact hpending)]
            rw [hfill]
            exact .cut hphase hpending (by omega) hinput hended
  | «over» outcome => exact (h.not_of_done (act_over hphase)).elim

end

/-- What becomes of a chunk that does not open: the read fails with the
    reason, and its receiving side is at the border of the next. -/
theorem openPending_of_error {c : Cipher} {r : Reading} {e : Error}
    (h : c.unpolish r.reader.pending = .error e) :
    r.openPending c = { r with
      reader := { r.reader with pending := [] }, phase := .over (.error e) } := by
  unfold openPending
  rw [h]
  rfl

/-- A chunk without data is used up, and the next one begins. -/
theorem openPending_of_ok_nil {c : Cipher} {r : Reading}
    (h : c.unpolish r.reader.pending = .ok []) :
    r.openPending c = { r with
      reader := { r.reader with pending := [] }, phase := .chunk c } := by
  unfold openPending
  rw [h]
  rfl

/-- What becomes of a chunk that opens to some data: as much as there is room
    for is handed out. -/
theorem openPending_of_ok {c : Cipher} {r : Reading} {plain : Bytes}
    (h : c.unpolish r.reader.pending = .ok plain) (hplain : plain ≠ []) :
    r.openPending c = finish { r with
      reader := { r.reader with pending := [], received := plain } } := by
  unfold openPending
  rw [h]
  cases plain with
  | nil => exact absurd rfl hplain
  | cons byte plain => rfl

end Reading

/-! ## §2. What is owed -/

/-- **What a receiving side owes:** under this state of polish, with these
    bytes coming, what it has still to hand out. -/
structure Reader.Owes (cipher : Option Cipher) (r : Reader) (coming data : Bytes) : Prop where
  polish : r.cipher = cipher
  whole : r.pending.length ≤ cipher.elim 0 Cipher.chunkSize
  carries : ∃ ahead, Carries cipher (r.pending ++ coming) ahead ∧ data = r.received ++ ahead

/-- What comes later is owed later. -/
theorem Reader.Owes.more {cipher : Option Cipher} {r : Reader} {coming data : Bytes}
    (h : r.Owes cipher coming data) {more extra : Bytes} (hmore : Carries cipher more extra) :
    r.Owes cipher (coming ++ more) (data ++ extra) := by
  obtain ⟨hpolish, hwhole, ahead, hcarries, rfl⟩ := h
  refine ⟨hpolish, hwhole, ahead ++ extra, ?_, List.append_assoc ..⟩
  rw [← List.append_assoc]
  exact hcarries.append hmore

/-- A receiving side that has received nothing owes nothing. -/
theorem Reader.Owes.of_start (cipher : Option Cipher) : (Reader.start cipher).Owes cipher [] [] :=
  ⟨rfl, Nat.zero_le _, [], Carries.nil cipher, rfl⟩

/-- Without a cipher no chunk is ever begun. -/
theorem Reader.Owes.pending_eq_nil {r : Reader} {coming data : Bytes}
    (h : r.Owes none coming data) : r.pending = [] :=
  List.length_eq_zero_iff.mp (Nat.le_zero.mp h.whole)

/-- With nothing begun and nothing coming, only what is kept is owed. -/
theorem Reader.Owes.eq_received {cipher : Option Cipher} {r : Reader} {data : Bytes}
    (h : r.Owes cipher [] data) (hpending : r.pending = []) : data = r.received := by
  obtain ⟨-, -, ahead, hcarries, rfl⟩ := h
  rw [hpending] at hcarries
  rw [Carries.eq_nil hcarries, List.append_nil]

namespace Reading

/-- What an outcome hands out. -/
def returned : Except Error Bytes → Bytes
  | .ok bytes => bytes
  | .error _ => []

/-- What a read has taken for its caller. -/
def Phase.taken : Phase → Bytes
  | .over outcome => returned outcome
  | _ => []

/-- What has to be true of a receiving side in each phase of a read. -/
def Phase.Fits (cipher : Option Cipher) (received : Bytes) : Phase → Prop
  | .start | .over (.ok _) => True
  | .passing _ => cipher = none ∧ received = []
  | .chunk c | .filling c _ => cipher = some c ∧ received = []
  | .over (.error e) => ∃ milliseconds, e = .timeout milliseconds

/-- **What is owed while a read is in progress:** what it has taken, and then
    what its receiving side owes. -/
structure Owes (cipher : Option Cipher) (r : Reading) (coming data : Bytes) : Prop where
  room : r.room ≠ 0
  fits : r.phase.Fits cipher r.reader.received
  owes : ∃ rest, data = r.phase.taken ++ rest ∧ r.reader.Owes cipher coming rest

section

variable {cipher : Option Cipher} {coming data : Bytes}

/-- Beginning a read changes nothing. -/
theorem owes_start {reader : Reader} (h : reader.Owes cipher coming data) {room : Nat}
    (hroom : room ≠ 0) : (Reading.start reader room).Owes cipher coming data :=
  ⟨hroom, trivial, data, rfl, h⟩

theorem Owes.more {r : Reading} (h : r.Owes cipher coming data) {more extra : Bytes}
    (hmore : Carries cipher more extra) : r.Owes cipher (coming ++ more) (data ++ extra) := by
  obtain ⟨hroom, hfits, rest, rfl, hrest⟩ := h
  exact ⟨hroom, hfits, rest ++ extra, List.append_assoc .., hrest.more hmore⟩

/-- **A read that is given up has taken nothing.** -/
theorem Owes.of_cancel {r : Reading} (h : r.Owes cipher coming data)
    (hlive : ∀ outcome, r.phase ≠ .over outcome) : r.reader.Owes cipher coming data := by
  obtain ⟨-, -, rest, rfl, hrest⟩ := h
  have hnone : r.phase.taken = [] := by
    cases hphase : r.phase with
    | «over» outcome => exact absurd hphase (hlive outcome)
    | _ => rfl
  rw [hnone, List.nil_append]
  exact hrest

/-- Handing out what is kept keeps what is owed. -/
theorem owes_finish {r : Reading} (hroom : r.room ≠ 0) (h : r.reader.Owes cipher coming data) :
    r.finish.Owes cipher coming data := by
  obtain ⟨hpolish, hwhole, ahead, hcarries, rfl⟩ := h
  refine ⟨hroom, trivial, (r.reader.drain r.room).2.received ++ ahead, ?_, ?_⟩
  · show r.reader.received ++ ahead = (r.reader.drain r.room).1 ++ _
    rw [← List.append_assoc, Reader.drain_append]
  · exact ⟨hpolish, hwhole, ahead, hcarries, rfl⟩

/-- Where there is something to hand out, something is handed out. -/
theorem finish_ne_nil {r : Reading} (hroom : r.room ≠ 0) (hkept : r.reader.received ≠ []) :
    r.finish.phase ≠ .over (.ok []) := by
  intro h
  injection h with h
  injection h with hnone
  exact Reader.drain_ne_nil hroom hkept hnone

/-- **Opening a complete chunk keeps what is owed**, and ends the read only
    with something in hand. -/
theorem owes_openPending {r : Reading} {c : Cipher} {deadline : Option Deadline}
    (h : r.Owes cipher coming data) (hphase : r.phase = .filling c deadline)
    (hfull : c.chunkSize ≤ r.reader.pending.length) :
    (r.openPending c).Owes cipher coming data
      ∧ (r.openPending c).phase ≠ .over (.ok [])
      ∧ (r.openPending c).reader.pending = [] := by
  obtain ⟨hroom, hfits, rest, rfl, hpolish, hwhole, ahead, hcarries, rfl⟩ := h
  rw [hphase] at hfits ⊢
  obtain ⟨rfl, hkept⟩ := hfits
  have hwhole : r.reader.pending.length ≤ c.chunkSize := hwhole
  obtain ⟨piece, ahead, hopen, rfl, hcoming⟩ :=
    Cipher.unpolish_of_framed hcarries (Nat.le_antisymm hwhole hfull)
  rw [hkept]
  cases piece with
  | nil =>
      rw [openPending_of_ok_nil hopen]
      refine ⟨⟨hroom, ⟨rfl, hkept⟩, ahead, rfl, hpolish, Nat.zero_le _, ahead, hcoming, ?_⟩,
        ?_, rfl⟩
      · show ahead = r.reader.received ++ ahead
        rw [hkept]
        rfl
      · intro hover
        cases hover
  | cons byte piece =>
      rw [openPending_of_ok hopen (List.cons_ne_nil byte piece)]
      refine ⟨owes_finish hroom ⟨hpolish, Nat.zero_le _, ahead, hcoming, rfl⟩, ?_, rfl⟩
      exact finish_ne_nil hroom (List.cons_ne_nil byte piece)

end

section

variable {cipher : Option Cipher} {ended : Bool} {w w' : Wired Reading} {tail data : Bytes}

/-- **No move of a read changes what is owed**, and a read reports the end of
    the stream only if the input has ended and nothing is owed. -/
theorem owes_of_move (h : w.state.Owes cipher (w.input ++ tail) data)
    (htail : ended = true → tail = []) (hmove : Move ended w w') :
    w'.state.Owes cipher (w'.input ++ tail) data
      ∧ (w'.state.phase = .over (.ok []) → ended = true ∧ data = []) := by
  obtain ⟨hroom, hfits, rest, hdata, howes⟩ := h
  cases hmove with
  | refuse _ hnone => exact absurd hnone hroom
  | drain hphase hkept =>
      rw [hphase] at hdata
      subst hdata
      exact ⟨owes_finish hroom howes, fun hover => absurd hover (finish_ne_nil hroom hkept)⟩
  | listen deadline hphase _ hkept hcipher =>
      rw [hphase] at hdata
      subst hdata
      refine ⟨⟨hroom, ⟨howes.polish.symm.trans hcipher, hkept⟩, _, rfl, howes⟩, ?_⟩
      intro hover
      cases hover
  | frame hphase _ hkept hcipher =>
      rw [hphase] at hdata
      subst hdata
      refine ⟨⟨hroom, ⟨howes.polish.symm.trans hcipher, hkept⟩, _, rfl, howes⟩, ?_⟩
      intro hover
      cases hover
  | arm deadline hphase =>
      rw [hphase] at hfits hdata
      subst hdata
      refine ⟨⟨hroom, hfits, _, rfl, howes⟩, ?_⟩
      intro hover
      cases hover
  | pass bytes left hphase hinput hsome =>
      rw [hphase] at hfits hdata
      obtain ⟨rfl, hkept⟩ := hfits
      have hpending := howes.pending_eq_nil
      obtain ⟨hpolish, hwhole, ahead, hcarries, rfl⟩ := howes
      rw [hpending, hinput, List.append_assoc] at hcarries
      -- the wire carries itself, so the bytes read are the first owed
      have hahead : bytes ++ (left ++ tail) = ahead := hcarries
      refine ⟨⟨hroom, trivial, left ++ tail, ?_, hpolish, hwhole, left ++ tail, ?_, ?_⟩, ?_⟩
      · rw [hdata, hkept, ← hahead]
        rfl
      · show w.state.reader.pending ++ (left ++ tail) = left ++ tail
        rw [hpending]
        rfl
      · show left ++ tail = w.state.reader.received ++ (left ++ tail)
        rw [hkept]
        rfl
      · intro hover
        injection hover with hover
        injection hover with hnone
        exact absurd hnone hsome
  | finish hphase hinput hended =>
      rw [hphase] at hfits hdata
      obtain ⟨rfl, hkept⟩ := hfits
      rw [hinput, htail hended] at howes
      rw [hinput, htail hended]
      have hnone := howes.eq_received howes.pending_eq_nil
      rw [hkept] at hnone
      subst hnone
      exact ⟨⟨hroom, trivial, [], hdata, howes⟩, fun _ => ⟨hended, hdata⟩⟩
  | @fill c deadline bytes left hphase hinput _ hspace =>
      rw [hphase] at hfits hdata
      subst hdata
      obtain ⟨rfl, hkept⟩ := hfits
      obtain ⟨hpolish, -, ahead, hcarries, rfl⟩ := howes
      -- the bytes read go from the wire to the chunk in hand
      rw [hinput, List.append_assoc, ← List.append_assoc] at hcarries
      refine ⟨⟨hroom, ⟨rfl, hkept⟩, _, rfl, hpolish, ?_, ahead, hcarries, rfl⟩, ?_⟩
      · show (w.state.reader.pending ++ bytes).length ≤ c.chunkSize
        rw [List.length_append]
        exact hspace
      · intro hover
        cases hover
  | close hphase hpending hinput hended =>
      rw [hphase] at hfits hdata
      obtain ⟨-, hkept⟩ := hfits
      rw [hinput, htail hended] at howes
      rw [hinput, htail hended]
      have hnone := howes.eq_received hpending
      rw [hkept] at hnone
      subst hnone
      exact ⟨⟨hroom, trivial, [], hdata, howes⟩, fun _ => ⟨hended, hdata⟩⟩
  | @cut c deadline hphase hpending hshort hinput hended =>
      -- whole chunks do not end in the middle of one
      rw [hphase] at hfits
      obtain ⟨rfl, -⟩ := hfits
      obtain ⟨-, -, ahead, hcarries, -⟩ := howes
      rw [hinput, htail hended, List.append_nil, List.append_nil] at hcarries
      exact absurd (Cipher.Framed.eq_nil_of_length_lt hcarries hshort).1 hpending
  | openUp hphase hfull =>
      obtain ⟨hnext, hne, -⟩ := owes_openPending ⟨hroom, hfits, rest, hdata, howes⟩ hphase hfull
      exact ⟨hnext, fun hover => absurd hover hne⟩

end

/-- **Only a read that waits has a time limit,** and fails when it passes. -/
theorem fail_of_expires {r r' : Reading} (h : Expires act r r') :
    (∃ milliseconds, r' = r.fail (.timeout milliseconds))
      ∧ ∀ outcome, r.phase ≠ .over outcome := by
  have hfailed : ∀ {deadline : Option Deadline} {instant : Nat},
      Deadline.limit deadline r.fail = some (instant, r') →
      ∃ milliseconds, r' = r.fail (.timeout milliseconds) := by
    intro deadline instant hlimit
    obtain ⟨d, -, hd⟩ := Option.map_eq_some_iff.mp hlimit
    exact ⟨d.length, (Prod.mk.inj hd).2.symm⟩
  obtain ⟨room, instant, next, hact⟩ := h
  cases hphase : r.phase with
  | start => cases (act_start hphase).symm.trans hact
  | passing deadline =>
      rw [act_passing hphase] at hact
      injection hact with _ hlimit _
      exact ⟨hfailed hlimit, nofun⟩
  | chunk c => cases (act_chunk hphase).symm.trans hact
  | filling c deadline =>
      by_cases hfull : c.chunkSize - r.reader.pending.length = 0
      · cases (act_full hphase hfull).symm.trans hact
      · rw [act_filling hphase hfull] at hact
        injection hact with _ hlimit _
        exact ⟨hfailed hlimit, nofun⟩
  | «over» outcome => cases (act_over hphase).symm.trans hact

/-- **A read whose time limit passes** reports that, and keeps what is
    owed. -/
theorem owes_of_expires {cipher : Option Cipher} {coming data : Bytes} {r r' : Reading}
    (h : r.Owes cipher coming data) (hexpires : Expires act r r') :
    r'.Owes cipher coming data ∧ r'.phase ≠ .over (.ok []) := by
  obtain ⟨⟨milliseconds, rfl⟩, hlive⟩ := fail_of_expires hexpires
  refine ⟨⟨h.room, ⟨milliseconds, rfl⟩, data, rfl, h.of_cancel hlive⟩, ?_⟩
  intro hover
  cases hover

/-! ## §3. The end of a read -/

/-- What a phase costs, so that each move makes the rest cheaper. -/
def Phase.effort : Phase → Nat
  | .start => 5
  | .chunk _ => 4
  | .passing _ | .filling _ _ => 3
  | .over (.ok []) => 0
  | .over (.ok (_ :: _)) => 4
  | .over (.error _) => 7

/-- **The effort left to a read:** what its phase costs, and the bytes of the
    chunk in hand. -/
def effort (r : Reading) : Nat := r.phase.effort + r.reader.pending.length

section

variable {cipher : Option Cipher} {ended : Bool} {w w' : Wired Reading} {tail data : Bytes}

theorem Phase.effort_over_le (bytes : Bytes) : Phase.effort (.over (.ok bytes)) ≤ 4 := by
  cases bytes with
  | nil => exact Nat.zero_le 4
  | cons byte bytes => exact Nat.le_refl 4

/-- **Every move of a read brings its end nearer**, a byte of the input being
    worth two. -/
theorem effort_of_move (h : w.state.Owes cipher (w.input ++ tail) data)
    (htail : ended = true → tail = []) (hmove : Move ended w w') :
    w'.state.effort + 2 * w'.input.length < w.state.effort + 2 * w.input.length := by
  have hwhole := h
  obtain ⟨hroom, hfits, -⟩ := h
  unfold effort
  cases hmove with
  | refuse _ hnone => exact absurd hnone hroom
  | drain hphase _ =>
      have hprice := Phase.effort_over_le (w.state.reader.received.take w.state.room)
      rw [hphase]
      show _ < 5 + _ + _
      dsimp only [finish, Reader.drain]
      omega
  | listen _ hphase _ _ _ | frame hphase _ _ _ | arm _ hphase =>
      rw [hphase]
      dsimp only [enter, Phase.effort]
      omega
  | pass bytes left hphase hinput hsome =>
      have hprice := Phase.effort_over_le bytes
      have hcount := List.length_pos_iff.mpr hsome
      rw [hphase, hinput, List.length_append]
      show _ < 3 + _ + _
      dsimp only [enter]
      omega
  | finish hphase _ _ | close hphase _ _ _ =>
      rw [hphase]
      dsimp only [enter, Phase.effort]
      omega
  | fill bytes left hphase hinput hsome _ =>
      have hcount := List.length_pos_iff.mpr hsome
      rw [hphase, hinput, List.length_append]
      dsimp only [Phase.effort]
      rw [List.length_append]
      omega
  | cut hphase hpending hshort hinput hended =>
      obtain ⟨⟨-, hnext, -⟩, -⟩ :=
        owes_of_move hwhole htail (.cut hphase hpending hshort hinput hended)
      obtain ⟨milliseconds, he⟩ := hnext
      cases he
  | @openUp c deadline hphase hfull =>
      obtain ⟨hnext, -, hpending⟩ := owes_openPending hwhole hphase hfull
      have hmin := c.min_le
      unfold minChunkSize at hmin
      have hprice : (w.state.openPending c).phase.effort ≤ 7 := by
        unfold Phase.effort
        split <;> omega
      rw [hphase]
      show _ < 3 + _ + _
      dsimp only
      rw [hpending]
      dsimp only [List.length_nil]
      omega

/-- **A read whose input ends stops only at its end.** -/
theorem exists_advance (hroom : w.state.room ≠ 0)
    (hlive : ∀ outcome, w.state.phase ≠ .over outcome) :
    ∃ w', Advance act true w w' := by
  have hread : ∀ {room : Nat} {limit : Option (Nat × Reading)} {next : Arrival → Reading},
      w.state.act = .read room limit next → room ≠ 0 → ∃ w', Advance act true w w' := by
    intro room limit next hact hne
    cases hinput : w.input with
    | nil => exact ⟨_, .closed hact hinput rfl⟩
    | cons byte rest =>
        refine ⟨_, .read [byte] rest hact hinput (List.cons_ne_nil _ _) ?_⟩
        show 1 ≤ room
        omega
  cases hphase : w.state.phase with
  | start => exact ⟨_, .go 0 (act_start hphase)⟩
  | passing deadline => exact hread (act_passing hphase) hroom
  | chunk c => exact ⟨_, .go 0 (act_chunk hphase)⟩
  | filling c deadline =>
      by_cases hfull : c.chunkSize - w.state.reader.pending.length = 0
      · exact ⟨_, .go 0 (act_full hphase hfull)⟩
      · exact hread (act_filling hphase hfull) hfull
  | «over» outcome => exact absurd hphase (hlive outcome)

end

end Reading

end Masquerade
