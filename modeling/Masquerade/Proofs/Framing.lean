/-
  Masquerade.Proofs.Framing — WHAT THE WIRE CARRIES.

  Without a cipher the wire carries its own bytes.  With one it carries
  whole chunks, and what they hold, in order, is the data.  `Carries` says
  so of any stretch of the wire that begins at the border of a chunk, so it
  can be put together from writes and taken apart chunk by chunk, and these
  need not match.

  Main results:
    * `Bytes.flatten_pieces`, `Bytes.length_le_of_mem_pieces` — cutting
      loses nothing, and the pieces are small enough.
    * `Writer.carries_wireForm` — a write puts its data on the wire.
    * `Cipher.unpolish_of_framed` — the first chunk on the wire opens to the
      data it carries.
    * `Cipher.unpolish_polish` — opening undoes sealing.
-/
import Masquerade.Connection.Writer

namespace Masquerade

/-! ## §1. Pieces -/

namespace Bytes

theorem pieces_nil (size : Nat) : pieces size [] = [] := by
  unfold pieces
  rw [dif_pos (Or.inr rfl)]

theorem pieces_cons {size : Nat} {bytes : Bytes} (hsize : size ≠ 0) (hbytes : bytes ≠ []) :
    pieces size bytes = bytes.take size :: pieces size (bytes.drop size) := by
  rw [pieces, dif_neg]
  rintro (h | h)
  · exact hsize h
  · exact hbytes h

/-- What is no longer than a piece is one piece. -/
theorem pieces_of_length_le {size : Nat} {bytes : Bytes} (hsize : size ≠ 0) (hbytes : bytes ≠ [])
    (hle : bytes.length ≤ size) : pieces size bytes = [bytes] := by
  rw [pieces_cons hsize hbytes, List.take_of_length_le hle, List.drop_of_length_le hle,
    pieces_nil]

/-- **Cutting loses nothing.** -/
theorem flatten_pieces {size : Nat} (hsize : size ≠ 0) (bytes : Bytes) :
    (pieces size bytes).flatten = bytes := by
  induction bytes using pieces.induct size with
  | case1 bytes h =>
      obtain h | h := h
      · exact absurd h hsize
      · subst h
        rw [pieces_nil]
        rfl
  | case2 bytes h ih =>
      have hbytes : bytes ≠ [] := fun heq => h (.inr heq)
      rw [pieces_cons hsize hbytes, List.flatten_cons, ih, List.take_append_drop]

/-- **No piece is longer than asked for.** -/
theorem length_le_of_mem_pieces {size : Nat} {bytes piece : Bytes}
    (h : piece ∈ pieces size bytes) : piece.length ≤ size := by
  induction bytes using pieces.induct size with
  | case1 bytes hnone =>
      rw [pieces, dif_pos hnone] at h
      exact absurd h List.not_mem_nil
  | case2 bytes hsome ih =>
      rw [pieces, dif_neg hsome] at h
      obtain heq | h := List.mem_cons.mp h
      · rw [heq]
        exact List.length_take_le _ _
      · exact ih h

/-- There are no more pieces than bytes. -/
theorem length_pieces_le (size : Nat) (bytes : Bytes) :
    (pieces size bytes).length ≤ bytes.length := by
  induction bytes using pieces.induct size with
  | case1 bytes hnone =>
      rw [pieces, dif_pos hnone]
      exact Nat.zero_le _
  | case2 bytes hsome ih =>
      have hsize : 0 < size := Nat.pos_of_ne_zero fun heq => hsome (.inl heq)
      have hbytes : 0 < bytes.length := List.length_pos_iff.mpr fun heq => hsome (.inr heq)
      rw [pieces, dif_neg hsome, List.length_cons]
      rw [List.length_drop] at ih
      omega

end Bytes

/-! ## §2. Chunks on the wire -/

namespace Cipher

theorem chunkSize_pos (c : Cipher) : 0 < c.chunkSize := by
  have hmin := c.min_le
  unfold minChunkSize at hmin
  omega

theorem capacity_pos (c : Cipher) : 0 < c.capacity := by
  have hmin := c.min_le
  unfold minChunkSize at hmin
  unfold capacity payloadSize lengthSize Aead.nonceSize Aead.tagSize
  omega

theorem flatten_piecesOf (c : Cipher) (data : Bytes) : (c.piecesOf data).flatten = data := by
  unfold piecesOf
  split
  next h => exact (List.isEmpty_iff.mp h).symm
  next => exact Bytes.flatten_pieces (Nat.ne_of_gt c.capacity_pos) data

theorem length_le_of_mem_piecesOf {c : Cipher} {data piece : Bytes} (h : piece ∈ c.piecesOf data) :
    piece.length ≤ c.capacity := by
  unfold piecesOf at h
  split at h
  next =>
    -- no data makes one chunk without any
    rw [List.mem_singleton.mp h]
    exact Nat.zero_le _
  next => exact Bytes.length_le_of_mem_pieces h

/-- A whole chunk is opened on its own. -/
theorem unpolish_of_length {c : Cipher} {chunk : Bytes} (h : chunk.length = c.chunkSize) :
    c.unpolish chunk = c.openChunk chunk := by
  have hpos := c.chunkSize_pos
  have hsome : chunk ≠ [] := by
    intro hnone
    rw [hnone] at h
    exact absurd h.symm (Nat.ne_of_gt hpos)
  unfold unpolish
  rw [if_neg (by omega), if_neg (by rw [h, Nat.mod_self]; exact fun hne => hne rfl),
    Bytes.pieces_of_length_le (Nat.ne_of_gt hpos) hsome (Nat.le_of_eq h)]
  unfold openChunks
  cases c.openChunk chunk with
  | error e => rfl
  | ok data =>
      show Except.ok (data ++ []) = _
      rw [List.append_nil]

/-- Opening a sealed payload looks at the payload. -/
theorem unpolish_encrypt (c : Cipher) {nonce payload : Bytes}
    (hnonce : nonce.length = Aead.nonceSize) (hpayload : payload.length = c.payloadSize) :
    c.unpolish (nonce ++ Aead.encrypt c.key nonce payload) = c.dataOf payload := by
  have hchunk : (nonce ++ Aead.encrypt c.key nonce payload).length = c.chunkSize := by
    have hmin := c.min_le
    unfold minChunkSize at hmin
    rw [List.length_append, Aead.length_encrypt, hnonce, hpayload]
    unfold payloadSize Aead.nonceSize Aead.tagSize
    omega
  rw [unpolish_of_length hchunk]
  unfold openChunk
  rw [List.take_left' hnonce, List.drop_left' hnonce, Aead.decrypt?_encrypt]

/-- **A stretch of the wire in whole chunks**, and the data they hold. -/
inductive Framed (c : Cipher) : Bytes → Bytes → Prop where
  | nil : Framed c [] []
  | cons {nonce piece wire data : Bytes} (hnonce : nonce.length = Aead.nonceSize)
      (hpiece : piece.length ≤ c.capacity) (hrest : Framed c wire data) :
      Framed c (c.sealChunk nonce piece ++ wire) (piece ++ data)

variable {c : Cipher} {wire data wire' data' : Bytes}

theorem Framed.append (h : Framed c wire data) (h' : Framed c wire' data') :
    Framed c (wire ++ wire') (data ++ data') := by
  induction h with
  | nil => exact h'
  | cons hnonce hpiece _ ih =>
      rw [List.append_assoc, List.append_assoc]
      exact .cons hnonce hpiece ih

/-- Sealed pieces are whole chunks. -/
theorem framed_sealPieces (pieces : List Bytes) :
    (∀ piece ∈ pieces, piece.length ≤ c.capacity) →
    ∀ (draws : Draws), Framed c (c.sealPieces pieces draws).1 pieces.flatten := by
  induction pieces with
  | nil =>
      intro _ draws
      exact .nil
  | cons piece pieces ih =>
      intro hpieces draws
      obtain ⟨hpiece, hmore⟩ := List.forall_mem_cons.mp hpieces
      show Framed c (c.sealChunk (nonceOf draws.next) piece
        ++ (c.sealPieces pieces draws.advance).1) (piece ++ pieces.flatten)
      exact .cons (Bytes.length_ofNatLE _ _) hpiece (ih hmore draws.advance)

/-- What is left of the wire is nothing, or at least a chunk. -/
theorem Framed.eq_nil_of_length_lt (h : Framed c wire data) (hlt : wire.length < c.chunkSize) :
    wire = [] ∧ data = [] := by
  cases h with
  | nil => exact ⟨rfl, rfl⟩
  | @cons nonce piece wire _ hnonce _ _ =>
      rw [List.length_append, c.length_sealChunk nonce piece hnonce] at hlt
      omega

/-- Whole chunks are a multiple of a chunk long. -/
theorem Framed.dvd_length (h : Framed c wire data) : c.chunkSize ∣ wire.length := by
  induction h with
  | nil => exact Nat.dvd_zero _
  | @cons nonce piece wire data hnonce _ _ ih =>
      rw [List.length_append, c.length_sealChunk nonce piece hnonce]
      exact Nat.dvd_add (Nat.dvd_refl _) ih

/-- **The first chunk on the wire opens** to the first of the data. -/
theorem unpolish_of_framed {chunk : Bytes} (h : Framed c (chunk ++ wire) data)
    (hchunk : chunk.length = c.chunkSize) :
    ∃ piece rest, c.unpolish chunk = .ok piece ∧ data = piece ++ rest ∧ Framed c wire rest := by
  generalize hwhole : chunk ++ wire = whole at h
  cases h with
  | nil =>
      -- a chunk is never empty
      have hpos := c.chunkSize_pos
      rw [(List.append_eq_nil_iff.mp hwhole).1] at hchunk
      exact absurd hchunk (Nat.ne_of_lt hpos)
  | @cons nonce piece wire' rest hnonce hpiece hrest =>
      have hlength := c.length_sealChunk nonce piece hnonce
      obtain ⟨rfl, rfl⟩ := List.append_inj hwhole (hchunk.trans hlength.symm)
      refine ⟨piece, rest, ?_, rfl, hrest⟩
      rw [unpolish_of_length hlength]
      exact c.openChunk_sealChunk nonce piece hnonce hpiece

/-- **Whole chunks open** to the data they carry. -/
theorem Framed.openChunks (h : Framed c wire data) :
    c.openChunks (Bytes.pieces c.chunkSize wire) = .ok data := by
  have hpos := c.chunkSize_pos
  induction h with
  | nil =>
      rw [Bytes.pieces_nil]
      rfl
  | @cons nonce piece wire data hnonce hpiece _ ih =>
      have hlength := c.length_sealChunk nonce piece hnonce
      have hsome : c.sealChunk nonce piece ++ wire ≠ [] := by
        intro hnone
        rw [(List.append_eq_nil_iff.mp hnone).1] at hlength
        exact absurd hlength (Nat.ne_of_lt hpos)
      rw [Bytes.pieces_cons (Nat.ne_of_gt hpos) hsome, List.take_left' hlength,
        List.drop_left' hlength]
      unfold Cipher.openChunks
      rw [c.openChunk_sealChunk nonce piece hnonce hpiece]
      dsimp only
      rw [ih]

theorem piecesOf_ne_nil (c : Cipher) (data : Bytes) : c.piecesOf data ≠ [] := by
  unfold piecesOf
  split
  next => exact List.cons_ne_nil _ _
  next h =>
    have hsome : data ≠ [] := fun hnone => h (List.isEmpty_iff.mpr hnone)
    rw [Bytes.pieces_cons (Nat.ne_of_gt c.capacity_pos) hsome]
    exact List.cons_ne_nil _ _

theorem framed_polish (c : Cipher) (data : Bytes) (draws : Draws) :
    Framed c (c.polish data draws).1 data := by
  have hframed := c.framed_sealPieces (c.piecesOf data)
    (fun _ hpiece => length_le_of_mem_piecesOf hpiece) draws
  rw [c.flatten_piecesOf] at hframed
  exact hframed

/-- Sealed data is at least one chunk. -/
theorem chunkSize_le_polish (c : Cipher) (data : Bytes) (draws : Draws) :
    c.chunkSize ≤ (c.polish data draws).1.length := by
  unfold polish
  cases hpieces : c.piecesOf data with
  | nil => exact absurd hpieces (c.piecesOf_ne_nil data)
  | cons piece pieces =>
      show c.chunkSize ≤ (c.sealChunk (nonceOf draws.next) piece
        ++ (c.sealPieces pieces draws.advance).1).length
      have hnonce : (nonceOf draws.next).length = Aead.nonceSize := Bytes.length_ofNatLE _ _
      rw [List.length_append, c.length_sealChunk _ piece hnonce]
      exact Nat.le_add_right _ _

theorem length_sealPieces (c : Cipher) (pieces : List Bytes) :
    ∀ (draws : Draws), (c.sealPieces pieces draws).1.length = c.chunkSize * pieces.length := by
  induction pieces with
  | nil =>
      intro draws
      rfl
  | cons piece pieces ih =>
      intro draws
      have hnonce : (nonceOf draws.next).length = Aead.nonceSize := Bytes.length_ofNatLE _ _
      show (c.sealChunk (nonceOf draws.next) piece
        ++ (c.sealPieces pieces draws.advance).1).length = _
      rw [List.length_append, c.length_sealChunk _ piece hnonce, ih, List.length_cons,
        Nat.mul_succ, Nat.add_comm]

/-- **Opening undoes sealing,** whatever the data and the nonces. -/
theorem unpolish_polish (c : Cipher) (data : Bytes) (draws : Draws) :
    c.unpolish (c.polish data draws).1 = .ok data := by
  have hframed := c.framed_polish data draws
  unfold unpolish
  rw [if_neg (Nat.not_lt.mpr (c.chunkSize_le_polish data draws)),
    if_neg (fun hragged => hragged (Nat.mod_eq_zero_of_dvd hframed.dvd_length)),
    hframed.openChunks]

end Cipher

/-! ## §3. The wire, with or without a cipher -/

/-- **A stretch of the wire carries data** under this state of polish. -/
def Carries : Option Cipher → Bytes → Bytes → Prop
  | none, wire, data => wire = data
  | some c, wire, data => c.Framed wire data

theorem Carries.nil (cipher : Option Cipher) : Carries cipher [] [] := by
  cases cipher with
  | none => rfl
  | some c => exact Cipher.Framed.nil

theorem Carries.append {cipher : Option Cipher} {wire data wire' data' : Bytes}
    (h : Carries cipher wire data) (h' : Carries cipher wire' data') :
    Carries cipher (wire ++ wire') (data ++ data') := by
  cases cipher with
  | none =>
      have hwire : wire = data := h
      have hwire' : wire' = data' := h'
      show wire ++ wire' = data ++ data'
      rw [hwire, hwire']
  | some c => exact Cipher.Framed.append h h'

/-- An empty stretch carries nothing. -/
theorem Carries.eq_nil {cipher : Option Cipher} {data : Bytes} (h : Carries cipher [] data) :
    data = [] := by
  cases cipher with
  | none => exact h.symm
  | some c => exact (h.eq_nil_of_length_lt c.chunkSize_pos).2

/-- **A write puts its data on the wire**, whatever the nonces. -/
theorem Writer.carries_wireForm (w : Writer) (data : Bytes) (draws : Draws) :
    Carries w.cipher (w.wireForm data draws).1 data := by
  unfold wireForm
  cases w.cipher with
  | none => rfl
  | some c => exact c.framed_polish data draws

/-- A byte of data costs at most a chunk of the wire. -/
theorem Writer.length_wireForm_le (w : Writer) {data : Bytes} (hdata : data ≠ []) (draws : Draws) :
    (w.wireForm data draws).1.length ≤ w.cipher.elim 1 Cipher.chunkSize * data.length := by
  unfold wireForm
  cases w.cipher with
  | none => exact Nat.le_of_eq (Nat.one_mul _).symm
  | some c =>
      show (c.sealPieces (c.piecesOf data) draws).1.length ≤ c.chunkSize * data.length
      rw [c.length_sealPieces]
      refine Nat.mul_le_mul_left _ ?_
      unfold Cipher.piecesOf
      rw [if_neg (by rw [List.isEmpty_iff]; exact hdata)]
      exact Bytes.length_pieces_le _ _

end Masquerade
