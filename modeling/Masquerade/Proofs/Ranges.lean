/-
  Masquerade.Proofs.Ranges — THE CIPHER WITHIN ITS RANGES.

  Sealing and opening subtract sizes, divide by them, cut byte strings at
  computed places, and write a length into two bytes.  Each of these has a
  range: a larger number cannot be taken from a smaller one, nothing is
  divided by zero, a cut lies within the string, padding does not shorten,
  and a length that needs a third byte is no length.  Outside its range an
  operation of this library still has a value, so a formula that leaves its
  range would not be noticed.

  Here the same steps are taken by partial operations, which have no value
  outside their range, and with every reason for which a chunk can be too
  short.  The results always exist, and they are those of the cipher.

  Main results:
    * `Cipher.capacity?_eq`, `Cipher.room?_eq` — the sizes exist.
    * `Cipher.polish?_eq` — sealing stays within its ranges.
    * `Cipher.unpolish?_eq` — opening does, whatever the bytes.
-/
import Masquerade.Crypto.Sealing
import Masquerade.Proofs.Framing
import Mathlib.Algebra.Order.Floor.Div

namespace Masquerade

/-! ## §1. Operations that have a range -/

namespace Bytes

/-- What is left of a size, where there is so much. -/
def less? (size part : Nat) : Option Nat := if part ≤ size then some (size - part) else none

/-- How many pieces a size makes, where a piece has a size itself. -/
def pieceCount? (piece size : Nat) : Option Nat := if piece = 0 then none else some (size ⌈/⌉ piece)

/-- What pieces of a size leave over, where they have a size. -/
def leftOver? (piece size : Nat) : Option Nat := if piece = 0 then none else some (size % piece)

/-- Successive pieces, where a piece has a size. -/
def pieces? (size : Nat) (bytes : Bytes) : Option (List Bytes) :=
  if size = 0 then none else some (pieces size bytes)

/-- The bytes from one place up to another, where both are places in order. -/
def slice? (bytes : Bytes) (start stop : Nat) : Option Bytes :=
  if start ≤ stop ∧ stop ≤ bytes.length then some ((bytes.take stop).drop start) else none

/-- The little-endian code of a number, where it fits the width. -/
def ofNatLE? (width n : Nat) : Option Bytes :=
  if n < Nat.pow 256 width then some (ofNatLE width n) else none

/-- Filled up to a width, where nothing is cut off. -/
def fill? (bytes : Bytes) (width : Nat) (fill : UInt8) : Option Bytes :=
  if bytes.length ≤ width then some (resize bytes width fill) else none

theorem less?_add (size part : Nat) : less? (size + part) part = some size := by
  unfold less?
  rw [if_pos (Nat.le_add_left part size), Nat.add_sub_cancel]

theorem slice?_of_le {bytes : Bytes} {start stop : Nat} (hstart : start ≤ stop)
    (hstop : stop ≤ bytes.length) : bytes.slice? start stop = some ((bytes.take stop).drop start) := by
  unfold slice?
  rw [if_pos ⟨hstart, hstop⟩]

/-- **Where the size divides the length, no piece is shorter.** -/
theorem length_of_mem_pieces {size : Nat} {bytes piece : Bytes} (hwhole : size ∣ bytes.length)
    (hpiece : piece ∈ pieces size bytes) : piece.length = size := by
  induction bytes using pieces.induct size with
  | case1 bytes hnone =>
      rw [pieces, dif_pos hnone] at hpiece
      exact absurd hpiece List.not_mem_nil
  | case2 bytes hsome ih =>
      have hbytes : bytes ≠ [] := fun hnone => hsome (.inr hnone)
      have hle : size ≤ bytes.length := Nat.le_of_dvd (List.length_pos_iff.mpr hbytes) hwhole
      rw [pieces, dif_neg hsome] at hpiece
      obtain rfl | hmore := List.mem_cons.mp hpiece
      · rw [List.length_take]
        omega
      · apply ih _ hmore
        rw [List.length_drop]
        exact Nat.dvd_sub hwhole (Nat.dvd_refl size)

/-- **The number of pieces** is the quotient of the sizes, rounded up. -/
theorem length_pieces {size : Nat} (hsize : size ≠ 0) (bytes : Bytes) :
    (pieces size bytes).length = bytes.length ⌈/⌉ size := by
  rw [Nat.ceilDiv_eq_add_pred_div]
  induction bytes using pieces.induct size with
  | case1 bytes hnone =>
      obtain rfl : bytes = [] := hnone.resolve_left hsize
      rw [pieces_nil]
      exact (Nat.div_eq_of_lt (by simp; omega)).symm
  | case2 bytes hsome ih =>
      have hbytes : bytes ≠ [] := fun hnone => hsome (.inr hnone)
      have hpos := List.length_pos_iff.mpr hbytes
      rw [pieces_cons hsize hbytes, List.length_cons, ih, List.length_drop]
      by_cases hle : bytes.length ≤ size
      · -- the first piece is the last
        have hlast : (bytes.length - size + size - 1) / size = 0 := Nat.div_eq_of_lt (by omega)
        have hone : bytes.length + size - 1 = (bytes.length - 1) + size := by omega
        rw [hlast, hone, Nat.add_div_right _ (by omega), Nat.div_eq_of_lt (by omega)]
      · have hmore : bytes.length + size - 1 = (bytes.length - size + size - 1) + size := by omega
        rw [hmore, Nat.add_div_right _ (by omega)]

end Bytes

namespace Cipher

/-! ## §2. Sizes -/

/-- The size of a payload, with each difference within its range. -/
def payloadSize? (c : Cipher) : Option Nat := do
  let body ← Bytes.less? c.chunkSize Aead.nonceSize
  Bytes.less? body Aead.tagSize

/-- How much data one chunk holds, likewise. -/
def capacity? (c : Cipher) : Option Nat := do
  let size ← c.payloadSize?
  Bytes.less? size lengthSize

/-- **A chunk is its nonce, a length, room for data, and a tag.** -/
theorem chunkSize_eq (c : Cipher) :
    c.chunkSize = Aead.nonceSize + (lengthSize + c.capacity) + Aead.tagSize := by
  have hmin := c.min_le
  simp only [capacity, payloadSize, lengthSize, minChunkSize, Aead.nonceSize, Aead.tagSize] at *
  omega

theorem payloadSize?_eq (c : Cipher) : c.payloadSize? = some c.payloadSize := by
  have hsize : c.chunkSize = (c.payloadSize + Aead.tagSize) + Aead.nonceSize := by
    have hchunk := c.chunkSize_eq
    have hpayload := c.capacity_add
    omega
  unfold payloadSize?
  rw [hsize, Bytes.less?_add, Option.bind_eq_bind, Option.bind_some]
  exact Bytes.less?_add _ _

/-- **The capacity exists.** -/
theorem capacity?_eq (c : Cipher) : c.capacity? = some c.capacity := by
  unfold capacity?
  rw [payloadSize?_eq, ← capacity_add, Option.bind_eq_bind, Option.bind_some]
  exact Bytes.less?_add _ _

/-- The room set aside for the chunks of so much data. -/
def room? (c : Cipher) (size : Nat) : Option Nat := do
  let capacity ← c.capacity?
  let count ← Bytes.pieceCount? capacity size
  some (c.chunkSize * max 1 count)

/-- **The room exists**, since a chunk holds some data. -/
theorem room?_eq (c : Cipher) (size : Nat) :
    c.room? size = some (c.chunkSize * max 1 (size ⌈/⌉ c.capacity)) := by
  have hpos := c.capacity_pos
  unfold room? Bytes.pieceCount?
  rw [capacity?_eq, Option.bind_eq_bind, Option.bind_some, if_neg (by omega)]
  rfl

/-! ## §3. Sealing -/

/-- The chunk of a piece of data, if its length fits its two bytes and the
    piece fits the payload. -/
def sealChunk? (c : Cipher) (nonce piece : Bytes) : Option Bytes := do
  let length ← Bytes.ofNatLE? lengthSize piece.length
  let size ← c.payloadSize?
  let payload ← Bytes.fill? (length ++ piece) size 0
  some (nonce ++ Aead.encrypt c.key nonce payload)

/-- The chunks of pieces. -/
def sealPieces? (c : Cipher) : List Bytes → Draws → Option (Bytes × Draws)
  | [], draws => some ([], draws)
  | piece :: rest, draws => do
    let chunk ← c.sealChunk? (nonceOf draws.next) piece
    let (more, draws') ← sealPieces? c rest draws.advance
    some (chunk ++ more, draws')

/-- The pieces that data is cut into. -/
def piecesOf? (c : Cipher) (data : Bytes) : Option (List Bytes) := do
  let capacity ← c.capacity?
  if data.isEmpty then some [[]] else Bytes.pieces? capacity data

/-- Seal data into one or more chunks. -/
def polish? (c : Cipher) (data : Bytes) (draws : Draws) : Option (Bytes × Draws) := do
  let pieces ← c.piecesOf? data
  c.sealPieces? pieces draws

/-- A piece that is no longer than the capacity is sealed within the
    ranges. -/
theorem sealChunk?_eq {c : Cipher} {piece : Bytes} (hpiece : piece.length ≤ c.capacity)
    (nonce : Bytes) : c.sealChunk? nonce piece = some (c.sealChunk nonce piece) := by
  have hlength : piece.length < Nat.pow 256 lengthSize := Nat.lt_of_le_of_lt hpiece c.capacity_lt
  have hfits : (Bytes.ofNatLE lengthSize piece.length ++ piece).length ≤ c.payloadSize := by
    have hpayload := c.capacity_add
    rw [List.length_append, Bytes.length_ofNatLE]
    omega
  unfold sealChunk? Bytes.ofNatLE? Bytes.fill?
  rw [if_pos hlength, payloadSize?_eq]
  simp only [Option.bind_eq_bind, Option.bind_some]
  rw [if_pos hfits]
  rfl

theorem sealPieces?_eq {c : Cipher} (pieces : List Bytes) :
    (∀ piece ∈ pieces, piece.length ≤ c.capacity) →
    ∀ (draws : Draws), c.sealPieces? pieces draws = some (c.sealPieces pieces draws) := by
  induction pieces with
  | nil =>
      intro _ draws
      rfl
  | cons piece pieces ih =>
      intro hpieces draws
      obtain ⟨hpiece, hmore⟩ := List.forall_mem_cons.mp hpieces
      unfold sealPieces?
      rw [sealChunk?_eq hpiece, ih hmore]
      rfl

theorem piecesOf?_eq (c : Cipher) (data : Bytes) : c.piecesOf? data = some (c.piecesOf data) := by
  have hpos := c.capacity_pos
  unfold piecesOf? piecesOf
  rw [capacity?_eq, Option.bind_eq_bind, Option.bind_some]
  split
  next => rfl
  next =>
    unfold Bytes.pieces?
    rw [if_neg (by omega)]

/-- **Sealing stays within its ranges,** whatever the data and the nonces. -/
theorem polish?_eq (c : Cipher) (data : Bytes) (draws : Draws) :
    c.polish? data draws = some (c.polish data draws) := by
  unfold polish?
  rw [piecesOf?_eq, Option.bind_eq_bind, Option.bind_some]
  exact sealPieces?_eq _ (fun _ hpiece => length_le_of_mem_piecesOf hpiece) draws

/-! ## §4. Opening -/

/-- The data in a payload, by cuts within it. -/
def dataOf? (c : Cipher) (payload : Bytes) : Option (Except Error Bytes) := do
  let code ← payload.slice? 0 lengthSize
  let capacity ← c.capacity?
  let length := Bytes.toNatLE code
  if length ≤ capacity then
    let data ← payload.slice? lengthSize (lengthSize + length)
    some (.ok data)
  else some (.error (.invalidMessage (.beyondCapacity length capacity)))

/-- The data in a chunk, by cuts within it; a chunk without room for a nonce
    and a tag is refused for that. -/
def openChunk? (c : Cipher) (chunk : Bytes) : Option (Except Error Bytes) :=
  match Sealing.nonceOf chunk with
  | .error e => some (.error e)
  | .ok nonce => do
    let box ← chunk.slice? Aead.nonceSize chunk.length
    match Sealing.openData c.key nonce box with
    | .error e => some (.error e)
    | .ok payload => c.dataOf? payload

/-- The data in chunks, up to the first that does not open. -/
def openChunks? (c : Cipher) : List Bytes → Option (Except Error Bytes)
  | [] => some (.ok [])
  | chunk :: rest => do
    match ← c.openChunk? chunk with
    | .error e => some (.error e)
    | .ok data =>
      match ← openChunks? c rest with
      | .error e => some (.error e)
      | .ok more => some (.ok (data ++ more))

/-- Open one or more whole chunks. -/
def unpolish? (c : Cipher) (wire : Bytes) : Option (Except Error Bytes) :=
  if wire.length < c.chunkSize then some (.error (.buffer c.chunkSize wire.length))
  else do
    let left ← Bytes.leftOver? c.chunkSize wire.length
    if left ≠ 0 then some (.error (.invalidMessage (.ragged wire.length c.chunkSize)))
    else
      let chunks ← Bytes.pieces? c.chunkSize wire
      c.openChunks? chunks

/-- What opens is shorter by the tag. -/
theorem length_of_decrypt? {key nonce box payload : Bytes}
    (h : Aead.decrypt? key nonce box = some payload) :
    box.length = payload.length + Aead.tagSize := by
  unfold Aead.decrypt? at h
  dsimp only at h
  split at h
  next => cases h
  next hlong =>
    split at h
    next =>
      injection h with h
      subst h
      rw [Aead.length_crypt, List.length_take]
      omega
    next => cases h

/-- The payload of a whole chunk has its size. -/
theorem length_of_payload {c : Cipher} {chunk payload : Bytes} (hchunk : chunk.length = c.chunkSize)
    (h : Aead.decrypt? c.key (chunk.take Aead.nonceSize) (chunk.drop Aead.nonceSize)
      = some payload) : payload.length = lengthSize + c.capacity := by
  have hbox := length_of_decrypt? h
  have hsize := c.chunkSize_eq
  rw [List.length_drop] at hbox
  omega

/-- A payload of the right size is read within it. -/
theorem dataOf?_eq {c : Cipher} {payload : Bytes}
    (hpayload : payload.length = lengthSize + c.capacity) :
    c.dataOf? payload = some (c.dataOf payload) := by
  unfold dataOf? dataOf
  rw [Bytes.slice?_of_le (Nat.zero_le _) (by omega), capacity?_eq]
  simp only [Option.bind_eq_bind, Option.bind_some, List.drop_zero]
  split
  next hle =>
    rw [Bytes.slice?_of_le (by omega) (by omega), List.drop_take, Nat.add_sub_cancel_left]
    rfl
  next => rfl

/-- **A whole chunk is opened within it,** and is never too short for a nonce
    or a tag. -/
theorem openChunk?_eq {c : Cipher} {chunk : Bytes} (hchunk : chunk.length = c.chunkSize) :
    c.openChunk? chunk = some (c.openChunk chunk) := by
  have hsize := c.chunkSize_eq
  have hbox : (chunk.drop Aead.nonceSize).length = lengthSize + c.capacity + Aead.tagSize := by
    rw [List.length_drop]
    omega
  unfold openChunk? Sealing.nonceOf
  rw [if_neg (by omega)]
  dsimp only
  rw [Bytes.slice?_of_le (by omega) (Nat.le_refl _), List.take_length, Option.bind_eq_bind,
    Option.bind_some]
  unfold Sealing.openData openChunk
  rw [if_neg (by omega)]
  cases hopen : Aead.decrypt? c.key (chunk.take Aead.nonceSize) (chunk.drop Aead.nonceSize) with
  | none => rfl
  | some payload => exact dataOf?_eq (length_of_payload hchunk hopen)

theorem openChunks?_eq {c : Cipher} (chunks : List Bytes) :
    (∀ chunk ∈ chunks, chunk.length = c.chunkSize) →
    c.openChunks? chunks = some (c.openChunks chunks) := by
  induction chunks with
  | nil =>
      intro _
      rfl
  | cons chunk chunks ih =>
      intro hchunks
      obtain ⟨hchunk, hmore⟩ := List.forall_mem_cons.mp hchunks
      unfold openChunks? openChunks
      rw [openChunk?_eq hchunk, ih hmore]
      simp only [Option.bind_eq_bind, Option.bind_some]
      cases c.openChunk chunk with
      | error e => rfl
      | ok data => cases c.openChunks chunks <;> rfl

/-- **Opening stays within its ranges,** whatever the bytes. -/
theorem unpolish?_eq (c : Cipher) (wire : Bytes) :
    c.unpolish? wire = some (c.unpolish wire) := by
  have hpos := c.chunkSize_pos
  unfold unpolish? unpolish Bytes.leftOver? Bytes.pieces?
  split
  next => rfl
  next =>
    rw [if_neg (by omega), Option.bind_eq_bind, Option.bind_some]
    split
    next => rfl
    next hwhole =>
      rw [if_neg (by omega), Option.bind_eq_bind, Option.bind_some]
      apply openChunks?_eq
      intro chunk hmem
      exact Bytes.length_of_mem_pieces (Nat.dvd_of_mod_eq_zero (Decidable.not_not.mp hwhole)) hmem

end Cipher

end Masquerade
