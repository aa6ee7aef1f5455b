/-
  Masquerade.Silver.Cipher — THE CHUNK CIPHER.

  All payload travels in chunks of one fixed size.  A chunk is a nonce and
  a sealed payload, and a payload is a length, that many bytes of data, and
  zeros:

      chunk    =  nonce (12)  |  seal (payload)  |  tag (16)
      payload  =  length (2, little-endian)  |  data  |  zeros

  Data longer than one chunk holds is cut into pieces; no data at all still
  makes one chunk.

  Main results:
    * `Cipher.dataOf_code` — behind a length stands the data.
    * `Cipher.openChunk_sealChunk` — opening a sealed piece gives the piece
      back.
    * `Cipher.length_sealChunk` — every chunk has the chunk size.
-/
import Masquerade.Crypto.Aead
import Masquerade.Error

namespace Masquerade

/-! ## §1. Sizes -/

/-- The size of the length that opens a payload. -/
def lengthSize : Nat := 2

/-- The smallest chunk: it holds a public key in place of its payload. -/
def minChunkSize : Nat := 93

/-- The largest chunk: its data can be measured in 16 bits. -/
def maxChunkSize : Nat := 65565

/-- Whether a chunk size is allowed. -/
def checkChunkSize (size : Nat) : Except Error Unit :=
  if minChunkSize ≤ size ∧ size ≤ maxChunkSize then .ok ()
  else .error (.config (.chunkSize size minChunkSize maxChunkSize))

/-- **The cipher of one connection.** -/
structure Cipher where
  key : Bytes
  /-- The size of every chunk. -/
  chunkSize : Nat
  min_le : minChunkSize ≤ chunkSize := by decide
  le_max : chunkSize ≤ maxChunkSize := by decide
  deriving DecidableEq, Repr

namespace Cipher

/-- The cipher of a key and a chunk size. -/
def new (key : Bytes) (chunkSize : Nat) : Except Error Cipher :=
  if h : minChunkSize ≤ chunkSize ∧ chunkSize ≤ maxChunkSize then .ok ⟨key, chunkSize, h.1, h.2⟩
  else .error (.config (.chunkSize chunkSize minChunkSize maxChunkSize))

/-- The size of a payload. -/
def payloadSize (c : Cipher) : Nat := c.chunkSize - Aead.nonceSize - Aead.tagSize

/-- How much data one chunk holds. -/
def capacity (c : Cipher) : Nat := c.payloadSize - lengthSize

/-! ## §2. Sealing -/

/-- The payload of a piece of data. -/
def payload (c : Cipher) (piece : Bytes) : Bytes :=
  Bytes.resize (Bytes.ofNatLE lengthSize piece.length ++ piece) c.payloadSize 0

/-- The chunk of a piece of data under a nonce. -/
def sealChunk (c : Cipher) (nonce piece : Bytes) : Bytes :=
  nonce ++ Aead.encrypt c.key nonce (c.payload piece)

/-- The nonce of a random draw. -/
def nonceOf (draw : Nat) : Bytes := Bytes.ofNatLE Aead.nonceSize draw

/-- The pieces that data is cut into. -/
def piecesOf (c : Cipher) (data : Bytes) : List Bytes :=
  if data.isEmpty then [[]] else Bytes.pieces c.capacity data

/-- The chunks of pieces, each under a nonce of its own. -/
def sealPieces (c : Cipher) : List Bytes → Draws → Bytes × Draws
  | [], draws => ([], draws)
  | piece :: rest, draws =>
    let (more, draws') := sealPieces c rest draws.advance
    (c.sealChunk (nonceOf draws.next) piece ++ more, draws')

/-- **Seal data** into one or more chunks. -/
def polish (c : Cipher) (data : Bytes) (draws : Draws) : Bytes × Draws :=
  c.sealPieces (c.piecesOf data) draws

/-! ## §3. Opening -/

/-- The data in a payload. -/
def dataOf (c : Cipher) (payload : Bytes) : Except Error Bytes :=
  let length := Bytes.toNatLE (payload.take lengthSize)
  if length ≤ c.capacity then .ok ((payload.drop lengthSize).take length)
  else .error (.invalidMessage (.beyondCapacity length c.capacity))

/-- The data in a chunk. -/
def openChunk (c : Cipher) (chunk : Bytes) : Except Error Bytes :=
  match Aead.decrypt? c.key (chunk.take Aead.nonceSize) (chunk.drop Aead.nonceSize) with
  | none => .error (.crypto .notAuthentic)
  | some payload => c.dataOf payload

/-- The data in chunks, up to the first that does not open. -/
def openChunks (c : Cipher) : List Bytes → Except Error Bytes
  | [] => .ok []
  | chunk :: rest =>
    match c.openChunk chunk with
    | .error e => .error e
    | .ok data =>
      match openChunks c rest with
      | .error e => .error e
      | .ok more => .ok (data ++ more)

/-- **Open one or more whole chunks.** -/
def unpolish (c : Cipher) (wire : Bytes) : Except Error Bytes :=
  if wire.length < c.chunkSize then .error (.buffer c.chunkSize wire.length)
  else if wire.length % c.chunkSize ≠ 0 then
    .error (.invalidMessage (.ragged wire.length c.chunkSize))
  else c.openChunks (Bytes.pieces c.chunkSize wire)

/-! ## §4. One chunk there and back -/

theorem capacity_lt (c : Cipher) : c.capacity < Nat.pow 256 lengthSize := by
  have hwidth : Nat.pow 256 lengthSize = 65536 := rfl
  have := c.le_max
  rw [hwidth]
  simp only [capacity, payloadSize, lengthSize, maxChunkSize, Aead.nonceSize, Aead.tagSize] at *
  omega

theorem capacity_add (c : Cipher) : c.capacity + lengthSize = c.payloadSize := by
  have := c.min_le
  simp only [capacity, payloadSize, lengthSize, minChunkSize, Aead.nonceSize, Aead.tagSize] at *
  omega

theorem length_payload (c : Cipher) (piece : Bytes) : (c.payload piece).length = c.payloadSize := by
  simp only [payload, Bytes.resize, List.length_append, List.length_take, List.length_replicate]
  omega

/-- Every chunk has the chunk size. -/
theorem length_sealChunk (c : Cipher) (nonce piece : Bytes) (h : nonce.length = Aead.nonceSize) :
    (c.sealChunk nonce piece).length = c.chunkSize := by
  have := c.min_le
  simp only [sealChunk, List.length_append, h, Aead.length_encrypt, length_payload, payloadSize,
    minChunkSize, Aead.nonceSize, Aead.tagSize] at *
  omega

/-- **Reading a payload:** behind its length stands the data, whatever comes
    after it. -/
theorem dataOf_code (c : Cipher) {data : Bytes} (hfits : data.length ≤ c.capacity)
    (padding : Bytes) :
    c.dataOf (Bytes.ofNatLE lengthSize data.length ++ (data ++ padding)) = .ok data := by
  have hcode : (Bytes.ofNatLE lengthSize data.length).length = lengthSize :=
    Bytes.length_ofNatLE _ _
  have hlength : Bytes.toNatLE (Bytes.ofNatLE lengthSize data.length) = data.length :=
    Bytes.toNatLE_ofNatLE _ _ (Nat.lt_of_le_of_lt hfits c.capacity_lt)
  simp only [dataOf]
  rw [List.take_left' hcode, List.drop_left' hcode, hlength, if_pos hfits, List.take_left' rfl]

/-- **Opening a sealed piece gives the piece back.** -/
theorem openChunk_sealChunk (c : Cipher) (nonce piece : Bytes)
    (hnonce : nonce.length = Aead.nonceSize) (hpiece : piece.length ≤ c.capacity) :
    c.openChunk (c.sealChunk nonce piece) = .ok piece := by
  have hfit : (Bytes.ofNatLE lengthSize piece.length ++ piece).length ≤ c.payloadSize := by
    have := c.capacity_add
    simp only [List.length_append, Bytes.length_ofNatLE]
    omega
  have hpay : c.payload piece = Bytes.ofNatLE lengthSize piece.length ++ (piece ++
      List.replicate (c.payloadSize - (Bytes.ofNatLE lengthSize piece.length ++ piece).length)
        0) := by
    rw [payload, Bytes.resize, List.take_of_length_le hfit, List.append_assoc]
  simp only [openChunk, sealChunk]
  rw [List.take_left' hnonce, List.drop_left' hnonce, Aead.decrypt?_encrypt, hpay]
  exact c.dataOf_code hpiece _

end Cipher

end Masquerade
