/-
  Masquerade.Crypto.Sealing — OPENING SEALED DATA OF ANY LENGTH.

  Data from outside may be too short to hold a nonce or a tag; that is told
  apart from data that is not authentic.

  Main results:
    * `Sealing.openData_encrypt` — what was sealed opens.
-/
import Masquerade.Crypto.Aead
import Masquerade.Error

namespace Masquerade

namespace Sealing

/-- The nonce at the front of some data. -/
def nonceOf (data : Bytes) : Except Error Bytes :=
  if data.length < Aead.nonceSize then .error (.buffer Aead.nonceSize data.length)
  else .ok (data.take Aead.nonceSize)

/-- **Open sealed data**, tag included. -/
def openData (key nonce sealedData : Bytes) : Except Error Bytes :=
  if sealedData.length < Aead.tagSize then .error (.buffer Aead.tagSize sealedData.length)
  else
    match Aead.decrypt? key nonce sealedData with
    | some data => .ok data
    | none => .error (.crypto .notAuthentic)

/-- What was sealed opens. -/
theorem openData_encrypt (key nonce data : Bytes) :
    openData key nonce (Aead.encrypt key nonce data) = .ok data := by
  simp [openData]

end Sealing

end Masquerade
