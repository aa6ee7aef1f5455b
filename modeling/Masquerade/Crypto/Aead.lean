/-
  Masquerade.Crypto.Aead — AUTHENTICATED ENCRYPTION with ChaCha20 and
  Poly1305, without associated data.

  A message is sealed under a 32-byte key and a 12-byte nonce: the
  ciphertext, then a tag over its zero-padded form and its length.  Opening
  checks the tag before anything is decrypted.

  Main results:
    * `length_encrypt` — sealing adds exactly sixteen bytes.
    * `decrypt?_encrypt` — opening undoes sealing.
-/
import Masquerade.Crypto.ChaCha
import Masquerade.Crypto.Poly1305

namespace Masquerade

namespace Aead

/-! ## §1. Sizes -/

/-- The size of a key. -/
def keySize : Nat := 32

/-- The size of a nonce. -/
def nonceSize : Nat := 12

/-- The size of a tag. -/
def tagSize : Nat := 16

/-! ## §2. Sealing and opening -/

/-- The one-time tag key: the first half of keystream block zero. -/
def tagKey (key nonce : Bytes) : Bytes :=
  ((ChaCha.permute 10 (ChaCha.streamBlock key nonce 0)).bytes).take 32

/-- What the tag is computed over: the ciphertext, zeros up to a multiple of
    sixteen, the length of the associated data (none), the length of the
    ciphertext. -/
def tagInput (ciphertext : Bytes) : Bytes :=
  ciphertext ++ List.replicate ((16 - ciphertext.length % 16) % 16) 0
    ++ Bytes.ofNatLE 8 0 ++ Bytes.ofNatLE 8 ciphertext.length

/-- The tag of a ciphertext. -/
def tag (key nonce ciphertext : Bytes) : Bytes :=
  Poly1305.tag (tagKey key nonce) (tagInput ciphertext)

/-- The ciphertext of a message, and the message of a ciphertext: keystream
    from block one on. -/
def crypt (key nonce data : Bytes) : Bytes :=
  ChaCha.xorStream (ChaCha.streamBlock key nonce 1) data

/-- **Seal a message:** ciphertext, then tag. -/
def encrypt (key nonce message : Bytes) : Bytes :=
  let ciphertext := crypt key nonce message
  ciphertext ++ tag key nonce ciphertext

/-- **Open a sealed message;** nothing comes out unless the tag is right. -/
def decrypt? (key nonce sealed : Bytes) : Option Bytes :=
  if sealed.length < tagSize then none
  else
    let ciphertext := sealed.take (sealed.length - tagSize)
    if sealed.drop (sealed.length - tagSize) = tag key nonce ciphertext then
      some (crypt key nonce ciphertext)
    else none

/-! ## §3. Opening undoes sealing -/

@[simp] theorem length_crypt (key nonce data : Bytes) :
    (crypt key nonce data).length = data.length := by
  simp [crypt]

@[simp] theorem length_tag (key nonce ciphertext : Bytes) :
    (tag key nonce ciphertext).length = tagSize := by
  simp [tag, tagSize]

/-- Sealing adds exactly the tag. -/
@[simp] theorem length_encrypt (key nonce message : Bytes) :
    (encrypt key nonce message).length = message.length + tagSize := by
  simp [encrypt]

/-- **Opening undoes sealing** under the same key and nonce. -/
@[simp] theorem decrypt?_encrypt (key nonce message : Bytes) :
    decrypt? key nonce (encrypt key nonce message) = some message := by
  have hlen : (encrypt key nonce message).length - tagSize = (crypt key nonce message).length := by
    simp
  have hlong : ¬ (encrypt key nonce message).length < tagSize := by
    simp
  unfold decrypt?
  rw [if_neg hlong]
  simp only [hlen]
  simp only [encrypt, List.take_left', List.drop_left', if_pos]
  simp [crypt, ChaCha.xorStream_xorStream]

end Aead

end Masquerade
