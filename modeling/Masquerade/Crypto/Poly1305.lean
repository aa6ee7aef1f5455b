/-
  Masquerade.Crypto.Poly1305 — THE POLY1305 TAG.

  The message is read as numbers of sixteen bytes with a high marker byte,
  evaluated as a polynomial at the clamped first half of the key modulo
  `2 ^ 130 - 5`, and shifted by the second half.

  Main results:
    * `length_tag` — a tag has sixteen bytes.
-/
import Masquerade.Bytes

namespace Masquerade

namespace Poly1305

/-- The prime modulus. -/
def modulus : Nat := 0x3fffffffffffffffffffffffffffffffb

/-- The evaluation point: the low key half with twenty-two bits cleared. -/
def clamp (r : Nat) : Nat := r &&& 0x0ffffffc0ffffffc0ffffffc0fffffff

/-- One step of the evaluation. -/
def step (r acc : Nat) (piece : Bytes) : Nat :=
  ((acc + Bytes.toNatLE piece + Nat.pow 256 piece.length) * r) % modulus

/-- The evaluation over `count` pieces of sixteen bytes. -/
def evaluate (r : Nat) : (count : Nat) → Bytes → Nat → Nat
  | 0, _, acc => acc
  | count + 1, data, acc => evaluate r count (data.drop 16) (step r acc (data.take 16))

/-- **The tag of a message under a one-time key of 32 bytes.** -/
def tag (key message : Bytes) : Bytes :=
  let r := clamp (Bytes.toNatLE (key.take 16))
  let s := Bytes.toNatLE (key.drop 16)
  let acc := evaluate r ((message.length + 15) / 16) message 0
  Bytes.ofNatLE 16 ((acc + s) % Nat.pow 256 16)

/-- A tag has sixteen bytes. -/
@[simp] theorem length_tag (key message : Bytes) : (tag key message).length = 16 := by
  simp [tag]

end Poly1305

end Masquerade
