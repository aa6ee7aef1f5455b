/-
  Masquerade.Crypto.KeyDerivation — X9.63 KEY DERIVATION over SHA-256.

  Digests of seed, a 32-bit counter that starts at one, and shared information
  are appended until the length asked for is reached, and what is over is cut
  off.

  Main results:
    * `length_expand` — the output has the length asked for.
-/
import Masquerade.Crypto.Sha256

namespace Masquerade

namespace KeyDerivation

/-- The block under one counter value. -/
def block (seed info : Bytes) (counter : UInt32) : Bytes :=
  Sha256.digest (seed ++ Bytes.ofNatBE 4 counter.toNat ++ info)

@[simp] theorem length_block (seed info : Bytes) (counter : UInt32) :
    (block seed info counter).length = 32 := by
  rw [block, Sha256.length_digest]

/-- A block leaves less to be filled. -/
theorem room_append_block_lt {seed info : Bytes} {length : Nat} {counter : UInt32}
    {output : Bytes} (h : output.length < length) :
    length - (output ++ block seed info counter).length < length - output.length := by
  rw [List.length_append, length_block]
  omega

/-- Append blocks to the output until it has `length` bytes or more; the
    counter wraps. -/
def fill (seed info : Bytes) (length : Nat) (counter : UInt32) (output : Bytes) : Bytes :=
  if output.length < length then
    fill seed info length (counter + 1) (output ++ block seed info counter)
  else output
termination_by length - output.length
decreasing_by exact room_append_block_lt (by assumption)

/-- **Expand a seed to `length` bytes.** -/
def expand (seed info : Bytes) (length : Nat) : Bytes :=
  (fill seed info length 1 []).take length

theorem le_length_fill (seed info : Bytes) (length : Nat) (counter : UInt32) (output : Bytes) :
    length ≤ (fill seed info length counter output).length := by
  fun_induction fill seed info length counter output with
  | case1 counter output _ ih => exact ih
  | case2 counter output hfull => exact Nat.le_of_not_lt hfull

/-- The output has the length asked for. -/
@[simp] theorem length_expand (seed info : Bytes) (length : Nat) :
    (expand seed info length).length = length := by
  rw [expand, List.length_take]
  exact Nat.min_eq_left (le_length_fill seed info length 1 [])

end KeyDerivation

end Masquerade
