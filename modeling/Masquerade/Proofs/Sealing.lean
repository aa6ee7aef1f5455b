/-
  Masquerade.Proofs.Sealing — SEALING AT EVERY SIZE.

  A cipher has one chunk size, from 93 bytes to 65565, and seals data of any
  length into chunks of that size.  How many they are is decided by the
  length of the data alone: one for every capacity begun, and one for no
  data.  The largest chunk is as large as can be, since its capacity is the
  largest number that two bytes hold.

  Main results:
    * `Cipher.new_eq_ok_iff` — the sizes that a chunk may have.
    * `Cipher.length_polish` — how long sealed data is.
    * `Cipher.sealing_round_trips` — sealing at every size, there and back.
-/
import Masquerade.Proofs.Ranges

namespace Masquerade

namespace Cipher

/-! ## §1. Sizes of ciphers and of sealed data -/

/-- **A cipher exists for the allowed sizes and no others.** -/
theorem new_eq_ok_iff (key : Bytes) (size : Nat) :
    (∃ c, Cipher.new key size = .ok c) ↔ minChunkSize ≤ size ∧ size ≤ maxChunkSize := by
  unfold Cipher.new
  by_cases h : minChunkSize ≤ size ∧ size ≤ maxChunkSize
  · rw [dif_pos h]
    exact ⟨fun _ => h, fun _ => ⟨_, rfl⟩⟩
  · rw [dif_neg h]
    refine ⟨?_, fun hsize => absurd hsize h⟩
    rintro ⟨c, hc⟩
    cases hc

/-- A cipher has the chunk size it was made for. -/
theorem chunkSize_of_new {key : Bytes} {size : Nat} {c : Cipher}
    (h : Cipher.new key size = .ok c) : c.chunkSize = size := by
  unfold Cipher.new at h
  split at h
  next =>
    injection h with h
    rw [← h]
  next => cases h

/-- Data is cut into a piece for every capacity begun, and no data into
    one. -/
theorem length_piecesOf (c : Cipher) (data : Bytes) :
    (c.piecesOf data).length = max 1 (data.length ⌈/⌉ c.capacity) := by
  have hpos := c.capacity_pos
  have hcapacity : c.capacity ≠ 0 := by omega
  unfold piecesOf
  split
  next hnone =>
    rw [List.isEmpty_iff.mp hnone, List.length_nil, zero_ceilDiv]
    rfl
  next hsome =>
    have hdata : data ≠ [] := fun hnone => hsome (List.isEmpty_iff.mpr hnone)
    have hone : 1 ≤ (Bytes.pieces c.capacity data).length := by
      rw [Bytes.pieces_cons hcapacity hdata, List.length_cons]
      omega
    rw [← Bytes.length_pieces hcapacity, Nat.max_eq_right hone]

/-- **How long sealed data is:** so many whole chunks. -/
theorem length_polish (c : Cipher) (data : Bytes) (draws : Draws) :
    (c.polish data draws).1.length = c.chunkSize * max 1 (data.length ⌈/⌉ c.capacity) := by
  unfold polish
  rw [length_sealPieces, length_piecesOf]

/-! ## §2. There and back -/

/-- **SEALING ROUND-TRIPS AT EVERY SIZE.**  A cipher exists for a key and a
    chunk size exactly if the size is one of 93 to 65565.  Then a chunk is a
    nonce, a length of two bytes, room for some data that two bytes can
    measure, and a tag; and whatever the data and the nonces,

    • every size, quotient, length and padding on the way is within its
      range, and the room set aside is what the chunks take,
    • they take a chunk for every capacity begun, and at least one,
    • opening them gives the data back,
    • data that needs as many chunks is as long when it is sealed,
    • and what was opened is sealed into as many bytes again, which open to
      the same data. -/
theorem sealing_round_trips (key : Bytes) (size : Nat) :
    ((∃ c, Cipher.new key size = .ok c) ↔ 93 ≤ size ∧ size ≤ 65565)
      ∧ ∀ c, Cipher.new key size = .ok c →
        c.chunkSize = size
          ∧ size = 12 + (2 + c.capacity) + 16 ∧ 0 < c.capacity ∧ c.capacity < 2 ^ 16
          ∧ ∀ (data : Bytes) (draws : Draws),
            (c.polish? data draws = some (c.polish data draws)
                ∧ c.room? data.length = some (c.polish data draws).1.length)
              ∧ (c.polish data draws).1.length = size * max 1 (data.length ⌈/⌉ c.capacity)
              ∧ c.unpolish (c.polish data draws).1 = .ok data
              ∧ (∀ (data' : Bytes) (draws' : Draws),
                  max 1 (data'.length ⌈/⌉ c.capacity) = max 1 (data.length ⌈/⌉ c.capacity) →
                  (c.polish data' draws').1.length = (c.polish data draws).1.length)
              ∧ ∀ (plain : Bytes) (draws' : Draws),
                  c.unpolish (c.polish data draws).1 = .ok plain →
                  (c.polish plain draws').1.length = (c.polish data draws).1.length
                    ∧ c.unpolish (c.polish plain draws').1 = .ok data := by
  refine ⟨new_eq_ok_iff key size, ?_⟩
  intro c hnew
  obtain rfl := chunkSize_of_new hnew
  refine ⟨rfl, c.chunkSize_eq, c.capacity_pos, c.capacity_lt, ?_⟩
  intro data draws
  have hback := c.unpolish_polish data draws
  refine ⟨⟨c.polish?_eq data draws, ?_⟩, c.length_polish data draws, hback, ?_, ?_⟩
  · rw [room?_eq, length_polish]
  · intro data' draws' hcount
    rw [length_polish, length_polish, hcount]
  · intro plain draws' hplain
    -- what comes back is the data, so it is sealed like the data
    obtain rfl : data = plain := Except.ok.inj (hback.symm.trans hplain)
    rw [length_polish, length_polish]
    exact ⟨rfl, c.unpolish_polish data draws'⟩

/-- At the largest size a chunk holds 65535 bytes, the largest number of two
    bytes: so many make one chunk, and one more makes two. -/
theorem sealing_round_trips_largest :
    ∃ c, Cipher.new (List.replicate 32 0) 65565 = .ok c ∧ c.capacity = 65535
      ∧ ∀ draws,
        (c.polish (List.replicate 65535 7) draws).1.length = 65565
          ∧ (c.polish (List.replicate 65536 7) draws).1.length = 2 * 65565
          ∧ c.unpolish (c.polish (List.replicate 65536 7) draws).1
            = .ok (List.replicate 65536 7) := by
  obtain ⟨hexists, hall⟩ := sealing_round_trips (List.replicate 32 0) 65565
  obtain ⟨c, hnew⟩ := hexists.mpr (by decide)
  obtain ⟨-, hsize, -, -, hseal⟩ := hall c hnew
  have hcapacity : c.capacity = 65535 := by omega
  refine ⟨c, hnew, hcapacity, ?_⟩
  intro draws
  obtain ⟨-, hone, -⟩ := hseal (List.replicate 65535 7) draws
  obtain ⟨-, htwo, hback, -⟩ := hseal (List.replicate 65536 7) draws
  rw [List.length_replicate, hcapacity] at hone htwo
  exact ⟨hone, htwo, hback⟩

end Cipher

end Masquerade
