/-
  Masquerade.Proofs.Expansion — WHAT KEY DERIVATION PUTS OUT.

  A seed and shared information determine one unending sequence of 32-byte
  blocks, each the digest of the seed, the number of the block as four bytes,
  and the information.  Blocks are numbered from one, and the number wraps.
  An expansion is a beginning of that sequence, so two expansions of the same
  seed agree as far as both go.

  The loop is related to the sequence by what holds after so many of its
  rounds: the counter is one more, modulo 2^32, and 32 bytes are there for
  every round.

  Main results:
    * `expand_eq_beginning` — an expansion is a beginning of the sequence.
    * `counters_eq` — the counter values under which the loop hashes.
    * `expands_to_blocks` — length, bytes, beginnings and counters of an
      expansion.
    * `Agreement.deriveKey_eq` — a cipher key is the first block.
-/
import Mathlib.Algebra.Group.Nat.Defs
import Mathlib.Data.List.Nodup
import Masquerade.Silver.Agreement

namespace Masquerade

namespace KeyDerivation

variable (seed info : Bytes)

/-! ## §1. The block sequence -/

/-- The counter value of a block, counted from zero. -/
def counterOf (index : Nat) : UInt32 := UInt32.ofNat (index + 1)

@[simp] theorem toNat_counterOf (index : Nat) :
    (counterOf index).toNat = (index + 1) % 2 ^ 32 :=
  UInt32.toNat_ofNat'

/-- The counter of the next block is one more, and wraps. -/
theorem counterOf_add_one (index : Nat) : counterOf index + 1 = counterOf (index + 1) :=
  (UInt32.ofNat_add (index + 1) 1).symm

/-- **Byte `j` of the block sequence.** -/
def sequenceByte (j : Nat) : UInt8 :=
  (block seed info (counterOf (j / 32))).get
    ⟨j % 32, by rw [length_block]; exact Nat.mod_lt j (by decide)⟩

/-- The first `n` bytes of the block sequence. -/
def beginning (n : Nat) : Bytes :=
  (List.range n).map (sequenceByte seed info)

theorem getElem?_beginning {n j : Nat} (h : j < n) :
    (beginning seed info n)[j]? = some (sequenceByte seed info j) := by
  rw [beginning, List.getElem?_map, List.getElem?_range h, Option.map_some]

theorem getElem?_block (j : Nat) :
    (block seed info (counterOf (j / 32)))[j % 32]? = some (sequenceByte seed info j) := by
  rw [sequenceByte, List.get_eq_getElem, ← List.getElem?_eq_getElem]

/-- A shorter beginning is what a longer one begins with. -/
theorem take_beginning {n m : Nat} (h : n ≤ m) :
    (beginning seed info m).take n = beginning seed info n := by
  rw [beginning, ← List.map_take, List.take_range, Nat.min_eq_left h, beginning]

/-- Block `index` holds the 32 bytes from place `32 * index` on. -/
theorem block_counterOf (index : Nat) :
    block seed info (counterOf index)
      = (List.range 32).map fun k => sequenceByte seed info (32 * index + k) := by
  apply List.ext_getElem?
  intro k
  by_cases hk : k < 32
  · have hblock := getElem?_block seed info (32 * index + k)
    rw [Nat.mul_add_div (by decide), Nat.div_eq_of_lt hk, Nat.add_zero, Nat.mul_add_mod,
      Nat.mod_eq_of_lt hk] at hblock
    rw [hblock, List.getElem?_map, List.getElem?_range hk, Option.map_some]
  · have hlong : 32 ≤ k := Nat.le_of_not_lt hk
    rw [List.getElem?_eq_none (by simpa using hlong), List.getElem?_eq_none (by simpa using hlong)]

/-- One more block makes the beginning 32 bytes longer. -/
theorem beginning_append_block (index : Nat) :
    beginning seed info (32 * index) ++ block seed info (counterOf index)
      = beginning seed info (32 * (index + 1)) := by
  rw [block_counterOf, beginning, beginning, Nat.mul_succ, List.range_add, List.map_append,
    List.map_map]
  rfl

/-- The first blocks, put together. -/
theorem flatMap_blocks (count : Nat) :
    ((List.range count).map counterOf).flatMap (block seed info)
      = beginning seed info (32 * count) := by
  induction count with
  | zero => rfl
  | succ count ih =>
      rw [List.range_succ, List.map_append, List.flatMap_append, ih, List.map_singleton,
        List.flatMap_singleton, beginning_append_block]

/-! ## §2. The rounds of the loop -/

/-- The counter values under which the loop hashes, in order. -/
def counters (length : Nat) (counter : UInt32) (output : Bytes) : List UInt32 :=
  if output.length < length then
    counter :: counters length (counter + 1) (output ++ block seed info counter)
  else []
termination_by length - output.length
decreasing_by exact room_append_block_lt (by assumption)

/-- **What the loop appends** are the blocks of its counter values. -/
theorem fill_eq_append (length : Nat) (counter : UInt32) (output : Bytes) :
    fill seed info length counter output
      = output ++ (counters seed info length counter output).flatMap (block seed info) := by
  fun_induction counters seed info length counter output with
  | case1 counter output hroom ih =>
      rw [fill, if_pos hroom, ih, List.flatMap_cons, List.append_assoc]
  | case2 counter output hfull =>
      rw [fill, if_neg hfull, List.flatMap_nil, List.append_nil]

/-- What the loop has at hand after so many rounds: the counter of the next
    block, and 32 bytes for every round. -/
structure AfterRounds (rounds : Nat) (counter : UInt32) (output : Bytes) : Prop where
  counter_eq : counter = counterOf rounds
  length_eq : output.length = 32 * rounds

theorem AfterRounds.start : AfterRounds 0 1 [] := ⟨rfl, rfl⟩

/-- A round keeps counter and length in step. -/
theorem AfterRounds.next {rounds : Nat} {counter : UInt32} {output : Bytes}
    (h : AfterRounds rounds counter output) :
    AfterRounds (rounds + 1) (counter + 1) (output ++ block seed info counter) where
  counter_eq := by rw [h.counter_eq, counterOf_add_one]
  length_eq := by rw [List.length_append, length_block, h.length_eq, Nat.mul_succ]

/-- From any round on, the loop takes the counter values that follow, one for
    every 32 bytes begun. -/
theorem AfterRounds.counters_eq {rounds length : Nat} {counter : UInt32} {output : Bytes}
    (h : AfterRounds rounds counter output) :
    counters seed info length counter output
      = (List.range' rounds ((length + 31) / 32 - rounds)).map counterOf := by
  fun_induction counters seed info length counter output generalizing rounds with
  | case1 counter output hroom ih =>
      -- short of the length, one more block is begun than there are rounds
      have hlength := h.length_eq
      have hmore : (length + 31) / 32 - rounds = (length + 31) / 32 - (rounds + 1) + 1 := by omega
      rw [ih (h.next seed info), hmore, List.range'_succ, List.map_cons, h.counter_eq]
  | case2 counter output hfull =>
      have hlength := h.length_eq
      have hnone : (length + 31) / 32 - rounds = 0 := by omega
      rw [hnone]
      rfl

/-- **The counter values of a whole run** are those of the first blocks. -/
theorem counters_eq (length : Nat) :
    counters seed info length 1 []
      = (List.range ((length + 31) / 32)).map counterOf := by
  rw [AfterRounds.start.counters_eq, Nat.sub_zero, List.range_eq_range']

/-- **An expansion is a beginning of the block sequence.** -/
theorem expand_eq_beginning (length : Nat) :
    expand seed info length = beginning seed info length := by
  rw [expand, fill_eq_append, List.nil_append, counters_eq, flatMap_blocks]
  -- the blocks are as many as the length needs, so only the last one is cut
  exact take_beginning seed info (by omega)

/-! ## §3. Counter values -/

/-- The first blocks have different counter values exactly if they are not
    more than there are such values. -/
theorem nodup_counterOf_iff (count : Nat) :
    ((List.range count).map counterOf).Nodup ↔ count ≤ 2 ^ 32 := by
  rw [List.nodup_map_iff_inj_on List.nodup_range]
  refine ⟨fun hinj => ?_, fun hcount i hi j hj heq => ?_⟩
  · -- the counter of the first block comes back after 2^32 blocks
    by_contra hmore
    have hwraps : counterOf 0 = counterOf (2 ^ 32) := rfl
    have hzero := hinj 0 (List.mem_range.mpr (by omega)) (2 ^ 32)
      (List.mem_range.mpr (by omega)) hwraps
    exact absurd hzero (by decide)
  · have hi := List.mem_range.mp hi
    have hj := List.mem_range.mp hj
    have hnat := congrArg UInt32.toNat heq
    rw [toNat_counterOf, toNat_counterOf] at hnat
    omega

/-- **KEY DERIVATION EXPANDS TO THE SPECIFIED BLOCKS.**  Whatever the seed, the
    information and the length asked for,

    • the output has that length,
    • byte j of it is byte j modulo 32 of the digest of the seed, the number
      j / 32 + 1 modulo 2^32 as four big-endian bytes, and the information,
    • a longer output begins with it,
    • the loop ends with the blocks of its counter values put together, one
      for every 32 bytes begun,
    • and no counter value comes twice exactly as long as the length is at
      most 32 times 2^32. -/
theorem expands_to_blocks (length : Nat) :
    (expand seed info length).length = length
      ∧ (∀ j, j < length → (expand seed info length)[j]?
          = (Sha256.digest (seed ++ Bytes.ofNatBE 4 ((j / 32 + 1) % 2 ^ 32) ++ info))[j % 32]?)
      ∧ (∀ longer, length ≤ longer → expand seed info length <+: expand seed info longer)
      ∧ fill seed info length 1 [] = (counters seed info length 1 []).flatMap (block seed info)
      ∧ (counters seed info length 1 []).length = (length + 31) / 32
      ∧ ((counters seed info length 1 []).Nodup ↔ length ≤ 32 * 2 ^ 32) := by
  refine ⟨length_expand seed info length, ?_, ?_, ?_, ?_, ?_⟩
  · intro j hj
    have hbyte := getElem?_block seed info j
    rw [block, toNat_counterOf] at hbyte
    rw [expand_eq_beginning, getElem?_beginning seed info hj, hbyte]
  · intro longer hle
    rw [expand_eq_beginning, expand_eq_beginning, ← take_beginning seed info hle]
    exact List.take_prefix length _
  · rw [fill_eq_append, List.nil_append]
  · rw [counters_eq, List.length_map, List.length_range]
  · rw [counters_eq, nodup_counterOf_iff]
    omega

/-- Of forty bytes the first of the second block comes from the digest under
    counter two, and sixty-five bytes begin with the forty.  One byte more
    than all blocks hold takes a counter value again. -/
theorem expands_to_blocks_second :
    let output := expand [0x7a] [] 40
    output.length = 40 ∧ 32 < 40
      ∧ output[32]? = (Sha256.digest [0x7a, 0, 0, 0, 2])[0]? ∧ output[32]? = some 0x2d
      ∧ 40 ≤ 65 ∧ output <+: expand [0x7a] [] 65
      ∧ (counters [0x7a] [] 40 1 []).length = 2 ∧ (counters [0x7a] [] 40 1 []).Nodup
      ∧ ¬ (counters [0x7a] [] (32 * 2 ^ 32 + 1) 1 []).Nodup := by
  intro output
  obtain ⟨hlength, hbytes, hbegins, -, hrounds, hdistinct⟩ := expands_to_blocks [0x7a] [] 40
  obtain ⟨-, -, -, -, -, hwraps⟩ := expands_to_blocks [0x7a] [] (32 * 2 ^ 32 + 1)
  have hsecond : output[32]? = (Sha256.digest [0x7a, 0, 0, 0, 2])[0]? := hbytes 32 (by decide)
  have hdigest : (Sha256.digest [0x7a, 0, 0, 0, 2])[0]? = some 0x2d := by decide +kernel
  refine ⟨hlength, by decide, hsecond, hsecond.trans hdigest, by decide, hbegins 65 (by decide),
    hrounds, hdistinct.mpr (by decide), fun hnodup => ?_⟩
  exact absurd (hwraps.mp hnodup) (by decide)

end KeyDerivation

namespace Agreement

/-- **A cipher key is the first block** of the shared point and the client's
    public key. -/
theorem deriveKey_eq (shared clientKey : Bytes) :
    deriveKey shared clientKey = Sha256.digest (shared ++ [0, 0, 0, 1] ++ clientKey) := by
  have hblock := KeyDerivation.flatMap_blocks shared clientKey 1
  rw [List.range_one, List.map_singleton, List.flatMap_singleton] at hblock
  rw [deriveKey, KeyDerivation.expand_eq_beginning]
  exact hblock.symm

end Agreement

end Masquerade
