/-
  Masquerade.Pattern.SeededLength — LENGTHS DRAWN FROM A SEED.

  Two ends that share one integer agree on a length below 256 without
  sending it: both seed the same generator and take the first draw that
  the sampling rule accepts.

      seed  →  key (eight words of a permuted congruential generator)
            →  keystream (ChaCha, four double rounds, 64-bit counter)
            →  64-bit draws, low word first
            →  the high byte of the first accepted draw

  A draw is accepted if its bits 0..55, read as a 56-bit number, lie in the
  lower half of their range.

  Main results:
    * `seededLength_lt` — the length is below 256.
-/
import Masquerade.Crypto.ChaCha

namespace Masquerade

namespace SeededLength

/-! ## §1. From the seed to a key -/

/-- One step of the congruential generator that spreads the seed. -/
def advance (state : UInt64) : UInt64 :=
  state * 6364136223846793005 + 11634580027462260723

/-- The output word of a generator state: the high half folded onto itself
    and rotated by the top five bits. -/
def outputWord (state : UInt64) : UInt32 :=
  let folded := (((state >>> 18) ^^^ state) >>> 27).toUInt32
  let turn := (state >>> 59).toUInt32
  (folded >>> turn) ||| (folded <<< ((32 - turn) % 32))

/-- The next `count` output words. -/
def outputWords : (count : Nat) → UInt64 → List UInt32
  | 0, _ => []
  | count + 1, state =>
    let state := advance state
    outputWord state :: outputWords count state

/-- The 32-byte key of a seed. -/
def key (seed : UInt64) : Bytes :=
  (outputWords 8 seed).flatMap ChaCha.wordBytes

/-! ## §2. The draws -/

/-- Word `i` of keystream block number `block`. -/
def keystreamWord (key : Bytes) (block : UInt64) (i : Nat) : UInt32 :=
  (ChaCha.permute 4 (ChaCha.keyBlock key block.toUInt32 (block >>> 32).toUInt32 0 0)).words.getD i 0

/-- Draw number `n`: two successive words of the keystream, low word first. -/
def draw (key : Bytes) (n : Nat) : Nat :=
  let block := UInt64.ofNat (n / 8)
  let i := 2 * (n % 8)
  (keystreamWord key block i).toNat + 0x100000000 * (keystreamWord key block (i + 1)).toNat

/-- Whether the sampling rule takes a draw. -/
def accepted (draw : Nat) : Bool := !draw.testBit 55

/-- The length that an accepted draw stands for: its high byte. -/
def ofDraw (draw : Nat) : Nat := draw / 0x100000000000000 % 256

/-- The length of the first accepted draw from number `n` on, looking at no
    more than `limit` draws. -/
def firstAccepted (draw : Nat → Nat) : (limit : Nat) → (n : Nat) → Nat
  | 0, _ => 0
  | limit + 1, n =>
    if accepted (draw n) then ofDraw (draw n) else firstAccepted draw limit (n + 1)

theorem firstAccepted_lt (draw : Nat → Nat) (limit n : Nat) :
    firstAccepted draw limit n < 256 := by
  induction limit generalizing n with
  | zero => simp [firstAccepted]
  | succ limit ih =>
    simp only [firstAccepted]
    split
    · exact Nat.mod_lt _ (by decide)
    · exact ih (n + 1)

/-- How many draws a search looks at.  Each is accepted or not with even
    odds, so a search that fails would have to lose 512 even bets in a
    row. -/
def searchLimit : Nat := 512

end SeededLength

/-- **The length of a seed.** -/
def seededLength (seed : Int) : Nat :=
  SeededLength.firstAccepted (SeededLength.draw (SeededLength.key (UInt64.ofInt seed)))
    SeededLength.searchLimit 0

/-- A seeded length is below 256. -/
theorem seededLength_lt (seed : Int) : seededLength seed < 256 :=
  SeededLength.firstAccepted_lt _ _ _

end Masquerade
