/-
  Masquerade.Repeatable — A REPEATABLE SUPPLY of draws.

  The supply is the same every time, so that whatever is drawn from it can be
  drawn again.  It is no source of secrets.
-/
import Masquerade.Pattern.Element

namespace Masquerade

namespace Draws

/-- A number of 64 bits that depends on every bit of another. -/
def scramble (x : UInt64) : UInt64 :=
  let z := (x + 1) * 0x9e3779b97f4a7c15
  let z := (z ^^^ (z >>> 30)) * 0xbf58476d1ce4e5b9
  let z := (z ^^^ (z >>> 27)) * 0x94d049bb133111eb
  z ^^^ (z >>> 31)

/-- Word `i` of draw number `n`. -/
def word (n i : Nat) : Nat := (scramble (UInt64.ofNat (4 * n + i))).toNat

/-- What a word stays below. -/
def wordBound : Nat := 0x10000000000000000

/-- **A fresh repeatable supply.**  Each draw has 256 bits. -/
def repeatable : Draws where
  stream n := word n 0 + wordBound * (word n 1 + wordBound * (word n 2 + wordBound * word n 3))
  used := 0

end Draws

end Masquerade
