/-
  Masquerade.Crypto.P256 — THE CURVE P-256: points, scalars, their codes.

  The curve is `y² = x³ - 3x + b` over a prime field of 256 bits, with a
  base point of prime order.  Scalar multiplication works on Jacobian
  triples and returns to the plane once, at the end.

  A point travels as the byte 4 and its two coordinates; a reader also takes
  the compressed codes 2 and 3 (parity of `y`) and 5 (the smaller `y`).

  Main results:
    * `length_encode` — a point's code has sixty-five bytes.
    * `decode?_encode` — reading the code of a point on the curve gives the
      point back.
    * `onCurve_of_decode?`, `eq_encode_of_decode?` — every point that is read
      lies on the curve, and its longest code is the uncompressed one.
    * `Scalar.decode?_encode` — reading the code of a scalar gives the scalar
      back.
-/
import Masquerade.Bytes

namespace Masquerade

namespace P256

/-! ## §1. The field -/

/-- The field prime. -/
def fieldPrime : Nat := 0xffffffff00000001000000000000000000000000ffffffffffffffffffffffff

/-- The constant term of the curve. -/
def curveB : Nat := 0x5ac635d8aa3a93e7b3ebbd55769886bc651d06b0cc53b0f63bce3c3e27d2604b

/-- The order of the base point. -/
def order : Nat := 0xffffffff00000000ffffffffffffffffbce6faada7179e84f3b9cac2fc632551

/-- Field addition. -/
def fadd (a b : Nat) : Nat := (a + b) % fieldPrime

/-- Field subtraction of a reduced number. -/
def fsub (a b : Nat) : Nat := (a + (fieldPrime - b)) % fieldPrime

/-- Field multiplication. -/
def fmul (a b : Nat) : Nat := a * b % fieldPrime

/-- Square-and-multiply over the `bits` low bits of the exponent, high bit
    first. -/
def fpowBits (base exponent : Nat) : (bits : Nat) → Nat → Nat
  | 0, acc => acc
  | bits + 1, acc =>
    let squared := fmul acc acc
    fpowBits base exponent bits (if exponent.testBit bits then fmul squared base else squared)

/-- A power with an exponent below `2 ^ 256`. -/
def fpow (base exponent : Nat) : Nat := fpowBits base exponent 256 1

/-- The inverse of a nonzero number. -/
def finv (a : Nat) : Nat := fpow a (fieldPrime - 2)

/-- A square root, provided there is one. -/
def fsqrt (a : Nat) : Nat := fpow a ((fieldPrime + 1) / 4)

/-- The right-hand side of the curve equation. -/
def curveRhs (x : Nat) : Nat :=
  fadd (fsub (fmul (fmul x x) x) (fmul 3 x)) curveB

/-! ## §2. Points -/

/-- A point of the plane. -/
structure Point where
  x : Nat
  y : Nat
  deriving DecidableEq, Repr, Inhabited

/-- The base point. -/
def generator : Point where
  x := 0x6b17d1f2e12c4247f8bce6e563a440f277037d812deb33a0f4a13945d898c296
  y := 0x4fe342e2fe1a7f9b8ee7eb4a7c0f9e162bce33576b315ececbb6406837bf51f5

/-- Reduced coordinates that satisfy the curve equation. -/
def Point.onCurve (p : Point) : Bool :=
  p.x < fieldPrime && p.y < fieldPrime && fmul p.y p.y == curveRhs p.x

/-- A point as `(X / Z², Y / Z³)`; `Z = 0` is the point at infinity. -/
structure Jacobian where
  x : Nat
  y : Nat
  z : Nat

namespace Jacobian

/-- The point at infinity. -/
def infinity : Jacobian := ⟨1, 1, 0⟩

/-- Twice a point. -/
def double (p : Jacobian) : Jacobian :=
  let delta := fmul p.z p.z
  let gamma := fmul p.y p.y
  let beta := fmul p.x gamma
  let alpha := fmul 3 (fmul (fsub p.x delta) (fadd p.x delta))
  let x := fsub (fmul alpha alpha) (fmul 8 beta)
  let yz := fadd p.y p.z
  let z := fsub (fsub (fmul yz yz) gamma) delta
  let y := fsub (fmul alpha (fsub (fmul 4 beta) x)) (fmul 8 (fmul gamma gamma))
  ⟨x, y, z⟩

/-- The sum with a point of the plane. -/
def addPoint (p : Jacobian) (q : Point) : Jacobian :=
  if p.z = 0 then ⟨q.x, q.y, 1⟩
  else
    let zz := fmul p.z p.z
    let h := fsub (fmul q.x zz) p.x
    let r := fsub (fmul q.y (fmul p.z zz)) p.y
    if h = 0 then
      if r = 0 then p.double else infinity
    else
      let hh := fmul h h
      let hhh := fmul h hh
      let v := fmul p.x hh
      let x := fsub (fsub (fmul r r) hhh) (fmul 2 v)
      let y := fsub (fmul r (fsub v x)) (fmul p.y hhh)
      ⟨x, y, fmul p.z h⟩

/-- Back to the plane; the point at infinity has no image there and is sent
    to the origin. -/
def toPoint (p : Jacobian) : Point :=
  let i := finv p.z
  let ii := fmul i i
  ⟨fmul p.x ii, fmul p.y (fmul i ii)⟩

/-- Double-and-add over the `bits` low bits of the factor, high bit first. -/
def mulBits (q : Point) (k : Nat) : (bits : Nat) → Jacobian → Jacobian
  | 0, acc => acc
  | bits + 1, acc =>
    let doubled := if acc.z = 0 then acc else acc.double
    mulBits q k bits (if k.testBit bits then doubled.addPoint q else doubled)

end Jacobian

/-! ## §3. Scalars -/

/-- A secret scalar: between one and the order of the base point. -/
structure Scalar where
  val : Nat
  pos : 0 < val
  lt_order : val < order
  deriving DecidableEq, Repr

namespace Scalar

/-- Shortest code of a scalar that a reader takes. -/
def minCodeSize : Nat := 24

/-- The size of a scalar's own code. -/
def codeSize : Nat := 32

/-- The scalar of a number, if it is in range. -/
def ofNat? (n : Nat) : Option Scalar :=
  if h : 0 < n ∧ n < order then some ⟨n, h.1, h.2⟩ else none

/-- Read a big-endian scalar of 24 to 32 bytes. -/
def decode? (code : Bytes) : Option Scalar :=
  if minCodeSize ≤ code.length ∧ code.length ≤ codeSize then ofNat? (Bytes.toNatBE code) else none

/-- The 32-byte big-endian code. -/
def encode (s : Scalar) : Bytes := Bytes.ofNatBE codeSize s.val

instance : Inhabited Scalar := ⟨⟨1, by decide, by decide⟩⟩

end Scalar

/-- **Scalar multiplication.** -/
def mul (k : Scalar) (p : Point) : Point :=
  (Jacobian.mulBits p k.val 256 Jacobian.infinity).toPoint

/-- The public point of a secret scalar. -/
def Scalar.publicPoint (k : Scalar) : Point := mul k generator

/-! ## §4. The code of a point -/

/-- The size of a point's code. -/
def pointSize : Nat := 65

/-- **The uncompressed code of a point:** 4, then both coordinates. -/
def Point.encode (p : Point) : Bytes :=
  4 :: Bytes.ofNatBE 32 p.x ++ Bytes.ofNatBE 32 p.y

/-- The point over `x` whose `y` a rule picks from the two roots. -/
def liftX? (x : Nat) (pick : (root negated : Nat) → Nat) : Option Point :=
  let root := fsqrt (curveRhs x)
  let p : Point := ⟨x, pick root (fieldPrime - root)⟩
  if p.onCurve then some p else none

/-- The root of the given parity. -/
def pickParity (odd : Bool) (root negated : Nat) : Nat :=
  if (root % 2 == 1) == odd then root else negated

/-- **Read a point:** uncompressed, compressed, or by the smaller root. -/
def Point.decode? (code : Bytes) : Option Point :=
  match code with
  | [] => none
  | tag :: body =>
    if tag = 4 then
      if body.length = 64 then
        let p : Point := ⟨Bytes.toNatBE (body.take 32), Bytes.toNatBE (body.drop 32)⟩
        if p.onCurve then some p else none
      else none
    else if body.length = 32 then
      if tag = 2 then liftX? (Bytes.toNatBE body) (pickParity false)
      else if tag = 3 then liftX? (Bytes.toNatBE body) (pickParity true)
      else if tag = 5 then liftX? (Bytes.toNatBE body) min
      else none
    else none

/-- A point's code has sixty-five bytes. -/
@[simp] theorem length_encode (p : Point) : p.encode.length = pointSize := by
  simp [Point.encode, pointSize]

theorem toNatBE_ofNatBE (width n : Nat) (h : n < Nat.pow 256 width) :
    Bytes.toNatBE (Bytes.ofNatBE width n) = n := by
  rw [Bytes.ofNatBE, Bytes.toNatBE_reverse, Bytes.toNatLE_ofNatLE width n h]

/-- **Reading the code of a point on the curve gives the point back.** -/
theorem decode?_encode (p : Point) (h : p.onCurve = true) : Point.decode? p.encode = some p := by
  have hb := h
  simp only [Point.onCurve, Bool.and_eq_true, decide_eq_true_eq] at hb
  have hx : p.x < Nat.pow 256 32 := Nat.lt_of_lt_of_le hb.1.1 (by decide)
  have hy : p.y < Nat.pow 256 32 := Nat.lt_of_lt_of_le hb.1.2 (by decide)
  simp only [Point.encode, List.cons_append, Point.decode?]
  rw [if_pos trivial, if_pos (by simp), List.take_append_of_le_length (by simp),
    List.take_of_length_le (by simp), List.drop_append, List.drop_eq_nil_of_le (by simp),
    toNatBE_ofNatBE _ _ hx, List.nil_append]
  simp only [Bytes.length_ofNatBE, Nat.sub_self, List.drop_zero, toNatBE_ofNatBE _ _ hy]
  rw [if_pos h]

theorem onCurve_of_liftX? {x : Nat} {pick : Nat → Nat → Nat} {p : Point}
    (h : liftX? x pick = some p) : p.onCurve = true := by
  unfold liftX? at h
  dsimp only at h
  split at h
  · obtain rfl := Option.some.inj h
    assumption
  · cases h

/-- **Every point that is read lies on the curve.** -/
theorem onCurve_of_decode? {code : Bytes} {p : Point} (h : Point.decode? code = some p) :
    p.onCurve = true := by
  unfold Point.decode? at h
  dsimp only at h
  split at h
  · cases h
  · split at h
    · split at h
      · split at h
        · obtain rfl := Option.some.inj h
          assumption
        · cases h
      · cases h
    · split at h
      · split at h
        · exact onCurve_of_liftX? h
        · split at h
          · exact onCurve_of_liftX? h
          · split at h
            · exact onCurve_of_liftX? h
            · cases h
      · cases h

/-- **A code of sixty-five bytes that is read** is the uncompressed code of the
    point. -/
theorem eq_encode_of_decode? {code : Bytes} {p : Point} (h : Point.decode? code = some p)
    (hlength : code.length = pointSize) : code = p.encode := by
  unfold Point.decode? at h
  dsimp only at h
  split at h
  · cases h
  · rename_i tag body
    have hbody : body.length = 64 := by
      simpa [pointSize] using hlength
    split at h
    · rename_i htag
      split at h
      · obtain rfl := Option.some.inj h
        have hx := Bytes.ofNatBE_toNatBE (body.take 32)
        have hy := Bytes.ofNatBE_toNatBE (body.drop 32)
        rw [List.length_take, hbody] at hx
        rw [List.length_drop, hbody] at hy
        show tag :: body = 4 :: Bytes.ofNatBE 32 (Bytes.toNatBE (body.take 32))
          ++ Bytes.ofNatBE 32 (Bytes.toNatBE (body.drop 32))
        rw [show Bytes.ofNatBE 32 (Bytes.toNatBE (body.take 32)) = body.take 32 from hx,
          show Bytes.ofNatBE 32 (Bytes.toNatBE (body.drop 32)) = body.drop 32 from hy,
          List.cons_append, List.take_append_drop, htag]
      · cases h
    · -- the shorter codes do not have this length
      rw [if_neg (by omega)] at h
      cases h

/-- **Reading the code of a scalar gives the scalar back.** -/
theorem Scalar.decode?_encode (s : Scalar) : Scalar.decode? s.encode = some s := by
  have hfits : s.val < Nat.pow 256 codeSize := Nat.lt_of_lt_of_le s.lt_order (by decide)
  have hlength : s.encode.length = codeSize := Bytes.length_ofNatBE codeSize s.val
  unfold Scalar.decode?
  rw [if_pos (by rw [hlength]; decide)]
  unfold Scalar.encode
  rw [toNatBE_ofNatBE codeSize s.val hfits]
  exact dif_pos ⟨s.pos, s.lt_order⟩

end P256

end Masquerade
