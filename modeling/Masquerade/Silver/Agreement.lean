/-
  Masquerade.Silver.Agreement — THE KEY AGREEMENT behind the chunk cipher.

  The client draws a scalar, and sends its public point at the front of a
  block as long as a chunk, the rest of it random.  Both ends derive the
  cipher's key from the shared point and the client's public point.

  Main results:
    * `Agreement.length_keyBlock` — the client's block is as long as its
      padding.
    * `SilverServer.validate_eq_ok_iff` — which server configurations are
      usable.
-/
import Masquerade.Crypto.KeyDerivation
import Masquerade.Crypto.P256
import Masquerade.Silver.Cipher

namespace Masquerade

/-! ## §1. Configurations -/

/-- What a client knows of its server. -/
structure SilverClient where
  serverKey : P256.Point
  chunkSize : UInt64
  deriving DecidableEq, Repr

/-- A server's long-term key and chunk size. -/
structure SilverServer where
  serverKey : P256.Point
  privateKey : P256.Scalar
  chunkSize : UInt64
  deriving DecidableEq, Repr

/-- What clients are told. -/
def SilverServer.client (config : SilverServer) : SilverClient :=
  ⟨config.serverKey, config.chunkSize⟩

/-- Whether a client can use its configuration. -/
def SilverClient.validate (config : SilverClient) : Except Error Unit :=
  checkChunkSize config.chunkSize.toNat

/-- **Whether a server can use its configuration:** the chunk size is allowed
    and the public key belongs to the private one. -/
def SilverServer.validate (config : SilverServer) : Except Error Unit :=
  match checkChunkSize config.chunkSize.toNat with
  | .error e => .error e
  | .ok () =>
    if config.privateKey.publicPoint = config.serverKey then .ok ()
    else .error (.config .keyMismatch)

/-- Which server configurations are usable. -/
theorem SilverServer.validate_eq_ok_iff (config : SilverServer) :
    config.validate = .ok () ↔
      minChunkSize ≤ config.chunkSize.toNat ∧ config.chunkSize.toNat ≤ maxChunkSize
        ∧ config.privateKey.publicPoint = config.serverKey := by
  by_cases h : minChunkSize ≤ config.chunkSize.toNat ∧ config.chunkSize.toNat ≤ maxChunkSize
  · by_cases hk : config.privateKey.publicPoint = config.serverKey <;>
      simp [validate, checkChunkSize, h, hk]
  · simp only [validate, checkChunkSize, if_neg h]
    simp only [reduceCtorEq, false_iff]
    exact fun hall => h ⟨hall.1, hall.2.1⟩

/-! ## §2. Fresh keys -/

/-- A number below a bound, from a draw; zero where the bound is zero. -/
def below (bound draw : Nat) : Nat := if bound = 0 then 0 else draw % bound

/-- `count` random bytes, one per draw. -/
def randomBytes (count : Nat) (draws : Draws) : Bytes × Draws :=
  ((List.range count).map fun i => UInt8.ofNat (draws.stream (draws.used + i) % 256),
    { draws with used := draws.used + count })

@[simp] theorem length_randomBytes (count : Nat) (draws : Draws) :
    (randomBytes count draws).1.length = count := by
  simp [randomBytes]

/-- The scalar of a draw. -/
def scalarOf (draw : Nat) : P256.Scalar where
  val := draw % (P256.order - 1) + 1
  pos := Nat.succ_pos _
  lt_order := by
    have : draw % (P256.order - 1) < P256.order - 1 := Nat.mod_lt _ (by decide)
    omega

/-- The data that the smallest fresh chunk holds, its length included. -/
def basePayloadSize : Nat := 1024

/-- By how much the payload of a fresh chunk may vary. -/
def payloadSpread : Nat := 512

/-- **A fresh server configuration:** a random key and a random chunk size. -/
def SilverServer.generate (draws : Draws) : SilverServer × Draws :=
  let secret := scalarOf draws.next
  let size := Aead.nonceSize + Aead.tagSize + basePayloadSize
    + below payloadSpread draws.advance.next
  (⟨secret.publicPoint, secret, UInt64.ofNat size⟩, draws.advance.advance)

/-! ## §3. The shared key -/

namespace Agreement

/-- The shared point of a secret and a public key, as bytes. -/
def shared (secret : P256.Scalar) (peer : P256.Point) : Bytes := (P256.mul secret peer).encode

/-- **The key** of a shared point and the client's public key. -/
def deriveKey (shared clientKey : Bytes) : Bytes :=
  KeyDerivation.expand shared clientKey Aead.keySize

/-- The client's block: padding with the public key written over its front. -/
def keyBlock (clientKey padding : Bytes) : Bytes :=
  clientKey ++ padding.drop clientKey.length

/-- The client's block is as long as the padding. -/
theorem length_keyBlock (clientKey padding : Bytes) (h : clientKey.length ≤ padding.length) :
    (keyBlock clientKey padding).length = padding.length := by
  simp [keyBlock]
  omega

/-- The cipher that a client derives from its secret. -/
def clientCipher (config : SilverClient) (secret : P256.Scalar) : Except Error Cipher :=
  match config.validate with
  | .error e => .error e
  | .ok () =>
    Cipher.new (deriveKey (shared secret config.serverKey) secret.publicPoint.encode)
      config.chunkSize.toNat

/-- **The cipher that a server derives from the client's block.** -/
def serverCipher (config : SilverServer) (block : Bytes) : Except Error Cipher :=
  let clientKey := block.take P256.pointSize
  match P256.Point.decode? clientKey with
  | none => .error (.keyExchange .malformedPublicKey)
  | some peer =>
    Cipher.new (deriveKey (shared config.privateKey peer) clientKey) config.chunkSize.toNat

end Agreement

end Masquerade
