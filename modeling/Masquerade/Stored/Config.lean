/-
  Masquerade.Stored.Config — THE STORED FORM of configurations.

  Keys are stored as base64: a public key as the uncompressed code of its
  point, a private key as its 32-byte scalar.  A reader also takes the
  shorter codes of a point and scalars from 24 bytes on.

  A field that holds no usable key is reported as such, anything else that
  is out of shape as malformed.  Members of an object are looked at in the
  order of their names and missing ones last, items of an array in the
  order of the fields; the first failure is reported.

  Main results:
    * `readChunkSize_toNat` — a written chunk size reads back.
-/
import Masquerade.Config
import Masquerade.Stored.Pattern

namespace Masquerade

/-! ## §1. Keys -/

/-- The stored form of bytes. -/
def bytesJson (bytes : Bytes) : Json := .str (Base64.encodeText bytes)

/-- A failure of shape. -/
def malformed {α : Type} : Except EncodingFault α := .error .malformed

/-- What is missing or out of shape is malformed. -/
def required {α : Type} : Option α → Except EncodingFault α
  | some a => .ok a
  | none => malformed

/-- Read bytes. -/
def readBytes (slot : Option Json) : Except EncodingFault Bytes :=
  match slot with
  | some (.str text) =>
    match Base64.decode (Bytes.ofText text) with
    | .ok bytes => .ok bytes
    | .error _ => malformed
  | _ => malformed

/-- Read a public key. -/
def readPublicKey (slot : Option Json) : Except EncodingFault P256.Point := do
  match P256.Point.decode? (← readBytes slot) with
  | some point => .ok point
  | none => .error (.key .malformedPublicKey)

/-- Read a private key. -/
def readPrivateKey (slot : Option Json) : Except EncodingFault P256.Scalar := do
  match P256.Scalar.decode? (← readBytes slot) with
  | some scalar => .ok scalar
  | none => .error (.key .invalidPrivateKey)

/-- Read a chunk size. -/
def readChunkSize (slot : Option Json) : Except EncodingFault UInt64 :=
  required (slot.bind Json.word64?)

theorem word64?_toNat (n : UInt64) : (Json.int n.toNat).word64? = some n := by
  have h : (n.toNat : Int) < 0x10000000000000000 := Int.ofNat_lt.mpr n.toNat_lt
  simp only [Json.word64?]
  rw [if_pos ⟨Int.natCast_nonneg _, h⟩]
  simp

/-- A written chunk size reads back. -/
theorem readChunkSize_toNat (size : UInt64) :
    readChunkSize (some (.int size.toNat)) = .ok size := by
  rw [readChunkSize, Option.bind_some, word64?_toNat, required]

/-- Read a field unless it is missing. -/
def ifPresent {α : Type} (read : Option Json → Except EncodingFault α) (slot : Option Json) :
    Except EncodingFault (Option α) :=
  if slot.isSome then (read slot).map some else .ok none

/-! ## §2. The polish -/

/-- The stored form of a client's polish. -/
def SilverClient.toJson (config : SilverClient) : Json :=
  .obj [("type", .str "silver"), ("server_public_key", bytesJson config.serverKey.encode),
    ("chunk_size", .int config.chunkSize.toNat)]

/-- The stored form of a server's polish. -/
def SilverServer.toJson (config : SilverServer) : Json :=
  .obj [("type", .str "silver"), ("server_public_key", bytesJson config.serverKey.encode),
    ("server_private_key", bytesJson config.privateKey.encode),
    ("chunk_size", .int config.chunkSize.toNat)]

/-- A record whose items are all used. -/
def checkFits (fields : List String) (shape : Shape) : Except EncodingFault Unit :=
  if shape.fits fields then .ok () else malformed

/-- The fields of a client's polish. -/
def SilverClient.fields : List String := ["server_public_key", "chunk_size"]

/-- The fields of a server's polish. -/
def SilverServer.fields : List String := ["server_public_key", "server_private_key", "chunk_size"]

/-- Read a client's polish. -/
def SilverClient.ofJson (json : Json) : Except EncodingFault SilverClient := do
  let (_, shape) ← required (variant? .outer "type" ["silver"] json)
  match shape, shape.slots fields with
  | .named _, [serverKey, chunkSize] => do
    let chunkSize ← ifPresent readChunkSize chunkSize
    let serverKey ← ifPresent readPublicKey serverKey
    .ok ⟨← required serverKey, ← required chunkSize⟩
  | .listed _, [serverKey, chunkSize] => do
    let serverKey ← readPublicKey serverKey
    let chunkSize ← readChunkSize chunkSize
    checkFits fields shape
    .ok ⟨serverKey, chunkSize⟩
  | _, _ => malformed

/-- Read a server's polish. -/
def SilverServer.ofJson (json : Json) : Except EncodingFault SilverServer := do
  let (_, shape) ← required (variant? .outer "type" ["silver"] json)
  match shape, shape.slots fields with
  | .named _, [serverKey, privateKey, chunkSize] => do
    let chunkSize ← ifPresent readChunkSize chunkSize
    let privateKey ← ifPresent readPrivateKey privateKey
    let serverKey ← ifPresent readPublicKey serverKey
    .ok ⟨← required serverKey, ← required privateKey, ← required chunkSize⟩
  | .listed _, [serverKey, privateKey, chunkSize] => do
    let serverKey ← readPublicKey serverKey
    let privateKey ← readPrivateKey privateKey
    let chunkSize ← readChunkSize chunkSize
    checkFits fields shape
    .ok ⟨serverKey, privateKey, chunkSize⟩
  | _, _ => malformed

/-! ## §3. The toneburst -/

/-- The stored form of something that may be absent. -/
def optionJson {α : Type} (write : α → Json) : Option α → Json
  | some value => write value
  | none => .null

/-- The fields of a toneburst. -/
def Toneburst.fields : List String := ["add_sequences", "remove_sequences", "speak_first"]

/-- The fields of a toneburst with their stored content. -/
def Toneburst.members (config : Toneburst) : List (String × Json) :=
  [("add_sequences", optionJson Instance.toJson config.add),
   ("remove_sequences", optionJson Description.toJson config.remove),
   ("speak_first", .bool config.speakFirst)]

/-- The stored form of a toneburst. -/
def Toneburst.toJson (config : Toneburst) : Json :=
  .obj (("type", .str "monotone") :: config.members)

/-- Read the fields of a toneburst.  A missing flag is false. -/
def Toneburst.ofShape? (place : Place) (shape : Shape) : Option Toneburst := do
  match ← shape.exactSlots? fields with
  | [add, remove, speakFirst] => do
    some ⟨← Json.optional? (Instance.ofJson? place) add,
      ← Json.optional? (Description.ofJson? place) remove,
      ← (speakFirst.getD (.bool false)).bool?⟩
  | _ => none

/-- Read a toneburst. -/
def Toneburst.ofJson? (json : Json) : Option Toneburst := do
  let (_, shape) ← variant? .outer "type" ["monotone"] json
  ofShape? .inner shape

/-! ## §4. Both together -/

/-- The fields of a connection's configuration. -/
def connectionFields : List String := ["toneburst", "polish"]

/-- Read something that may be absent. -/
def readOption {α : Type} (read : Json → Except EncodingFault α) :
    Option Json → Except EncodingFault (Option α)
  | none => .ok none
  | some .null => .ok none
  | some value => (read value).map some

/-- Read both fields of a connection's configuration. -/
def readConnection {α : Type} (readPolish : Json → Except EncodingFault α) (json : Json) :
    Except EncodingFault (Option Toneburst × Option α) := do
  let shape ← required (Shape.ofJson? json)
  let readToneburst := fun value => required (Toneburst.ofJson? value)
  match shape, shape.slots connectionFields with
  | .named _, [toneburst, polish] => do
    let polish ← readOption readPolish polish
    let toneburst ← readOption readToneburst toneburst
    .ok (toneburst, polish)
  | .listed _, [toneburst, polish] => do
    let toneburst ← readOption readToneburst toneburst
    let polish ← readOption readPolish polish
    checkFits connectionFields shape
    .ok (toneburst, polish)
  | _, _ => malformed

/-- The stored form of a client's configuration. -/
def ClientConfig.toJson (config : ClientConfig) : Json :=
  .obj [("toneburst", optionJson Toneburst.toJson config.toneburst),
    ("polish", optionJson SilverClient.toJson config.polish)]

/-- The stored form of a server's configuration. -/
def ServerConfig.toJson (config : ServerConfig) : Json :=
  .obj [("toneburst", optionJson Toneburst.toJson config.toneburst),
    ("polish", optionJson SilverServer.toJson config.polish)]

/-- Read a client's configuration. -/
def ClientConfig.ofJson (json : Json) : Except EncodingFault ClientConfig := do
  let (toneburst, polish) ← readConnection SilverClient.ofJson json
  .ok ⟨toneburst, polish⟩

/-- Read a server's configuration. -/
def ServerConfig.ofJson (json : Json) : Except EncodingFault ServerConfig := do
  let (toneburst, polish) ← readConnection SilverServer.ofJson json
  .ok ⟨toneburst, polish⟩

end Masquerade
