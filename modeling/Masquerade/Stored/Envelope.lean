/-
  Masquerade.Stored.Envelope — VERSIONED, OPAQUE STRINGS for stored values.

  A value travels as base64 of the compact JSON text

      {"version":1,"body":…}

  and a connection's configuration once more inside a small JSON object
  that says whose it is.  A reader checks, in this order: base64, the text,
  the version, the shape of the body.
-/
import Masquerade.Json.Fields
import Masquerade.Stored.Config
import Masquerade.Text.Blank

namespace Masquerade

namespace Envelope

/-! ## §1. The envelope -/

/-- The version that is written, and the only one that is read. -/
def version : Nat := 1

/-- The fields of an envelope. -/
def fields : List String := ["version", "body"]

/-- **The opaque string of a stored form.** -/
def encode (body : Json) : String :=
  Base64.encodeText (Json.print (.obj [("version", .int version), ("body", body)]))

/-- The body in the text of an envelope. -/
def bodyOf (text : Bytes) : Except Error Json :=
  match Json.takeAll? (Json.takeFields fields (Json.takeValue (Json.maxNesting - 1))) text with
  | some [found, body] =>
    match found.word16? with
    | none => .error (.encoding .malformed)
    | some found =>
      if found = version then .ok body else .error (.versionMismatch version found)
  | _ => .error (.encoding .malformed)

/-- **Read an opaque string**; white space around it is ignored. -/
def decode {α : Type} (read : Json → Except EncodingFault α) (encoded : String) :
    Except Error α :=
  match Base64.decode (Bytes.ofText (Text.trim encoded)) with
  | .error fault => .error (.encoding (.base64 fault))
  | .ok text =>
    match bodyOf text with
    | .error e => .error e
    | .ok body =>
      match read body with
      | .ok value => .ok value
      | .error fault => .error (.encoding fault)

end Envelope

/-! ## §2. Patterns and tonebursts -/

/-- The opaque string of a description. -/
def Description.encode (description : Description) : String := Envelope.encode description.toJson

/-- Read a description from its opaque string. -/
def Description.decode (encoded : String) : Except Error Description :=
  Envelope.decode (fun json => required (Description.ofJson? .outer json)) encoded

/-- The opaque string of an instance. -/
def Instance.encode (inst : Instance) : String := Envelope.encode inst.toJson

/-- Read an instance from its opaque string. -/
def Instance.decode (encoded : String) : Except Error Instance :=
  Envelope.decode (fun json => required (Instance.ofJson? .outer json)) encoded

/-- The opaque string of a toneburst. -/
def Toneburst.encode (config : Toneburst) : String := Envelope.encode config.toJson

/-- Read a toneburst from its opaque string. -/
def Toneburst.decode (encoded : String) : Except Error Toneburst :=
  Envelope.decode (fun json => required (Toneburst.ofJson? json)) encoded

/-! ## §3. Configurations -/

/-- The opaque string of a client's configuration. -/
def ClientConfig.encode (config : ClientConfig) : String := Envelope.encode config.toJson

/-- Read a client's configuration from its opaque string. -/
def ClientConfig.decode (encoded : String) : Except Error ClientConfig :=
  Envelope.decode ClientConfig.ofJson encoded

/-- The opaque string of a server's configuration. -/
def ServerConfig.encode (config : ServerConfig) : String := Envelope.encode config.toJson

/-- Read a server's configuration from its opaque string. -/
def ServerConfig.decode (encoded : String) : Except Error ServerConfig :=
  Envelope.decode ServerConfig.ofJson encoded

/-- An opaque string as the one field of an object. -/
def wrapped (encoded : String) : Json := .obj [("config", .str encoded)]

/-- Take the opaque string out of such an object. -/
def takeWrapped : Json.Taker String := fun input => do
  match ← Json.takeFields ["config"] Json.takeText input with
  | ([encoded], rest) => some (encoded, rest)
  | _ => none

/-- **The text in which a client's configuration is handed out.** -/
def ClientConfig.marshal (config : ClientConfig) : Bytes := Json.print (wrapped config.encode)

/-- Read the text in which a client's configuration is handed out. -/
def ClientConfig.unmarshal (text : Bytes) : Except Error ClientConfig :=
  match Json.takeAll? takeWrapped text with
  | some encoded => decode encoded
  | none => .error (.encoding .malformed)

/-- **The text in which a server's configuration is handed out.** -/
def ServerConfig.marshal (config : ServerConfig) : Bytes :=
  Json.print (.obj [("Replicant", wrapped config.encode)])

/-- Read the text in which a server's configuration is handed out. -/
def ServerConfig.unmarshal (text : Bytes) : Except Error ServerConfig :=
  match Json.takeAll? (Json.takeFields ["Replicant"] takeWrapped) text with
  | some [encoded] => decode encoded
  | _ => .error (.encoding .malformed)

end Masquerade
