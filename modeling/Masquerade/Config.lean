/-
  Masquerade.Config — CONFIGURATIONS of connections and of the two tunnel
  ends.

  A connection may open with a toneburst, a scripted exchange of patterned
  bytes, and may go on under a polish, the chunk cipher.  Each end has its
  own configuration of both.
-/
import Masquerade.Pattern.Script
import Masquerade.Silver.Agreement

namespace Masquerade

/-! ## §1. Tonebursts -/

/-- A scripted exchange: what to send, what to expect, and who begins. -/
structure Toneburst where
  /-- The messages to send, one per step. -/
  add : Option Instance
  /-- The parts to expect, one per step. -/
  remove : Option Description
  /-- Whether the first message goes out before anything is read. -/
  speakFirst : Bool
  deriving DecidableEq, Repr

namespace Toneburst

/-- The messages of one run, under fresh draws. -/
def messages (config : Toneburst) (draws : Draws) : List Message :=
  match config.add with
  | some inst => inst.messages draws
  | none => []

/-- The parts of one run, with their identities. -/
def script (config : Toneburst) : Script :=
  match config.remove with
  | some description => Script.ofDescription 0 description
  | none => []

/-- The draws that are left after the messages of one run. -/
def drawsAfter (config : Toneburst) (draws : Draws) : Draws :=
  match config.add with
  | some inst => inst.drawsAfter draws
  | none => draws

/-- **Whether a run can begin:** one that speaks first needs a message. -/
def validate (config : Toneburst) (draws : Draws) : Except Error Unit :=
  if config.speakFirst ∧ (config.messages draws).isEmpty then .error (.config .nothingToSay)
  else .ok ()

end Toneburst

/-! ## §2. Connections -/

/-- How a client opens a connection. -/
structure ClientConfig where
  toneburst : Option Toneburst
  polish : Option SilverClient
  deriving DecidableEq, Repr

/-- How a server opens a connection. -/
structure ServerConfig where
  toneburst : Option Toneburst
  polish : Option SilverServer
  deriving DecidableEq, Repr

/-- A check of something that may be absent. -/
def validateOption {α : Type} (check : α → Except Error Unit) : Option α → Except Error Unit
  | some value => check value
  | none => .ok ()

/-- Two checks in order. -/
def both (first second : Except Error Unit) : Except Error Unit :=
  match first with
  | .ok () => second
  | .error e => .error e

/-- **Whether a server configuration is usable**, part by part. -/
def ServerConfig.validate (config : ServerConfig) (draws : Draws) : Except Error Unit :=
  both (validateOption (·.validate draws) config.toneburst)
    (validateOption SilverServer.validate config.polish)

/-- The draws that are left after a check, which produces the messages of the
    toneburst once. -/
def ServerConfig.drawsAfter (config : ServerConfig) (draws : Draws) : Draws :=
  match config.toneburst with
  | some toneburst => toneburst.drawsAfter draws
  | none => draws

/-- **Whether a client configuration is usable**, part by part. -/
def ClientConfig.validate (config : ClientConfig) (draws : Draws) : Except Error Unit :=
  both (validateOption (·.validate draws) config.toneburst)
    (validateOption SilverClient.validate config.polish)

/-- The client configuration that fits a server; the client's toneburst is
    given, since the two scripts differ. -/
def ServerConfig.client (config : ServerConfig) (toneburst : Option Toneburst) : ClientConfig :=
  ⟨toneburst, config.polish.map SilverServer.client⟩

/-- A server configuration with a fresh key and no toneburst. -/
def ServerConfig.generate (draws : Draws) : ServerConfig × Draws :=
  let (silver, draws) := SilverServer.generate draws
  (⟨none, some silver⟩, draws)

/-! ## §3. The tunnel ends -/

/-- The forwarding server: where it listens and where it forwards to. -/
structure TunnelServer where
  listenAddr : String
  listenPort : UInt16
  forwardAddr : String
  connection : ServerConfig
  deriving DecidableEq, Repr

/-- The tunnel client: where it listens and which server it dials. -/
structure TunnelClient where
  listenAddr : String
  serverAddr : String
  connection : ClientConfig
  deriving DecidableEq, Repr

/-- A named text that must not be empty. -/
def validateText (name text : String) : Except Error Unit :=
  if text.isEmpty then .error (.config (.emptyField name)) else .ok ()

/-- Whether the server's configuration is usable. -/
def TunnelServer.validate (config : TunnelServer) (draws : Draws) : Except Error Unit :=
  both (validateText "listen_addr" config.listenAddr)
    (both (validateText "forward_addr" config.forwardAddr) (config.connection.validate draws))

/-- Whether the client's configuration is usable. -/
def TunnelClient.validate (config : TunnelClient) (draws : Draws) : Except Error Unit :=
  both (validateText "listen_addr" config.listenAddr)
    (both (validateText "server_addr" config.serverAddr) (config.connection.validate draws))

/-- A server with a fresh key and no toneburst. -/
def TunnelServer.generate (listenAddr : String) (listenPort : UInt16) (forwardAddr : String)
    (draws : Draws) : TunnelServer × Draws :=
  let (connection, draws) := ServerConfig.generate draws
  (⟨listenAddr, listenPort, forwardAddr, connection⟩, draws)

end Masquerade
