/-
  Masquerade.Files — CONFIGURATION FILES of the two tunnel ends.

  The server reads TOML, the client JSON.  Either file holds the addresses
  and the opaque string of the connection's configuration; what else stands
  in it is ignored.
-/
import Masquerade.Stored.Envelope
import Masquerade.Toml.Printer
import Masquerade.Toml.Reader

namespace Masquerade

/-! ## §1. The server's file -/

/-- The content of a server's file. -/
structure ServerFile where
  listenAddr : String
  listenPort : UInt16
  forwardAddr : String
  /-- The opaque string of the connection's configuration. -/
  connection : String
  deriving DecidableEq, Repr

namespace ServerFile

/-- The text of a key. -/
def text? (entries : Toml.Entries) (key : String) : Option String :=
  match Toml.get? key entries with
  | some (.text s) => some s
  | _ => none

/-- The port under a key. -/
def port? (entries : Toml.Entries) (key : String) : Option UInt16 :=
  match Toml.get? key entries with
  | some (.integer n) => if 0 ≤ n ∧ n < 65536 then some (UInt16.ofNat n.toNat) else none
  | _ => none

/-- Read a file. -/
def read? (document : String) : Option ServerFile := do
  let entries ← Toml.read? document
  some ⟨← text? entries "listen_addr", ← port? entries "listen_port",
    ← text? entries "forward_addr", ← text? entries "replicant"⟩

/-- Write a file. -/
def print (file : ServerFile) : String :=
  Toml.printLine "listen_addr" (Toml.printText file.listenAddr)
    ++ Toml.printLine "listen_port" (toString file.listenPort.toNat)
    ++ Toml.printLine "forward_addr" (Toml.printText file.forwardAddr)
    ++ Toml.printLine "replicant" (Toml.printText file.connection)

/-- The configuration in a file. -/
def config (file : ServerFile) : Except Error TunnelServer := do
  .ok ⟨file.listenAddr, file.listenPort, file.forwardAddr, ← ServerConfig.decode file.connection⟩

/-- The file of a configuration. -/
def ofConfig (config : TunnelServer) : ServerFile :=
  ⟨config.listenAddr, config.listenPort, config.forwardAddr, config.connection.encode⟩

end ServerFile

/-! ## §2. The client's file -/

/-- The content of a client's file. -/
structure ClientFile where
  listenAddr : String
  serverAddr : String
  /-- The opaque string of the connection's configuration. -/
  connection : String
  deriving DecidableEq, Repr

namespace ClientFile

/-- The fields of a file. -/
def fields : List String := ["listen_addr", "server_addr", "replicant"]

/-- Read a file. -/
def read? (document : String) : Option ClientFile :=
  match Json.takeAll? (Json.takeFields fields Json.takeText) (Bytes.ofText document) with
  | some [listenAddr, serverAddr, connection] => some ⟨listenAddr, serverAddr, connection⟩
  | _ => none

/-- Write a file. -/
def print (file : ClientFile) : Bytes :=
  Json.printIndented (.obj [("listen_addr", .str file.listenAddr),
    ("server_addr", .str file.serverAddr), ("replicant", .str file.connection)])

/-- The configuration in a file. -/
def config (file : ClientFile) : Except Error TunnelClient := do
  .ok ⟨file.listenAddr, file.serverAddr, ← ClientConfig.decode file.connection⟩

/-- The file of a configuration. -/
def ofConfig (config : TunnelClient) : ClientFile :=
  ⟨config.listenAddr, config.serverAddr, config.connection.encode⟩

end ClientFile

end Masquerade
