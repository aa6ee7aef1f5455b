/-
  Masquerade.Describe — TEXTS FOR LOGS.

  What a log says about keys and configurations.  No text holds a private
  key or a session key.

  Main results:
    * `SilverServer.describe_eq` — the text of a server's keys does not
      depend on the private key.
-/
import Masquerade.Config

namespace Masquerade

/-- What stands for a secret. -/
def redacted : String := "\"<redacted>\""

/-- A cipher, whose only content is its key. -/
def Aead.describe (_key : Bytes) : String := "Aead \x7b .. \x7d"

/-- A server's keys; the private one is left out. -/
def SilverServer.describe (config : SilverServer) : String :=
  "SilverServerConfig \x7b server_public_key: " ++ Bytes.hex config.serverKey.encode
    ++ ", server_private_key: " ++ redacted
    ++ ", chunk_size: " ++ toString config.chunkSize.toNat ++ " \x7d"

/-- The text of a server's keys does not depend on the private key. -/
theorem SilverServer.describe_eq (config : SilverServer) (key : P256.Scalar) :
    { config with privateKey := key }.describe = config.describe := rfl

/-- A flag. -/
def describeFlag (b : Bool) : String := if b then "true" else "false"

/-- What a server asks of the connections that it accepts. -/
def ServerConfig.describe (config : ServerConfig) : String :=
  "Acceptor \x7b toneburst: " ++ describeFlag config.toneburst.isSome
    ++ ", polish: " ++ describeFlag config.polish.isSome ++ " \x7d"

end Masquerade
