/-
  Masquerade.Error — WHAT CAN GO WRONG, and how it is worded.

  Every failure carries its cause.  A cause that a caller states in its own
  words is kept as text.
-/
import Masquerade.Pattern.Element
import Masquerade.Text.Base64

namespace Masquerade

/-! ## §1. Causes -/

/-- Why a sealed payload could not be used. -/
inductive CryptoFault where
  /-- The tag does not fit the key, the nonce and the ciphertext. -/
  | notAuthentic
  | told (text : String)
  deriving DecidableEq, Repr

/-- Why a key could not be used. -/
inductive KeyFault where
  | malformedPublicKey
  | invalidPrivateKey
  | told (text : String)
  deriving DecidableEq, Repr

/-- Why received bytes are no message. -/
inductive MessageFault where
  /-- The bytes are not a whole number of chunks. -/
  | ragged (length chunkSize : Nat)
  /-- A chunk claims more data than it can hold. -/
  | beyondCapacity (length capacity : Nat)
  | told (text : String)
  deriving DecidableEq, Repr

/-- Why a stream failed. -/
inductive StreamFault where
  /-- The stream ended within a read of known length. -/
  | earlyEnd
  /-- A write was accepted with no byte taken. -/
  | nothingWritten
  /-- The reader of the stream is gone. -/
  | brokenPipe
  /-- An earlier write was cut short, so the peer's framing is lost. -/
  | unfinishedWrite
  | invalidAddress
  | invalidPort
  | told (text : String)
  deriving DecidableEq, Repr

/-- Why a configuration cannot be used. -/
inductive ConfigFault where
  | chunkSize (size smallest largest : Nat)
  | keyMismatch
  /-- Speaking first with no message. -/
  | nothingToSay
  | emptyField (name : String)
  | told (text : String)
  deriving DecidableEq, Repr

/-- Why a stored configuration cannot be read. -/
inductive EncodingFault where
  | base64 (fault : Base64.Error)
  /-- The text or its shape is not that of a configuration. -/
  | malformed
  | key (fault : KeyFault)
  | told (text : String)
  deriving DecidableEq, Repr

/-- **A failure of the transport.** -/
inductive Error where
  | crypto (fault : CryptoFault)
  | keyExchange (fault : KeyFault)
  /-- A step of the opening script got this verdict. -/
  | validation (verdict : Verdict)
  | pattern (fault : PatternError)
  | invalidMessage (fault : MessageFault)
  | timeout (milliseconds : Nat)
  | network (fault : StreamFault)
  | config (fault : ConfigFault)
  | encoding (fault : EncodingFault)
  | versionMismatch (expected actual : Nat)
  | buffer (expected actual : Nat)
  deriving DecidableEq, Repr

/-! ## §2. Wording -/

/-- The wording of a cause. -/
def CryptoFault.message : CryptoFault → String
  | .notAuthentic => "decryption/authentication failed"
  | .told text => text

/-- The wording of a cause. -/
def KeyFault.message : KeyFault → String
  | .malformedPublicKey => "malformed P-256 public key"
  | .invalidPrivateKey => "invalid P-256 private key"
  | .told text => text

/-- The wording of a cause. -/
def MessageFault.message : MessageFault → String
  | .ragged length chunkSize =>
    toString length ++ " bytes is not a whole number of " ++ toString chunkSize ++ "-byte chunks"
  | .beyondCapacity length capacity =>
    "chunk length prefix " ++ toString length ++ " exceeds capacity " ++ toString capacity
  | .told text => text

/-- The wording of a cause. -/
def StreamFault.message : StreamFault → String
  | .earlyEnd => "early eof"
  | .nothingWritten => "write zero"
  | .brokenPipe => "broken pipe"
  | .unfinishedWrite => "an earlier write did not complete"
  | .invalidAddress => "invalid socket address"
  | .invalidPort => "invalid port value"
  | .told text => text

/-- The wording of a cause. -/
def ConfigFault.message : ConfigFault → String
  | .chunkSize size smallest largest =>
    "chunk size " ++ toString size ++ " outside " ++ toString smallest ++ "..=" ++ toString largest
  | .keyMismatch => "server public key does not match private key"
  | .nothingToSay => "cannot speak first when there is nothing to add"
  | .emptyField name => name ++ " cannot be empty"
  | .told text => text

/-- The wording of a cause. -/
def EncodingFault.message : EncodingFault → String
  | .base64 fault => "invalid base64: " ++ fault.message
  | .malformed => "malformed configuration"
  | .key fault => "key exchange failed: " ++ fault.message
  | .told text => text

/-- **The wording of a failure.** -/
def Error.message : Error → String
  | .crypto fault => "cryptographic error: " ++ fault.message
  | .keyExchange fault => "key exchange failed: " ++ fault.message
  | .validation verdict => "toneburst validation failed: " ++ verdict.name
  | .pattern fault => "grammar error: " ++ fault.message
  | .invalidMessage fault => "invalid message format: " ++ fault.message
  | .timeout milliseconds => "connection timeout after " ++ toString milliseconds ++ "ms"
  | .network fault => "network error: " ++ fault.message
  | .config fault => "configuration error: " ++ fault.message
  | .encoding fault => "encoding error: " ++ fault.message
  | .versionMismatch expected actual =>
    "format version mismatch: expected " ++ toString expected ++ ", got " ++ toString actual
  | .buffer expected actual =>
    "buffer error: expected " ++ toString expected ++ " bytes, got " ++ toString actual

/-! ## §3. Kinds of failure -/

/-- Whether a failure happened while establishing a connection. -/
def Error.isHandshakeFailure : Error → Bool
  | .validation _ | .keyExchange _ => true
  | _ => false

/-- Whether a failure came from a deadline. -/
def Error.isTimeout : Error → Bool
  | .timeout _ => true
  | _ => false

end Masquerade
