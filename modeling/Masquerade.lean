/-
  Masquerade — CONNECTIONS THAT LOOK LIKE SOMETHING ELSE.

  A connection opens with a scripted exchange of patterned bytes and goes on
  in sealed chunks of one fixed size.
-/
import Masquerade.Address
import Masquerade.Bytes
import Masquerade.Cli
import Masquerade.Config
import Masquerade.Connection.Basic
import Masquerade.Connection.Reader
import Masquerade.Connection.Rehearsal
import Masquerade.Connection.Relay
import Masquerade.Connection.Writer
import Masquerade.Crypto.Aead
import Masquerade.Crypto.ChaCha
import Masquerade.Crypto.KeyDerivation
import Masquerade.Crypto.P256
import Masquerade.Crypto.Poly1305
import Masquerade.Crypto.Sealing
import Masquerade.Crypto.Sha256
import Masquerade.Describe
import Masquerade.Error
import Masquerade.Files
import Masquerade.Handshake.Exchange
import Masquerade.Handshake.Opening
import Masquerade.Json.Basic
import Masquerade.Json.Fields
import Masquerade.Json.Printer
import Masquerade.Json.Reader
import Masquerade.Main
import Masquerade.Metrics
import Masquerade.Pattern.Condition
import Masquerade.Pattern.Context
import Masquerade.Pattern.Element
import Masquerade.Pattern.Marked
import Masquerade.Pattern.Part
import Masquerade.Pattern.Script
import Masquerade.Pattern.SeededLength
import Masquerade.Pattern.Value
import Masquerade.Pattern.Variables
import Masquerade.Proofs.Alignment
import Masquerade.Proofs.Breakage
import Masquerade.Proofs.Checking
import Masquerade.Proofs.Counting
import Masquerade.Proofs.Delivery
import Masquerade.Proofs.Expansion
import Masquerade.Proofs.Following
import Masquerade.Proofs.Foresight
import Masquerade.Proofs.Forwarding
import Masquerade.Proofs.Framing
import Masquerade.Proofs.Freshness
import Masquerade.Proofs.Generation
import Masquerade.Proofs.Histories
import Masquerade.Proofs.Identity
import Masquerade.Proofs.KeyAgreement
import Masquerade.Proofs.Language
import Masquerade.Proofs.Leniency
import Masquerade.Proofs.Limits
import Masquerade.Proofs.Mirror
import Masquerade.Proofs.Motion
import Masquerade.Proofs.Pacing
import Masquerade.Proofs.Persistence
import Masquerade.Proofs.Printing
import Masquerade.Proofs.Ranges
import Masquerade.Proofs.Readiness
import Masquerade.Proofs.Reception
import Masquerade.Proofs.Recovery
import Masquerade.Proofs.Relaying
import Masquerade.Proofs.Resumption
import Masquerade.Proofs.Retention
import Masquerade.Proofs.Retrying
import Masquerade.Proofs.Rounds
import Masquerade.Proofs.Sealing
import Masquerade.Proofs.Settings
import Masquerade.Proofs.Storage
import Masquerade.Proofs.Streaming
import Masquerade.Proofs.Transmission
import Masquerade.Proofs.Verdicts
import Masquerade.Proofs.Wellformed
import Masquerade.Proofs.Yield
import Masquerade.Repeatable
import Masquerade.Silver.Agreement
import Masquerade.Silver.Cipher
import Masquerade.Stored.Config
import Masquerade.Stored.Envelope
import Masquerade.Stored.Pattern
import Masquerade.Stored.Shape
import Masquerade.Stream.Action
import Masquerade.Stream.Duplex
import Masquerade.Stream.Schedule
import Masquerade.Stream.Scripted
import Masquerade.Text.Base64
import Masquerade.Text.Blank
import Masquerade.Toml.Basic
import Masquerade.Toml.Printer
import Masquerade.Toml.Reader
