/-
  Masquerade.Connection.Basic — AN OPEN CONNECTION.

  A connection is a receiving and a sending side that share nothing but
  their cipher, so it can be split into the two.
-/
import Masquerade.Connection.Reader
import Masquerade.Connection.Writer
import Masquerade.Handshake.Opening

namespace Masquerade

/-- **An open connection.** -/
structure Connection where
  reader : Reader
  writer : Writer
  deriving DecidableEq, Repr

namespace Connection

/-- The connection after a handshake. -/
def ofCipher (cipher : Option Cipher) : Connection := ⟨.start cipher, .start cipher⟩

/-- A connection without a handshake. -/
def raw : Connection := ofCipher none

/-- Whether a cipher is in use. -/
def isPolished (c : Connection) : Bool := c.writer.cipher.isSome

/-- The two sides of a connection, to be used independently. -/
def split (c : Connection) : Reader × Writer := (c.reader, c.writer)

/-- Limit the time of reads, or lift the limit. -/
def setReadTimeout (c : Connection) (timeout : Option Nat) : Connection :=
  { c with reader := { c.reader with timeout } }

/-- Limit the time of writes, or lift the limit. -/
def setWriteTimeout (c : Connection) (timeout : Option Nat) : Connection :=
  { c with writer := { c.writer with timeout } }

end Connection

/-! ## Closing -/

/-- **Closing the sending side** of a stream; once done it stays done. -/
inductive Closing where
  | start | over
  deriving DecidableEq, Repr

/-- What closing does next. -/
def Closing.act : Closing → Action Closing (Except Error Unit)
  | .start => .shutdown .over
  | .over => .done (.ok ())

end Masquerade
