/-
  Masquerade.Handshake.Opening — OPENING A CONNECTION: the scripted exchange,
  then the agreement on a key.

  Either half may be left out.  The client's half of the agreement is one
  block that it writes, the server's half is to read that block.

  Main results:
    * `Opening.client_eq_over_iff` — a client is refused before anything is
      written exactly if its toneburst is not valid.
-/
import Masquerade.Handshake.Exchange

namespace Masquerade

/-! ## §1. Handshakes and clients -/

/-- What is left to do after the exchange. -/
inductive Keying where
  /-- No polish. -/
  | plain
  /-- Offer a key, drawn from the supply. -/
  | offer (config : SilverClient) (draws : Draws)
  /-- Wait for a key. -/
  | accept (config : SilverServer)

/-- **The state of a handshake.** -/
inductive Opening where
  | exchanging (exchange : Exchange) (keying : Keying)
  | agreeing (keying : Keying)
  /-- Writing the rest of a key block. -/
  | offering (left : Bytes) (cipher : Cipher)
  /-- Reading a key block. -/
  | accepting (config : SilverServer) (missing : Nat) (got : Bytes)
  | over (outcome : Except Error (Option Cipher))

namespace Opening

/-- A handshake that begins with an exchange, if there is one. -/
def start (toneburst : Option Toneburst) (draws : Draws) (keying : Keying) : Opening :=
  match toneburst with
  | none => .agreeing keying
  | some config =>
    match Exchange.start config draws with
    | .error e => .over (.error e)
    | .ok exchange => .exchanging exchange keying

/-- **The client's side**, with draws for the exchange and for the key. -/
def client (config : ClientConfig) (draws keyDraws : Draws) : Opening :=
  start config.toneburst draws
    (match config.polish with
      | none => .plain
      | some silver => .offer silver keyDraws)

/-- A client is refused before anything is written exactly if its toneburst
    is not valid. -/
theorem client_eq_over_iff (config : ClientConfig) (draws keyDraws : Draws) (e : Error) :
    client config draws keyDraws = .over (.error e) ↔
      validateOption (·.validate draws) config.toneburst = .error e := by
  cases hconfig : config.toneburst with
  | none => simp [client, start, hconfig, validateOption]
  | some toneburst =>
    cases h : toneburst.validate draws with
    | ok u => simp [client, start, hconfig, validateOption, Exchange.start, h]
    | error f => simp [client, start, hconfig, validateOption, Exchange.start, h]

end Opening

/-! ## §2. Servers -/

/-- **What a server keeps between connections.** -/
structure Acceptor where
  toneburst : Option Toneburst
  polish : Option SilverServer

namespace Acceptor

/-- Make a server ready; an unusable configuration is refused. -/
def new (config : ServerConfig) (draws : Draws) : Except Error Acceptor :=
  match config.validate draws with
  | .error e => .error e
  | .ok () => .ok ⟨config.toneburst, config.polish⟩

/-- What follows the exchange of one connection. -/
def keying (acceptor : Acceptor) : Keying :=
  match acceptor.polish with
  | none => .plain
  | some silver => .accept silver

/-- **The handshake of one connection,** with draws of its own. -/
def handshake (acceptor : Acceptor) (draws : Draws) : Opening :=
  .start acceptor.toneburst draws acceptor.keying

end Acceptor

namespace Opening

/-- **The server's side** of one connection: a server is made ready, and its
    handshake goes on with the draws that this leaves.  An unusable
    configuration is refused before anything is read. -/
def server (config : ServerConfig) (draws : Draws) : Opening :=
  match Acceptor.new config draws with
  | .error e => .over (.error e)
  | .ok acceptor => acceptor.handshake (config.drawsAfter draws)

/-! ## §3. The agreement on a key -/

/-- A client's block: its fresh key, and padding up to the size of a chunk. -/
def keyBlock (config : SilverClient) (draws : Draws) : Bytes :=
  Agreement.keyBlock (scalarOf draws.next).publicPoint.encode
    (randomBytes config.chunkSize.toNat draws.advance).1

/-- Begin the agreement. -/
def agree : Keying → Opening
  | .plain => .over (.ok none)
  | .offer config draws =>
    match Agreement.clientCipher config (scalarOf draws.next) with
    | .error e => .over (.error e)
    | .ok cipher => .offering (keyBlock config draws) cipher
  | .accept config => .accepting config config.chunkSize.toNat []

/-- Part of the key block has been written, or nothing more can be. -/
def offered (left : Bytes) (cipher : Cipher) : Acceptance → Opening
  | .taken 0 => .over (.error (.network .nothingWritten))
  | .taken count => .offering (left.drop count) cipher
  | .fault f => .over (.error (.network f))

/-- Part of the key block has arrived, or nothing more will. -/
def arrived (config : SilverServer) (missing : Nat) (got : Bytes) : Arrival → Opening
  | .data bytes => .accepting config (missing - bytes.length) (got ++ bytes)
  | .closed => .over (.error (.network .earlyEnd))
  | .fault f => .over (.error (.network f))

/-- What follows the exchange. -/
def afterExchange (keying : Keying) : Except Error Unit → Opening
  | .ok () => .agreeing keying
  | .error e => .over (.error e)

/-! ## §4. Steps -/

/-- **What a handshake does next.** -/
def act : Opening → Action Opening (Except Error (Option Cipher))
  | .exchanging exchange keying =>
    exchange.act.within (.exchanging · keying) (afterExchange keying)
  | .agreeing keying => .go fun _ => agree keying
  | .offering [] cipher => .go fun _ => .over (.ok (some cipher))
  | .offering left cipher => .write left none (offered left cipher)
  | .accepting config 0 got =>
    .go fun _ => .over ((Agreement.serverCipher config got).map some)
  | .accepting config missing got => .read missing none (arrived config missing got)
  | .over outcome => .done outcome

/-- How long a server waits for a handshake, in milliseconds. -/
def timeout : Nat := 10000

/-- The outcome of a handshake that took too long. -/
def timedOut : Except Error (Option Cipher) := .error (.timeout timeout)

end Opening

end Masquerade
