/-
  Masquerade.Address — THE FORM OF SOCKET ADDRESSES.

  An address is a host and a port with a colon between them; the port
  follows the last colon.  Whether the host exists is not looked at here.
-/
import Masquerade.Config

namespace Masquerade

namespace Address

/-- The text after the last colon, if there is a colon. -/
def portText? (address : String) : Option (List Char) :=
  if ':' ∈ address.toList then
    some (address.toList.reverse.takeWhile (· != ':')).reverse
  else none

/-- The number that a port's digits stand for; a plus sign may lead. -/
def port? (digits : List Char) : Option Nat :=
  let digits :=
    match digits with
    | '+' :: rest => rest
    | digits => digits
  if digits.isEmpty ∨ ¬ digits.all Char.isDigit then none
  else
    let port := digits.foldl (fun acc c => acc * 10 + (c.toNat - '0'.toNat)) 0
    if port < 0x10000 then some port else none

/-- **Whether a text has the form of an address.** -/
def check (address : String) : Except Error Unit :=
  match portText? address with
  | none => .error (.network .invalidAddress)
  | some digits =>
    if (port? digits).isSome then .ok () else .error (.network .invalidPort)

end Address

/-- What refuses to dial: the address is looked at before anything else. -/
def ClientConfig.checkDial (_config : ClientConfig) (address : String) : Except Error Unit :=
  Address.check address

/-- What refuses to listen: the configuration, then the address. -/
def ServerConfig.checkListen (config : ServerConfig) (address : String) (draws : Draws) :
    Except Error Unit :=
  both (config.validate draws) (Address.check address)

/-- What refuses to run a tunnel client: the configuration, then the address
    it listens on. -/
def TunnelClient.checkRun (config : TunnelClient) (draws : Draws) : Except Error Unit :=
  both (config.validate draws) (Address.check config.listenAddr)

end Masquerade
