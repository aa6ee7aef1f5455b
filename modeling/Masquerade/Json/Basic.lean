/-
  Masquerade.Json.Basic — JSON VALUES.

  Integers of 64 bits are kept as numbers; every other number is a real and
  is kept as written, since no configuration has a use for one.
-/
import Masquerade.Bytes

namespace Masquerade

/-- A JSON value. -/
inductive Json where
  | null
  | bool (b : Bool)
  /-- An integer between `-2 ^ 63` and `2 ^ 64 - 1`, written without fraction
      and exponent, other than `-0`. -/
  | int (n : Int)
  /-- Any other number, as written. -/
  | real (literal : Bytes)
  | str (text : String)
  | arr (items : List Json)
  /-- Members in the order written; names may repeat. -/
  | obj (members : List (String × Json))
  deriving Repr, Inhabited

namespace Json

/-- The value of a named member: the last one written. -/
def field? (members : List (String × Json)) (name : String) : Option Json :=
  (members.reverse.find? (fun member => member.1 == name)).map Prod.snd

/-- The smallest integer. -/
def minInt : Int := -0x8000000000000000

/-- The largest integer. -/
def maxInt : Int := 0xffffffffffffffff

/-- How many containers may be nested in a text. -/
def maxNesting : Nat := 127

mutual

/-- How many containers are nested in a value. -/
def nesting : Json → Nat
  | .arr items => nestingItems items + 1
  | .obj members => nestingMembers members + 1
  | _ => 0

/-- The deepest nesting among items. -/
def nestingItems : List Json → Nat
  | [] => 0
  | item :: rest => max (nesting item) (nestingItems rest)

/-- The deepest nesting among members. -/
def nestingMembers : List (String × Json) → Nat
  | [] => 0
  | member :: rest => max (nestingMember member) (nestingMembers rest)

/-- The nesting of one member's value. -/
def nestingMember : String × Json → Nat
  | (_, value) => nesting value

end

end Json

end Masquerade
