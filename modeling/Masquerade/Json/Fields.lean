/-
  Masquerade.Json.Fields — READING AN OBJECT WITH KNOWN FIELDS.

  The outermost layers of a stored configuration are objects of a few known
  fields.  They are read straight from the text: a known field may occur
  only once, any other member is skipped, and the fields may also stand in
  an array in their order.
-/
import Masquerade.Json.Reader

namespace Masquerade

namespace Json

/-- A function that takes a value off the front of its input. -/
abbrev Taker (α : Type) := Bytes → Option (α × Bytes)

/-- Take any value with at most `depth` containers nested in it. -/
def takeValue (depth : Nat) : Taker Json :=
  fun input => readValue (fuelFor input) depth input

/-- Take a string. -/
def takeText : Taker String := fun input => do
  let (value, rest) ← takeValue 0 input
  match value with
  | .str text => some (text, rest)
  | _ => none

/-- Members up to the closing brace: the values of known fields in the order
    found, each known field at most once. -/
def fieldMembers {α : Type} (fields : List String) (take : Taker α) (found : List (String × α)) :
    (fuel : Nat) → Bytes → Option (List (String × α) × Bytes)
  | 0, _ => none
  | fuel + 1, input => do
    let (name, rest) ← readName input
    let (found, rest) ←
      if name ∈ fields then
        if found.any (fun entry => entry.1 == name) then none
        else (take rest).map fun (value, rest) => ((name, value) :: found, rest)
      else (skipValue (fuelFor rest) rest).map fun rest => (found, rest)
    match dropBlanks rest with
    | 0x2c :: rest => fieldMembers fields take found fuel rest
    | 0x7d :: rest => some (found, rest)
    | _ => none

/-- The found values in the order of the fields, if none is missing. -/
def inOrder {α : Type} (found : List (String × α)) : (fields : List String) → Option (List α)
  | [] => some []
  | name :: rest => do
    let entry ← found.find? (fun entry => entry.1 == name)
    let values ← inOrder found rest
    some (entry.2 :: values)

/-- As many items as there are fields, up to the closing bracket. -/
def fieldItems {α : Type} (take : Taker α) : (fields : List String) → Taker (List α)
  | [], _ => none
  | [_], input => do
    let (value, rest) ← take input
    let rest ← after? [0x5d] (dropBlanks rest)
    some ([value], rest)
  | _ :: fields, input => do
    let (value, rest) ← take input
    let rest ← after? [0x2c] (dropBlanks rest)
    let (values, rest) ← fieldItems take fields rest
    some (value :: values, rest)

/-- **Take an object of known fields**: their values, in the order of the
    fields. -/
def takeFields {α : Type} (fields : List String) (take : Taker α) : Taker (List α) := fun input =>
  match dropBlanks input with
  | 0x7b :: rest =>
    match dropBlanks rest with
    | 0x7d :: rest => (inOrder ([] : List (String × α)) fields).map fun values => (values, rest)
    | rest => do
      let (found, rest) ← fieldMembers fields take [] (fuelFor rest) rest
      let values ← inOrder found fields
      some (values, rest)
  | 0x5b :: rest => fieldItems take fields rest
  | _ => none

/-- The result of a taker that uses up its input, blanks apart. -/
def takeAll? {α : Type} (take : Taker α) (input : Bytes) : Option α := do
  let (value, rest) ← take input
  if dropBlanks rest = [] then some value else none

end Json

end Masquerade
