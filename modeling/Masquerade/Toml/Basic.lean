/-
  Masquerade.Toml.Basic — TOML DOCUMENTS as trees of tables.

  A table is filled in three ways: by a header, by a dotted key, and by the
  lines below a header.  What was filled in one way may not be filled in
  another, and no key is given twice.  A document keeps just enough to
  enforce this: whether a table has had its header yet, and whether dotted
  keys made it.
-/

namespace Masquerade

/-- A value or a table of a document. -/
inductive Toml where
  | text (s : String)
  | integer (n : Int)
  | flag (b : Bool)
  /-- A floating-point number, as written. -/
  | float (literal : String)
  /-- A date, a time, or both, as written. -/
  | moment (literal : String)
  | array (items : List Toml)
  /-- A table written as one value, closed for additions. -/
  | inline (entries : List (String × Toml))
  /-- A table; `implied` until a header names it, `dotted` if dotted keys
      made it. -/
  | table (implied dotted : Bool) (entries : List (String × Toml))
  /-- An array of tables, the newest one apart. -/
  | tables (newest : List (String × Toml)) (older : List (List (String × Toml)))
  deriving Inhabited

namespace Toml

/-- The entries of a table, in the order of their keys' first appearance. -/
abbrev Entries := List (String × Toml)

/-- The value of a key. -/
def get? (key : String) : Entries → Option Toml
  | [] => none
  | entry :: rest => if entry.1 = key then some entry.2 else get? key rest

/-- Put a value under a key. -/
def put (key : String) (value : Toml) : Entries → Entries
  | [] => [(key, value)]
  | entry :: rest =>
    if entry.1 = key then (key, value) :: rest else entry :: put key value rest

/-! ## §1. Reaching a table -/

/-- Change the table at the end of a path.  Missing tables are made on the
    way, and of an array of tables the newest is entered.  A path of dotted
    keys may not enter a table that has had its header.  The change is told
    whether dotted keys made the table it gets. -/
def within (viaKeys : Bool) (change : (dotted : Bool) → Entries → Option Entries) :
    (path : List String) → (dotted : Bool) → Entries → Option Entries
  | [], dotted, entries => change dotted entries
  | key :: path, _, entries =>
    match get? key entries with
    | none => do
      let inner ← within viaKeys change path viaKeys []
      some (put key (.table true viaKeys inner) entries)
    | some (.table implied dotted inner) =>
      if viaKeys ∧ ¬ implied then none
      else do
        let inner ← within viaKeys change path dotted inner
        some (put key (.table implied dotted inner) entries)
    | some (.tables newest older) => do
      let newest ← within viaKeys change path false newest
      some (put key (.tables newest older) entries)
    | some _ => none

/-- Add a new entry: plain keys go into tables that dotted keys did not
    make, dotted keys into tables that they did. -/
def addHere (viaKeys : Bool) (key : String) (value : Toml) (dotted : Bool) (entries : Entries) :
    Option Entries :=
  if dotted = viaKeys ∧ (get? key entries).isNone then some (put key value entries) else none

/-- **Add the entry of a possibly dotted key** to a table. -/
def addEntry (path : List String) (key : String) (value : Toml) (entries : Entries) :
    Option Entries :=
  within true (addHere (!path.isEmpty) key value) path false entries

/-! ## §2. Headers -/

/-- Open the table of a header; only a table implied by others may exist. -/
def openHere (key : String) (_ : Bool) (entries : Entries) : Option Entries :=
  match get? key entries with
  | none => some (put key (.table false false []) entries)
  | some (.table true false inner) => some (put key (.table false false inner) entries)
  | some _ => none

/-- Start a new table in the array of a double header. -/
def startHere (key : String) (_ : Bool) (entries : Entries) : Option Entries :=
  match get? key entries with
  | none => some (put key (.tables [] []) entries)
  | some (.tables newest older) => some (put key (.tables [] (newest :: older)) entries)
  | some _ => none

/-- **A document under construction:** all entries, and the path of the table
    that further lines go to. -/
structure Document where
  entries : Entries
  current : List String

namespace Document

/-- Nothing read yet. -/
def empty : Document := ⟨[], []⟩

/-- A line with a key and a value. -/
def line (doc : Document) (path : List String) (key : String) (value : Toml) : Option Document := do
  let entries ← within false (fun _ => addEntry path key value) doc.current false doc.entries
  some { doc with entries }

/-- A header. -/
def header (doc : Document) (path : List String) (key : String) : Option Document := do
  let entries ← within false (openHere key) path false doc.entries
  some ⟨entries, path ++ [key]⟩

/-- A double header. -/
def doubleHeader (doc : Document) (path : List String) (key : String) : Option Document := do
  let entries ← within false (startHere key) path false doc.entries
  some ⟨entries, path ++ [key]⟩

end Document

end Toml

end Masquerade
