/-
  Masquerade.Pattern.Variables — THE VARIABLE STORE of one evaluation.

  Producers write named values here; consumers, dynamic parts and optional
  parts read them.  A name holds one value at a time.

  Main results:
    * `Variables.get?_set` — reading after writing.
-/
import Masquerade.Pattern.Value

namespace Masquerade

/-- Named values, in the order in which the names were first set. -/
structure Variables where
  /-- Name and value pairs; a name occurs at most once. -/
  entries : List (String × Value)
  deriving DecidableEq, Repr

namespace Variables

/-- No variable is set. -/
def empty : Variables := ⟨[]⟩

instance : Inhabited Variables := ⟨empty⟩

/-- The pairs with `name` bound to `v`: in place where the name is present,
    at the end otherwise. -/
def setEntry (name : String) (v : Value) : List (String × Value) → List (String × Value)
  | [] => [(name, v)]
  | entry :: rest =>
    if entry.1 = name then (name, v) :: rest else entry :: setEntry name v rest

/-- Set or overwrite a variable. -/
def set (vars : Variables) (name : String) (v : Value) : Variables :=
  ⟨setEntry name v vars.entries⟩

/-- The value of a name in a list of pairs. -/
def getEntry? (name : String) : List (String × Value) → Option Value
  | [] => none
  | entry :: rest => if entry.1 = name then some entry.2 else getEntry? name rest

/-- Read a variable. -/
def get? (vars : Variables) (name : String) : Option Value :=
  getEntry? name vars.entries

/-- Read a variable as an integer. -/
def getInt? (vars : Variables) (name : String) : Option Int :=
  (vars.get? name).bind Value.toInt?

/-- Whether a variable has been set. -/
def contains (vars : Variables) (name : String) : Bool :=
  (vars.get? name).isSome

/-- How many variables are set. -/
def size (vars : Variables) : Nat := vars.entries.length

/-- Whether no variable is set. -/
def isEmpty (vars : Variables) : Bool := vars.entries.isEmpty

theorem getEntry?_setEntry (name other : String) (v : Value) (entries : List (String × Value)) :
    getEntry? other (setEntry name v entries)
      = if name = other then some v else getEntry? other entries := by
  induction entries with
  | nil => simp [setEntry, getEntry?]
  | cons entry rest ih =>
    by_cases h : entry.1 = name
    · by_cases ho : name = other <;> simp_all [setEntry, getEntry?]
    · by_cases ho : entry.1 = other
      · subst ho
        have hne : ¬ name = entry.1 := fun e => h e.symm
        simp [setEntry, getEntry?, h, hne]
      · simp [setEntry, getEntry?, h, ho, ih]

/-- **Reading after writing.**  A write shows under its own name and nowhere
    else. -/
theorem get?_set (vars : Variables) (name other : String) (v : Value) :
    (vars.set name v).get? other = if name = other then some v else vars.get? other :=
  getEntry?_setEntry name other v vars.entries

end Variables

end Masquerade
