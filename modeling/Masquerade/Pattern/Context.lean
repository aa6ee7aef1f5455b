/-
  Masquerade.Pattern.Context — THE CONTEXT of one evaluation.

  A context holds the variables and, for each part that has been evaluated,
  what it was resolved to.  Parts are known to a context by an identity, so
  that one script can be evaluated in many contexts at once.

  Main results:
    * `Context.resolution?_record` — reading a resolution after recording
      one.
-/
import Masquerade.Pattern.Part

namespace Masquerade

/-- The identity of a step of a script. -/
abbrev PartId := Nat

/-- Variables and resolutions. -/
structure Context where
  vars : Variables
  /-- Newest first; an older record of the same identity is hidden. -/
  resolved : List (PartId × Resolution)
  deriving DecidableEq, Repr

namespace Context

/-- Nothing set, nothing resolved. -/
def empty : Context := ⟨.empty, []⟩

instance : Inhabited Context := ⟨empty⟩

/-- Set or overwrite a variable. -/
def set (ctx : Context) (name : String) (v : Value) : Context :=
  { ctx with vars := ctx.vars.set name v }

/-- What an identity was last resolved to. -/
def resolution? (ctx : Context) (id : PartId) : Option Resolution :=
  (ctx.resolved.find? (fun entry => entry.1 == id)).map Prod.snd

/-- The length an identity was last resolved to. -/
def knownLength? (ctx : Context) (id : PartId) : Option Nat :=
  (ctx.resolution? id).map Resolution.length

/-- The context with these variables and, where there is one, a new
    resolution. -/
def record (ctx : Context) (id : PartId) (vars : Variables) (resolution : Option Resolution) :
    Context :=
  match resolution with
  | some r => ⟨vars, (id, r) :: ctx.resolved⟩
  | none => ⟨vars, ctx.resolved⟩

/-- **A copy of a context.**  It keeps the variables, and of the resolutions
    the lasting ones; the others count zero. -/
def copy (ctx : Context) : Context :=
  { ctx with resolved := ctx.resolved.map fun entry =>
      (entry.1, if entry.2.lasting then entry.2 else { entry.2 with length := 0 }) }

/-- **Reading a resolution** after recording one: the new one under its own
    identity, the old ones elsewhere. -/
theorem resolution?_record (ctx : Context) (id other : PartId) (vars : Variables)
    (r : Resolution) :
    (ctx.record id vars (some r)).resolution? other
      = if other = id then some r else ctx.resolution? other := by
  by_cases h : other = id
  · subst h
    simp [record, resolution?]
  · have hne : (id == other) = false := by simpa using fun e : id = other => h e.symm
    simp [record, resolution?, h, hne]

end Context

end Masquerade
