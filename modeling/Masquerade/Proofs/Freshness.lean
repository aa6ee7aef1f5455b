/-
  Masquerade.Proofs.Freshness — FRESH IDENTITIES, and what they keep apart.

  A computation that takes identities is judged by all ways in which it may
  be given them: each is at least the counter, and the counter is then beyond
  it (`Minting.Ends`).  So nothing is assumed about who else takes identities
  in between, except that the counter does not come round again.

  An operation on a part leaves a record under the part's own identity and
  others under identities that were not given out before (`Marked.Settles`).
  What is counted under any other identity is therefore what it was
  (`Ledger.count_congr`), and what is recorded for the part itself is the
  length that `Part` records.

  Main results:
    * `Marked.copy_ends` — a copy carries fresh and distinct identities.
    * `Marked.generate_ends`, `Marked.parse_ends`, `Marked.validate_ends`,
      `Marked.resolve_ends` — what an operation on a part gives and leaves.
-/
import Masquerade.Pattern.Marked
import Masquerade.Proofs.Following
import Masquerade.Proofs.Generation
import Mathlib.Data.List.Nodup

namespace Masquerade

/-! ## §1. All ways of taking identities -/

namespace Minting

variable {α β : Type}

/-- **However it is given identities** from this counter on, the computation
    ends in a result that meets the condition, together with the counter it
    leaves. -/
def Ends (Q : Nat → α → Prop) : Minting α → Nat → Prop
  | .done result, counter => Q counter result
  | .mint next, counter => ∀ id : Nat, counter ≤ id → (next id).Ends Q (id + 1)

theorem Ends.imp {Q R : Nat → α → Prop} {p : Minting α} {counter : Nat}
    (h : p.Ends Q counter) (himp : ∀ c result, Q c result → R c result) : p.Ends R counter := by
  induction p generalizing counter with
  | done result => exact himp _ _ h
  | mint next ih => exact fun id hle => ih id (h id hle)

/-- **One computation after another.** -/
theorem Ends.bind {Q : Nat → α → Prop} {R : Nat → β → Prop} {p : Minting α}
    {f : α → Minting β} {counter : Nat} (h : p.Ends Q counter)
    (hthen : ∀ c result, Q c result → (f result).Ends R c) : (p.bind f).Ends R counter := by
  induction p generalizing counter with
  | done result => exact hthen _ _ h
  | mint next ih => exact fun id hle => ih id (h id hle)

/-- The counter may have gone on before the computation begins. -/
theorem Ends.later {Q : Nat → α → Prop} {p : Minting α} {counter later : Nat}
    (h : p.Ends Q counter) (hle : counter ≤ later)
    (hmono : ∀ {c c' result}, c ≤ c' → Q c result → Q c' result) : p.Ends Q later := by
  cases p with
  | done result => exact hmono hle h
  | mint next => exact fun id hlater => h id (Nat.le_trans hle hlater)

/-- **Identities as a counter gives them out,** from this one on. -/
structure Rising (counter : Nat) (ids : Nat → PartId) : Prop where
  first : counter ≤ ids 0
  next : ∀ n, ids n < ids (n + 1)

/-- What holds for all ways of taking identities holds for each. -/
theorem Ends.result {Q : Nat → α → Prop} {p : Minting α} {counter : Nat}
    (h : p.Ends Q counter) {ids : Nat → PartId} (hids : Rising counter ids) :
    ∃ c, Q c (p.result ids) := by
  induction p generalizing counter ids with
  | done result => exact ⟨_, h⟩
  | mint next ih => exact ih (ids 0) (h _ hids.first) ⟨hids.next 0, fun n => hids.next (n + 1)⟩

end Minting

/-! ## §2. Copies -/

namespace Marked

/-- The identity of a part is one of its identities. -/
theorem mem_ids_of_id? {m : Marked} {id : PartId} (h : m.id? = some id) : id ∈ m.ids := by
  cases m with
  | dynamic other length item =>
      cases h
      exact List.mem_singleton.mpr rfl
  | optional other name condition item =>
      cases h
      exact List.mem_cons_self
  | bytes items => cases h
  | timed milliseconds items => cases h
  | empty => cases h

/-- **A copy carries fresh and distinct identities.** -/
theorem copy_ends (m : Marked) : ∀ (counter : Nat),
    m.copy.Ends (fun c copied => counter ≤ c ∧ copied.1.ids.Nodup
      ∧ ∀ id : Nat, id ∈ copied.1.ids → counter ≤ id ∧ id < c) counter := by
  induction m with
  | bytes items => exact fun counter => ⟨Nat.le_refl _, List.nodup_nil, by simp [ids]⟩
  | timed milliseconds items =>
      exact fun counter => ⟨Nat.le_refl _, List.nodup_nil, by simp [ids]⟩
  | dynamic id length item =>
      intro counter id hid
      refine ⟨by omega, List.nodup_singleton _, ?_⟩
      simp only [ids, List.mem_singleton]
      omega
  | optional id name condition item ih =>
      intro counter id hid
      refine (ih (id + 1)).bind ?_
      rintro c copied ⟨hle, hnodup, hfresh⟩
      refine ⟨by omega, List.nodup_cons.mpr ⟨?_, hnodup⟩, ?_⟩
      · intro hmem
        have := (hfresh id hmem).1
        omega
      · refine List.forall_mem_cons.mpr ⟨by omega, fun other hmem => ?_⟩
        have := hfresh other hmem
        omega
  | empty => exact fun counter => ⟨Nat.le_refl _, List.nodup_nil, by simp [ids]⟩

end Marked

/-! ## §3. Reading a ledger -/

namespace Ledger

variable {ledger ledger' : Ledger} {m : Marked} {id : PartId}

/-- **Below a counter:** what is recorded, and what is recorded under, was
    given out before. -/
structure Below (ledger : Ledger) (counter : Nat) : Prop where
  key : ∀ {id : Nat} {p}, ledger.fixed? id = some p → id < counter
  inner : ∀ {id x : Nat} {p}, ledger.fixed? id = some p → p.id? = some x → x < counter

theorem count_of_none (h : m.id? = none) : ledger.count m = m.part.count none := by
  rw [count]
  simp only [h]

theorem count_of_unrecorded (hid : m.id? = some id) (h : ledger.fixed? id = none) :
    ledger.count m = 0 := by
  rw [count]
  simp only [hid, h]

/-- **A part that was resolved** counts as what is remembered in its place. -/
theorem count_of_recorded {p : Marked} (hid : m.id? = some id) (h : ledger.fixed? id = some p)
    (hless : p.depth < m.depth) : ledger.count m = ledger.count p := by
  rw [count]
  simp only [hid, h, if_pos hless]

/-- **What counting reads.**  Counting a part looks at its own record and
    from there at the records of what is remembered; where these are left
    alone, the part counts what it did. -/
theorem count_congr (reads : PartId → Prop)
    (hclosed : ∀ {id p x}, reads id → ledger.fixed? id = some p → p.id? = some x → reads x)
    (hsame : ∀ {id}, reads id → ledger'.fixed? id = ledger.fixed? id) (m : Marked) :
    (∀ {id}, m.id? = some id → reads id) → ledger'.count m = ledger.count m := by
  induction hn : m.depth using Nat.strongRecOn generalizing m with
  | _ n ih =>
      intro hreads
      subst hn
      rw [count, count]
      cases hid : m.id? with
      | none => rfl
      | some id =>
          simp only [hsame (hreads hid)]
          cases hfixed : ledger.fixed? id with
          | none => rfl
          | some p =>
              by_cases hless : p.depth < m.depth
              · simp only [if_pos hless]
                exact ih p.depth hless p rfl fun hx => hclosed (hreads hid) hfixed hx
              · simp only [if_neg hless]

/-- **What a ledger shows of a part:** the length it was last resolved to,
    which is that of the shallower part remembered in its place. -/
def Shows (ledger : Ledger) (m : Marked) (known : Option Nat) : Prop :=
  match m.id?.bind ledger.fixed? with
  | none => known = none
  | some p => known = some (ledger.count p) ∧ p.depth < m.depth

theorem Shows.of_unrecorded (h : ∀ {id}, m.id? = some id → ledger.fixed? id = none) :
    ledger.Shows m none := by
  unfold Shows
  cases hid : m.id? with
  | none => rfl
  | some id => simp only [Option.bind_some, h hid]

theorem Shows.of_recorded {p : Marked} (hid : m.id? = some id) (h : ledger.fixed? id = some p)
    (hless : p.depth < m.depth) : ledger.Shows m (some (ledger.count p)) := by
  unfold Shows
  rw [hid, Option.bind_some, h]
  exact ⟨rfl, hless⟩

/-- The length that a part was last resolved to is what the ledger shows. -/
theorem Shows.known?_eq {known : Option Nat} (h : ledger.Shows m known) (hid : m.id? = some id) :
    ledger.known? id = known := by
  unfold Shows at h
  rw [hid, Option.bind_some] at h
  unfold known?
  cases hfixed : ledger.fixed? id with
  | none =>
      rw [hfixed] at h
      exact h.symm
  | some p =>
      rw [hfixed] at h
      exact h.1.symm

/-- **A part counts as it was last resolved.** -/
theorem Shows.count_eq {resolution : Option Resolution}
    (h : ledger.Shows m (resolution.map Resolution.length)) :
    ledger.count m = m.part.count resolution := by
  unfold Shows at h
  cases hid : m.id? with
  | none =>
      rw [count_of_none hid]
      refine Part.count_of_isFixed ?_ none resolution
      cases m with
      | dynamic | optional => cases hid
      | _ => rfl
  | some id =>
      have hcount : m.part.count resolution = resolution.elim 0 Resolution.length := by
        cases m with
        | dynamic | optional => rfl
        | _ => cases hid
      rw [hid, Option.bind_some] at h
      cases hfixed : ledger.fixed? id with
      | none =>
          rw [hfixed] at h
          rw [count_of_unrecorded hid hfixed, hcount, Option.map_eq_none_iff.mp h]
          rfl
      | some p =>
          rw [hfixed] at h
          obtain ⟨r, rfl, hlength⟩ := Option.map_eq_some_iff.mp h.1
          rw [count_of_recorded hid hfixed h.2, hcount, ← hlength]
          rfl

/-- A ledger that reads the same shows the same. -/
theorem Shows.congr {known : Option Nat} (h : ledger.Shows m known) (reads : PartId → Prop)
    (hclosed : ∀ {id p x}, reads id → ledger.fixed? id = some p → p.id? = some x → reads x)
    (hsame : ∀ {id}, reads id → ledger'.fixed? id = ledger.fixed? id)
    (hreads : ∀ {id}, m.id? = some id → reads id) : ledger'.Shows m known := by
  unfold Shows at h ⊢
  cases hid : m.id? with
  | none =>
      rw [hid] at h
      exact h
  | some id =>
      rw [hid, Option.bind_some] at h
      rw [Option.bind_some, hsame (hreads hid)]
      cases hfixed : ledger.fixed? id with
      | none =>
          rw [hfixed] at h
          exact h
      | some p =>
          rw [hfixed] at h
          refine ⟨?_, h.2⟩
          rw [h.1, count_congr reads hclosed hsame p fun hx => hclosed (hreads hid) hfixed hx]

end Ledger

/-! ## §4. What an operation on a part leaves -/

/-- What an optional part comes to where its variable has this value. -/
def Part.chosen (condition : Condition) (value : Value) (item : Part) : Part :=
  if condition.holds value then item else .empty

/-- **What an optional part comes to** is fresh. -/
theorem Ledger.choose_ends {ledger : Ledger} {name : String} {value : Value}
    (hget : ledger.vars.get? name = some value) (condition : Condition) (item : Marked)
    (counter : Nat) :
    (ledger.choose name condition item).Ends (fun c r => ∃ f, r = some f
      ∧ f.1.part = item.part.chosen condition value ∧ counter ≤ c
      ∧ ∀ {x : Nat}, f.1.id? = some x → counter ≤ x ∧ x < c) counter := by
  cases hold : condition.holds value with
  | true =>
      simp only [Ledger.choose, Part.chosen, hget, hold, if_true]
      refine (item.copy_ends counter).bind ?_
      rintro c copied ⟨hle, -, hfresh⟩
      exact ⟨_, rfl, copied.2, hle, fun hx => hfresh _ (Marked.mem_ids_of_id? hx)⟩
  | false =>
      simp only [Ledger.choose, Part.chosen, hget, hold, Bool.false_eq_true, if_false]
      exact ⟨_, rfl, rfl, Nat.le_refl _, fun hx => nomatch hx⟩

theorem Ledger.choose_of_none {ledger : Ledger} {name : String}
    (hget : ledger.vars.get? name = none) (condition : Condition) (item : Marked) :
    ledger.choose name condition item = .done none := by
  unfold Ledger.choose
  rw [hget]

namespace Marked

variable {m f : Marked} {before mid after : Ledger} {counter start c : Nat} {known : Option Nat}
  {vars : Variables} {resolution : Option Resolution}

/-- **A part that may be operated on:** its identity was given out, and no
    remembered part has it. -/
structure Ready (m : Marked) (ledger : Ledger) (known : Option Nat) (counter : Nat) : Prop where
  shows : ledger.Shows m known
  below : ledger.Below counter
  old : ∀ {id : Nat}, m.id? = some id → id < counter
  apart : ∀ {id x : PartId} {p}, ledger.fixed? id = some p → p.id? = some x → m.id? ≠ some x

/-- **What an operation leaves:** the part's own record, where it was
    resolved, and records under fresh identities. -/
structure Settles (m : Marked) (before : Ledger) (counter : Nat) (vars : Variables)
    (resolution : Option Resolution) (after : Ledger) (c : Nat) : Prop where
  le : counter ≤ c
  vars_eq : after.vars = vars
  below : after.Below c
  others : ∀ {id : Nat}, id < counter → m.id? ≠ some id → after.fixed? id = before.fixed? id
  inner : ∀ {id x : Nat} {p}, after.fixed? id = some p → p.id? = some x →
    before.fixed? id = some p ∨ counter ≤ x
  own : match resolution with
    | none => ∀ {id : PartId}, m.id? = some id → after.fixed? id = before.fixed? id
    | some r => ∃ id p, m.id? = some id ∧ after.fixed? id = some p ∧ p.depth < m.depth
        ∧ after.count p = r.length

/-- An operation that resolves nothing leaves all records alone. -/
theorem Ready.unresolved (h : m.Ready before known counter) (vars : Variables) :
    m.Settles before counter vars none (before.withVars vars) counter where
  le := Nat.le_refl _
  vars_eq := rfl
  below := ⟨h.below.key, h.below.inner⟩
  others _ _ := rfl
  inner hfixed _ := .inl hfixed
  own _ := rfl

/-- **What the ledger shows of the part afterwards:** what it was resolved to,
    if it was. -/
theorem Settles.shows_self (h : m.Settles before counter vars resolution after c)
    (hready : m.Ready before known counter) :
    after.Shows m ((resolution.map Resolution.length).or known) := by
  cases resolution with
  | none =>
      refine hready.shows.congr (· < counter) ?_ ?_ hready.old
      · exact fun _ hfixed hx => hready.below.inner hfixed hx
      · intro id hid
        by_cases hown : m.id? = some id
        · exact h.own hown
        · exact h.others hid hown
  | some r =>
      obtain ⟨id, p, hid, hfixed, hless, hcount⟩ := h.own
      have hshows := Ledger.Shows.of_recorded hid hfixed hless
      rw [hcount] at hshows
      exact hshows

/-- **What the ledger shows of other parts** is what it showed before. -/
theorem Settles.shows_other (h : m.Settles before counter vars resolution after c)
    (hready : m.Ready before known counter) {other : Marked} {shown : Option Nat}
    (hother : ∀ {id : Nat}, other.id? = some id → id < counter ∧ m.id? ≠ some id)
    (hshows : before.Shows other shown) : after.Shows other shown := by
  refine hshows.congr (fun id : Nat => id < counter ∧ m.id? ≠ some id) ?_ ?_ hother
  · exact fun _ hfixed hx => ⟨hready.below.inner hfixed hx, hready.apart hfixed hx⟩
  · exact fun hid => h.others hid.1 hid.2

/-- **A fresh part** may be operated on. -/
theorem Ready.fresh (h : m.Ready before known counter) (hle : counter ≤ start)
    (hfresh : ∀ {x : Nat}, f.id? = some x → counter ≤ x ∧ x < start) :
    f.Ready before none start where
  shows := by
    refine .of_unrecorded fun {x} hx => ?_
    cases hfixed : before.fixed? x with
    | none => rfl
    | some p => exact absurd (h.below.key hfixed) (Nat.not_lt.mpr (hfresh hx).1)
  below :=
    ⟨fun hfixed => Nat.lt_of_lt_of_le (h.below.key hfixed) hle,
      fun hfixed hx => Nat.lt_of_lt_of_le (h.below.inner hfixed hx) hle⟩
  old hx := (hfresh hx).2
  apart hfixed hx heq := absurd (h.below.inner hfixed hx) (Nat.not_lt.mpr (hfresh heq).1)

section

variable (hready : m.Ready before known counter) (hle : counter ≤ start)
  (hfresh : ∀ {x : Nat}, f.id? = some x → counter ≤ x ∧ x < start)
  (hf : f.Settles before start vars resolution mid c)
include hle hfresh hf

/-- What a fresh part leaves is nothing to the records that were there. -/
theorem Settles.fresh_others {other : Nat} (hother : other < counter) :
    mid.fixed? other = before.fixed? other := by
  refine hf.others (Nat.lt_of_lt_of_le hother hle) fun hx => ?_
  exact absurd hother (Nat.not_lt.mpr (hfresh hx).1)

include hready

/-- **A part that was not resolved in the end,** after a fresh part was
    evaluated for it. -/
theorem Settles.dropped : m.Settles before counter vars none mid c where
  le := Nat.le_trans hle hf.le
  vars_eq := hf.vars_eq
  below := hf.below
  others hother _ := hf.fresh_others hle hfresh hother
  inner hfixed hx := (hf.inner hfixed hx).imp_right (Nat.le_trans hle)
  own hown := hf.fresh_others hle hfresh (hready.old hown)

/-- **A part that was resolved to a fresh part** counts as that part, as it
    was evaluated. -/
theorem Settles.resolved {id : PartId} (hid : m.id? = some id) (hless : f.depth < m.depth)
    {r : Resolution} (hr : r.length = f.part.count resolution) :
    m.Settles before counter vars (some r) (mid.fix id f) c := by
  have hold : id < counter := hready.old hid
  have hapart : ∀ {other x : Nat} {p}, mid.fixed? other = some p → p.id? = some x → x ≠ id := by
    rintro other x p hfixed hx rfl
    obtain hbefore | hnew := hf.inner hfixed hx
    · exact hready.apart hbefore hx hid
    · exact absurd (Nat.lt_of_lt_of_le hold hle) (Nat.not_lt.mpr hnew)
  have hother : ∀ {other : Nat}, other ≠ id → (mid.fix id f).fixed? other = mid.fixed? other := by
    intro other hne
    rw [Ledger.fixed?_fix, if_neg hne]
  refine {
    le := Nat.le_trans hle hf.le
    vars_eq := hf.vars_eq
    below := ⟨?key, ?remembered⟩
    others := ?others
    inner := ?inner
    own := ⟨id, f, hid, by rw [Ledger.fixed?_fix, if_pos rfl], hless, ?counted⟩ }
  case key =>
    intro other p hfixed
    by_cases heq : other = id
    · exact heq ▸ Nat.lt_of_lt_of_le hold (Nat.le_trans hle hf.le)
    · exact hf.below.key (hother heq ▸ hfixed)
  case remembered =>
    intro other x p hfixed hx
    rw [Ledger.fixed?_fix] at hfixed
    split at hfixed
    · cases hfixed
      exact Nat.lt_of_lt_of_le (hfresh hx).2 hf.le
    · exact hf.below.inner hfixed hx
  case others =>
    intro other hlt hne
    rw [hother fun heq => hne (hid.trans (congrArg some heq.symm))]
    exact hf.fresh_others hle hfresh hlt
  case inner =>
    intro other x p hfixed hx
    rw [Ledger.fixed?_fix] at hfixed
    split at hfixed
    · cases hfixed
      exact .inr (hfresh hx).1
    · exact (hf.inner hfixed hx).imp_right (Nat.le_trans hle)
  case counted =>
    -- the record of the part itself is not among those that counting the
    -- fresh part reads
    have hshows := hf.shows_self (hready.fresh hle hfresh)
    rw [Option.or_none] at hshows
    rw [hr, ← hshows.count_eq]
    refine Ledger.count_congr (· ≠ id) (fun _ hfixed hx => hapart hfixed hx)
      (fun hne => hother hne) f ?_
    rintro x hx rfl
    exact absurd hold (Nat.not_lt.mpr (hfresh hx).1)

end

/-- **An optional part whose variable is set** goes on with what it comes to, a
    fresh part.  What that part leaves decides what the optional part leaves,
    whether it is resolved in the end or dropped. -/
theorem Ready.choose_bind {id : PartId} {name : String} {condition : Condition} {item : Marked}
    (hready : (optional id name condition item).Ready before known counter) {value : Value}
    (hget : before.vars.get? name = some value) {β : Type} {Q : Nat → β → Prop}
    {next : Option {m : Marked // m.depth ≤ item.depth} → Minting β}
    (hthen : ∀ (start : Nat) (fixed : {m : Marked // m.depth ≤ item.depth}),
      fixed.1.part = item.part.chosen condition value → fixed.1.Ready before none start →
      (∀ {vars resolution mid c}, fixed.1.Settles before start vars resolution mid c →
        (optional id name condition item).Settles before counter vars
            (some (Part.present fixed.1.part resolution)) (mid.fix id fixed.1) c
          ∧ (optional id name condition item).Settles before counter vars none mid c) →
      (next (some fixed)).Ends Q start) :
    ((before.choose name condition item).bind next).Ends Q counter := by
  refine (Ledger.choose_ends hget condition item counter).bind ?_
  rintro start _ ⟨fixed, rfl, hpart, hle, hfresh⟩
  refine hthen start fixed hpart (hready.fresh hle hfresh) fun hsettles => ⟨?_, ?_⟩
  · exact hsettles.resolved hready hle hfresh rfl (Nat.lt_succ_of_le fixed.2) rfl
  · exact hsettles.dropped hready hle hfresh

/-- A dynamic part that was resolved to a run of this length. -/
theorem Ready.resolved_run {id : PartId} {source : LengthSource} {item : Element}
    (hready : (dynamic id source item).Ready before known counter) (vars : Variables) (n : Nat) :
    (dynamic id source item).Settles before counter vars (some (Part.ofLength n))
      ((before.withVars vars).fix id (.bytes (List.replicate n item))) counter := by
  have hfresh : ∀ {x : Nat}, (bytes (List.replicate n item)).id? = some x →
      counter ≤ x ∧ x < counter := fun hx => nomatch hx
  refine .resolved hready (Nat.le_refl _) hfresh
    ((hready.fresh (Nat.le_refl _) hfresh).unresolved vars) rfl Nat.one_pos ?_
  exact List.length_replicate.symm

end Marked

/-! ## §5. Operations on a part -/

namespace Part

variable {name : String} {condition : Condition} {value : Value} {vars : Variables}

/-! An optional part whose variable is set is treated as what it comes to. -/

theorem generate_chosen {s : Supply} (hget : s.vars.get? name = some value) (mode : Mode)
    (item : Part) :
    generate mode (.optional name condition item) s
      = match (generate mode (item.chosen condition value) s).outcome with
        | .ok message => ⟨.ok message, (generate mode (item.chosen condition value) s).supply,
            some (present (item.chosen condition value)
              (generate mode (item.chosen condition value) s).resolution)⟩
        | .error e => ⟨.error e, (generate mode (item.chosen condition value) s).supply, none⟩ := by
  unfold chosen
  cases hold : condition.holds value with
  | true => exact generate_present hget hold mode item
  | false => exact generate_absent hget hold mode item

theorem parse_chosen (hget : vars.get? name = some value) {buffer : Bytes}
    (hsome : buffer.isEmpty = false) (item : Part) (known : Option Nat) (args : Arguments) :
    parse (.optional name condition item) known buffer args vars
      = (((item.chosen condition value).parse none buffer args vars).1,
          some (present (item.chosen condition value)
            ((item.chosen condition value).parse none buffer args vars).2)) := by
  have hne : buffer ≠ [] := List.isEmpty_eq_false_iff.mp hsome
  unfold chosen
  cases hold : condition.holds value with
  | true => exact parse_present hget hold hne item known args
  | false => exact parse_absent hget hold hne item known args

theorem validate_chosen (hget : vars.get? name = some value) (item : Part) (known : Option Nat)
    (buffer : Bytes) :
    validate (.optional name condition item) known buffer vars
      = (((item.chosen condition value).validate none buffer vars).1,
          some (present (item.chosen condition value)
            ((item.chosen condition value).validate none buffer vars).2)) := by
  unfold chosen
  cases hold : condition.holds value with
  | true => exact validate_present hget hold item known buffer
  | false => exact validate_absent hget hold item known buffer

theorem resolve_chosen (hget : vars.get? name = some value) (item : Part) (known : Option Nat) :
    resolve (.optional name condition item) known vars
      = some (present (item.chosen condition value)
          ((item.chosen condition value).resolve none vars)) := by
  unfold chosen
  cases hold : condition.holds value with
  | true => simp [resolve, hget, hold]
  | false => simp [resolve, hget, hold, present, absent, count, isFixed]

end Part

namespace Marked

/-- **Generating a part** gives what `Part.generate` gives, and leaves what it
    resolves. -/
theorem generate_ends (mode : Mode) (m : Marked) :
    ∀ {tray : Tray} {known : Option Nat} {counter : Nat}, m.Ready tray.ledger known counter →
      (m.generate mode tray).Ends (fun c r =>
        ∃ ledger, r = ((m.part.generate mode tray.supply).outcome,
            ⟨(m.part.generate mode tray.supply).supply.args,
              (m.part.generate mode tray.supply).supply.draws, ledger⟩)
          ∧ m.Settles tray.ledger counter (m.part.generate mode tray.supply).supply.vars
              (m.part.generate mode tray.supply).resolution ledger c) counter := by
  induction hn : m.depth using Nat.strongRecOn generalizing m with
  | _ n ih =>
      intro tray known counter hready
      subst hn
      -- a run of elements resolves nothing by itself
      have hrun : ∀ (delay : Option UInt64) (items : List Element) (s : Supply),
          (Part.generateMessage mode delay items s none).resolution = none := by
        intro delay items s
        unfold Part.generateMessage
        split <;> rfl
      rw [generate.eq_def]
      cases m with
      | bytes items =>
          refine ⟨_, rfl, ?_⟩
          simp only [part, Part.generate, hrun]
          exact hready.unresolved _
      | timed milliseconds items =>
          refine ⟨_, rfl, ?_⟩
          simp only [part, Part.generate, hrun]
          exact hready.unresolved _
      | dynamic id source item =>
          simp only [part, Part.generate]
          rcases htake : Part.takeLength source tray.supply with ⟨e | n, s⟩
          · cases mode with
            | strict => exact ⟨_, rfl, hready.unresolved _⟩
            | lenient => exact ⟨_, rfl, hready.unresolved _⟩
          · simp only [Part.generateMessage]
            rcases hgen : generateRun mode (List.replicate n item) s with ⟨e | produced, s'⟩
            · exact ⟨_, rfl, hready.unresolved _⟩
            · exact ⟨_, rfl, hready.resolved_run _ _⟩
      | optional id name condition item =>
          cases hget : tray.ledger.vars.get? name with
          | none =>
              simp only [part, Ledger.choose_of_none hget, Minting.bind]
              rw [Part.generate_unset hget]
              cases mode with
              | strict => exact ⟨_, rfl, hready.unresolved _⟩
              | lenient => exact ⟨_, rfl, hready.unresolved _⟩
          | some value =>
              refine hready.choose_bind hget fun start fixed hpart hfresh hleaves => ?_
              refine (ih _ (Nat.lt_succ_of_le fixed.2) fixed.1 rfl hfresh).bind ?_
              rintro c _ ⟨ledger, rfl, hsettles⟩
              simp only [part]
              rw [Part.generate_chosen hget, ← hpart]
              cases hout : (fixed.1.part.generate mode tray.supply).outcome with
              | ok message => exact ⟨_, rfl, (hleaves hsettles).1⟩
              | error e => exact ⟨_, rfl, (hleaves hsettles).2⟩
      | empty => exact ⟨_, rfl, hready.unresolved _⟩

/-- **Parsing a part** gives what `Part.parse` gives, and leaves what it
    resolves. -/
theorem parse_ends (buffer : Bytes) (args : Arguments) (m : Marked) :
    ∀ {before : Ledger} {known : Option Nat} {counter : Nat}, m.Ready before known counter →
      (m.parse buffer args before).Ends (fun c r =>
        ∃ ledger, r = ((m.part.parse known buffer args before.vars).1.rest,
            (m.part.parse known buffer args before.vars).1.args, ledger)
          ∧ m.Settles before counter (m.part.parse known buffer args before.vars).1.vars
              (m.part.parse known buffer args before.vars).2 ledger c) counter := by
  induction hn : m.depth using Nat.strongRecOn generalizing m with
  | _ n ih =>
      intro before known counter hready
      subst hn
      rw [parse.eq_def]
      cases m with
      | bytes items => exact ⟨_, rfl, hready.unresolved _⟩
      | timed milliseconds items => exact ⟨_, rfl, hready.unresolved _⟩
      | dynamic id source item =>
          simp only [part, Part.parse, hready.shows.known?_eq rfl]
          cases hbuffer : buffer.isEmpty with
          | true => exact ⟨_, rfl, hready.unresolved _⟩
          | false =>
              cases hlength : Part.usableLength? source known before.vars with
              | none => exact ⟨_, rfl, hready.unresolved _⟩
              | some n => exact ⟨_, rfl, hready.resolved_run _ _⟩
      | optional id name condition item =>
          cases hbuffer : buffer.isEmpty with
          | true =>
              simp only [part, Part.parse, hbuffer]
              exact ⟨_, rfl, hready.unresolved _⟩
          | false =>
              cases hget : before.vars.get? name with
              | none =>
                  simp only [part, Part.parse, hbuffer, hget, Ledger.choose_of_none hget]
                  exact ⟨_, rfl, hready.unresolved _⟩
              | some value =>
                  refine hready.choose_bind hget fun start fixed hpart hfresh hleaves => ?_
                  refine (ih _ (Nat.lt_succ_of_le fixed.2) fixed.1 rfl hfresh).bind ?_
                  rintro c _ ⟨ledger, rfl, hsettles⟩
                  simp only [part]
                  rw [Part.parse_chosen hget hbuffer, ← hpart]
                  exact ⟨_, rfl, (hleaves hsettles).1⟩
      | empty => exact ⟨_, rfl, hready.unresolved _⟩

/-- **Checking a part** gives what `Part.validate` gives, and leaves what it
    resolves. -/
theorem validate_ends (buffer : Bytes) (m : Marked) :
    ∀ {before : Ledger} {known : Option Nat} {counter : Nat}, m.Ready before known counter →
      (m.validate buffer before).Ends (fun c r =>
        ∃ ledger, r = ((m.part.validate known buffer before.vars).1.verdict,
            (m.part.validate known buffer before.vars).1.rest, ledger)
          ∧ m.Settles before counter (m.part.validate known buffer before.vars).1.vars
              (m.part.validate known buffer before.vars).2 ledger c) counter := by
  induction hn : m.depth using Nat.strongRecOn generalizing m with
  | _ n ih =>
      intro before known counter hready
      subst hn
      rw [validate.eq_def]
      cases m with
      | bytes items => exact ⟨_, rfl, hready.unresolved _⟩
      | timed milliseconds items => exact ⟨_, rfl, hready.unresolved _⟩
      | dynamic id source item =>
          simp only [part, Part.validate, hready.shows.known?_eq rfl]
          cases hlength : Part.usableLength? source known before.vars with
          | none => exact ⟨_, rfl, hready.unresolved _⟩
          | some n => exact ⟨_, rfl, hready.resolved_run _ _⟩
      | optional id name condition item =>
          cases hget : before.vars.get? name with
          | none =>
              simp only [part, Part.validate, hget, Ledger.choose_of_none hget]
              exact ⟨_, rfl, hready.unresolved _⟩
          | some value =>
              refine hready.choose_bind hget fun start fixed hpart hfresh hleaves => ?_
              refine (ih _ (Nat.lt_succ_of_le fixed.2) fixed.1 rfl hfresh).bind ?_
              rintro c _ ⟨ledger, rfl, hsettles⟩
              simp only [part]
              rw [Part.validate_chosen hget, ← hpart]
              exact ⟨_, rfl, (hleaves hsettles).1⟩
      | empty => exact ⟨_, rfl, hready.unresolved _⟩

/-- **Resolving a part** leaves what `Part.resolve` gives. -/
theorem resolve_ends (m : Marked) :
    ∀ {before : Ledger} {known : Option Nat} {counter : Nat}, m.Ready before known counter →
      (m.resolve before).Ends (fun c ledger =>
        m.Settles before counter before.vars (m.part.resolve known before.vars) ledger c)
        counter := by
  induction hn : m.depth using Nat.strongRecOn generalizing m with
  | _ n ih =>
      intro before known counter hready
      subst hn
      rw [resolve.eq_def]
      cases m with
      | bytes items => exact hready.unresolved _
      | timed milliseconds items => exact hready.unresolved _
      | dynamic id source item =>
          simp only [part, Part.resolve, hready.shows.known?_eq rfl]
          cases hlength : Part.usableLength? source known before.vars with
          | none => exact hready.unresolved _
          | some n => exact hready.resolved_run _ _
      | optional id name condition item =>
          cases hget : before.vars.get? name with
          | none =>
              simp only [part, Part.resolve, hget, Ledger.choose_of_none hget]
              exact hready.unresolved _
          | some value =>
              refine hready.choose_bind hget fun start fixed hpart hfresh hleaves => ?_
              refine (ih _ (Nat.lt_succ_of_le fixed.2) fixed.1 rfl hfresh).bind ?_
              intro c ledger hsettles
              simp only [part]
              rw [Part.resolve_chosen hget, ← hpart]
              exact (hleaves hsettles).1
      | empty => exact hready.unresolved _

end Marked

end Masquerade
