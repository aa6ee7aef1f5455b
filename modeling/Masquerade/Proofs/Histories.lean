/-
  Masquerade.Proofs.Histories — THE HISTORIES OF A CONTEXT.

  A context is handed from operation to operation.  Descriptions are
  evaluated in it, or single parts, or parts inside others, in any order and
  with variables set in between; meanwhile parts are made, copied, put into
  others and dropped, the context itself may be replaced by a copy, and
  others take identities from the same counter.  `World.Step` is one of these
  events, and a world is reachable if it is what some history of them leaves.

  Of all that only little matters (`World.Sound`): the parts there are carry
  distinct identities; what the context remembers is shallower than the part
  it stands for; and nobody has the parts that it remembers in hand.  So an
  operation on some parts leaves the records of all others as they were.

  Main results:
    * `World.Sound.of_reachable` — what every history keeps.
    * `World.Sound.ready` — every part there is may be operated on.
    * `World.Sound.operation` — what an operation on some parts leaves.
-/
import Masquerade.Proofs.Identity

namespace Masquerade

/-! ## §1. Ways for a computation to go -/

namespace Minting

variable {α : Type} {p : Minting α} {counter later : Nat} {result : α}

/-- **One way for a computation to go:** given identities from this counter
    on, it ends with this result, and leaves this counter. -/
inductive Gives : Minting α → Nat → α → Nat → Prop where
  | done {result : α} {counter : Nat} : Gives (.done result) counter result counter
  | mint {next : PartId → Minting α} {result : α} {counter id later : Nat} (hle : counter ≤ id)
      (h : Gives (next id) (id + 1) result later) : Gives (.mint next) counter result later

/-- What holds of all ways to go holds of each. -/
theorem Ends.of_gives {Q : Nat → α → Prop} (h : p.Ends Q counter)
    (hgives : p.Gives counter result later) : Q later result := by
  induction hgives with
  | done => exact h
  | mint hle _ ih => exact ih (h _ hle)

theorem Ends.and {Q R : Nat → α → Prop} (h : p.Ends Q counter) (h' : p.Ends R counter) :
    p.Ends (fun c result => Q c result ∧ R c result) counter := by
  induction p generalizing counter with
  | done result => exact ⟨h, h'⟩
  | mint next ih => exact fun id hle => ih id (h id hle) (h' id hle)

end Minting

/-! ## §2. Copies of a context -/

/-- **A copy of a context:** the same variables, and under each identity a copy
    of what is remembered, which has taken identities of its own. -/
structure Ledger.CopyOf (copied ledger : Ledger) (counter later : Nat) : Prop where
  vars_eq : copied.vars = ledger.vars
  records : List.Forall₂ (fun entry original : PartId × Marked =>
    entry.1 = original.1 ∧ entry.2.part = original.2.part
      ∧ ∀ id : Nat, id ∈ entry.2.ids → counter ≤ id ∧ id < later)
    copied.records ledger.records

/-- What a copy remembers is a copy of what was remembered. -/
theorem Ledger.CopyOf.exists_of_fixed? {copied ledger : Ledger} {counter later : Nat}
    (h : copied.CopyOf ledger counter later) {id : PartId} {p : Marked}
    (hfixed : copied.fixed? id = some p) :
    ∃ original, ledger.fixed? id = some original ∧ p.part = original.part
      ∧ ∀ {x : Nat}, p.id? = some x → counter ≤ x ∧ x < later := by
  obtain ⟨-, hrecords⟩ := h
  unfold fixed? at hfixed ⊢
  generalize copied.records = entries at hfixed hrecords
  generalize ledger.records = originals at hrecords ⊢
  induction hrecords with
  | nil => cases hfixed
  | @cons entry original entries originals hentry _ ih =>
      obtain ⟨hkey, hpart, hfresh⟩ := hentry
      rw [List.find?_cons] at hfixed ⊢
      rw [← hkey]
      cases hid : entry.1 == id with
      | true =>
          rw [hid] at hfixed
          cases hfixed
          exact ⟨original.2, rfl, hpart, fun hx => hfresh _ (Marked.mem_ids_of_id? hx)⟩
      | false =>
          rw [hid] at hfixed
          exact ih hfixed

/-- A length that is known is that of a run as long. -/
theorem Part.map_length_ofLength (known : Option Nat) :
    (known.map ofLength).map Resolution.length = known := by
  cases known <;> rfl

/-! ## §3. Worlds -/

/-- **The parts that there are,** the context that they are evaluated in, and
    the counter that all identities come from. -/
structure World where
  parts : List Marked
  ledger : Ledger
  counter : Nat

namespace World

/-- A part that there is, by itself or inside another. -/
def Holds (w : World) (m : Marked) : Prop := ∃ place, Marked.At w.parts place m

/-- The parts of a world are among those that there are. -/
theorem holds_of_mem {w : World} {m : Marked} (h : m ∈ w.parts) : w.Holds m := by
  obtain ⟨index, hindex⟩ := List.getElem?_of_mem h
  exact ⟨_, index, 0, m, hindex, rfl, rfl⟩

/-- No parts yet, and a context in which nothing is set and nothing is
    remembered. -/
def start (counter : Nat) : World := ⟨[], ⟨.empty, []⟩, counter⟩

/-- **What may happen next.** -/
inductive Step (w : World) : World → Prop where
  /-- Parts are made, decoded or copied, put into others or taken out, or
      dropped.  All identities are distinct, and a part that carries one
      that was given out before is the part that carried it. -/
  | arrange {parts : List Marked} {later : Nat} (hle : w.counter ≤ later)
      (hminted : Marked.Minted parts later)
      (hold : ∀ {place : Nat} {m : Marked} {id : Nat}, Marked.At parts place m →
        m.id? = some id → w.counter ≤ id ∨ w.Holds m) : Step w ⟨parts, w.ledger, later⟩
  /-- Some of the parts are operated on. -/
  | operate {marks : List Marked} {operation : Operation} {answer : Answer} {after : Ledger}
      {later : Nat} (hmarks : ∀ m ∈ marks, w.Holds m)
      (hgives : (operation.on marks w.ledger).Gives w.counter (answer, after) later) :
      Step w ⟨w.parts, after, later⟩
  /-- The context is replaced by a copy. -/
  | copy {ledger : Ledger} {later : Nat} (hle : w.counter ≤ later)
      (hcopied : ledger.CopyOf w.ledger w.counter later) : Step w ⟨w.parts, ledger, later⟩

/-- **What some history leaves.** -/
def Reachable (w : World) : Prop := ∃ counter, Relation.ReflTransGen Step (start counter) w

/-- **What every history keeps.** -/
structure Sound (w : World) : Prop where
  minted : Marked.Minted w.parts w.counter
  below : w.ledger.Below w.counter
  /-- Nobody has the parts in hand that the context remembers. -/
  apart : ∀ {id x : PartId} {p m}, w.ledger.fixed? id = some p → p.id? = some x → w.Holds m →
    m.id? ≠ some x
  /-- What is remembered is shallower than the part it stands for. -/
  shallow : ∀ {id : PartId} {p m}, w.ledger.fixed? id = some p → w.Holds m → m.id? = some id →
    p.depth < m.depth

variable {w : World} {m other : Marked} {marks : List Marked} {after : Ledger} {c : Nat}
  {vars : Variables} {resolution : Option Resolution}

/-- What the context shows of a part. -/
def known? (w : World) (m : Marked) : Option Nat := m.id?.bind w.ledger.known?

namespace Sound

theorem old (h : w.Sound) (hm : w.Holds m) {id : Nat} (hid : m.id? = some id) : id < w.counter := by
  obtain ⟨place, hat⟩ := hm
  exact hat.old h.minted hid

theorem unique (h : w.Sound) (hm : w.Holds m) (hother : w.Holds other) {id : PartId}
    (hid : m.id? = some id) (hid' : other.id? = some id) : m = other := by
  obtain ⟨place, hat⟩ := hm
  obtain ⟨place', hat'⟩ := hother
  obtain rfl := hat.place_eq h.minted hat' hid hid'
  exact hat.unique hat'

/-- **Every part there is may be operated on.** -/
theorem ready (h : w.Sound) (hm : w.Holds m) : m.Ready w.ledger (w.known? m) w.counter where
  shows := by
    unfold Ledger.Shows known? Ledger.known?
    cases hid : m.id? with
    | none => rfl
    | some id =>
        simp only [Option.bind_some]
        cases hfixed : w.ledger.fixed? id with
        | none => rfl
        | some p => exact ⟨rfl, h.shallow hfixed hm hid⟩
  below := h.below
  old hid := h.old hm hid
  apart hfixed hx := h.apart hfixed hx hm

theorem shows (h : w.Sound) (hm : w.Holds m) : w.ledger.Shows m (w.known? m) := (h.ready hm).shows

/-- What an operation on one part leaves is sound again. -/
theorem settles (h : w.Sound) (hm : w.Holds m)
    (hsettles : m.Settles w.ledger w.counter vars resolution after c) :
    Sound ⟨w.parts, after, c⟩ where
  minted := ⟨h.minted.distinct, fun id hid => Nat.lt_of_lt_of_le (h.minted.old id hid) hsettles.le⟩
  below := hsettles.below
  apart := by
    intro id x p other hfixed hx hother hid
    obtain hbefore | hnew := hsettles.inner hfixed hx
    · exact h.apart hbefore hx hother hid
    · exact absurd (h.old hother hid) (Nat.not_lt.mpr hnew)
  shallow := by
    intro id p other hfixed hother hid
    by_cases hown : m.id? = some id
    · -- the part itself: its own record is new, or nothing was recorded
      obtain rfl := h.unique hm hother hown hid
      cases resolution with
      | none => exact h.shallow ((hsettles.own hid).symm.trans hfixed) hm hid
      | some r =>
          obtain ⟨id', p', hid', hfixed', hless, -⟩ := hsettles.own
          cases hid.symm.trans hid'
          cases hfixed.symm.trans hfixed'
          exact hless
    · exact h.shallow ((hsettles.others (h.old hother hid) hown).symm.trans hfixed) hother hid

/-- **The count of a part** that was operated on is that of its resolution, or
    what it was where it was not resolved. -/
theorem count_self (h : w.Sound) (hm : w.Holds m)
    (hsettles : m.Settles w.ledger w.counter vars resolution after c) :
    after.count m = m.part.count (resolution.or ((w.known? m).map Part.ofLength)) := by
  refine Ledger.Shows.count_eq ?_
  have hshows := hsettles.shows_self (h.ready hm)
  cases resolution with
  | none =>
      rw [Option.none_or, Part.map_length_ofLength]
      exact hshows
  | some r => exact hshows

/-- **The count of any other part** is what it was. -/
theorem count_other (h : w.Sound) (hm : w.Holds m) (hother : w.Holds other)
    (hne : ∀ id, other.id? = some id → m.id? ≠ some id)
    (hsettles : m.Settles w.ledger w.counter vars resolution after c) :
    after.count other = w.ledger.count other := by
  have hbefore := h.shows hother
  have hshows := hsettles.shows_other (h.ready hm)
    (fun hid => ⟨h.old hother hid, hne _ hid⟩) hbefore
  rw [← Part.map_length_ofLength (w.known? other)] at hbefore hshows
  rw [hshows.count_eq, hbefore.count_eq]

end Sound

/-! ## §4. What operations leave -/

/-- **What an operation on some parts leaves:** a sound world, in which all
    other parts count as they did. -/
structure Leaves (w : World) (marks : List Marked) (after : Ledger) (later : Nat) : Prop where
  sound : Sound ⟨w.parts, after, later⟩
  others : ∀ {other}, w.Holds other →
    (∀ m ∈ marks, ∀ id, other.id? = some id → m.id? ≠ some id) →
    after.count other = w.ledger.count other

namespace Sound

theorem leaves_nil (h : w.Sound) : w.Leaves [] w.ledger w.counter := ⟨h, fun _ _ => rfl⟩

theorem leaves_one (h : w.Sound) (hm : w.Holds m)
    (hsettles : m.Settles w.ledger w.counter vars resolution after c) : w.Leaves [m] after c :=
  ⟨h.settles hm hsettles,
    fun hother hne => h.count_other hm hother (hne m List.mem_cons_self) hsettles⟩

end Sound

/-- One part after another. -/
theorem Leaves.andThen {between : Ledger} {later : Nat} (h : w.Leaves [m] between c)
    (hrest : (World.mk w.parts between c).Leaves marks after later) :
    w.Leaves (m :: marks) after later where
  sound := hrest.sound
  others hother hne := by
    obtain ⟨hfirst, hmore⟩ := List.forall_mem_cons.mp hne
    exact (hrest.others hother hmore).trans (h.others hother (by simpa using hfirst))

namespace Sound

variable {counter : Nat} {ledger : Ledger} {parts : List Marked}

/-! Each operation on one part leaves what it should. -/

theorem generate (mode : Mode) {tray : Tray} (h : Sound ⟨parts, tray.ledger, counter⟩)
    (hm : Holds ⟨parts, tray.ledger, counter⟩ m) :
    (m.generate mode tray).Ends
      (fun c r => Leaves ⟨parts, tray.ledger, counter⟩ [m] r.2.ledger c) counter := by
  refine (Marked.generate_ends mode m (h.ready hm)).imp ?_
  intro c r hr
  obtain ⟨ledger, rfl, hsettles⟩ := hr
  exact h.leaves_one hm hsettles

theorem parse (buffer : Bytes) (args : Arguments) (h : w.Sound) (hm : w.Holds m) :
    (m.parse buffer args w.ledger).Ends (fun c r => w.Leaves [m] r.2.2 c) w.counter := by
  refine (Marked.parse_ends buffer args m (h.ready hm)).imp ?_
  intro c r hr
  obtain ⟨ledger, rfl, hsettles⟩ := hr
  exact h.leaves_one hm hsettles

theorem validate (buffer : Bytes) (h : w.Sound) (hm : w.Holds m) :
    (m.validate buffer w.ledger).Ends (fun c r => w.Leaves [m] r.2.2 c) w.counter := by
  refine (Marked.validate_ends buffer m (h.ready hm)).imp ?_
  intro c r hr
  obtain ⟨ledger, rfl, hsettles⟩ := hr
  exact h.leaves_one hm hsettles

theorem resolve (h : w.Sound) (hm : w.Holds m) :
    (m.resolve w.ledger).Ends (fun c after => w.Leaves [m] after c) w.counter :=
  (Marked.resolve_ends m (h.ready hm)).imp fun _ _ hsettles => h.leaves_one hm hsettles

/-! So does each operation on several parts. -/

theorem messages (marks : List Marked) : ∀ {tray : Tray} {counter : Nat},
    Sound ⟨parts, tray.ledger, counter⟩ → (∀ m ∈ marks, Holds ⟨parts, tray.ledger, counter⟩ m) →
    (Marked.messages marks tray).Ends
      (fun c r => Leaves ⟨parts, tray.ledger, counter⟩ marks r.2.ledger c) counter := by
  induction marks with
  | nil => exact fun h _ => h.leaves_nil
  | cons m marks ih =>
      intro tray counter h hmarks
      obtain ⟨hfirst, hmore⟩ := List.forall_mem_cons.mp hmarks
      refine (h.generate .lenient hfirst).bind fun c r hleaves => ?_
      refine (ih hleaves.sound hmore).bind fun c' r' hrest => ?_
      exact hleaves.andThen hrest

theorem messages? (marks : List Marked) : ∀ {tray : Tray} {counter : Nat},
    Sound ⟨parts, tray.ledger, counter⟩ → (∀ m ∈ marks, Holds ⟨parts, tray.ledger, counter⟩ m) →
    (Marked.messages? marks tray).Ends
      (fun c r => Leaves ⟨parts, tray.ledger, counter⟩ marks r.2.ledger c) counter := by
  induction marks with
  | nil => exact fun h _ => h.leaves_nil
  | cons m marks ih =>
      intro tray counter h hmarks
      obtain ⟨hfirst, hmore⟩ := List.forall_mem_cons.mp hmarks
      refine (h.generate .strict hfirst).bind fun c r hleaves => ?_
      rcases r with ⟨e | message, between⟩
      · -- the parts after a failure are not touched
        exact hleaves.andThen ⟨hleaves.sound, fun _ _ => rfl⟩
      · refine (ih hleaves.sound hmore).bind fun c' r' hrest => ?_
        exact hleaves.andThen hrest

theorem parseAll (marks : List Marked) : ∀ {buffer : Bytes} {args : Arguments} {w : World},
    w.Sound → (∀ m ∈ marks, w.Holds m) →
    (Marked.parseAll marks buffer args w.ledger).Ends (fun c r => w.Leaves marks r.2.2 c)
      w.counter := by
  induction marks with
  | nil => exact fun h _ => h.leaves_nil
  | cons m marks ih =>
      intro buffer args w h hmarks
      obtain ⟨hfirst, hmore⟩ := List.forall_mem_cons.mp hmarks
      refine (h.parse buffer args hfirst).bind fun c r hleaves => ?_
      exact (ih hleaves.sound hmore).imp fun c' r' hrest => hleaves.andThen hrest

theorem validateAll (marks : List Marked) : ∀ {buffer : Bytes} {w : World},
    w.Sound → (∀ m ∈ marks, w.Holds m) →
    (Marked.validateAll marks buffer w.ledger).Ends (fun c r => w.Leaves marks r.2.2 c)
      w.counter := by
  induction marks with
  | nil => exact fun h _ => h.leaves_nil
  | cons m marks ih =>
      intro buffer w h hmarks
      obtain ⟨hfirst, hmore⟩ := List.forall_mem_cons.mp hmarks
      refine (h.validate buffer hfirst).bind fun c r hleaves => ?_
      obtain ⟨verdict, rest, between⟩ := r
      cases verdict with
      | valid => exact (ih hleaves.sound hmore).imp fun c' r' hrest => hleaves.andThen hrest
      | invalid | incomplete => exact hleaves.andThen ⟨hleaves.sound, fun _ _ => rfl⟩

theorem resolveAll (marks : List Marked) : ∀ {w : World},
    w.Sound → (∀ m ∈ marks, w.Holds m) →
    (Marked.resolveAll marks w.ledger).Ends (fun c after => w.Leaves marks after c)
      w.counter := by
  induction marks with
  | nil => exact fun h _ => h.leaves_nil
  | cons m marks ih =>
      intro w h hmarks
      obtain ⟨hfirst, hmore⟩ := List.forall_mem_cons.mp hmarks
      refine (h.resolve hfirst).bind fun c between hleaves => ?_
      exact (ih hleaves.sound hmore).imp fun c' r' hrest => hleaves.andThen hrest

/-- Setting a variable leaves all records alone. -/
theorem leaves_set (h : w.Sound) (vars : Variables) :
    w.Leaves marks (w.ledger.withVars vars) w.counter where
  sound := ⟨h.minted, ⟨h.below.key, h.below.inner⟩, h.apart, h.shallow⟩
  others := by
    intro other _ _
    exact @Ledger.count_congr w.ledger (w.ledger.withVars vars) (fun _ => True)
      (fun _ _ _ => trivial) (fun _ => rfl) other (fun _ => trivial)

/-- **What any operation on some parts leaves.** -/
theorem operation (h : w.Sound) (hmarks : ∀ m ∈ marks, w.Holds m) (operation : Operation) :
    (operation.on marks w.ledger).Ends (fun c r => w.Leaves marks r.2 c) w.counter := by
  cases operation with
  | generate mode args draws =>
      cases mode with
      | lenient =>
          have hleaves := @messages w.parts marks ⟨args, draws, w.ledger⟩ w.counter h hmarks
          exact hleaves.bind fun c r hleaves => hleaves
      | strict =>
          have hleaves := @messages? w.parts marks ⟨args, draws, w.ledger⟩ w.counter h hmarks
          exact hleaves.bind fun c r hleaves => hleaves
  | parse buffer args => exact (parseAll marks h hmarks).bind fun c r hleaves => hleaves
  | validate buffer => exact (validateAll marks h hmarks).bind fun c r hleaves => hleaves
  | resolve => exact (resolveAll marks h hmarks).bind fun c after hleaves => hleaves
  | count => exact ⟨h, fun _ _ => rfl⟩
  | set name value => exact h.leaves_set _

/-! ## §5. Histories -/

theorem start (counter : Nat) : (World.start counter).Sound where
  minted := ⟨List.nodup_nil, fun _ hid => absurd hid List.not_mem_nil⟩
  below := ⟨(nomatch ·), (nomatch ·)⟩
  apart h := nomatch h
  shallow h := nomatch h

/-- **Whatever happens,** a sound world stays sound. -/
theorem step {w' : World} (h : w.Sound) (hstep : Step w w') : w'.Sound := by
  cases hstep with
  | arrange hle hminted hold =>
      -- what the context remembers was there before the parts that are new
      refine ⟨hminted, ⟨fun hfixed => Nat.lt_of_lt_of_le (h.below.key hfixed) hle,
        fun hfixed hx => Nat.lt_of_lt_of_le (h.below.inner hfixed hx) hle⟩, ?_, ?_⟩
      · intro id x p m hfixed hx hm hid
        obtain ⟨place, hat⟩ := hm
        obtain hnew | hheld := hold hat hid
        · exact absurd (h.below.inner hfixed hx) (Nat.not_lt.mpr hnew)
        · exact h.apart hfixed hx hheld hid
      · intro id p m hfixed hm hid
        obtain ⟨place, hat⟩ := hm
        obtain hnew | hheld := hold hat hid
        · exact absurd (h.below.key hfixed) (Nat.not_lt.mpr hnew)
        · exact h.shallow hfixed hheld hid
  | operate hmarks hgives => exact ((h.operation hmarks _).of_gives hgives).sound
  | copy hle hcopied =>
      refine ⟨⟨h.minted.distinct, fun id hid => Nat.lt_of_lt_of_le (h.minted.old id hid) hle⟩,
        ⟨?_, ?_⟩, ?_, ?_⟩
      · intro id p hfixed
        obtain ⟨original, hfixed', -⟩ := hcopied.exists_of_fixed? hfixed
        exact Nat.lt_of_lt_of_le (h.below.key hfixed') hle
      · intro id x p hfixed hx
        obtain ⟨original, -, -, hfresh⟩ := hcopied.exists_of_fixed? hfixed
        exact (hfresh hx).2
      · intro id x p m hfixed hx hm hid
        obtain ⟨original, -, -, hfresh⟩ := hcopied.exists_of_fixed? hfixed
        exact absurd (h.old hm hid) (Nat.not_lt.mpr (hfresh hx).1)
      · intro id p m hfixed hm hid
        obtain ⟨original, hfixed', hpart, -⟩ := hcopied.exists_of_fixed? hfixed
        have hdepth : p.depth = original.depth := congrArg Part.depth hpart
        exact hdepth ▸ h.shallow hfixed' hm hid

/-- **What every history leaves is sound.** -/
theorem of_reachable (h : w.Reachable) : w.Sound := by
  obtain ⟨counter, hrun⟩ := h
  exact keeps_of_run Sound (fun hsound hstep => hsound.step hstep) hrun (start counter)

end Sound

/-! ## §6. A history to try -/

/-- As many bytes as the variable n says, if that is more than one. -/
def guarded : Marked := .optional 0 "n" (.greater 1) (.dynamic 1 (.named "n") .random)

/-- **A guarded part was checked** while n was two: it is remembered as a copy
    of what it guards, and the copy as two bytes.  Since then n was set to
    three. -/
def checkedBefore : World :=
  ⟨[guarded],
    ⟨(Variables.empty.set "n" (.int 2)).set "n" (.int 3),
      [(0, .dynamic 2 (.named "n") .random), (2, .bytes [.random, .random])]⟩, 3⟩

theorem reachable_checkedBefore : checkedBefore.Reachable := by
  let two := Variables.empty.set "n" (.int 2)
  have hmade : Step (start 0) ⟨checkedBefore.parts, (start 0).ledger, 2⟩ :=
    .arrange (Nat.zero_le 2) ⟨by decide, by decide⟩ fun _ _ => .inl (Nat.zero_le _)
  have hset : Step ⟨checkedBefore.parts, (start 0).ledger, 2⟩ ⟨checkedBefore.parts, ⟨two, []⟩, 2⟩ :=
    @Step.operate _ [] (.set "n" (.int 2)) .set _ 2 (fun _ hm => nomatch hm) .done
  have hchecked : Step ⟨checkedBefore.parts, ⟨two, []⟩, 2⟩
      ⟨checkedBefore.parts, checkedBefore.ledger.withVars two, 3⟩ := by
    refine @Step.operate _ checkedBefore.parts (.validate [7, 7]) (.validated .valid []) _ 3
      (fun m hm => holds_of_mem hm) ?_
    -- one identity is taken, for the copy of what is guarded
    have hget : two.get? "n" = some (.int 2) := rfl
    have hgreater : (Condition.greater 1).holds (.int 2) = true := by decide
    have hlength (id : PartId) :
        Part.usableLength? (.named "n") (Ledger.known? ⟨two, []⟩ id) two = some 2 := by
      show Part.usableLength? (.named "n") none two = some 2
      decide
    have htakes : (Operation.validate [7, 7]).on checkedBefore.parts ⟨two, []⟩
        = .mint fun id => .done (.validated .valid [],
            ⟨two, [(0, .dynamic id (.named "n") .random), (id, .bytes [.random, .random])]⟩) := by
      simp [checkedBefore, guarded, Operation.on, Marked.validateAll, Marked.validate, Ledger.choose,
        Marked.copy, Minting.bind, Ledger.withVars, Ledger.fix, hget, hgreater, hlength,
        checkRun, Element.validate, Element.check]
    rw [htakes]
    exact .mint (Nat.le_refl 2) .done
  have hset' : Step ⟨checkedBefore.parts, checkedBefore.ledger.withVars two, 3⟩ checkedBefore :=
    @Step.operate _ [] (.set "n" (.int 3)) .set _ 3 (fun _ hm => nomatch hm) .done
  exact ⟨0, .tail (.tail (.tail (.single hmade) hset) hchecked) hset'⟩

/-- It still counts two. -/
theorem count_guarded : checkedBefore.ledger.count guarded = 2 := by
  rw [Ledger.count_of_recorded rfl rfl (by decide), Ledger.count_of_recorded rfl rfl (by decide),
    Ledger.count_of_none rfl]
  rfl

end World

end Masquerade
