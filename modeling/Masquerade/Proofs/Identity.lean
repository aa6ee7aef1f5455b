/-
  Masquerade.Proofs.Identity — IDENTITIES NEVER SHOW.

  A description is evaluated with the identities that its parts carry, and
  without them, side by side.  The ledger of the one tracks the context of
  the other (`Ledger.Tracks`): every part of the description, also one inside
  another, has a place of its own, and for each place both know the same
  length.  Each operation keeps this, since the identities of a description
  are distinct and those it takes are fresh.

  So what is seen does not depend on identities at all.  In particular it
  does not depend on which of them a connection is given when others take
  theirs from the same counter (`Shared`).

  Main results:
    * `Ledger.Tracks.record` — one operation on one part.
    * `Marked.evaluate_ends` — operations one after another.
    * `Shared.inevitably` — two connections taking turns at one counter.
    * `Marked.copyAll_ends`, `Marked.evaluate_copyAll_ends` — a copy of a
      description, and what is seen of it.
    * `Marked.identities_never_show` — equal descriptions, and connections
      that share one.
-/
import Masquerade.Proofs.Freshness
import Masquerade.Proofs.Motion
import Mathlib.Data.List.Nodup

namespace Masquerade

/-! ## §1. Where the parts of a description stand -/

namespace Marked

/-- **Distinct identities,** given out before. -/
structure Minted (parts : List Marked) (counter : Nat) : Prop where
  distinct : (parts.flatMap ids).Nodup
  old : ∀ id : Nat, id ∈ parts.flatMap ids → id < counter

/-- The part that has this place in a description: the steps are numbered as
    in `Selection.script`. -/
def At (parts : List Marked) (place : Nat) (m : Marked) : Prop :=
  ∃ index depth root, parts[index]? = some root ∧ root.within depth = some m
    ∧ place = index + depth * parts.length

variable {parts : List Marked} {place other : Nat} {m m' root : Marked} {counter : Nat}

theorem getElem?_ids_zero (m : Marked) : m.ids[0]? = m.id? := by
  cases m <;> rfl

/-- The identity of an inner part stands among those of the outer one, as far
    in as the part does. -/
theorem getElem?_ids_of_within (root : Marked) (depth : Nat) {id : PartId}
    (hwithin : root.within depth = some m) (hid : m.id? = some id) :
    root.ids[depth]? = some id := by
  induction depth generalizing root with
  | zero =>
      cases hwithin
      exact (getElem?_ids_zero m).trans hid
  | succ depth ih =>
      cases root with
      | optional own name condition item => exact ih item hwithin
      | _ => cases hwithin

theorem part_within (root : Marked) (depth : Nat) :
    root.part.within depth = (root.within depth).map part := by
  induction depth generalizing root with
  | zero => rfl
  | succ depth ih =>
      cases root with
      | optional id name condition item => exact ih item
      | _ => rfl

/-- One part has one place. -/
theorem At.unique (h : At parts place m) (h' : At parts place m') : m = m' := by
  obtain ⟨index, depth, root, hroot, hwithin, rfl⟩ := h
  obtain ⟨index', depth', root', hroot', hwithin', heq⟩ := h'
  have hlt : index < parts.length := (List.getElem?_eq_some_iff.mp hroot).1
  have hlt' : index' < parts.length := (List.getElem?_eq_some_iff.mp hroot').1
  have hindex : index = index' := by
    have := congrArg (· % parts.length) heq
    simpa [Nat.add_mul_mod_self_right, Nat.mod_eq_of_lt hlt, Nat.mod_eq_of_lt hlt'] using this
  subst hindex
  have hpos : 0 < parts.length := Nat.lt_of_le_of_lt (Nat.zero_le _) hlt
  have hdepth : depth = depth' := Nat.eq_of_mul_eq_mul_right hpos (Nat.add_left_cancel heq)
  subst hdepth
  cases hroot.symm.trans hroot'
  exact Option.some.inj (hwithin.symm.trans hwithin')

/-- An identity belongs to one place. -/
theorem At.place_eq (hminted : Minted parts counter) (h : At parts place m)
    (h' : At parts other m') {id : PartId} (hid : m.id? = some id) (hid' : m'.id? = some id) :
    place = other := by
  obtain ⟨index, depth, root, hroot, hwithin, rfl⟩ := h
  obtain ⟨index', depth', root', hroot', hwithin', rfl⟩ := h'
  have hin := getElem?_ids_of_within root depth hwithin hid
  have hin' := getElem?_ids_of_within root' depth' hwithin' hid'
  obtain ⟨hnodup, hapart⟩ := List.nodup_flatMap.mp hminted.distinct
  obtain ⟨hlt, hget⟩ := List.getElem?_eq_some_iff.mp hroot
  obtain ⟨hlt', hget'⟩ := List.getElem?_eq_some_iff.mp hroot'
  have hindex : index = index' := by
    by_contra hne
    have hmem : id ∈ root.ids := List.mem_of_getElem? hin
    have hmem' : id ∈ root'.ids := List.mem_of_getElem? hin'
    rw [List.pairwise_iff_getElem] at hapart
    obtain hless | hless := Nat.lt_or_gt_of_ne hne
    · exact hapart index index' hlt hlt' hless (hget ▸ hmem) (hget' ▸ hmem')
    · exact hapart index' index hlt' hlt hless (hget' ▸ hmem') (hget ▸ hmem)
  subst hindex
  cases hroot.symm.trans hroot'
  have hnodup := hnodup root (List.mem_of_getElem? hroot)
  rw [(List.getElem?_inj (List.getElem?_eq_some_iff.mp hin).1 hnodup).mp (hin.trans hin'.symm)]

theorem At.old (hminted : Minted parts counter) (h : At parts place m) {id : Nat}
    (hid : m.id? = some id) : id < counter := by
  obtain ⟨index, depth, root, hroot, hwithin, -⟩ := h
  refine hminted.old id (List.mem_flatMap.mpr ⟨root, List.mem_of_getElem? hroot, ?_⟩)
  exact List.mem_of_getElem? (getElem?_ids_of_within root depth hwithin hid)

end Marked

/-! ## §2. A ledger and a context, side by side -/

/-- **A ledger tracks a context:** they hold the same variables, and of every
    part of the description the ledger shows the length that the context has
    for its place.  What the ledger remembers carries none of the
    description's identities, which were given out before `first`. -/
structure Ledger.Tracks (parts : List Marked) (first : Nat) (ledger : Ledger) (counter : Nat)
    (ctx : Context) : Prop where
  begun : first ≤ counter
  below : ledger.Below counter
  inner : ∀ {id x : Nat} {p}, ledger.fixed? id = some p → p.id? = some x → first ≤ x
  vars_eq : ledger.vars = ctx.vars
  shows : ∀ {place m}, Marked.At parts place m → ledger.Shows m (ctx.knownLength? place)

theorem Context.knownLength?_record (ctx : Context) (id other : PartId) (vars : Variables)
    (resolution : Option Resolution) :
    (ctx.record id vars resolution).knownLength? other
      = if other = id then (resolution.map Resolution.length).or (ctx.knownLength? other)
        else ctx.knownLength? other := by
  unfold knownLength?
  cases resolution with
  | none =>
      rw [Option.map_none, Option.none_or, ite_self]
      rfl
  | some r =>
      rw [resolution?_record]
      split <;> rfl

namespace Ledger.Tracks

variable {parts : List Marked} {first counter c : Nat} {ledger after : Ledger} {ctx : Context}
  {place : Nat} {m : Marked} {vars : Variables} {resolution : Option Resolution}

/-- Every part of the description may be operated on. -/
theorem ready (h : ledger.Tracks parts first counter ctx) (hminted : Marked.Minted parts first)
    (hat : Marked.At parts place m) : m.Ready ledger (ctx.knownLength? place) counter where
  shows := h.shows hat
  below := h.below
  old hid := Nat.lt_of_lt_of_le (hat.old hminted hid) h.begun
  apart hfixed hx hid := absurd (hat.old hminted hid) (Nat.not_lt.mpr (h.inner hfixed hx))

/-- **One operation on one part:** the ledger it leaves tracks the context
    with the resolution recorded. -/
theorem record (h : ledger.Tracks parts first counter ctx) (hminted : Marked.Minted parts first)
    (hat : Marked.At parts place m)
    (hsettles : m.Settles ledger counter vars resolution after c) :
    after.Tracks parts first c (ctx.record place vars resolution) where
  begun := Nat.le_trans h.begun hsettles.le
  below := hsettles.below
  inner hfixed hx := by
    obtain hbefore | hnew := hsettles.inner hfixed hx
    · exact h.inner hbefore hx
    · exact Nat.le_trans h.begun hnew
  vars_eq := by
    rw [hsettles.vars_eq]
    cases resolution <;> rfl
  shows := by
    intro other m' hat'
    rw [Context.knownLength?_record]
    by_cases hplace : other = place
    · subst hplace
      cases hat.unique hat'
      rw [if_pos rfl]
      exact hsettles.shows_self (h.ready hminted hat)
    · rw [if_neg hplace]
      refine hsettles.shows_other (h.ready hminted hat) ?_ (h.shows hat')
      intro id hid
      refine ⟨Nat.lt_of_lt_of_le (hat'.old hminted hid) h.begun, fun hid' => hplace ?_⟩
      exact hat'.place_eq hminted hat hid hid'

/-- A ledger without records tracks a context without resolutions. -/
theorem start (parts : List Marked) (first : Nat) (vars : Variables) :
    (Ledger.mk vars []).Tracks parts first first ⟨vars, []⟩ where
  begun := Nat.le_refl _
  below := ⟨(nomatch ·), (nomatch ·)⟩
  inner h := nomatch h
  vars_eq := rfl
  shows _ := .of_unrecorded fun _ => rfl

/-- Setting a variable. -/
theorem set (h : ledger.Tracks parts first counter ctx) (name : String) (value : Value) :
    (ledger.withVars (ledger.vars.set name value)).Tracks parts first counter
      (ctx.set name value) where
  begun := h.begun
  below := ⟨h.below.key, h.below.inner⟩
  inner := h.inner
  vars_eq := congrArg (·.set name value) h.vars_eq
  shows hat := (h.shows hat).congr (fun _ => True) (fun _ _ _ => trivial) (fun _ => rfl)
    (fun _ => trivial)

/-- **A part counts as its step.** -/
theorem count_eq (h : ledger.Tracks parts first counter ctx) (hat : Marked.At parts place m) :
    ledger.count m = (Step.mk place m.part).count ctx :=
  (h.shows hat).count_eq

end Ledger.Tracks

/-- **A tray tracks a pass:** the same arguments and draws, and the ledger
    tracks the context. -/
structure Tray.Tracks (parts : List Marked) (first : Nat) (tray : Tray) (counter : Nat)
    (pass : Pass) : Prop where
  args_eq : tray.args = pass.args
  draws_eq : tray.draws = pass.draws
  ledger : tray.ledger.Tracks parts first counter pass.context

/-! ## §3. Operations on several parts -/

/-- The message of a step is the one that lenient generation gives. -/
theorem Step.message_eq (step : Step) (pass : Pass) :
    step.message pass
      = ((step.generate .lenient pass).1.toOption.join, (step.generate .lenient pass).2) := by
  rcases hgen : step.generate .lenient pass with ⟨e | message, pass'⟩
  · simp [Step.message, hgen, Except.toOption]
  · simp [Step.message, hgen, Except.toOption]

namespace Marked

/-- A step with the part that stands in its place. -/
structure Stands (parts : List Marked) (m : Marked) (step : Step) : Prop where
  here : At parts step.id m
  part_eq : m.part = step.part

variable {parts marks : List Marked} {first : Nat} {m : Marked} {step : Step} {script : Script}

section

variable (hminted : Minted parts first)
include hminted

/-! A step of a script gives what the part in its place gives. -/

theorem generate_tracks (hstands : Stands parts m step) (mode : Mode) {tray : Tray} {counter : Nat}
    {pass : Pass} (h : tray.Tracks parts first counter pass) :
    (m.generate mode tray).Ends (fun c r => r.1 = (step.generate mode pass).1
      ∧ r.2.Tracks parts first c (step.generate mode pass).2) counter := by
  have hsupply : tray.supply = ⟨pass.args, pass.context.vars, pass.draws⟩ := by
    unfold Tray.supply
    rw [h.args_eq, h.draws_eq, h.ledger.vars_eq]
  refine (generate_ends mode m (h.ledger.ready hminted hstands.here)).imp ?_
  rintro c _ ⟨ledger, rfl, hsettles⟩
  rw [hsupply, hstands.part_eq] at hsettles ⊢
  exact ⟨rfl, rfl, rfl, h.ledger.record hminted hstands.here hsettles⟩

variable {ledger : Ledger} {counter : Nat} {ctx : Context}

theorem parse_tracks (hstands : Stands parts m step) (buffer : Bytes) (args : Arguments)
    (h : ledger.Tracks parts first counter ctx) :
    (m.parse buffer args ledger).Ends (fun c r => r.1 = (step.parse buffer args ctx).1
      ∧ r.2.1 = (step.parse buffer args ctx).2.1
      ∧ r.2.2.Tracks parts first c (step.parse buffer args ctx).2.2) counter := by
  refine (parse_ends buffer args m (h.ready hminted hstands.here)).imp ?_
  rintro c _ ⟨after, rfl, hsettles⟩
  rw [h.vars_eq, hstands.part_eq] at hsettles ⊢
  exact ⟨rfl, rfl, h.record hminted hstands.here hsettles⟩

theorem validate_tracks (hstands : Stands parts m step) (buffer : Bytes)
    (h : ledger.Tracks parts first counter ctx) :
    (m.validate buffer ledger).Ends (fun c r => r.1 = (step.validate buffer ctx).1
      ∧ r.2.1 = (step.validate buffer ctx).2.1
      ∧ r.2.2.Tracks parts first c (step.validate buffer ctx).2.2) counter := by
  refine (validate_ends buffer m (h.ready hminted hstands.here)).imp ?_
  rintro c _ ⟨after, rfl, hsettles⟩
  rw [h.vars_eq, hstands.part_eq] at hsettles ⊢
  exact ⟨rfl, rfl, h.record hminted hstands.here hsettles⟩

theorem resolve_tracks (hstands : Stands parts m step)
    (h : ledger.Tracks parts first counter ctx) :
    (m.resolve ledger).Ends (fun c after => after.Tracks parts first c (step.resolve ctx))
      counter := by
  refine (resolve_ends m (h.ready hminted hstands.here)).imp ?_
  intro c after hsettles
  rw [h.vars_eq, hstands.part_eq] at hsettles
  exact h.record hminted hstands.here hsettles

/-! A script gives what the parts in the places of its steps give. -/

theorem messages_tracks (hstands : List.Forall₂ (Stands parts) marks script) :
    ∀ {tray : Tray} {counter : Nat} {pass : Pass}, tray.Tracks parts first counter pass →
      (messages marks tray).Ends (fun c r => r.1 = (script.messages pass).1
        ∧ r.2.Tracks parts first c (script.messages pass).2) counter := by
  induction hstands with
  | nil => exact fun h => ⟨rfl, h⟩
  | @cons m step marks script hstep hrest ih =>
      intro tray counter pass h
      refine (generate_tracks hminted hstep .lenient h).bind ?_
      rintro c ⟨outcome, between⟩ ⟨rfl, hbetween⟩
      refine (ih hbetween).bind ?_
      rintro c' ⟨more, final⟩ ⟨rfl, hfinal⟩
      simp only [Script.messages, Step.message_eq]
      exact ⟨rfl, hfinal⟩

theorem messages?_tracks (hstands : List.Forall₂ (Stands parts) marks script) :
    ∀ {tray : Tray} {counter : Nat} {pass : Pass}, tray.Tracks parts first counter pass →
      (messages? marks tray).Ends (fun c r => r.1 = (script.messages? pass).1
        ∧ r.2.Tracks parts first c (script.messages? pass).2) counter := by
  induction hstands with
  | nil => exact fun h => ⟨rfl, h⟩
  | @cons m step marks script hstep hrest ih =>
      intro tray counter pass h
      refine (generate_tracks hminted hstep .strict h).bind ?_
      rintro c ⟨outcome, between⟩ ⟨houtcome, hbetween⟩
      rcases hgen : step.generate .strict pass with ⟨e | message, pass'⟩
      · rw [hgen] at houtcome hbetween
        cases houtcome
        simp only [Script.messages?, hgen]
        exact ⟨rfl, hbetween⟩
      · rw [hgen] at houtcome hbetween
        cases houtcome
        refine (ih hbetween).bind ?_
        rintro c' ⟨more, final⟩ ⟨rfl, hfinal⟩
        rcases hmore : Script.messages? script pass' with ⟨e | more, pass''⟩
        · rw [hmore] at hfinal
          simp only [Script.messages?, hgen, hmore]
          exact ⟨rfl, hfinal⟩
        · rw [hmore] at hfinal
          simp only [Script.messages?, hgen, hmore]
          exact ⟨rfl, hfinal⟩

theorem parseAll_tracks (hstands : List.Forall₂ (Stands parts) marks script) :
    ∀ {buffer : Bytes} {args : Arguments} {ledger : Ledger} {counter : Nat} {ctx : Context},
      ledger.Tracks parts first counter ctx →
      (parseAll marks buffer args ledger).Ends (fun c r =>
        r.1 = (script.parse buffer args ctx).1 ∧ r.2.1 = (script.parse buffer args ctx).2.1
          ∧ r.2.2.Tracks parts first c (script.parse buffer args ctx).2.2) counter := by
  induction hstands with
  | nil => exact fun h => ⟨rfl, rfl, h⟩
  | @cons m step marks script hstep hrest ih =>
      intro buffer args ledger counter ctx h
      refine (parse_tracks hminted hstep buffer args h).bind ?_
      rintro c ⟨rest, args', between⟩ ⟨rfl, rfl, hbetween⟩
      exact ih hbetween

theorem validateAll_tracks (hstands : List.Forall₂ (Stands parts) marks script) :
    ∀ {buffer : Bytes} {ledger : Ledger} {counter : Nat} {ctx : Context},
      ledger.Tracks parts first counter ctx →
      (validateAll marks buffer ledger).Ends (fun c r =>
        r.1 = (script.validate buffer ctx).1 ∧ r.2.1 = (script.validate buffer ctx).2.1
          ∧ r.2.2.Tracks parts first c (script.validate buffer ctx).2.2) counter := by
  induction hstands with
  | nil => exact fun h => ⟨rfl, rfl, h⟩
  | @cons m step marks script hstep hrest ih =>
      intro buffer ledger counter ctx h
      refine (validate_tracks hminted hstep buffer h).bind ?_
      rintro c ⟨verdict, rest, between⟩ ⟨hverdict, hleft, hbetween⟩
      rcases hstepped : step.validate buffer ctx with ⟨verdict', rest', ctx'⟩
      rw [hstepped] at hverdict hleft hbetween
      subst hverdict hleft
      cases verdict with
      | valid =>
          simp only [Script.validate, hstepped]
          exact ih hbetween
      | invalid =>
          simp only [Script.validate, hstepped]
          exact ⟨rfl, rfl, hbetween⟩
      | incomplete =>
          simp only [Script.validate, hstepped]
          exact ⟨rfl, rfl, hbetween⟩

theorem resolveAll_tracks (hstands : List.Forall₂ (Stands parts) marks script) :
    ∀ {ledger : Ledger} {counter : Nat} {ctx : Context},
      ledger.Tracks parts first counter ctx →
      (resolveAll marks ledger).Ends (fun c after =>
        after.Tracks parts first c (script.resolve ctx)) counter := by
  induction hstands with
  | nil => exact fun h => h
  | @cons m step marks script hstep hrest ih =>
      intro ledger counter ctx h
      refine (resolve_tracks hminted hstep h).bind ?_
      exact fun c between hbetween => ih hbetween

end

theorem countAll_eq (hstands : List.Forall₂ (Stands parts) marks script) {ledger : Ledger}
    {counter : Nat} {ctx : Context} (h : ledger.Tracks parts first counter ctx) :
    countAll marks ledger = script.count ctx := by
  induction hstands with
  | nil => rfl
  | @cons m step marks script hstep hrest ih =>
      obtain ⟨hat, hpart⟩ := hstep
      have hcount := h.count_eq hat
      rw [hpart] at hcount
      rw [countAll, Script.count, ih, hcount]

/-! ## §4. Operations on a selection -/

/-- The parts of a description stand in the places of its script. -/
theorem stands_number (parts : List Marked) : ∀ (rest : List Marked) (first : Nat),
    (∀ i m, rest[i]? = some m → parts[first + i]? = some m) →
      List.Forall₂ (Stands parts) rest (Script.number first (rest.map part)) := by
  intro rest
  induction rest with
  | nil => exact fun _ _ => .nil
  | cons m rest ih =>
      intro first hrest
      refine .cons ⟨⟨first, 0, m, hrest 0 m rfl, rfl, ?_⟩, rfl⟩ (ih (first + 1) ?_)
      · rw [Nat.zero_mul]
        rfl
      · intro i m' hm'
        rw [Nat.add_assoc, Nat.add_comm 1 i]
        exact hrest (i + 1) m' hm'

/-- **The parts of a selection** stand in the places of its script. -/
theorem stands_selection (parts : List Marked) (selection : Selection) :
    List.Forall₂ (Stands parts) (selection.of parts)
      (selection.script ⟨parts.map part⟩) := by
  cases selection with
  | whole => exact stands_number parts parts 0 fun i m hm => by rwa [Nat.zero_add]
  | part index depth =>
      unfold Selection.of Selection.script
      simp only [List.getElem?_map, List.length_map]
      cases hroot : parts[index]? with
      | none => exact .nil
      | some root =>
          simp only [Option.map_some, Option.bind_some, part_within]
          cases hwithin : root.within depth with
          | none => exact .nil
          | some m => exact .cons ⟨⟨index, depth, root, hroot, hwithin, rfl⟩, rfl⟩ .nil

/-- **One operation** gives what it gives without identities. -/
theorem operation_tracks (hminted : Minted parts first)
    (hstands : List.Forall₂ (Stands parts) marks script) {ledger : Ledger} {counter : Nat}
    {ctx : Context} (h : ledger.Tracks parts first counter ctx) (operation : Operation) :
    (operation.on marks ledger).Ends (fun c r => r.1 = (operation.onScript script ctx).1
      ∧ r.2.Tracks parts first c (operation.onScript script ctx).2) counter := by
  cases operation with
  | generate mode args draws =>
      have htray : Tray.Tracks parts first ⟨args, draws, ledger⟩ counter ⟨args, draws, ctx⟩ :=
        ⟨rfl, rfl, h⟩
      cases mode with
      | lenient =>
          refine (messages_tracks hminted hstands htray).bind ?_
          rintro c ⟨messages, tray⟩ ⟨rfl, hargs, hdraws, hledger⟩
          refine ⟨?_, hledger⟩
          rw [hargs, hdraws]
          rfl
      | strict =>
          refine (messages?_tracks hminted hstands htray).bind ?_
          rintro c ⟨outcome, tray⟩ ⟨rfl, hargs, hdraws, hledger⟩
          refine ⟨?_, hledger⟩
          rw [hargs, hdraws]
          rfl
  | parse buffer args =>
      refine (parseAll_tracks hminted hstands h).bind ?_
      rintro c ⟨rest, args', after⟩ ⟨rfl, rfl, hafter⟩
      exact ⟨rfl, hafter⟩
  | validate buffer =>
      refine (validateAll_tracks hminted hstands h).bind ?_
      rintro c ⟨verdict, rest, after⟩ ⟨rfl, rfl, hafter⟩
      exact ⟨rfl, hafter⟩
  | resolve =>
      refine (resolveAll_tracks hminted hstands h).bind ?_
      exact fun c after hafter => ⟨rfl, hafter⟩
  | count => exact ⟨congrArg Answer.counted (countAll_eq hstands h), h⟩
  | set name value => exact ⟨rfl, h.set name value⟩

/-- **Operations one after another** give what they give without identities,
    whatever identities are taken on the way. -/
theorem evaluate_ends (hminted : Minted parts first) (operations : List (Selection × Operation)) :
    ∀ {ledger : Ledger} {counter : Nat} {ctx : Context}, ledger.Tracks parts first counter ctx →
      (evaluate parts operations ledger).Ends (fun _ seen =>
        seen = Description.evaluate ⟨parts.map part⟩ operations ctx) counter := by
  induction operations with
  | nil => exact fun _ => rfl
  | cons request rest ih =>
      obtain ⟨selection, operation⟩ := request
      intro ledger counter ctx h
      refine (operation_tracks hminted (stands_selection parts selection) h operation).bind ?_
      rintro c ⟨answer, after⟩ ⟨rfl, hafter⟩
      refine (ih hafter).bind ?_
      rintro c' more rfl
      exact congrArg (fun vars => (_, vars) :: _) hafter.vars_eq

end Marked

/-! ## §5. Two connections over one counter -/

/-- Two computations that take identities from the same counter. -/
structure Shared (α β : Type) where
  left : Minting α
  right : Minting β
  counter : Nat

/-- **One of the two takes an identity.**  Others may have taken some since. -/
inductive Shared.Step {α β : Type} : Shared α β → Shared α β → Prop where
  | left {next : PartId → Minting α} {right : Minting β} {counter id : Nat} (h : counter ≤ id) :
      Step ⟨.mint next, right, counter⟩ ⟨next id, right, id + 1⟩
  | right {left : Minting α} {next : PartId → Minting β} {counter id : Nat} (h : counter ≤ id) :
      Step ⟨left, .mint next, counter⟩ ⟨left, next id, id + 1⟩

/-- **However the two take turns,** each ends with the result that is its only
    one. -/
theorem Shared.inevitably {α β : Type} {a : α} {b : β} (left : Minting α) :
    ∀ {right : Minting β} {counter : Nat}, left.Ends (fun _ result => result = a) counter →
      right.Ends (fun _ result => result = b) counter →
      Inevitably Step (fun s => s.left = .done a ∧ s.right = .done b) ⟨left, right, counter⟩ := by
  induction left with
  | done result =>
      rintro right counter rfl hright
      induction right generalizing counter with
      | done other =>
          cases hright
          exact .now ⟨rfl, rfl⟩
      | mint next ih =>
          refine .later ⟨_, .right (Nat.le_refl _)⟩ fun s hstep => ?_
          cases hstep with
          | right hle => exact ih _ (hright _ hle)
  | mint nextLeft ihLeft =>
      intro right
      induction right with
      | done other =>
          intro counter hleft hright
          refine .later ⟨_, .left (Nat.le_refl _)⟩ fun s hstep => ?_
          cases hstep with
          | left hle => exact ihLeft _ (hleft _ hle) hright
      | mint nextRight ihRight =>
          intro counter hleft hright
          refine .later ⟨_, .left (Nat.le_refl _)⟩ fun s hstep => ?_
          cases hstep with
          | left hle =>
              exact ihLeft _ (hleft _ hle) (hright.later (by omega) fun _ h => h)
          | right hle =>
              exact ihRight _ (hleft.later (by omega) fun _ h => h) (hright _ hle)

/-! ## §6. Identities never show -/

namespace Marked

/-- Descriptions compare equal when they are equal without their identities. -/
theorem beq_iff (parts others : List Marked) :
    (parts == others) = true ↔ parts.map part = others.map part := by
  induction parts generalizing others with
  | nil => cases others <;> simp
  | cons m parts ih =>
      cases others with
      | nil => simp
      | cons m' others =>
          rw [List.cons_beq_cons, Bool.and_eq_true, ih, List.map_cons, List.map_cons,
            List.cons.injEq]
          exact and_congr_left' (m.same_iff m')

/-- **A copy of a description** compares equal to it, and has distinct
    identities of its own. -/
theorem copyAll_ends (parts : List Marked) : ∀ (counter : Nat),
    (copyAll parts).Ends (fun c copies => counter ≤ c ∧ copies.map part = parts.map part
      ∧ Minted copies c ∧ ∀ id : Nat, id ∈ copies.flatMap ids → counter ≤ id) counter := by
  induction parts with
  | nil => exact fun counter => ⟨Nat.le_refl _, rfl, ⟨List.nodup_nil, by simp⟩, by simp⟩
  | cons m parts ih =>
      intro counter
      refine (m.copy_ends counter).bind ?_
      rintro c copied ⟨hle, hnodup, hfresh⟩
      refine (ih c).bind ?_
      rintro c' copies ⟨hle', hparts, hminted, hlater⟩
      refine ⟨Nat.le_trans hle hle', ?_, ⟨?_, ?_⟩, ?_⟩
      · rw [List.map_cons, List.map_cons, hparts, copied.2]
      · rw [List.flatMap_cons]
        refine hnodup.append hminted.distinct fun id hmem hmem' => ?_
        exact absurd (hfresh id hmem).2 (Nat.not_lt.mpr (hlater id hmem'))
      · intro id hmem
        obtain hmem | hmem := List.mem_append.mp (List.flatMap_cons ▸ hmem)
        · exact Nat.lt_of_lt_of_le (hfresh id hmem).2 hle'
        · exact hminted.old id hmem
      · intro id hmem
        obtain hmem | hmem := List.mem_append.mp (List.flatMap_cons ▸ hmem)
        · exact (hfresh id hmem).1
        · exact Nat.le_trans hle (hlater id hmem)

/-- **Evaluation by itself.**  What is seen is what is computed without
    identities. -/
theorem evaluate_result {parts : List Marked} {first : Nat} (hminted : Minted parts first)
    {ids : Nat → PartId} (hids : Minting.Rising first ids) (vars : Variables)
    (operations : List (Selection × Operation)) :
    (evaluate parts operations ⟨vars, []⟩).result ids
      = Description.evaluate ⟨parts.map part⟩ operations ⟨vars, []⟩ := by
  obtain ⟨-, hseen⟩ :=
    (evaluate_ends hminted operations (Ledger.Tracks.start parts first vars)).result hids
  exact hseen

/-- **Evaluating a copy.**  Also what is seen of a copy, taken before the first
    operation, is what is computed without identities. -/
theorem evaluate_copyAll_ends (parts : List Marked) (vars : Variables)
    (operations : List (Selection × Operation)) (counter : Nat) :
    ((copyAll parts).bind fun copies => evaluate copies operations ⟨vars, []⟩).Ends
      (fun _ seen => seen = Description.evaluate ⟨parts.map part⟩ operations ⟨vars, []⟩)
      counter := by
  refine (copyAll_ends parts counter).bind ?_
  rintro c copies ⟨-, hparts, hminted, -⟩
  rw [← hparts]
  exact evaluate_ends hminted operations (Ledger.Tracks.start copies c vars)

/-- **IDENTITIES NEVER SHOW.**  Let two descriptions compare equal, whatever
    identities they carry.  The same operations from the same variables give
    the same answers, arguments, buffers, variables and counts for both,
    whatever identities are taken on the way, and these are what the
    description without identities gives.  And when two connections evaluate
    one description, each in its own context, then however they take turns at
    the counter, both come to an end, with what each sees by itself. -/
theorem identities_never_show {parts others : List Marked} (hequal : (parts == others) = true)
    {first second : Nat} (hparts : Minted parts first) (hothers : Minted others second)
    (vars : Variables) (operations : List (Selection × Operation)) {ids : Nat → PartId}
    (hids : Minting.Rising first ids) :
    (∀ {ids' : Nat → PartId}, Minting.Rising second ids' →
      (evaluate others operations ⟨vars, []⟩).result ids'
        = (evaluate parts operations ⟨vars, []⟩).result ids)
    ∧ (evaluate parts operations ⟨vars, []⟩).result ids
        = Description.evaluate ⟨parts.map part⟩ operations ⟨vars, []⟩
    ∧ ∀ (vars' : Variables) (operations' : List (Selection × Operation)) {ids' : Nat → PartId},
        Minting.Rising first ids' →
        Inevitably Shared.Step
          (fun s => s.left = .done ((evaluate parts operations ⟨vars, []⟩).result ids)
            ∧ s.right = .done ((evaluate parts operations' ⟨vars', []⟩).result ids'))
          ⟨evaluate parts operations ⟨vars, []⟩, evaluate parts operations' ⟨vars', []⟩,
            first⟩ := by
  have halone := evaluate_result hparts hids vars operations
  refine ⟨?_, halone, ?_⟩
  · intro ids' hids'
    rw [halone, evaluate_result hothers hids', (beq_iff parts others).mp hequal]
  · intro vars' operations' ids' hids'
    rw [halone, evaluate_result hparts hids']
    exact Shared.inevitably _
      (evaluate_ends hparts operations (Ledger.Tracks.start parts first vars))
      (evaluate_ends hparts operations' (Ledger.Tracks.start parts first vars'))

/-- A part whose presence and length hang on one number, and a part whose
    length is an argument. -/
def nested : List Marked :=
  [.optional 1 "n" (.greater 0) (.dynamic 2 (.named "n") (.fixed 7)), .dynamic 3 .argument (.fixed 9)]

/-- The same parts with other identities. -/
def renamed : List Marked :=
  [.optional 9 "n" (.greater 0) (.dynamic 4 (.named "n") (.fixed 7)), .dynamic 6 .argument (.fixed 9)]

/-- An optional part is counted as it was resolved.  What it guards was
    resolved as a copy, and counts nothing itself. -/
theorem identities_never_show_nested :
    (nested == renamed) = true ∧ Minted nested 4 ∧ Minted renamed 10
      ∧ (evaluate renamed
          [(.whole, .resolve), (.whole, .count), (.part 0 1, .count),
            (.part 1 0, .generate .strict [.int 3] default), (.whole, .count)]
          ⟨⟨[("n", .int 2)]⟩, []⟩).result (fun n => 10 + 2 * n)
        = [(.resolved, ⟨[("n", .int 2)]⟩), (.counted 2, ⟨[("n", .int 2)]⟩),
            (.counted 0, ⟨[("n", .int 2)]⟩),
            (.generated (.ok [some ⟨none, [9, 9, 9]⟩]) [] default, ⟨[("n", .int 2)]⟩),
            (.counted 5, ⟨[("n", .int 2)]⟩)] := by
  have hequal : (nested == renamed) = true := by decide
  have hnested : Minted nested 4 := ⟨by decide, by decide⟩
  have hrenamed : Minted renamed 10 := ⟨by decide, by decide⟩
  have hids : Minting.Rising 4 (fun n => 4 + n) := ⟨by decide, fun n => Nat.lt_succ_self _⟩
  have hids' : Minting.Rising 10 (fun n => 10 + 2 * n) := by
    refine ⟨by decide, fun n => ?_⟩
    show 10 + 2 * n < 10 + 2 * (n + 1)
    omega
  obtain ⟨hsame, halone, -⟩ := identities_never_show hequal hnested hrenamed ⟨[("n", .int 2)]⟩
    [(.whole, .resolve), (.whole, .count), (.part 0 1, .count),
      (.part 1 0, .generate .strict [.int 3] default), (.whole, .count)] hids
  exact ⟨hequal, hnested, hrenamed, (hsame hids').trans (halone.trans rfl)⟩

end Marked

end Masquerade
