/-
  Masquerade.Proofs.Following — PARSING WHAT HAS BEEN CHECKED.

  Checking and parsing walk the same parts over the same bytes.  On bytes
  that fit, parsing takes what checking takes and resolves what checking
  resolves, and it remembers the same values, with one exception.  A byte
  that stands under several names, because a producer holds another
  producer, is remembered under all of them by checking and under the
  outermost alone by parsing (`Element.names`).  A part whose length or
  presence hangs on an inner name is then parsed as if nobody had set it.

  Main results:
    * `Element.check_eq_remember`, `Element.absorb_eq_remember` — the names
      under which a byte is remembered.
    * `Part.parse_of_valid` — parsing a part that fits.
    * `Script.parse_follows_validate` — parsing a script that fits, and what
      is missed.
-/
import Masquerade.Proofs.Checking

namespace Masquerade

/-! ## §1. The names of a byte -/

namespace Variables

theorem setEntry_setEntry (name : String) (v w : Value) (entries : List (String × Value)) :
    setEntry name v (setEntry name w entries) = setEntry name v entries := by
  induction entries with
  | nil => simp [setEntry]
  | cons entry rest ih =>
      by_cases h : entry.1 = name
      · simp [setEntry, h]
      · simp [setEntry, h, ih]

/-- Writing under one name twice is writing once. -/
theorem set_set (vars : Variables) (name : String) (v w : Value) :
    (vars.set name w).set name v = vars.set name v :=
  congrArg Variables.mk (setEntry_setEntry name v w vars.entries)

/-- Remember one byte under several names, the first name last. -/
def remember (byte : UInt8) (names : List String) (vars : Variables) : Variables :=
  names.foldr (fun name vars => vars.set name (Value.ofByte byte)) vars

theorem get?_remember (byte : UInt8) (names : List String) (vars : Variables) (name : String) :
    (vars.remember byte names).get? name
      = if name ∈ names then some (Value.ofByte byte) else vars.get? name := by
  induction names with
  | nil => rfl
  | cons outer names ih =>
      show ((vars.remember byte names).set outer (Value.ofByte byte)).get? name = _
      rw [get?_set, ih]
      by_cases h : outer = name
      · subst h
        rw [if_pos rfl, if_pos List.mem_cons_self]
      · rw [if_neg h]
        simp only [List.mem_cons, Ne.symm h, false_or]

/-- Names that are all one are remembered as one. -/
theorem remember_of_all_eq (byte : UInt8) (outer : String) (vars : Variables) :
    ∀ {names : List String}, (∀ name ∈ names, name = outer) →
      vars.remember byte (outer :: names) = vars.remember byte [outer] := by
  intro names
  induction names with
  | nil =>
      intro _
      rfl
  | cons inner names ih =>
      intro h
      obtain ⟨rfl, hmore⟩ := List.forall_mem_cons.mp h
      show ((vars.remember byte names).set inner _).set inner _ = _
      rw [set_set]
      exact ih hmore

end Variables

namespace Element

/-- **The names under which an element stands**, the outermost first. -/
def names : Element → List String
  | .producer name value => name :: value.names
  | _ => []

/-- Whether an element stands under one name at most. -/
def shallow (element : Element) : Bool :=
  match element.names with
  | [] => true
  | outer :: inner => inner.all (· == outer)

/-- **Checking remembers a byte under all names.** -/
theorem check_eq_remember (element : Element) :
    ∀ {byte : UInt8} {vars after : Variables},
      element.check byte vars = some after → after = vars.remember byte element.names := by
  induction element with
  | producer name value ih =>
      intro byte vars after h
      obtain ⟨between, hvalue, rfl⟩ := Option.map_eq_some_iff.mp h
      rw [ih hvalue]
      rfl
  | _ =>
      intro byte vars after h
      refine eq_of_check_eq_some ?_ h
      intro name value heq
      cases heq

/-- **Parsing remembers a byte under the outermost name.** -/
theorem absorb_eq_remember (element : Element) (byte : UInt8) (args : Arguments)
    (vars : Variables) :
    (element.absorb byte args vars).2 = vars.remember byte (element.names.take 1) := by
  cases element <;> rfl

/-- A byte that fits an element under one name is parsed as it is checked. -/
theorem absorb_of_check {element : Element} (hshallow : element.shallow = true) {byte : UInt8}
    {vars after : Variables} (h : element.check byte vars = some after) (args : Arguments) :
    (element.absorb byte args vars).2 = after := by
  rw [absorb_eq_remember, element.check_eq_remember h]
  unfold shallow at hshallow
  cases hnames : element.names with
  | nil => rfl
  | cons outer inner =>
      rw [hnames] at hshallow
      have hone : ∀ name ∈ inner, name = outer := by simpa using hshallow
      exact (Variables.remember_of_all_eq byte outer vars hone).symm

end Element

/-! ## §2. Runs and parts -/

/-- Bytes that fit a run are parsed as they are checked. -/
theorem parseRun_of_checkRun (run : List Element) :
    (∀ element ∈ run, element.shallow = true) →
    ∀ {buffer rest : Bytes} {vars after : Variables},
      checkRun run buffer vars = ⟨.valid, rest, after⟩ →
      ∀ (args : Arguments), (parseRun run buffer args vars).rest = rest
        ∧ (parseRun run buffer args vars).vars = after := by
  induction run with
  | nil =>
      intro _ buffer rest vars after h args
      injection h with _ hrest hafter
      exact ⟨hrest, hafter⟩
  | cons element run ih =>
      intro hshallow buffer rest vars after h args
      obtain ⟨hfirst, hmore⟩ := List.forall_mem_cons.mp hshallow
      cases buffer with
      | nil =>
          rw [checkRun_cons_nil] at h
          cases h
      | cons byte buffer =>
          cases hc : element.check byte vars with
          | none =>
              rw [checkRun_cons_none hc] at h
              cases h
          | some between =>
              rw [checkRun_cons_some hc] at h
              have habsorb := Element.absorb_of_check hfirst hc args
              have hrun := ih hmore h (element.absorb byte args vars).1
              rw [← habsorb] at hrun
              exact hrun

namespace Part

/-- The elements that a part is made of. -/
def elements : Part → List Element
  | .bytes items | .timed _ items => items
  | .dynamic _ item => [item]
  | .optional _ _ item => item.elements
  | .empty => []

/-- Whether each element of a part stands under one name at most. -/
def shallow (part : Part) : Bool := part.elements.all Element.shallow

/-- The run of a part is made of its elements. -/
theorem mem_elements_of_run? (part : Part) :
    ∀ {known : Option Nat} {vars : Variables} {run : List Element},
      part.run? known vars = some run → ∀ element ∈ run, element ∈ part.elements := by
  induction part with
  | bytes items =>
      intro known vars run h
      injection h with h
      subst h
      exact fun _ hmem => hmem
  | timed milliseconds items =>
      intro known vars run h
      injection h with h
      subst h
      exact fun _ hmem => hmem
  | dynamic source item =>
      intro known vars run h element hmem
      obtain ⟨n, -, rfl⟩ := Option.map_eq_some_iff.mp h
      rw [List.eq_of_mem_replicate hmem]
      exact List.mem_singleton.mpr rfl
  | optional name condition item ih =>
      intro known vars run h element hmem
      obtain ⟨value, -, h⟩ := Option.bind_eq_some_iff.mp h
      cases hold : condition.holds value with
      | true =>
          rw [hold] at h
          exact ih h element hmem
      | false =>
          rw [hold] at h
          injection h with h
          rw [← h] at hmem
          exact absurd hmem List.not_mem_nil
  | empty =>
      intro known vars run h
      injection h with h
      subst h
      exact fun _ hmem => absurd hmem List.not_mem_nil

/-- A part without bytes to parse is left alone. -/
theorem parse_nil (part : Part) (known : Option Nat) (args : Arguments) (vars : Variables) :
    (part.parse known [] args vars).1 = ⟨[], args, vars⟩
      ∧ (part.parse known [] args vars).2 = none := by
  have hrun : ∀ (items : List Element), parseRun items [] args vars = ⟨[], args, vars⟩ := by
    intro items
    induction items with
    | nil => rfl
    | cons item items ih => exact ih
  cases part with
  | bytes items => exact ⟨hrun items, rfl⟩
  | timed milliseconds items => exact ⟨hrun items, rfl⟩
  | dynamic source item => exact ⟨rfl, rfl⟩
  | optional name condition item => exact ⟨rfl, rfl⟩
  | empty => exact ⟨rfl, rfl⟩

theorem parse_present {name : String} {condition : Condition} {vars : Variables} {value : Value}
    (hget : vars.get? name = some value) (hold : condition.holds value = true) {buffer : Bytes}
    (hsome : buffer ≠ []) (item : Part) (known : Option Nat) (args : Arguments) :
    parse (.optional name condition item) known buffer args vars
      = ((item.parse none buffer args vars).1,
          some (present item (item.parse none buffer args vars).2)) := by
  simp [parse, hsome, hget, hold]

theorem parse_absent {name : String} {condition : Condition} {vars : Variables} {value : Value}
    (hget : vars.get? name = some value) (hold : condition.holds value = false) {buffer : Bytes}
    (hsome : buffer ≠ []) (item : Part) (known : Option Nat) (args : Arguments) :
    parse (.optional name condition item) known buffer args vars
      = (⟨buffer, args, vars⟩, some absent) := by
  simp [parse, hsome, hget, hold]

theorem validate_present {name : String} {condition : Condition} {vars : Variables} {value : Value}
    (hget : vars.get? name = some value) (hold : condition.holds value = true)
    (item : Part) (known : Option Nat) (buffer : Bytes) :
    validate (.optional name condition item) known buffer vars
      = ((item.validate none buffer vars).1,
          some (present item (item.validate none buffer vars).2)) := by
  simp [validate, hget, hold]

theorem validate_absent {name : String} {condition : Condition} {vars : Variables} {value : Value}
    (hget : vars.get? name = some value) (hold : condition.holds value = false)
    (item : Part) (known : Option Nat) (buffer : Bytes) :
    validate (.optional name condition item) known buffer vars
      = (⟨.valid, buffer, vars⟩, some absent) := by
  simp [validate, hget, hold]

/-- **Parsing a part that has bytes** parses its run, and resolves it as
    checking does. -/
theorem parse_eq_parseRun (part : Part) {buffer : Bytes} (hsome : buffer ≠ [])
    (args : Arguments) (vars : Variables) :
    ∀ {known : Option Nat} {run : List Element}, part.run? known vars = some run →
      (part.parse known buffer args vars).1 = parseRun run buffer args vars
        ∧ (part.parse known buffer args vars).2 = (part.validate known buffer vars).2 := by
  have hbuffer : buffer.isEmpty = false := by simpa using hsome
  induction part with
  | bytes items =>
      intro known run h
      injection h with h
      subst h
      exact ⟨rfl, rfl⟩
  | timed milliseconds items =>
      intro known run h
      injection h with h
      subst h
      exact ⟨rfl, rfl⟩
  | dynamic source item =>
      intro known run h
      obtain ⟨n, hlength, rfl⟩ := Option.map_eq_some_iff.mp h
      unfold parse validate
      rw [hbuffer, hlength]
      exact ⟨rfl, rfl⟩
  | optional name condition item ih =>
      intro known run h
      obtain ⟨value, hget, h⟩ := Option.bind_eq_some_iff.mp h
      cases hold : condition.holds value with
      | true =>
          rw [hold] at h
          obtain ⟨hparsed, hresolution⟩ := ih h
          rw [parse_present hget hold hsome, validate_present hget hold, hresolution]
          exact ⟨hparsed, rfl⟩
      | false =>
          rw [hold] at h
          injection h with h
          subst h
          rw [parse_absent hget hold hsome, validate_absent hget hold]
          exact ⟨rfl, rfl⟩
  | empty =>
      intro known run h
      injection h with h
      subst h
      exact ⟨rfl, rfl⟩

/-- **A part that is checked is counted as its run.** -/
theorem count_validate (part : Part) (buffer : Bytes) (vars : Variables) {known : Option Nat}
    {run : List Element} (h : part.run? known vars = some run) :
    part.count (part.validate known buffer vars).2 = run.length := by
  have hforeseen := part.foreseen_eq_length vars known
  rw [h] at hforeseen
  rw [resolution_validate]
  exact hforeseen

/-- **Parsing a part that fits** takes the same bytes, leaves the same
    variables and counts the same. -/
theorem parse_of_valid {part : Part} (hshallow : part.shallow = true) {buffer rest : Bytes}
    {vars after : Variables}
    (h : (part.validate none buffer vars).1 = ⟨.valid, rest, after⟩) (args : Arguments) :
    (part.parse none buffer args vars).1.rest = rest
      ∧ (part.parse none buffer args vars).1.vars = after
      ∧ part.count (part.parse none buffer args vars).2
        = part.count (part.validate none buffer vars).2 := by
  have hfit := h
  rw [validate_eq_checkRun] at hfit
  cases hrun : part.run? none vars with
  | none =>
      rw [hrun] at hfit
      cases hfit
  | some run =>
      rw [hrun] at hfit
      have hfit : checkRun run buffer vars = ⟨.valid, rest, after⟩ := hfit
      by_cases hsome : buffer = []
      · -- a run that fits no bytes is empty, so nothing had to be resolved
        subst hsome
        obtain ⟨hparsed, hresolution⟩ := part.parse_nil none args vars
        rw [hparsed, hresolution, part.count_validate [] vars hrun]
        cases run with
        | nil =>
            injection hfit with _ hrest hafter
            refine ⟨hrest, hafter, ?_⟩
            cases part with
            | bytes items | timed milliseconds items =>
                injection hrun with hrun
                exact congrArg List.length hrun
            | _ => rfl
        | cons element run =>
            rw [checkRun_cons_nil] at hfit
            cases hfit
      · obtain ⟨hparsed, hresolution⟩ := part.parse_eq_parseRun hsome args vars hrun
        rw [hparsed, hresolution]
        have hall : ∀ element ∈ run, element.shallow = true := fun element hmem =>
          List.all_eq_true.mp hshallow element (part.mem_elements_of_run? hrun element hmem)
        obtain ⟨hrest, hvars⟩ := parseRun_of_checkRun run hall hfit args
        exact ⟨hrest, hvars, rfl⟩

end Part

/-! ## §3. Scripts -/

namespace Context

variable {ctx : Context} {id other : PartId}

/-- What is recorded for one identity is not seen under another. -/
theorem resolution?_record_of_ne (h : other ≠ id) (vars : Variables)
    (resolution : Option Resolution) :
    (ctx.record id vars resolution).resolution? other = ctx.resolution? other := by
  cases resolution with
  | none => rfl
  | some r => rw [resolution?_record, if_neg h]

/-- Under the identity itself what is recorded is seen first. -/
theorem resolution?_record_or (ctx : Context) (id : PartId) (vars : Variables)
    (resolution : Option Resolution) :
    (ctx.record id vars resolution).resolution? id = resolution.or (ctx.resolution? id) := by
  cases resolution with
  | none => rfl
  | some r => rw [resolution?_record, if_pos rfl, Option.some_or]

/-- An identity that was not resolved before is resolved to what is
    recorded. -/
theorem resolution?_record_self (h : ctx.resolution? id = none) (vars : Variables)
    (resolution : Option Resolution) :
    (ctx.record id vars resolution).resolution? id = resolution := by
  rw [resolution?_record_or, h, Option.or_none]

end Context

namespace Script

/-- A script that fits begins with a step that fits. -/
theorem validate_cons_eq_valid {step : Step} {script : Script} {buffer rest : Bytes}
    {ctx after : Context} (h : validate (step :: script) buffer ctx = (.valid, rest, after)) :
    ∃ between left resolution,
      step.part.validate (ctx.knownLength? step.id) buffer ctx.vars
          = (⟨.valid, left, between⟩, resolution)
        ∧ script.validate left (ctx.record step.id between resolution) = (.valid, rest, after) := by
  rw [validate, Step.validate] at h
  generalize step.part.validate (ctx.knownLength? step.id) buffer ctx.vars = c at h
  obtain ⟨⟨verdict, left, between⟩, resolution⟩ := c
  cases verdict with
  | valid => exact ⟨between, left, resolution, rfl, h⟩
  | invalid => cases h
  | incomplete => cases h

theorem parse_cons (step : Step) (script : Script) (buffer : Bytes) (args : Arguments)
    (ctx : Context) :
    parse (step :: script) buffer args ctx
      = let p := step.part.parse (ctx.knownLength? step.id) buffer args ctx.vars
        script.parse p.1.rest p.1.args (ctx.record step.id p.1.vars p.2) := rfl

/-- Parsing resolves no step of another script. -/
theorem resolution?_parse (script : Script) :
    ∀ (buffer : Bytes) (args : Arguments) (ctx : Context) {id : PartId},
      id ∉ script.map Step.id →
      (script.parse buffer args ctx).2.2.resolution? id = ctx.resolution? id := by
  induction script with
  | nil =>
      intro buffer args ctx id _
      rfl
  | cons step script ih =>
      intro buffer args ctx id hid
      have hne := List.ne_of_not_mem_cons hid
      have hmore := List.not_mem_of_not_mem_cons hid
      rw [parse_cons]
      dsimp only
      rw [ih _ _ _ hmore, Context.resolution?_record_of_ne hne]

/-- Checking that finds a fit resolves no step of another script. -/
theorem resolution?_of_valid (script : Script) :
    ∀ {buffer rest : Bytes} {ctx after : Context} {id : PartId},
      script.validate buffer ctx = (.valid, rest, after) → id ∉ script.map Step.id →
      after.resolution? id = ctx.resolution? id := by
  induction script with
  | nil =>
      intro buffer rest ctx after id h _
      obtain ⟨-, h⟩ := Prod.mk.inj h
      obtain ⟨-, rfl⟩ := Prod.mk.inj h
      rfl
  | cons step script ih =>
      intro buffer rest ctx after id h hid
      have hne := List.ne_of_not_mem_cons hid
      have hmore := List.not_mem_of_not_mem_cons hid
      obtain ⟨between, left, resolution, -, hscript⟩ := validate_cons_eq_valid h
      rw [ih hscript hmore, Context.resolution?_record_of_ne hne]

/-- **Parsing a script that fits**, from a context that may have resolved
    other scripts: the same bytes, the same variables, and the same count for
    each step. -/
theorem parse_of_valid (script : Script) :
    (∀ step ∈ script, step.part.shallow = true) →
    ∀ {buffer rest : Bytes} {ctx ctx' after : Context},
      script.Unresolved ctx → script.Unresolved ctx' → ctx.vars = ctx'.vars →
      script.validate buffer ctx = (.valid, rest, after) →
      ∀ (args : Arguments),
        (script.parse buffer args ctx').1 = rest
          ∧ (script.parse buffer args ctx').2.2.vars = after.vars
          ∧ ∀ step ∈ script,
              step.count (script.parse buffer args ctx').2.2 = step.count after := by
  induction script with
  | nil =>
      intro _ buffer rest ctx ctx' after _ _ hvars h args
      obtain ⟨-, h⟩ := Prod.mk.inj h
      obtain ⟨hrest, rfl⟩ := Prod.mk.inj h
      exact ⟨hrest, hvars.symm, fun _ hmem => absurd hmem List.not_mem_nil⟩
  | cons step script ih =>
      intro hshallow buffer rest ctx ctx' after hfresh hfresh' hvars h args
      obtain ⟨hfirst, hmore⟩ := List.forall_mem_cons.mp hshallow
      obtain ⟨between, left, resolution, hpart, hscript⟩ := validate_cons_eq_valid h
      rw [hfresh.knownLength?] at hpart
      obtain ⟨hrest, hbetween, hcount⟩ :=
        Part.parse_of_valid hfirst (congrArg Prod.fst hpart) args
      rw [hpart] at hcount
      rw [parse_cons, hfresh'.knownLength?, ← hvars]
      dsimp only
      generalize step.part.parse none buffer args ctx.vars = p at hrest hbetween hcount ⊢
      obtain ⟨⟨_, args', _⟩, resolution'⟩ := p
      obtain rfl : _ = left := hrest
      obtain rfl : _ = between := hbetween
      obtain ⟨hrest, hafter, hcounts⟩ := ih hmore (hfresh.tail.record hfresh.apart _ resolution)
        (hfresh'.tail.record hfresh'.apart _ resolution')
        (by rw [Context.vars_record, Context.vars_record]) hscript args'
      refine ⟨hrest, hafter, List.forall_mem_cons.mpr ⟨?_, hcounts⟩⟩
      -- the steps that follow leave the resolution of this one alone
      unfold Step.count
      rw [resolution?_parse script _ _ _ hfresh.apart,
        resolution?_of_valid script hscript hfresh.apart,
        Context.resolution?_record_self (hfresh.fresh step List.mem_cons_self),
        Context.resolution?_record_self (hfresh'.fresh step List.mem_cons_self)]
      exact hcount

/-- A script whose steps count the same counts the same. -/
theorem count_congr {script : Script} {ctx ctx' : Context}
    (h : ∀ step ∈ script, step.count ctx = step.count ctx') :
    script.count ctx = script.count ctx' := by
  induction script with
  | nil => rfl
  | cons step script ih =>
      obtain ⟨hstep, hmore⟩ := List.forall_mem_cons.mp h
      rw [count, count, hstep, ih hmore]

/-- A byte that fits an element, checked and parsed as a script of its
    own. -/
theorem parse_element (id : PartId) (element : Element) {byte : UInt8} {vars after : Variables}
    (h : element.check byte vars = some after) (args : Arguments) :
    validate [⟨id, .bytes [element]⟩] [byte] ⟨vars, []⟩ = (.valid, [], ⟨after, []⟩)
      ∧ (parse [⟨id, .bytes [element]⟩] [byte] args ⟨vars, []⟩).2.2.vars
        = vars.remember byte (element.names.take 1) := by
  refine ⟨?_, element.absorb_eq_remember byte args vars⟩
  rw [validate, Step.validate, Part.validate, checkRun_cons_some h]
  rfl

/-- **PARSING FOLLOWS CHECKING, except under inner names.**  Let checking find
    that a buffer fits a script of which no step has been resolved.  Where
    no byte stands under several names, parsing the same buffer from the same
    context leaves the same bytes, the same variables and the same count.  But
    a byte that stands under several names is parsed into the outermost
    alone: parsing a single byte that fits gives every variable the value
    that checking gives it if and only if each inner name is the outermost
    again, or had that value before. -/
theorem parse_follows_validate {script : Script} {ctx : Context} (hfresh : script.Unresolved ctx)
    {buffer rest : Bytes} {after : Context}
    (hvalid : script.validate buffer ctx = (.valid, rest, after)) (args : Arguments) :
    ((∀ step ∈ script, step.part.shallow = true) →
        (script.parse buffer args ctx).1 = rest
          ∧ (script.parse buffer args ctx).2.2.vars = after.vars
          ∧ script.count (script.parse buffer args ctx).2.2 = script.count after)
      ∧ ∀ (id : PartId) (element : Element) (byte : UInt8) (vars after : Variables),
          validate [⟨id, .bytes [element]⟩] [byte] ⟨vars, []⟩ = (.valid, [], ⟨after, []⟩) →
          ((∀ name,
              (parse [⟨id, .bytes [element]⟩] [byte] args ⟨vars, []⟩).2.2.vars.get? name
                = after.get? name) ↔
            ∀ name ∈ element.names.drop 1,
              name ∈ element.names.take 1 ∨ vars.get? name = some (Value.ofByte byte)) := by
  refine ⟨?_, ?_⟩
  · intro hshallow
    obtain ⟨hrest, hvars, hcounts⟩ :=
      script.parse_of_valid hshallow hfresh hfresh rfl hvalid args
    exact ⟨hrest, hvars, count_congr hcounts⟩
  · intro id element byte vars after hbyte
    cases hcheck : element.check byte vars with
    | none =>
        rw [validate, Step.validate, Part.validate, checkRun_cons_none hcheck] at hbyte
        cases hbyte
    | some after' =>
        obtain ⟨hvalid, hparse⟩ := parse_element id element hcheck args
        rw [hvalid] at hbyte
        obtain rfl : after' = after := by simpa using hbyte
        rw [hparse, element.check_eq_remember hcheck]
        -- only the names beyond the first are remembered by checking alone
        have hsplit : ∀ name, name ∈ element.names
            ↔ name ∈ element.names.take 1 ∨ name ∈ element.names.drop 1 := by
          intro name
          rw [← List.mem_append, List.take_append_drop]
        simp only [Variables.get?_remember, hsplit]
        constructor
        · intro hsame name hinner
          by_cases houter : name ∈ element.names.take 1
          · exact .inl houter
          · have h := hsame name
            rw [if_neg houter, if_pos (.inr hinner)] at h
            exact .inr h
        · intro hknown name
          by_cases houter : name ∈ element.names.take 1
          · rw [if_pos houter, if_pos (.inl houter)]
          · by_cases hinner : name ∈ element.names.drop 1
            · rw [if_neg houter, if_pos (.inr hinner)]
              exact (hknown name hinner).resolve_left houter
            · rw [if_neg houter, if_neg (not_or.mpr ⟨houter, hinner⟩)]

/-- A number with its two bytes is parsed as it is checked; but a number that
    stands under two names is missing under the inner one. -/
theorem parse_follows_validate_counted :
    (ofDescription 0 .counted).Unresolved .empty
      ∧ (ofDescription 0 .counted).validate [2, 7, 8, 9] .empty
        = (.valid, [9], ((ofDescription 0 .counted).validate [2, 7, 8, 9] .empty).2.2)
      ∧ ((ofDescription 0 .counted).parse [2, 7, 8, 9] [] .empty).1 = [9]
      ∧ (ofDescription 0 .counted).count
          ((ofDescription 0 .counted).parse [2, 7, 8, 9] [] .empty).2.2 = 3
      ∧ ¬ ∀ name,
          (parse [⟨0, .bytes [.producer "a" (.producer "b" .random)]⟩] [2] [] .empty).2.2.vars.get?
              name
            = Variables.get? ⟨[("b", .int 2), ("a", .int 2)]⟩ name := by
  have hfresh := unresolved_ofDescription 0 .counted
  have hvalid : (ofDescription 0 .counted).validate [2, 7, 8, 9] .empty
      = (.valid, [9], ((ofDescription 0 .counted).validate [2, 7, 8, 9] .empty).2.2) := by decide
  obtain ⟨hfollows, hmisses⟩ := parse_follows_validate hfresh hvalid []
  obtain ⟨hrest, -, hcount⟩ := hfollows (by decide)
  refine ⟨hfresh, hvalid, hrest, hcount.trans (by decide), ?_⟩
  intro hsame
  have hiff := hmisses 0 (.producer "a" (.producer "b" .random)) 2 .empty
    ⟨[("b", .int 2), ("a", .int 2)]⟩ (by decide)
  exact absurd (hiff.mp hsame "b" (by decide)) (by decide)

end Script

end Masquerade
