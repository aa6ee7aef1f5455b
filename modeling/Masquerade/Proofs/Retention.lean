/-
  Masquerade.Proofs.Retention — WHAT A CONTEXT RETAINS OF A PART that has been
  generated.

  Generating a part settles its run, and the context keeps the length.  Where
  no element of the part is remembered under a name, nothing changes the
  variables, so the part goes on to stand for the run that was generated:
  counting, resolving, checking and parsing it all agree, in any order and
  any number of times.

  One kind of part is the exception.  A run whose length was an argument is
  known by its recorded length alone, and what an optional part guards is
  evaluated as if nothing had been recorded for it (`Part.forgets`).  Such a
  part is counted rightly as long as nobody evaluates it again; then it is
  refused unseen and counts nothing.

  Main results:
    * `Part.exists_run_of_generate` — a part is generated as a run, and
      counted as long.
    * `Step.Stands.meanwhile` — a step goes on to stand for its run.
    * `Step.stays_fixed` — what is fixed stays fixed, and what is forgotten.
-/
import Masquerade.Proofs.Following
import Masquerade.Proofs.Generation
import Masquerade.Proofs.Motion

namespace Masquerade

/-! ## §1. Runs without names -/

/-- A byte that is remembered under no name changes no variable. -/
theorem Element.eq_of_check_of_unnamed {element : Element} (hnames : element.names = [])
    {byte : UInt8} {vars after : Variables} (h : element.check byte vars = some after) :
    after = vars := by
  have hremember := element.check_eq_remember h
  rw [hnames] at hremember
  exact hremember

/-- Checking a run without names changes no variable. -/
theorem vars_checkRun (run : List Element) :
    (∀ element ∈ run, element.names = []) → ∀ (buffer : Bytes) (vars : Variables),
      (checkRun run buffer vars).vars = vars := by
  induction run with
  | nil =>
      intro _ buffer vars
      rfl
  | cons element run ih =>
      intro hnames buffer vars
      obtain ⟨hfirst, hmore⟩ := List.forall_mem_cons.mp hnames
      cases buffer with
      | nil => rfl
      | cons byte buffer =>
          cases hc : element.check byte vars with
          | none => rw [checkRun_cons_none hc]
          | some after =>
              obtain rfl := Element.eq_of_check_of_unnamed hfirst hc
              rw [checkRun_cons_some hc]
              exact ih hmore buffer after

/-- Parsing a run without names changes no variable. -/
theorem vars_parseRun (run : List Element) :
    (∀ element ∈ run, element.names = []) →
    ∀ (buffer : Bytes) (args : Arguments) (vars : Variables),
      (parseRun run buffer args vars).vars = vars := by
  induction run with
  | nil =>
      intro _ buffer args vars
      rfl
  | cons element run ih =>
      intro hnames buffer args vars
      obtain ⟨hfirst, hmore⟩ := List.forall_mem_cons.mp hnames
      cases buffer with
      | nil => exact ih hmore [] args vars
      | cons byte buffer =>
          have habsorb := element.absorb_eq_remember byte args vars
          rw [hfirst] at habsorb
          show (parseRun run buffer (element.absorb byte args vars).1
            (element.absorb byte args vars).2).vars = vars
          rw [habsorb]
          exact ih hmore buffer _ vars

/-- A run that was generated has as many elements as bytes. -/
theorem length_of_generateRun {run : List Element} {s after : Supply} {word : Bytes}
    (h : generateRun .strict run s = (.ok word, after)) : word.length = run.length := by
  have hfits := checkRun_of_generateRun run h []
  rw [List.append_nil] at hfits
  obtain ⟨hle, hrest⟩ := checkRun_rest_of_valid run word s.vars (by rw [hfits])
  have hleft := congrArg List.length hrest
  rw [hfits, List.length_drop] at hleft
  have hleft : 0 = word.length - run.length := hleft
  omega

/-! ## §2. Parts -/

namespace Part

/-- Whether no byte of a part is remembered under a name. -/
def unnamed (part : Part) : Bool := part.elements.all (·.names.isEmpty)

/-- **Whether the length of a part hangs on an argument** under these
    variables. -/
def hangsOnArgument (vars : Variables) : Part → Bool
  | .dynamic .argument _ => true
  | .optional name condition item =>
    (vars.get? name).any condition.holds && item.hangsOnArgument vars
  | _ => false

/-- **Whether a part forgets the length it was generated with:** what it
    guards hangs on an argument, and is present. -/
def forgets (vars : Variables) : Part → Bool
  | .optional name condition item => hangsOnArgument vars (.optional name condition item)
  | _ => false

section

variable {part : Part} {vars : Variables} {known : Option Nat} {run : List Element}

/-- Only lengths that hang on an argument are forgotten. -/
theorem forgets_of_not_hangs (h : part.hangsOnArgument vars = false) :
    part.forgets vars = false := by
  cases part with
  | optional name condition item => exact h
  | _ => rfl

/-- Where nothing hangs on an argument, what was recorded does not matter. -/
theorem run?_of_not_hangs (h : part.hangsOnArgument vars = false) (known : Option Nat) :
    part.run? known vars = part.run? none vars := by
  cases part with
  | dynamic source item =>
      cases source with
      | argument => cases h
      | named name => rfl
      | seeded name => rfl
  | _ => rfl

/-- Without a recorded length a part that hangs on an argument has no run. -/
theorem run?_of_hangs (part : Part) :
    part.hangsOnArgument vars = true → part.run? none vars = none := by
  induction part with
  | dynamic source item =>
      intro h
      cases source with
      | argument => rfl
      | named name => cases h
      | seeded name => cases h
  | optional name condition item ih =>
      intro h
      obtain ⟨hpresent, hitem⟩ := (Bool.and_eq_true _ _).mp h
      unfold run?
      cases hget : vars.get? name with
      | none => rfl
      | some value =>
          rw [hget] at hpresent
          have hold : condition.holds value = true := hpresent
          rw [Option.bind_some, if_pos hold]
          exact ih hitem
  | bytes items | timed milliseconds items | empty =>
      intro h
      cases h

/-- A part that forgets has no run, whatever was recorded. -/
theorem run?_of_forgets (h : part.forgets vars = true) : part.run? known vars = none := by
  cases part with
  | optional name condition item =>
      exact run?_of_hangs (.optional name condition item) h
  | _ => cases h

/-- A part of a fixed shape has its run, whatever was recorded. -/
theorem run?_of_isFixed (h : part.isFixed = true) (known known' : Option Nat) :
    part.run? known vars = part.run? known' vars := by
  cases part with
  | dynamic source item => cases h
  | _ => rfl

/-- A part that forgets is recorded whenever it is evaluated. -/
theorem records_of_forgets (h : part.forgets vars = true) (known : Option Nat) :
    (∃ r, part.resolve known vars = some r)
      ∧ ∀ (buffer : Bytes), ∃ r, (part.validate known buffer vars).2 = some r := by
  have hrecords : ∃ r, part.resolve known vars = some r := by
    cases part with
    | optional name condition item =>
        obtain ⟨hpresent, -⟩ := (Bool.and_eq_true _ _).mp h
        obtain ⟨value, hget, -⟩ := (Option.any_eq_true _ _).mp hpresent
        exact ⟨_, Option.map_eq_some_iff.mpr ⟨value, hget, rfl⟩⟩
    | _ => cases h
  obtain ⟨r, hr⟩ := hrecords
  exact ⟨⟨r, hr⟩, fun buffer => ⟨r, (part.resolution_validate buffer vars known).trans hr⟩⟩

/-- Recording the length of its run keeps the run of a part. -/
theorem run?_of_count {r : Resolution} (h : part.run? known vars = some run)
    (hcount : part.count (some r) = run.length) : part.run? (some r.length) vars = some run := by
  cases part with
  | dynamic source item =>
      cases source with
      | argument =>
          -- the run has as many elements as the record says
          obtain ⟨n, hlength, rfl⟩ := Option.map_eq_some_iff.mp h
          obtain ⟨-, hle⟩ := Option.filter_eq_some_iff.mp hlength
          have hcount : r.length = n := by
            rw [List.length_replicate] at hcount
            exact hcount
          refine Option.map_eq_some_iff.mpr ⟨n, Option.filter_eq_some_iff.mpr ⟨?_, hle⟩, rfl⟩
          exact congrArg some hcount
      | named name => exact h
      | seeded name => exact h
  | _ => exact h

/-- The elements of an unnamed part's run are unnamed. -/
theorem names_of_run? (hunnamed : part.unnamed = true) (h : part.run? known vars = some run) :
    ∀ element ∈ run, element.names = [] := by
  intro element hmem
  have hnone := List.all_eq_true.mp hunnamed element (part.mem_elements_of_run? h element hmem)
  exact List.isEmpty_iff.mp hnone

/-- A part that is checked without a run counts nothing. -/
theorem count_validate_of_no_run (part : Part) (buffer : Bytes) {known : Option Nat}
    (h : part.run? known vars = none) :
    part.count (part.validate known buffer vars).2 = 0 := by
  have hforeseen := part.foreseen_eq_length vars known
  rw [h] at hforeseen
  rw [resolution_validate]
  exact hforeseen

end

/-! ## §3. Generation -/

/-- **A part is generated as a run** of its elements: it is counted as long as
    the run, and stands for it unless it forgets. -/
structure Realizes (part : Part) (s : Supply) (word : Bytes) (after : Supply)
    (resolution : Option Resolution) (run : List Element) : Prop where
  generated : ∃ s', s'.vars = s.vars ∧ generateRun .strict run s' = (.ok word, after)
  elements : ∀ element ∈ run, element ∈ part.elements
  counted : part.count resolution = run.length
  settled : resolution = none → part.isFixed = true
  retained : part.forgets s.vars = false → part.run? (some run.length) s.vars = some run

/-- A message that is generated is its run, and what was to be recorded is. -/
theorem generateMessage_eq_ok {delay : Option UInt64} {run : List Element} {s : Supply}
    {resolution : Option Resolution} {message : Option Message}
    (h : (generateMessage .strict delay run s resolution).outcome = .ok message) :
    generateRun .strict run s
        = (.ok (sentBytes message), (generateMessage .strict delay run s resolution).supply)
      ∧ (generateMessage .strict delay run s resolution).resolution = resolution := by
  constructor
  · rw [← yields_generateMessage .strict delay run s resolution, h]
    rfl
  · unfold generateMessage at h ⊢
    cases hgen : generateRun .strict run s with
    | mk outcome s' =>
        rw [hgen] at h
        cases outcome with
        | error e => cases h
        | ok word => rfl

/-- A length that generation uses is within the limit, and the variables stay
    as they are. -/
theorem takeLength_eq_ok {source : LengthSource} {s after : Supply} {n : Nat}
    (h : takeLength source s = (.ok n, after)) :
    after.vars = s.vars ∧ usableLength? source (some n) s.vars = some n := by
  by_cases hsource : source = .argument
  · subst hsource
    unfold takeLength at h
    cases hpop : s.args.popInt with
    | mk popped args =>
        rw [hpop] at h
        cases popped with
        | error e => cases (Prod.mk.inj h).1
        | ok m =>
            dsimp only at h
            split at h
            next length hlength =>
              obtain ⟨hlimit, rfl⟩ := Prod.mk.inj h
              split at hlimit
              next hle =>
                injection hlimit with hlimit
                subst hlimit
                exact ⟨rfl, Option.filter_eq_some_iff.mpr ⟨rfl, decide_eq_true hle⟩⟩
              next => cases hlimit
            next => cases (Prod.mk.inj h).1
  · cases hlength : usableLength? source none s.vars with
    | none =>
        obtain ⟨e, htake⟩ := takeLength_of_unusable hsource hlength
        rw [htake] at h
        cases (Prod.mk.inj h).1
    | some m =>
        rw [takeLength_of_usable hsource hlength] at h
        obtain ⟨hm, rfl⟩ := Prod.mk.inj h
        injection hm with hm
        subst hm
        refine ⟨rfl, ?_⟩
        -- only an argument is known by its record
        cases source with
        | argument => exact absurd rfl hsource
        | named name => exact hlength
        | seeded name => exact hlength

/-- **Whatever is generated realizes the part.** -/
theorem exists_run_of_generate (part : Part) :
    ∀ {s : Supply} {message : Option Message},
      (part.generate .strict s).outcome = .ok message →
      ∃ run, part.Realizes s (sentBytes message) (part.generate .strict s).supply
        (part.generate .strict s).resolution run := by
  induction part with
  | bytes items | timed milliseconds items =>
      intro s message h
      obtain ⟨hgen, -⟩ := generateMessage_eq_ok h
      exact ⟨items, ⟨s, rfl, hgen⟩, fun _ hmem => hmem, rfl, fun _ => rfl, fun _ => rfl⟩
  | dynamic source item =>
      intro s message h
      unfold generate at h ⊢
      cases htake : takeLength source s with
      | mk length s' =>
          rw [htake] at h
          cases length with
          | error e => cases h
          | ok n =>
              obtain ⟨hvars, hlength⟩ := takeLength_eq_ok htake
              obtain ⟨hgen, hresolution⟩ := generateMessage_eq_ok h
              refine ⟨List.replicate n item, ⟨s', hvars, hgen⟩, ?_, ?_, ?_, ?_⟩
              · intro element hmem
                rw [List.eq_of_mem_replicate hmem]
                exact List.mem_singleton.mpr rfl
              · rw [hresolution, List.length_replicate]
                rfl
              · intro hnone
                rw [hresolution] at hnone
                cases hnone
              · intro _
                rw [List.length_replicate]
                exact Option.map_eq_some_iff.mpr ⟨n, hlength, rfl⟩
  | optional name condition item ih =>
      intro s message h
      cases hget : s.vars.get? name with
      | none =>
          rw [generate_unset hget] at h
          cases h
      | some value =>
          cases hold : condition.holds value with
          | false =>
              rw [generate_absent hget hold] at h ⊢
              injection h with h
              rw [← h]
              refine ⟨[], ⟨s, rfl, rfl⟩, fun _ hmem => absurd hmem List.not_mem_nil, rfl,
                fun hnone => absurd hnone (Option.some_ne_none _), ?_⟩
              intro _
              unfold run?
              rw [hget, Option.bind_some, hold]
              rfl
          | true =>
              -- what is guarded is generated as if nothing had been recorded
              rw [generate_present hget hold] at h ⊢
              cases hinner : (item.generate .strict s).outcome with
              | error e =>
                  rw [hinner] at h
                  cases h
              | ok inner =>
                  rw [hinner] at h
                  injection h with h
                  rw [← h]
                  obtain ⟨run, hgen, helements, hcount, -, hretained⟩ := ih hinner
                  refine ⟨run, hgen, helements, hcount,
                    fun hnone => absurd hnone (Option.some_ne_none _), ?_⟩
                  intro hforgets
                  have hitem : item.hangsOnArgument s.vars = false := by
                    simpa [forgets, hangsOnArgument, hget, hold] using hforgets
                  unfold run?
                  rw [hget, Option.bind_some, if_pos hold, ← run?_of_not_hangs hitem]
                  exact hretained (forgets_of_not_hangs hitem)
  | empty =>
      intro s message h
      injection h with h
      rw [← h]
      exact ⟨[], ⟨s, rfl, rfl⟩, fun _ hmem => absurd hmem List.not_mem_nil, rfl, fun _ => rfl,
        fun _ => rfl⟩

namespace Realizes

variable {part : Part} {s after : Supply} {word : Bytes} {resolution : Option Resolution}
  {run : List Element}

theorem names (h : part.Realizes s word after resolution run) (hunnamed : part.unnamed = true) :
    ∀ element ∈ run, element.names = [] := by
  intro element hmem
  have hnone := List.all_eq_true.mp hunnamed element (h.elements element hmem)
  exact List.isEmpty_iff.mp hnone

/-- As many bytes were generated as the run has elements. -/
theorem length_word (h : part.Realizes s word after resolution run) :
    word.length = run.length := by
  obtain ⟨s', -, hgen⟩ := h.generated
  exact length_of_generateRun hgen

/-- **Generating an unnamed part changes no variable,** and what was generated
    just fits the run. -/
theorem checkRun_word (h : part.Realizes s word after resolution run)
    (hunnamed : part.unnamed = true) :
    after.vars = s.vars ∧ checkRun run word s.vars = ⟨.valid, [], s.vars⟩ := by
  obtain ⟨s', hvars, hgen⟩ := h.generated
  have hfits := checkRun_of_generateRun run hgen []
  rw [List.append_nil, hvars] at hfits
  have hkept := vars_checkRun run (h.names hunnamed) word s.vars
  rw [hfits] at hkept
  have hkept : after.vars = s.vars := hkept
  rw [hkept] at hfits
  exact ⟨hkept, hfits⟩

end Realizes

end Part

/-! ## §4. Steps -/

namespace Step

/-- **A step stands for a run** in a context: under these variables it is
    checked and parsed as the run, and counted as long. -/
structure Stands (step : Step) (vars : Variables) (run : List Element) (ctx : Context) : Prop where
  same : ctx.vars = vars
  shape : step.part.run? (ctx.knownLength? step.id) vars = some run
  counted : step.count ctx = run.length

/-- **What may happen meanwhile:** the step is evaluated again, but not
    generated, or something else is done that changes no variable. -/
inductive Meanwhile (step : Step) (ctx : Context) : Context → Prop where
  | resolve : Meanwhile step ctx (step.resolve ctx)
  | validate (buffer : Bytes) : Meanwhile step ctx (step.validate buffer ctx).2.2
  | parse (buffer : Bytes) (args : Arguments) : Meanwhile step ctx (step.parse buffer args ctx).2.2
  /-- Anything that is done to other steps. -/
  | elsewhere {ctx' : Context} (hvars : ctx'.vars = ctx.vars)
      (hother : ctx'.resolution? step.id = ctx.resolution? step.id) : Meanwhile step ctx ctx'

section

variable {step : Step} {vars : Variables} {run : List Element} {ctx ctx' : Context}

/-- A step is counted as it was recorded. -/
theorem count_record (step : Step) (ctx : Context) (vars : Variables) (r : Resolution) :
    step.count (ctx.record step.id vars (some r)) = step.part.count (some r) := by
  unfold count
  rw [Context.resolution?_record, if_pos rfl]

/-- What checking a step makes of its part. -/
theorem validate_eq (step : Step) (buffer : Bytes) (ctx : Context) :
    step.validate buffer ctx
      = let checked := step.part.validate (ctx.knownLength? step.id) buffer ctx.vars
        (checked.1.verdict, checked.1.rest, ctx.record step.id checked.1.vars checked.2) := rfl

/-- A step that is recorded with the length of its run stands for it. -/
theorem stands_of_record {known : Option Nat} (hrun : step.part.run? known vars = some run)
    {r : Resolution} (hcount : step.part.count (some r) = run.length) :
    step.Stands vars run (ctx.record step.id vars (some r)) := by
  refine ⟨rfl, ?_, (step.count_record ctx vars r).trans hcount⟩
  unfold Context.knownLength?
  rw [Context.resolution?_record, if_pos rfl]
  exact Part.run?_of_count hrun hcount

/-- Recording nothing, or the length of its run, a step goes on to stand for
    it. -/
theorem Stands.record (h : step.Stands vars run ctx) {resolution : Option Resolution}
    (hcount : resolution ≠ none → step.part.count resolution = run.length) :
    step.Stands vars run (ctx.record step.id vars resolution) := by
  cases resolution with
  | none => exact ⟨rfl, h.shape, h.counted⟩
  | some r => exact stands_of_record h.shape (hcount (Option.some_ne_none r))

/-- Resolving a step again changes nothing. -/
theorem Stands.resolve (h : step.Stands vars run ctx) : step.Stands vars run (step.resolve ctx) := by
  unfold Step.resolve
  rw [h.same]
  refine h.record ?_
  intro _
  have hforeseen := step.part.foreseen_eq_length vars (ctx.knownLength? step.id)
  rw [h.shape] at hforeseen
  exact hforeseen

/-- Checking a step without names changes nothing. -/
theorem Stands.validate (h : step.Stands vars run ctx) (hunnamed : step.part.unnamed = true)
    (buffer : Bytes) : step.Stands vars run (step.validate buffer ctx).2.2 := by
  show step.Stands vars run (ctx.record step.id _ _)
  rw [h.same, Part.validate_eq_checkRun, h.shape]
  show step.Stands vars run (ctx.record step.id (checkRun run buffer vars).vars _)
  rw [vars_checkRun run (Part.names_of_run? hunnamed h.shape)]
  exact h.record fun _ => step.part.count_validate buffer vars h.shape

/-- Parsing a step without names changes nothing. -/
theorem Stands.parse (h : step.Stands vars run ctx) (hunnamed : step.part.unnamed = true)
    (buffer : Bytes) (args : Arguments) :
    step.Stands vars run (step.parse buffer args ctx).2.2 := by
  show step.Stands vars run (ctx.record step.id _ _)
  rw [h.same]
  by_cases hsome : buffer = []
  · -- nothing is parsed and nothing recorded
    subst hsome
    obtain ⟨hparsed, hresolution⟩ := step.part.parse_nil (ctx.knownLength? step.id) args vars
    rw [hparsed, hresolution]
    exact h.record fun hne => absurd rfl hne
  · obtain ⟨hparsed, hresolution⟩ := step.part.parse_eq_parseRun hsome args vars h.shape
    rw [hparsed, hresolution, vars_parseRun run (Part.names_of_run? hunnamed h.shape)]
    exact h.record fun _ => step.part.count_validate buffer vars h.shape

/-- **A step goes on to stand for its run** through whatever happens
    meanwhile. -/
theorem Stands.meanwhile (h : step.Stands vars run ctx) (hunnamed : step.part.unnamed = true)
    (hstep : step.Meanwhile ctx ctx') : step.Stands vars run ctx' := by
  cases hstep with
  | resolve => exact h.resolve
  | validate buffer => exact h.validate hunnamed buffer
  | parse buffer args => exact h.parse hunnamed buffer args
  | elsewhere hvars hother =>
      refine ⟨hvars.trans h.same, ?_, ?_⟩
      · unfold Context.knownLength?
        rw [hother]
        exact h.shape
      · unfold count
        rw [hother]
        exact h.counted

/-- What fits the run of a step is accepted by it. -/
theorem Stands.validate_word (h : step.Stands vars run ctx) {word : Bytes}
    (hfits : checkRun run word vars = ⟨.valid, [], vars⟩) :
    step.validate word ctx = (.valid, [], (step.validate word ctx).2.2) := by
  have hchecked := step.part.validate_eq_checkRun word vars (ctx.knownLength? step.id)
  rw [h.shape] at hchecked
  have hchecked : (step.part.validate (ctx.knownLength? step.id) word vars).1
      = ⟨.valid, [], vars⟩ := hchecked.trans hfits
  rw [validate_eq, h.same]
  dsimp only
  rw [hchecked]

/-- **A step that was generated** is counted as long as its run, and stands
    for it unless it forgets. -/
theorem stands_of_realizes {s after : Supply} {word : Bytes} {resolution : Option Resolution}
    (h : step.part.Realizes s word after resolution run) (ctx : Context) :
    step.count (ctx.record step.id s.vars resolution) = run.length
      ∧ (step.part.forgets s.vars = false →
          step.Stands s.vars run (ctx.record step.id s.vars resolution)) := by
  cases resolution with
  | some r =>
      refine ⟨(step.count_record ctx s.vars r).trans h.counted, ?_⟩
      intro hforgets
      exact stands_of_record (h.retained hforgets) h.counted
  | none =>
      -- only a part of a fixed shape records nothing
      have hcount : step.count (ctx.record step.id s.vars none) = run.length :=
        (Part.count_of_isFixed (h.settled rfl) _ none).trans h.counted
      refine ⟨hcount, ?_⟩
      intro hforgets
      refine ⟨rfl, ?_, hcount⟩
      exact (Part.run?_of_isFixed (h.settled rfl) _ _).trans (h.retained hforgets)

/-- **A step that forgets** counts nothing once it is evaluated again, and is
    refused unseen. -/
theorem refused_of_forgets (hforgets : step.part.forgets ctx.vars = true) (buffer : Bytes) :
    step.count (step.resolve ctx) = 0
      ∧ ∃ later, step.validate buffer ctx = (.invalid, buffer, later) ∧ step.count later = 0 := by
  have hnone : step.part.run? (ctx.knownLength? step.id) ctx.vars = none :=
    Part.run?_of_forgets hforgets
  have hforeseen := step.part.foreseen_eq_length ctx.vars (ctx.knownLength? step.id)
  have hcount := step.part.count_validate_of_no_run buffer hnone
  have hchecked := step.part.validate_eq_checkRun buffer ctx.vars (ctx.knownLength? step.id)
  rw [hnone] at hforeseen hchecked
  obtain ⟨⟨resolved, hresolved⟩, hvalidated⟩ :=
    Part.records_of_forgets hforgets (ctx.knownLength? step.id)
  obtain ⟨validated, hvalidated⟩ := hvalidated buffer
  constructor
  · unfold Step.resolve
    unfold Part.foreseen at hforeseen
    rw [hresolved] at hforeseen ⊢
    exact (step.count_record ctx ctx.vars resolved).trans hforeseen
  · refine ⟨(step.validate buffer ctx).2.2, ?_, ?_⟩
    · rw [validate_eq]
      dsimp only
      rw [hchecked]
      rfl
    · rw [validate_eq]
      dsimp only
      rw [hvalidated] at hcount ⊢
      exact (step.count_record ctx _ validated).trans hcount

end

/-- **WHAT IS FIXED STAYS FIXED, except an argument behind a condition.**  Let
    a part none of whose bytes is remembered under a name be generated
    without a failure, in any context and with any arguments.  Then no
    variable has changed and the part is counted as long as its bytes.

    • Unless the part forgets, and however often it and other parts are
      evaluated meanwhile, it is counted as long as its bytes, also after it
      is resolved again, and checking accepts exactly these bytes and counts
      the same.
    • If it forgets, then resolving it again leaves it counted as nothing,
      and checking refuses its own bytes unseen and counts nothing. -/
theorem stays_fixed {step : Step} (hunnamed : step.part.unnamed = true) {pass after : Pass}
    {message : Option Message} (h : step.generate .strict pass = (.ok message, after)) :
    after.context.vars = pass.context.vars
      ∧ step.count after.context = (sentBytes message).length
      ∧ (step.part.forgets after.context.vars = false →
          ∀ ctx, Relation.ReflTransGen step.Meanwhile after.context ctx →
            step.count ctx = (sentBytes message).length
            ∧ step.count (step.resolve ctx) = (sentBytes message).length
            ∧ ∃ later, step.validate (sentBytes message) ctx = (.valid, [], later)
                ∧ step.count later = (sentBytes message).length)
      ∧ (step.part.forgets after.context.vars = true →
          ∀ ctx, ctx.vars = after.context.vars →
            step.count (step.resolve ctx) = 0
            ∧ ∃ later, step.validate (sentBytes message) ctx = (.invalid, sentBytes message, later)
                ∧ step.count later = 0) := by
  obtain ⟨houtcome, rfl⟩ := Prod.mk.inj h
  obtain ⟨run, hrealizes⟩ := step.part.exists_run_of_generate houtcome
  obtain ⟨hvars, hfits⟩ := hrealizes.checkRun_word hunnamed
  have hlength := hrealizes.length_word
  obtain ⟨hcount, hstands⟩ := stands_of_realizes hrealizes pass.context
  dsimp only at hvars hfits hcount hstands ⊢
  rw [Context.vars_record, hvars, hlength]
  refine ⟨rfl, hcount, ?_, ?_⟩
  · intro hforgets ctx hrun
    have hnow : step.Stands pass.context.vars run ctx :=
      keeps_of_run _ (fun hstands hstep => hstands.meanwhile hunnamed hstep) hrun
        (hstands hforgets)
    exact ⟨hnow.counted, hnow.resolve.counted, _, hnow.validate_word hfits,
      (hnow.validate hunnamed _).counted⟩
  · intro hforgets ctx hsame
    rw [← hsame] at hforgets
    exact refused_of_forgets hforgets _

/-- As many sevens as an argument says: on their own they stay four, also
    after they are resolved again; where the variable m is one they are
    forgotten. -/
theorem stays_fixed_guarded :
    let sevens : Part := .dynamic .argument (.fixed 7)
    let bare : Step := ⟨0, sevens⟩
    let guarded : Step := ⟨0, .optional "m" (.equals (.int 1)) sevens⟩
    let pass : Pass := ⟨[.int 4], default, Context.empty.set "m" (.int 1)⟩
    (∃ after, bare.generate .strict pass = (.ok (some ⟨none, [7, 7, 7, 7]⟩), after)
        ∧ ∃ later, bare.validate [7, 7, 7, 7] (bare.resolve after.context) = (.valid, [], later)
          ∧ bare.count later = 4)
      ∧ ∃ after, guarded.generate .strict pass = (.ok (some ⟨none, [7, 7, 7, 7]⟩), after)
        ∧ guarded.count after.context = 4
        ∧ ∃ later, guarded.validate [7, 7, 7, 7] after.context = (.invalid, [7, 7, 7, 7], later)
          ∧ guarded.count later = 0 := by
  intro sevens bare guarded pass
  have hbare : bare.generate .strict pass
      = (.ok (some ⟨none, [7, 7, 7, 7]⟩), (bare.generate .strict pass).2) := rfl
  have hguarded : guarded.generate .strict pass
      = (.ok (some ⟨none, [7, 7, 7, 7]⟩), (guarded.generate .strict pass).2) := rfl
  obtain ⟨-, -, hstays, -⟩ := @stays_fixed bare (by decide) _ _ _ hbare
  obtain ⟨-, hcount, -, hforgets⟩ := @stays_fixed guarded (by decide) _ _ _ hguarded
  refine ⟨⟨_, hbare, ?_⟩, _, hguarded, hcount, ?_⟩
  · exact (hstays rfl _ (.single .resolve)).2.2
  · exact (hforgets rfl _ rfl).2

end Step

end Masquerade
