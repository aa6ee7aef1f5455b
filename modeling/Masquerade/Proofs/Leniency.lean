/-
  Masquerade.Proofs.Leniency — WHAT LENIENT GENERATION LEAVES OUT.

  Messages are made leniently: what cannot be produced is left out, and the
  rest is sent.  Strict generation stops there instead.  Both try the same
  things in the same order, so that they differ from the first failure on
  and not before.

  A part first comes to a PLAN: a run of elements, nothing, or a failure
  where its length or its presence is undecided (`Part.plan`).  A run is then
  one ATTEMPT after another, and each attempt begins with what the one before
  it left, whether that succeeded or not (`attempts`).  Lenient generation
  keeps the bytes of the attempts that succeed; strict generation ends with
  the first attempt that fails.

  Main results:
    * `generateRun_lenient_eq` — a run without its failing elements.
    * `exists_of_generateRun_error` — where a run fails first.
    * `Part.makes_of_plan` — a part is generated as planned, in either
      mode.
    * `Part.falters_of_makes` — a part that fails, strictly and leniently.
    * `Instance.omits_only_failures` — strict and lenient messages.
-/
import Masquerade.Proofs.Generation

namespace Masquerade

/-! ## §1. Attempts -/

/-- **One attempt at each element,** in order and whatever became of those
    before it: what it gives, and what it leaves to draw on. -/
def attempts : List Element → Supply → List (Except PatternError UInt8 × Supply)
  | [], _ => []
  | element :: run, s => element.generate s :: attempts run (element.generate s).2

/-- The bytes of the attempts that succeed. -/
def gained (run : List Element) (s : Supply) : Bytes :=
  (attempts run s).filterMap (·.1.toOption)

/-- What all attempts leave to draw on. -/
def spared (run : List Element) (s : Supply) : Supply :=
  run.foldl (fun s element => (element.generate s).2) s

theorem gained_cons_ok {element : Element} {s s' : Supply} {byte : UInt8}
    (h : element.generate s = (.ok byte, s')) (run : List Element) :
    gained (element :: run) s = byte :: gained run s' := by
  simp [gained, attempts, h, Except.toOption]

theorem gained_cons_error {element : Element} {s s' : Supply} {e : PatternError}
    (h : element.generate s = (.error e, s')) (run : List Element) :
    gained (element :: run) s = gained run s' := by
  simp [gained, attempts, h, Except.toOption]

theorem spared_cons {element : Element} {s s' : Supply} {outcome : Except PatternError UInt8}
    (h : element.generate s = (outcome, s')) (run : List Element) :
    spared (element :: run) s = spared run s' := by
  simp [spared, h]

/-! ## §2. Runs -/

theorem generateRun_cons_error_lenient {element : Element} {s s' : Supply} {e : PatternError}
    (h : element.generate s = (.error e, s')) (run : List Element) :
    generateRun .lenient (element :: run) s = generateRun .lenient run s' := by
  unfold generateRun
  rw [generateOnto, h]

/-- **A run without its failing elements:** the bytes of the attempts that
    succeed. -/
theorem generateRun_lenient_eq (run : List Element) :
    ∀ (s : Supply), generateRun .lenient run s = (.ok (gained run s), spared run s) := by
  induction run with
  | nil =>
      intro s
      rfl
  | cons element run ih =>
      intro s
      rcases hgen : element.generate s with ⟨e | byte, s'⟩
      · rw [generateRun_cons_error_lenient hgen, gained_cons_error hgen, spared_cons hgen]
        exact ih s'
      · rw [generateRun_cons_ok hgen, gained_cons_ok hgen, spared_cons hgen, ih s']
        rfl

/-- **Where a run fails first:** the elements before are generated, and the
    failing one ends the run. -/
theorem exists_of_generateRun_error (run : List Element) :
    ∀ {s after : Supply} {e : PatternError}, generateRun .strict run s = (.error e, after) →
      ∃ before element rest word between, run = before ++ element :: rest
        ∧ generateRun .strict before s = (.ok word, between)
        ∧ element.generate between = (.error e, after) := by
  induction run with
  | nil =>
      intro s after e h
      cases (Prod.mk.inj h).1
  | cons first run ih =>
      intro s after e h
      rcases hgen : first.generate s with ⟨e' | byte, s'⟩
      · rw [generateRun_cons_error hgen] at h
        cases h
        exact ⟨[], first, run, [], s, rfl, rfl, hgen⟩
      · rw [generateRun_cons_ok hgen] at h
        rcases hrun : generateRun .strict run s' with ⟨e' | bytes, s''⟩
        · rw [hrun] at h
          cases h
          obtain ⟨before, element, rest, word, between, rfl, hbefore, hfails⟩ := ih hrun
          refine ⟨first :: before, element, rest, byte :: word, between, rfl, ?_, hfails⟩
          rw [generateRun_cons_ok hgen, hbefore]
          rfl
        · rw [hrun] at h
          cases h

/-- What comes after elements that are generated does not change them. -/
theorem generateRun_append_lenient (before rest : List Element) :
    ∀ {s between : Supply} {word : Bytes},
      generateRun .strict before s = (.ok word, between) →
      generateRun .lenient (before ++ rest) s
        = (.ok (word ++ gained rest between), spared rest between) := by
  induction before with
  | nil =>
      intro s between word h
      cases h
      exact generateRun_lenient_eq rest s
  | cons element before ih =>
      intro s between word h
      obtain ⟨byte, bytes, s', hgen, hbefore, rfl⟩ := generateRun_cons_eq_ok h
      rw [List.cons_append, generateRun_cons_ok hgen, ih hbefore]
      rfl

/-! ## §3. Parts -/

/-- **What a part comes to** before any element is attempted. -/
inductive Plan where
  /-- Its length or its presence is undecided. -/
  | undecided (e : PatternError)
  /-- There is nothing to send. -/
  | silent
  /-- These elements, to be sent after this delay. -/
  | run (delay : Option UInt64) (items : List Element)

/-- **Carry out a plan.**  What is undecided fails, or is left out. -/
def Plan.carryOut (mode : Mode) : Plan → Supply → Except PatternError (Option Message) × Supply
  | .undecided e, s => ((Part.unshaped mode e s).outcome, s)
  | .silent, s => (.ok none, s)
  | .run delay items, s =>
    ((generateRun mode items s).1.map fun bytes => some ⟨delay, bytes⟩,
      (generateRun mode items s).2)

theorem Plan.carryOut_run (mode : Mode) (delay : Option UInt64) (items : List Element)
    (s : Supply) :
    (Plan.run delay items).carryOut mode s
      = ((generateRun mode items s).1.map fun bytes => some ⟨delay, bytes⟩,
          (generateRun mode items s).2) := rfl

namespace Part

/-- **The plan of a part.**  A length is taken off the arguments or read from
    a variable, and the parts around it are present. -/
def plan : Part → Supply → Plan × Supply
  | .bytes items, s => (.run none items, s)
  | .timed milliseconds items, s => (.run (some milliseconds) items, s)
  | .dynamic source item, s =>
    match takeLength source s with
    | (.ok n, s) => (.run none (List.replicate n item), s)
    | (.error e, s) => (.undecided e, s)
  | .optional name condition item, s =>
    match s.vars.get? name with
    | none => (.undecided (.undefined name), s)
    | some value => if condition.holds value then item.plan s else (.silent, s)
  | .empty, s => (.silent, s)

/-- What generation of a part gives, besides what it resolves. -/
def makes (mode : Mode) (part : Part) (s : Supply) : Except PatternError (Option Message) × Supply :=
  ((part.generate mode s).outcome, (part.generate mode s).supply)

theorem makes_generateMessage (mode : Mode) (delay : Option UInt64) (run : List Element)
    (s : Supply) (resolution : Option Resolution) :
    ((generateMessage mode delay run s resolution).outcome,
      (generateMessage mode delay run s resolution).supply)
      = (Plan.run delay run).carryOut mode s := by
  rw [Plan.carryOut_run]
  unfold generateMessage
  rcases generateRun mode run s with ⟨e | word, s'⟩ <;> rfl

/-- **A part is generated as planned,** in either mode. -/
theorem makes_of_plan (mode : Mode) (part : Part) :
    ∀ {s start : Supply} {plan : Plan}, part.plan s = (plan, start) →
      part.makes mode s = plan.carryOut mode start := by
  induction part with
  | bytes items =>
      intro s start plan h
      cases h
      exact makes_generateMessage mode none items s none
  | timed milliseconds items =>
      intro s start plan h
      cases h
      exact makes_generateMessage mode (some milliseconds) items s none
  | dynamic source item =>
      intro s start plan h
      unfold Part.plan at h
      unfold makes generate
      rcases htake : takeLength source s with ⟨e | n, s'⟩
      · rw [htake] at h
        cases h
        cases mode <;> rfl
      · rw [htake] at h
        cases h
        exact makes_generateMessage mode none _ start _
  | optional name condition item ih =>
      intro s start plan h
      unfold Part.plan at h
      unfold makes
      cases hget : s.vars.get? name with
      | none =>
          rw [hget] at h
          cases h
          rw [generate_unset hget]
          cases mode <;> rfl
      | some value =>
          rw [hget] at h
          dsimp only at h
          cases hold : condition.holds value with
          | false =>
              rw [hold] at h
              cases h
              rw [generate_absent hget hold]
              rfl
          | true =>
              -- what is guarded gives what the whole gives
              rw [if_pos hold] at h
              rw [generate_present hget hold, ← ih h]
              unfold makes
              cases (item.generate mode s).outcome <;> rfl
  | empty =>
      intro s start plan h
      cases h
      rfl

/-- **How a part fails,** and what is made of it leniently. -/
inductive Falters (part : Part) (s : Supply) (e : PatternError) : Prop where
  /-- Its length is unusable, or a variable is not set: the part is left
      out. -/
  | whole {left : Supply} (hplan : part.plan s = (.undecided e, left))
      (hstrict : part.makes .strict s = (.error e, left))
      (hlenient : part.makes .lenient s = (.ok none, left))
  /-- An element fails.  Those before it are generated, and it is left out;
      those after it go on with what it left, and of them the failing ones
      are left out too. -/
  | element {delay : Option UInt64} {before rest : List Element} {element : Element}
      {start between left : Supply} {word : Bytes}
      (hplan : part.plan s = (.run delay (before ++ element :: rest), start))
      (hbefore : generateRun .strict before start = (.ok word, between))
      (hfails : element.generate between = (.error e, left))
      (hstrict : part.makes .strict s = (.error e, left))
      (hlenient : part.makes .lenient s
        = (.ok (some ⟨delay, word ++ gained rest left⟩), spared rest left))

/-- **Whatever fails falters:** at one piece, and the modes agree up to it. -/
theorem falters_of_makes {part : Part} {s left : Supply} {e : PatternError}
    (h : part.makes .strict s = (.error e, left)) : part.Falters s e := by
  rcases hplan : part.plan s with ⟨plan, start⟩
  have hstrict := h.symm.trans (part.makes_of_plan .strict hplan)
  have hlenient := part.makes_of_plan .lenient hplan
  cases plan with
  | undecided e' =>
      cases hstrict
      exact .whole hplan h hlenient
  | silent => cases hstrict
  | run delay items =>
      rw [Plan.carryOut_run] at hstrict hlenient
      rcases hrun : generateRun .strict items start with ⟨e' | word, s'⟩
      · rw [hrun] at hstrict
        cases hstrict
        obtain ⟨before, element, rest, word, between, rfl, hbefore, hfails⟩ :=
          exists_of_generateRun_error items hrun
        refine .element hplan hbefore hfails h ?_
        rw [hlenient, generateRun_append_lenient before _ hbefore, gained_cons_error hfails,
          spared_cons hfails]
        rfl
      · rw [hrun] at hstrict
        cases hstrict

/-- **Lenient generation never fails.** -/
theorem exists_of_makes_lenient (part : Part) (s : Supply) :
    ∃ message, (part.generate .lenient s).outcome = .ok message := by
  rcases hplan : part.plan s with ⟨plan, start⟩
  have hlenient := part.makes_of_plan .lenient hplan
  cases plan with
  | undecided e => exact ⟨none, congrArg Prod.fst hlenient⟩
  | silent => exact ⟨none, congrArg Prod.fst hlenient⟩
  | run delay items =>
      rw [Plan.carryOut_run, generateRun_lenient_eq] at hlenient
      exact ⟨_, congrArg Prod.fst hlenient⟩

end Part

/-! ## §4. Scripts -/

/-- The message of a step is what lenient generation gives: nothing is
    dropped because of a failure. -/
theorem Step.generate_lenient (step : Step) (pass : Pass) :
    step.generate .lenient pass = (.ok (step.message pass).1, (step.message pass).2) := by
  obtain ⟨message, hmessage⟩ := step.part.exists_of_makes_lenient pass.supply
  have hgen : step.generate .lenient pass = (.ok message, (step.generate .lenient pass).2) :=
    congrArg (·, (step.generate .lenient pass).2) hmessage
  unfold Step.message
  rw [hgen]

namespace Script

theorem messages_cons (step : Step) (script : Script) (pass : Pass) :
    messages (step :: script) pass
      = ((step.message pass).1 :: (script.messages (step.message pass).2).1,
          (script.messages (step.message pass).2).2) := rfl

/-- **Where a script fails first:** the steps before are generated. -/
theorem exists_of_messages?_error (script : Script) :
    ∀ {pass after : Pass} {e : PatternError}, script.messages? pass = (.error e, after) →
      ∃ front step back messages between, script = front ++ step :: back
        ∧ messages? front pass = (.ok messages, between)
        ∧ step.generate .strict between = (.error e, after) := by
  induction script with
  | nil =>
      intro pass after e h
      cases (Prod.mk.inj h).1
  | cons first script ih =>
      intro pass after e h
      rcases hgen : first.generate .strict pass with ⟨e' | message, pass'⟩
      · simp only [messages?, hgen] at h
        cases h
        exact ⟨[], first, script, [], pass, rfl, rfl, hgen⟩
      · rcases hmore : messages? script pass' with ⟨e' | more, pass''⟩
        · simp only [messages?, hgen, hmore] at h
          cases h
          obtain ⟨front, step, back, messages, between, rfl, hfront, hfails⟩ := ih hmore
          refine ⟨first :: front, step, back, message :: messages, between, rfl, ?_, hfails⟩
          simp only [messages?, hgen, hfront]
        · simp only [messages?, hgen, hmore] at h
          cases h

/-- What comes after steps that are generated does not change them. -/
theorem messages_append (front back : Script) :
    ∀ {pass between : Pass} {messages : List (Option Message)},
      front.messages? pass = (.ok messages, between) →
      (Script.messages (front ++ back) pass).1 = messages ++ (back.messages between).1 := by
  induction front with
  | nil =>
      intro pass between messages h
      cases h
      rfl
  | cons step front ih =>
      intro pass between messages h
      obtain ⟨message, more, pass', hstep, hmore, rfl⟩ := messages?_cons_eq_ok h
      rw [List.cons_append, messages_cons, Step.message_of_generate hstep, List.cons_append]
      exact congrArg (message :: ·) (ih hmore)

end Script

/-! ## §5. Instances -/

namespace Instance

/-- **ONLY FAILURES ARE LEFT OUT.**  Let an instance be given with any draws.

    • Lenient generation of a step never fails, so that the message of a step
      is what it gives.
    • If strict generation gives messages, lenient generation gives the same.
    • If strict generation fails, it does so first at one step.  The lenient
      messages begin with the strict ones of the steps before.  From the
      same arguments, variables and draws both modes go on to that step, of
      which lenient generation leaves out the pieces that fail
      (`Part.Falters`). -/
theorem omits_only_failures (inst : Instance) (draws : Draws) :
    (∀ (step : Step) (pass : Pass),
        step.generate .lenient pass = (.ok (step.message pass).1, (step.message pass).2))
      ∧ (∀ messages, inst.messages? draws = .ok messages → inst.messages draws = messages)
      ∧ ∀ e, inst.messages? draws = .error e →
          ∃ (front : Script) (step : Step) (back : Script) (messages : List (Option Message))
              (pass : Pass),
            Script.ofDescription 0 inst.description = front ++ step :: back
            ∧ front.messages? (inst.pass draws) = (.ok messages, pass)
            ∧ (step.generate .strict pass).1 = .error e
            ∧ ((Script.ofDescription 0 inst.description).messages (inst.pass draws)).1
                = messages ++ (step.message pass).1 :: (back.messages (step.message pass).2).1
            ∧ step.part.Falters pass.supply e := by
  refine ⟨Step.generate_lenient, ?_, ?_⟩
  · intro messages h
    unfold messages? at h
    unfold Instance.messages
    rcases hscript : (Script.ofDescription 0 inst.description).messages? (inst.pass draws)
      with ⟨e | entries, after⟩
    · rw [hscript] at h
      cases h
    · rw [hscript] at h
      cases h
      rw [Script.messages_of_messages? _ hscript]
  · intro e h
    unfold messages? at h
    rcases hscript : (Script.ofDescription 0 inst.description).messages? (inst.pass draws)
      with ⟨e' | entries, after⟩
    · rw [hscript] at h
      cases h
      obtain ⟨front, step, back, messages, pass, hsplit, hfront, hfails⟩ :=
        Script.exists_of_messages?_error _ hscript
      refine ⟨front, step, back, messages, pass, hsplit, hfront, congrArg Prod.fst hfails, ?_, ?_⟩
      · rw [hsplit, Script.messages_append front _ hfront, Script.messages_cons]
      · have hmakes : step.part.makes .strict pass.supply
            = (.error e, (step.part.generate .strict pass.supply).supply) :=
          congrArg (·, (step.part.generate .strict pass.supply).supply)
            (congrArg Prod.fst hfails)
        exact Part.falters_of_makes hmakes
    · rw [hscript] at h
      cases h

/-- Three messages, and arguments for one: of the second message the byte
    that is handed in wrongly is left out, and the third is left out, since
    its length is missing. -/
theorem omits_only_failures_short :
    let short : Instance :=
      ⟨⟨[.bytes [.enumerated [7, 8]], .bytes [.fixed 1, .enumerated [9], .fixed 2],
          .dynamic .argument (.fixed 3)]⟩, [.byte 7, .byte 5]⟩
    short.messages? default = .error (.notInSet 5)
      ∧ short.messages default = [⟨none, [7]⟩, ⟨none, [1, 2]⟩]
      ∧ ∃ step ∈ Script.ofDescription 0 short.description, ∃ (pass : Pass),
          step.part.Falters pass.supply (.notInSet 5) := by
  intro short
  have hfails : short.messages? default = .error (.notInSet 5) := rfl
  obtain ⟨-, -, homits⟩ := omits_only_failures short default
  obtain ⟨front, step, back, messages, pass, hsplit, -, -, -, hfalters⟩ := homits _ hfails
  refine ⟨hfails, rfl, step, ?_, pass, hfalters⟩
  rw [hsplit]
  exact List.mem_append_right front List.mem_cons_self

end Instance

end Masquerade
