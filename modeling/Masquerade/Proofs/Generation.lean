/-
  Masquerade.Proofs.Generation — WHAT STRICT GENERATION YIELDS.

  Strict generation and checking walk the same elements in the same order
  and write the same variables.  So whatever strict generation produces is
  accepted by checking, leaves the same variables, and has the length that
  counting foresees.  This holds of every element, of runs, and of parts
  whose length does not come from an argument (`Part.selfSized`); an
  argument is something that only generation sees.

  Lenient generation differs from strict generation only after a failure.

  Main results:
    * `Element.check_of_generate`, `checkRun_of_generateRun` — what is
      generated fits.
    * `Part.generate_eq_generateRun` — a part is generated as its run.
    * `generateRun_lenient`, `Script.messages_of_messages?` — without a
      failure the two modes agree.
-/
import Masquerade.Proofs.Checking

namespace Masquerade

/-! ## §1. Results and values -/

/-- A result that was turned into another, with what it left behind. -/
theorem eq_ok_of_map_eq_ok {ε α β σ : Type} {r : Except ε α × σ} {f : α → β} {b : β} {s : σ}
    (h : (r.1.map f, r.2) = (.ok b, s)) : ∃ a, r = (.ok a, s) ∧ f a = b := by
  obtain ⟨hmap, rfl⟩ := Prod.mk.inj h
  obtain ⟨outcome, s⟩ := r
  cases outcome with
  | error e => cases hmap
  | ok a =>
      injection hmap with hmap
      exact ⟨a, rfl, hmap⟩

/-- **A value has a byte view exactly if its integer view is that byte.** -/
theorem Value.toByte?_eq_some_iff (value : Value) (byte : UInt8) :
    value.toByte? = some byte ↔ value.toInt? = some (byte.toNat : Int) := by
  cases value with
  | byte b =>
      simp only [Value.toByte?_byte, Value.toInt?_byte, Option.some.injEq, Int.natCast_inj]
      exact UInt8.toNat_inj.symm
  | flag b => simp [toByte?, toInt?]
  | int n =>
      simp only [toByte?, toInt?]
      have hbyte : byte.toNat < 256 := byte.toNat_lt
      constructor
      · intro h
        split at h
        next hrange =>
          injection h with h
          have hnat : (UInt8.ofNat n.toInt.toNat).toNat = n.toInt.toNat := by
            rw [UInt8.toNat_ofNat']
            exact Nat.mod_eq_of_lt (by omega)
          rw [← h, hnat, Int.toNat_of_nonneg hrange.1]
        next => cases h
      · intro h
        injection h with h
        rw [if_pos (by omega), h, Int.toNat_natCast, UInt8.ofNat_toNat]

/-! ## §2. Elements -/

namespace Element

/-- A variable yields a byte exactly if it is an integer equal to it. -/
theorem remembered_eq_ok_iff (vars : Variables) (name : String) (byte : UInt8) :
    remembered vars name = .ok byte ↔ vars.getInt? name = some (byte.toNat : Int) := by
  unfold remembered Variables.getInt?
  cases vars.get? name with
  | none => simp
  | some value =>
      rw [Option.bind_some, ← Value.toByte?_eq_some_iff]
      dsimp only
      cases value.toByte? <;> simp

theorem mem_of_allow_eq_ok {options : List UInt8} {given : Except PatternError UInt8}
    {byte : UInt8} (h : allow options given = .ok byte) : byte ∈ options := by
  unfold allow at h
  split at h
  next b =>
    split at h
    next hmem =>
      injection h with h
      exact h ▸ hmem
    next => cases h
  next => cases h

theorem mem_of_pick_eq_ok {options : List UInt8} {draw : Nat} {byte : UInt8}
    (h : pick options draw = .ok byte) : byte ∈ options := by
  unfold pick at h
  split at h
  next b hget =>
    injection h with h
    exact h ▸ List.mem_of_getElem? hget
  next => cases h

/-- **A generated byte fits**, and checking it leaves the variables that
    generation left. -/
theorem check_of_generate (element : Element) :
    ∀ {s s' : Supply} {byte : UInt8},
      element.generate s = (.ok byte, s') → element.check byte s.vars = some s'.vars := by
  induction element with
  | fixed expected =>
      intro s s' byte h
      obtain ⟨hbyte, rfl⟩ := Prod.mk.inj h
      injection hbyte with hbyte
      rw [check, if_pos hbyte.symm]
  | enumerated options =>
      intro s s' byte h
      obtain ⟨hbyte, rfl⟩ := Prod.mk.inj h
      rw [check, if_pos (mem_of_allow_eq_ok hbyte)]
  | random =>
      intro s s' byte h
      obtain ⟨-, rfl⟩ := Prod.mk.inj h
      rfl
  | randomEnumerated options =>
      intro s s' byte h
      obtain ⟨hbyte, rfl⟩ := Prod.mk.inj h
      rw [check, if_pos (mem_of_pick_eq_ok hbyte)]
  | producer name value ih =>
      intro s s' byte h
      -- the inner element comes first; its byte is what is remembered
      rw [generate] at h
      split at h
      next b s'' hvalue =>
        obtain ⟨hbyte, rfl⟩ := Prod.mk.inj h
        injection hbyte with hbyte
        subst hbyte
        rw [check, ih hvalue]
        rfl
      next => cases (Prod.mk.inj h).1
  | consumer name =>
      intro s s' byte h
      obtain ⟨hbyte, rfl⟩ := Prod.mk.inj h
      rw [check, if_pos ((remembered_eq_ok_iff _ _ _).mp hbyte)]

end Element

/-! ## §3. Runs of elements -/

/-- Bytes accumulated before a run stand in front of what it yields. -/
theorem generateOnto_eq (mode : Mode) (run : List Element) :
    ∀ (done : Bytes) (s : Supply),
      generateOnto mode done run s
        = ((generateRun mode run s).1.map (done.reverse ++ ·), (generateRun mode run s).2) := by
  induction run with
  | nil =>
      intro done s
      simp [generateRun, generateOnto, Except.map]
  | cons element run ih =>
      intro done s
      unfold generateRun
      rw [generateOnto, generateOnto]
      cases hgen : element.generate s with
      | mk outcome s' =>
          cases outcome with
          | ok byte =>
              dsimp only
              rw [ih (byte :: done) s', ih [byte] s']
              cases (generateRun mode run s').1 <;> simp [Except.map]
          | error e =>
              cases mode with
              | strict => rfl
              | lenient =>
                  -- the element that failed is left out
                  show generateOnto .lenient done run s' = _
                  rw [ih done s']
                  rfl

theorem generateRun_cons_ok {element : Element} {s s' : Supply} {byte : UInt8}
    (h : element.generate s = (.ok byte, s')) (mode : Mode) (run : List Element) :
    generateRun mode (element :: run) s
      = ((generateRun mode run s').1.map (byte :: ·), (generateRun mode run s').2) := by
  show generateOnto mode [] (element :: run) s = _
  rw [generateOnto, h]
  exact generateOnto_eq mode run [byte] s'

theorem generateRun_cons_error {element : Element} {s s' : Supply} {e : PatternError}
    (h : element.generate s = (.error e, s')) (run : List Element) :
    generateRun .strict (element :: run) s = (.error e, s') := by
  show generateOnto .strict [] (element :: run) s = _
  rw [generateOnto, h]

/-- A run that is generated strictly begins with an element that is. -/
theorem generateRun_cons_eq_ok {element : Element} {run : List Element} {s after : Supply}
    {word : Bytes} (h : generateRun .strict (element :: run) s = (.ok word, after)) :
    ∃ byte bytes s', element.generate s = (.ok byte, s')
      ∧ generateRun .strict run s' = (.ok bytes, after) ∧ word = byte :: bytes := by
  cases hgen : element.generate s with
  | mk outcome s' =>
      cases outcome with
      | error e =>
          rw [generateRun_cons_error hgen] at h
          cases (Prod.mk.inj h).1
      | ok byte =>
          rw [generateRun_cons_ok hgen] at h
          obtain ⟨bytes, hrun, hword⟩ := eq_ok_of_map_eq_ok h
          exact ⟨byte, bytes, s', rfl, hrun, hword.symm⟩

/-- **A generated run fits**, with the variables that generation left. -/
theorem checkRun_of_generateRun (run : List Element) :
    ∀ {s after : Supply} {word : Bytes},
      generateRun .strict run s = (.ok word, after) →
      ∀ (rest : Bytes), checkRun run (word ++ rest) s.vars = ⟨.valid, rest, after.vars⟩ := by
  induction run with
  | nil =>
      intro s after word h rest
      obtain ⟨hword, rfl⟩ := Prod.mk.inj h
      injection hword with hword
      subst hword
      rfl
  | cons element run ih =>
      intro s after word h rest
      obtain ⟨byte, bytes, s', hgen, hrun, rfl⟩ := generateRun_cons_eq_ok h
      rw [List.cons_append, checkRun_cons_some (element.check_of_generate hgen)]
      exact ih hrun rest

/-- **Without a failure the modes agree** on a run. -/
theorem generateRun_lenient (run : List Element) :
    ∀ {s after : Supply} {word : Bytes},
      generateRun .strict run s = (.ok word, after) →
      generateRun .lenient run s = (.ok word, after) := by
  induction run with
  | nil =>
      intro s after word h
      exact h
  | cons element run ih =>
      intro s after word h
      obtain ⟨byte, bytes, s', hgen, hrun, rfl⟩ := generateRun_cons_eq_ok h
      rw [generateRun_cons_ok hgen, ih hrun]
      rfl

/-! ## §4. Parts -/

/-- The bytes of a message; no message has none. -/
def sentBytes (message : Option Message) : Bytes := message.elim [] Message.bytes

namespace Part

/-- **Whether every length in a part is written in it or read from a
    variable**, so that both ends can know it. -/
def selfSized : Part → Bool
  | .dynamic .argument _ => false
  | .optional _ _ item => item.selfSized
  | _ => true

/-- What such a part was resolved to before does not matter. -/
theorem run?_of_selfSized {part : Part} (h : part.selfSized = true) (known : Option Nat)
    (vars : Variables) : part.run? known vars = part.run? none vars := by
  cases part with
  | dynamic source item =>
      cases source with
      | argument => cases h
      | named name => rfl
      | seeded name => rfl
  | _ => rfl

/-- What generating a part yields: its bytes, and what is left to draw on. -/
def yields (mode : Mode) (part : Part) (s : Supply) : Except PatternError Bytes × Supply :=
  ((part.generate mode s).outcome.map sentBytes, (part.generate mode s).supply)

theorem yields_generateMessage (mode : Mode) (delay : Option UInt64) (run : List Element)
    (s : Supply) (resolution : Option Resolution) :
    ((generateMessage mode delay run s resolution).outcome.map sentBytes,
      (generateMessage mode delay run s resolution).supply) = generateRun mode run s := by
  unfold generateMessage
  cases generateRun mode run s with
  | mk outcome s' => cases outcome <;> rfl

theorem generate_unset {name : String} {s : Supply} (hget : s.vars.get? name = none)
    (mode : Mode) (condition : Condition) (item : Part) :
    generate mode (.optional name condition item) s = unshaped mode (.undefined name) s := by
  simp [generate, hget]

theorem generate_absent {name : String} {condition : Condition} {s : Supply} {value : Value}
    (hget : s.vars.get? name = some value) (hold : condition.holds value = false)
    (mode : Mode) (item : Part) :
    generate mode (.optional name condition item) s = ⟨.ok none, s, some absent⟩ := by
  simp [generate, hget, hold]

theorem generate_present {name : String} {condition : Condition} {s : Supply} {value : Value}
    (hget : s.vars.get? name = some value) (hold : condition.holds value = true)
    (mode : Mode) (item : Part) :
    generate mode (.optional name condition item) s
      = match (item.generate mode s).outcome with
        | .ok message => ⟨.ok message, (item.generate mode s).supply,
            some (present item (item.generate mode s).resolution)⟩
        | .error e => ⟨.error e, (item.generate mode s).supply, none⟩ := by
  cases hout : (item.generate mode s).outcome with
  | ok message => simp [generate, hget, hold, hout]
  | error e => simp [generate, hget, hold, hout]

theorem takeLength_of_usable {source : LengthSource} (hsource : source ≠ .argument)
    {s : Supply} {n : Nat} (h : usableLength? source none s.vars = some n) :
    takeLength source s = (.ok n, s) := by
  obtain ⟨hlen, hle⟩ := Option.filter_eq_some_iff.mp h
  have hle : n ≤ maxRunLength := of_decide_eq_true hle
  cases source with
  | argument => exact absurd rfl hsource
  | named name => simp [takeLength, hlen, hle]
  | seeded name => simp [takeLength, hlen, hle]

theorem takeLength_of_unusable {source : LengthSource} (hsource : source ≠ .argument)
    {s : Supply} (h : usableLength? source none s.vars = none) :
    ∃ e, takeLength source s = (.error e, s) := by
  -- either there is no length, or it is beyond the limit
  unfold usableLength? at h
  cases hlen : length? source none s.vars with
  | none =>
      cases source with
      | argument => exact absurd rfl hsource
      | named name => exact ⟨.undefined name, by simp [takeLength, hlen]⟩
      | seeded name => exact ⟨.undefined name, by simp [takeLength, hlen]⟩
  | some n =>
      have hgt : ¬ n ≤ maxRunLength := by
        rw [hlen] at h
        simpa [Option.filter] using h
      cases source with
      | argument => exact absurd rfl hsource
      | named name => exact ⟨.tooLong n maxRunLength, by simp [takeLength, hlen, hgt]⟩
      | seeded name => exact ⟨.tooLong n maxRunLength, by simp [takeLength, hlen, hgt]⟩

theorem ne_argument_of_selfSized {source : LengthSource} {item : Element}
    (h : selfSized (.dynamic source item) = true) : source ≠ .argument := by
  intro heq
  subst heq
  cases h

/-- **A part is generated as its run.** -/
theorem generate_eq_generateRun (part : Part) :
    part.selfSized = true → ∀ {s : Supply} {run : List Element},
      part.run? none s.vars = some run → yields .strict part s = generateRun .strict run s := by
  induction part with
  | bytes items =>
      intro _ s run hrun
      injection hrun with hrun
      subst hrun
      exact yields_generateMessage .strict none items s none
  | timed milliseconds items =>
      intro _ s run hrun
      injection hrun with hrun
      subst hrun
      exact yields_generateMessage .strict (some milliseconds) items s none
  | dynamic source item =>
      intro hsized s run hrun
      obtain ⟨n, hlen, rfl⟩ := Option.map_eq_some_iff.mp hrun
      unfold yields generate
      rw [takeLength_of_usable (ne_argument_of_selfSized hsized) hlen]
      exact yields_generateMessage .strict none (List.replicate n item) s (some (ofLength n))
  | optional name condition item ih =>
      intro hsized s run hrun
      obtain ⟨value, hget, hrun⟩ := Option.bind_eq_some_iff.mp hrun
      unfold yields
      cases hold : condition.holds value with
      | false =>
          rw [hold] at hrun
          injection hrun with hrun
          subst hrun
          rw [generate_absent hget hold]
          rfl
      | true =>
          -- what is guarded has the run of the whole
          rw [hold] at hrun
          rw [← ih hsized hrun, generate_present hget hold]
          unfold yields
          cases (item.generate .strict s).outcome <;> rfl
  | empty =>
      intro _ s run hrun
      injection hrun with hrun
      subst hrun
      rfl

/-- A part that has no run is not generated either. -/
theorem generate_of_no_run (part : Part) :
    part.selfSized = true → ∀ {s : Supply},
      part.run? none s.vars = none → ∃ e, (part.generate .strict s).outcome = .error e := by
  induction part with
  | bytes items =>
      intro _ s hrun
      cases hrun
  | timed milliseconds items =>
      intro _ s hrun
      cases hrun
  | dynamic source item =>
      intro hsized s hrun
      have hlen := Option.map_eq_none_iff.mp hrun
      obtain ⟨e, htake⟩ := takeLength_of_unusable (ne_argument_of_selfSized hsized) hlen
      refine ⟨e, ?_⟩
      unfold generate
      rw [htake]
      rfl
  | optional name condition item ih =>
      intro hsized s hrun
      cases hget : s.vars.get? name with
      | none =>
          rw [generate_unset hget]
          exact ⟨.undefined name, rfl⟩
      | some value =>
          unfold run? at hrun
          rw [hget, Option.bind_some] at hrun
          cases hold : condition.holds value with
          | false =>
              rw [hold] at hrun
              cases hrun
          | true =>
              rw [hold] at hrun
              obtain ⟨e, herr⟩ := ih hsized hrun
              exact ⟨e, by rw [generate_present hget hold, herr]⟩
  | empty =>
      intro _ s hrun
      cases hrun

/-- **What is generated for a part fits it**, with the variables that
    generation left. -/
theorem validate_of_yields {part : Part} (hsized : part.selfSized = true) {s after : Supply}
    {word : Bytes} (h : part.yields .strict s = (.ok word, after)) (known : Option Nat)
    (rest : Bytes) :
    (part.validate known (word ++ rest) s.vars).1 = ⟨.valid, rest, after.vars⟩ := by
  rw [validate_eq_checkRun, run?_of_selfSized hsized]
  cases hrun : part.run? none s.vars with
  | none =>
      obtain ⟨e, herr⟩ := part.generate_of_no_run hsized hrun
      unfold yields at h
      rw [herr] at h
      cases (Prod.mk.inj h).1
  | some run =>
      rw [part.generate_eq_generateRun hsized hrun] at h
      exact checkRun_of_generateRun run h rest

theorem generateMessage_lenient {delay : Option UInt64} {run : List Element} {s : Supply}
    {resolution : Option Resolution} {message : Option Message}
    (h : (generateMessage .strict delay run s resolution).outcome = .ok message) :
    generateMessage .lenient delay run s resolution
      = generateMessage .strict delay run s resolution := by
  unfold generateMessage at h ⊢
  cases hgen : generateRun .strict run s with
  | mk outcome s' =>
      cases outcome with
      | error e =>
          rw [hgen] at h
          cases h
      | ok word => rw [generateRun_lenient run hgen]

/-- **Without a failure the modes agree** on a part. -/
theorem generate_lenient (part : Part) :
    ∀ {s : Supply} {message : Option Message},
      (part.generate .strict s).outcome = .ok message →
      part.generate .lenient s = part.generate .strict s := by
  induction part with
  | bytes items =>
      intro s message h
      exact generateMessage_lenient h
  | timed milliseconds items =>
      intro s message h
      exact generateMessage_lenient h
  | dynamic source item =>
      intro s message h
      unfold generate at h ⊢
      cases htake : takeLength source s with
      | mk length s' =>
          rw [htake] at h
          cases length with
          | error e => cases h
          | ok n => exact generateMessage_lenient h
  | optional name condition item ih =>
      intro s message h
      cases hget : s.vars.get? name with
      | none =>
          rw [generate_unset hget] at h
          cases h
      | some value =>
          cases hold : condition.holds value with
          | false => rw [generate_absent hget hold, generate_absent hget hold]
          | true =>
              rw [generate_present hget hold] at h
              rw [generate_present hget hold, generate_present hget hold]
              cases hout : (item.generate .strict s).outcome with
              | error e =>
                  rw [hout] at h
                  cases h
              | ok inner => rw [ih hout, hout]
  | empty =>
      intro s message _
      rfl

end Part

/-! ## §5. Scripts and instances -/

/-- What a pass draws on. -/
def Pass.supply (pass : Pass) : Supply := ⟨pass.args, pass.context.vars, pass.draws⟩

/-- **Without a failure the modes agree** on a step. -/
theorem Step.message_of_generate {step : Step} {pass after : Pass} {message : Option Message}
    (h : step.generate .strict pass = (.ok message, after)) :
    step.message pass = (message, after) := by
  obtain ⟨hout, hafter⟩ := Prod.mk.inj h
  have hmode := step.part.generate_lenient hout
  unfold Step.message Step.generate
  dsimp only
  rw [hmode, hout, hafter]

namespace Script

/-- A script that is generated strictly begins with a step that is. -/
theorem messages?_cons_eq_ok {step : Step} {script : Script} {pass after : Pass}
    {messages : List (Option Message)}
    (h : messages? (step :: script) pass = (.ok messages, after)) :
    ∃ message more between, step.generate .strict pass = (.ok message, between)
      ∧ script.messages? between = (.ok more, after) ∧ messages = message :: more := by
  rw [messages?] at h
  split at h
  next => cases (Prod.mk.inj h).1
  next message between hstep =>
    split at h
    next => cases (Prod.mk.inj h).1
    next more pass' hmore =>
      obtain ⟨heq, rfl⟩ := Prod.mk.inj h
      injection heq with heq
      exact ⟨message, more, between, hstep, hmore, heq.symm⟩

/-- **Without a failure the modes agree** on a script. -/
theorem messages_of_messages? (script : Script) :
    ∀ {pass after : Pass} {messages : List (Option Message)},
      script.messages? pass = (.ok messages, after) →
      script.messages pass = (messages, after) := by
  induction script with
  | nil =>
      intro pass after messages h
      obtain ⟨heq, rfl⟩ := Prod.mk.inj h
      injection heq with heq
      subst heq
      rfl
  | cons step script ih =>
      intro pass after messages h
      obtain ⟨message, more, between, hstep, hmore, rfl⟩ := messages?_cons_eq_ok h
      rw [Script.messages, Step.message_of_generate hstep]
      dsimp only
      rw [ih hmore]

end Script

end Masquerade
