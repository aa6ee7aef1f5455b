/-
  Masquerade.Proofs.Counting — COUNTING WHAT WAS USED.

  An evaluation records how many bytes each part came to, and counting reads
  these records back.  Records of earlier evaluations lie in the same
  context, under the same identities and with other lengths.  They do not
  show through: a part whose length is not written in it and that is
  evaluated with success is recorded anew (`Part.settled_of_run?`,
  `Part.Realizes.settled`), and no part is recorded under the identity of
  another (`Script.Leaves`, `World.Leaves`).

  A part that lenient generation leaves out is not recorded.  It sends
  nothing, and is counted as it was before.

  Main results:
    * `Part.spends_of_valid`, `Part.count_of_generate`,
      `Part.length_le_count` — one part, whatever was recorded for it.
    * `Script.leaves_operation` — other steps are left alone.
    * `Marked.count_tells_what_was_used` — scripts in any context, and parts
      after any history.
-/
import Masquerade.Proofs.Histories
import Masquerade.Proofs.Leniency
import Masquerade.Proofs.Retention

namespace Masquerade

/-! ## §1. Bytes spent -/

/-- **Spending so many bytes** off the front of a buffer leaves this rest. -/
structure Spends (n : Nat) (buffer rest : Bytes) : Prop where
  le : n ≤ buffer.length
  rest_eq : rest = buffer.drop n

namespace Spends

variable {n n' : Nat} {buffer between rest : Bytes}

theorem nothing (buffer : Bytes) : Spends 0 buffer buffer := ⟨Nat.zero_le _, rfl⟩

theorem andThen (h : Spends n buffer between) (h' : Spends n' between rest) :
    Spends (n + n') buffer rest := by
  obtain ⟨hle, rfl⟩ := h
  obtain ⟨hle', rfl⟩ := h'
  rw [List.length_drop] at hle'
  exact ⟨by omega, List.drop_drop⟩

theorem length_eq (h : Spends n buffer rest) : n + rest.length = buffer.length := by
  obtain ⟨hle, rfl⟩ := h
  rw [List.length_drop]
  omega

end Spends

/-! ## §2. Parts -/

/-- A run gives at most one byte for each of its elements. -/
theorem length_gained_le (run : List Element) :
    ∀ (s : Supply), (gained run s).length ≤ run.length := by
  induction run with
  | nil => exact fun s => Nat.le_refl _
  | cons element run ih =>
      intro s
      rcases hgen : element.generate s with ⟨e | byte, s'⟩
      · rw [gained_cons_error hgen]
        exact Nat.le_succ_of_le (ih s')
      · rw [gained_cons_ok hgen]
        exact Nat.succ_le_succ (ih s')

namespace Part

/-- **An old record does not show** under a new one, and is not needed where
    the length is written in the part. -/
theorem count_or {part : Part} {resolution : Option Resolution}
    (h : resolution = none → part.isFixed = true) (old : Option Resolution) :
    part.count (resolution.or old) = part.count resolution := by
  cases resolution with
  | none => exact count_of_isFixed (h rfl) old none
  | some r => rfl

variable {part : Part} {known : Option Nat} {buffer : Bytes} {vars : Variables}

/-- A part that has a run is recorded, unless its length is written in it. -/
theorem settled_of_run? {run : List Element} (h : part.run? known vars = some run)
    (hnone : part.resolve known vars = none) : part.isFixed = true := by
  cases part with
  | bytes items | timed milliseconds items | empty => rfl
  | dynamic source item =>
      obtain ⟨n, hlength, -⟩ := Option.map_eq_some_iff.mp h
      unfold resolve at hnone
      rw [hlength] at hnone
      cases hnone
  | optional name condition item =>
      obtain ⟨value, hget, -⟩ := Option.bind_eq_some_iff.mp h
      unfold resolve at hnone
      rw [hget] at hnone
      cases hnone

/-- **A part that fits has spent as many bytes as it is counted** once it is
    recorded. -/
theorem spends_of_valid (h : (part.validate known buffer vars).1.verdict = .valid)
    (old : Option Resolution) :
    Spends (part.count ((part.validate known buffer vars).2.or old)) buffer
      (part.validate known buffer vars).1.rest := by
  obtain ⟨hle, hrest⟩ := rest_of_valid h
  -- a part that fits has a run, and the length recorded is the one foreseen
  have hsettled : part.resolve known vars = none → part.isFixed = true := by
    cases hrun : part.run? known vars with
    | none =>
        rw [validate_eq_checkRun, hrun] at h
        cases h
    | some run => exact settled_of_run? hrun
  rw [resolution_validate, count_or hsettled]
  exact ⟨hle, hrest⟩

/-- **A part that is generated strictly** is counted as it was sent. -/
theorem count_of_generate {s : Supply} {message : Option Message}
    (h : (part.generate .strict s).outcome = .ok message) (old : Option Resolution) :
    part.count ((part.generate .strict s).resolution.or old) = (sentBytes message).length := by
  obtain ⟨run, hrealizes⟩ := part.exists_run_of_generate h
  rw [count_or hrealizes.settled, hrealizes.counted, hrealizes.length_word]

/-- A run that is generated leniently sends at most a byte for each element. -/
theorem length_of_generateMessage {delay : Option UInt64} {run : List Element} {s : Supply}
    {resolution : Option Resolution} {message : Option Message}
    (h : (generateMessage .lenient delay run s resolution).outcome = .ok message) :
    (sentBytes message).length ≤ run.length
      ∧ (generateMessage .lenient delay run s resolution).resolution = resolution := by
  unfold generateMessage at h ⊢
  rw [generateRun_lenient_eq] at h ⊢
  cases h
  exact ⟨length_gained_le run s, rfl⟩

/-- **A part that is generated leniently** is counted at least as long as what
    was sent of it. -/
theorem length_le_count (part : Part) :
    ∀ {s : Supply} {message : Option Message},
      (part.generate .lenient s).outcome = .ok message → ∀ (old : Option Resolution),
      (sentBytes message).length ≤ part.count ((part.generate .lenient s).resolution.or old) := by
  induction part with
  | bytes items | timed milliseconds items =>
      intro s message h old
      exact (length_of_generateMessage h).1
  | dynamic source item =>
      intro s message h old
      unfold generate at h ⊢
      rcases htake : takeLength source s with ⟨e | n, s'⟩
      · -- no length: nothing is sent
        rw [htake] at h
        cases h
        exact Nat.zero_le _
      · rw [htake] at h
        obtain ⟨hlength, hresolution⟩ := length_of_generateMessage h
        rw [List.length_replicate] at hlength
        dsimp only
        rw [hresolution]
        exact hlength
  | optional name condition item ih =>
      intro s message h old
      cases hget : s.vars.get? name with
      | none =>
          rw [generate_unset hget] at h
          cases h
          exact Nat.zero_le _
      | some value =>
          cases hold : condition.holds value with
          | false =>
              rw [generate_absent hget hold] at h
              cases h
              exact Nat.zero_le _
          | true =>
              -- what is guarded is recorded as if nothing had been recorded before
              rw [generate_present hget hold] at h ⊢
              cases hitem : (item.generate .lenient s).outcome with
              | error e =>
                  rw [hitem] at h
                  cases h
              | ok inner =>
                  rw [hitem] at h
                  cases h
                  have hle := ih hitem none
                  rw [Option.or_none] at hle
                  exact hle
  | empty =>
      intro s message h old
      cases h
      exact Nat.zero_le _

end Part

/-! ## §3. Steps -/

namespace Step

variable {step : Step} {buffer rest : Bytes} {ctx after : Context}

theorem count_record_or (step : Step) (ctx : Context) (vars : Variables)
    (resolution : Option Resolution) :
    step.count (ctx.record step.id vars resolution)
      = step.part.count (resolution.or (ctx.resolution? step.id)) := by
  unfold count
  rw [Context.resolution?_record_or]

theorem spends_of_valid (h : step.validate buffer ctx = (.valid, rest, after)) :
    Spends (step.count after) buffer rest := by
  obtain ⟨hvalid, h⟩ := Prod.mk.inj h
  obtain ⟨rfl, rfl⟩ := Prod.mk.inj h
  rw [count_record_or]
  exact Part.spends_of_valid hvalid _

theorem count_of_generate {pass after : Pass} {message : Option Message}
    (h : step.generate .strict pass = (.ok message, after)) :
    step.count after.context = (sentBytes message).length := by
  obtain ⟨houtcome, rfl⟩ := Prod.mk.inj h
  rw [count_record_or]
  exact Part.count_of_generate houtcome _

theorem length_le_count (step : Step) (pass : Pass) :
    (sentBytes (step.message pass).1).length ≤ step.count (step.message pass).2.context := by
  obtain ⟨houtcome, hafter⟩ := Prod.mk.inj (step.generate_lenient pass)
  rw [← hafter]
  dsimp only
  rw [count_record_or]
  exact step.part.length_le_count houtcome _

end Step

/-! ## §4. Scripts -/

namespace Script

variable {step : Step} {script front back : Script} {ctx between after : Context}

/-- **What an operation on a script leaves:** all other steps are recorded as
    they were. -/
def Leaves (script : Script) (ctx after : Context) : Prop :=
  ∀ id, id ∉ script.map Step.id → after.resolution? id = ctx.resolution? id

theorem leaves_record (step : Step) (ctx : Context) (vars : Variables)
    (resolution : Option Resolution) :
    Leaves [step] ctx (ctx.record step.id vars resolution) := by
  intro id hid
  exact Context.resolution?_record_of_ne (List.ne_of_not_mem_cons hid) vars resolution

/-- One step after another. -/
theorem Leaves.andThen (h : Leaves [step] ctx between) (hrest : script.Leaves between after) :
    Leaves (step :: script) ctx after := by
  intro id hid
  have hne := List.ne_of_not_mem_cons hid
  rw [hrest id (List.not_mem_of_not_mem_cons hid)]
  exact h id (by simpa using hne)

theorem leaves_generate {mode : Mode} {pass pass' : Pass}
    {outcome : Except PatternError (Option Message)}
    (h : step.generate mode pass = (outcome, pass')) :
    Leaves [step] pass.context pass'.context := by
  obtain ⟨-, rfl⟩ := Prod.mk.inj h
  exact leaves_record _ _ _ _

theorem leaves_messages (script : Script) :
    ∀ (pass : Pass), script.Leaves pass.context (script.messages pass).2.context := by
  induction script with
  | nil => exact fun _ _ _ => rfl
  | cons step script ih =>
      intro pass
      exact (leaves_generate (step.generate_lenient pass)).andThen (ih (step.message pass).2)

theorem leaves_messages? (script : Script) :
    ∀ (pass : Pass), script.Leaves pass.context (script.messages? pass).2.context := by
  induction script with
  | nil => exact fun _ _ _ => rfl
  | cons step script ih =>
      intro pass
      rcases hstep : step.generate .strict pass with ⟨e | message, between⟩
      · -- the steps after a failure are not touched
        simp only [messages?, hstep]
        exact (leaves_generate hstep).andThen fun _ _ => rfl
      · have hleaves := (leaves_generate hstep).andThen (ih between)
        rcases hmore : messages? script between with ⟨e | more, after⟩ <;>
          simpa only [messages?, hstep, hmore] using hleaves

theorem leaves_validate (script : Script) :
    ∀ (buffer : Bytes) (ctx : Context), script.Leaves ctx (script.validate buffer ctx).2.2 := by
  induction script with
  | nil => exact fun _ _ _ _ => rfl
  | cons step script ih =>
      intro buffer ctx
      rcases hcheck : step.validate buffer ctx with ⟨verdict, rest, between⟩
      have hleaves : Leaves [step] ctx between := by
        obtain ⟨-, h⟩ := Prod.mk.inj hcheck
        obtain ⟨-, rfl⟩ := Prod.mk.inj h
        exact leaves_record _ _ _ _
      simp only [validate, hcheck]
      cases verdict with
      | valid => exact hleaves.andThen (ih rest between)
      | invalid | incomplete => exact hleaves.andThen fun _ _ => rfl

theorem leaves_resolve (script : Script) :
    ∀ (ctx : Context), script.Leaves ctx (script.resolve ctx) := by
  induction script with
  | nil => exact fun _ _ _ => rfl
  | cons step script ih => exact fun ctx => (leaves_record _ _ _ _).andThen (ih (step.resolve ctx))

/-- **What any operation on a script leaves.** -/
theorem leaves_operation (script : Script) (ctx : Context) (operation : Operation) :
    script.Leaves ctx (operation.onScript script ctx).2 := by
  cases operation with
  | generate mode args draws =>
      cases mode with
      | lenient => exact script.leaves_messages _
      | strict => exact script.leaves_messages? _
  | parse buffer args => exact fun _ hid => script.resolution?_parse buffer args ctx hid
  | validate buffer => exact script.leaves_validate buffer ctx
  | resolve => exact script.leaves_resolve ctx
  | count | set name value => exact fun _ _ => rfl

/-- Steps that an operation leaves alone count as they did. -/
theorem Leaves.count_eq (h : back.Leaves ctx after) (hdistinct : ((front ++ back).map Step.id).Nodup)
    (hstep : step ∈ front) : step.count after = step.count ctx := by
  rw [List.map_append, List.nodup_append] at hdistinct
  obtain ⟨-, -, hapart⟩ := hdistinct
  unfold Step.count
  rw [h step.id fun hmem => hapart _ (List.mem_map_of_mem hstep) _ hmem rfl]

/-- The first step counts as it did when it was evaluated. -/
theorem Leaves.count_first (h : script.Leaves between after)
    (hdistinct : ((step :: script).map Step.id).Nodup) :
    step.count after = step.count between :=
  @count_eq step [step] script between after h hdistinct List.mem_cons_self

/-- **A script that fits has spent as many bytes as it is counted.** -/
theorem spends_of_valid (script : Script) :
    ∀ {buffer rest : Bytes} {ctx after : Context}, (script.map Step.id).Nodup →
      script.validate buffer ctx = (.valid, rest, after) →
      Spends (script.count after) buffer rest := by
  induction script with
  | nil =>
      intro buffer rest ctx after _ h
      cases h
      exact .nothing buffer
  | cons step script ih =>
      intro buffer rest ctx after hdistinct h
      rcases hcheck : step.validate buffer ctx with ⟨verdict, left, between⟩
      rw [validate, hcheck] at h
      cases verdict with
      | valid =>
          dsimp only at h
          have hleaves := leaves_validate script left between
          rw [h] at hleaves
          have hfirst := Step.spends_of_valid hcheck
          -- the steps after the first leave its record alone
          rw [← hleaves.count_first hdistinct] at hfirst
          exact hfirst.andThen (ih hdistinct.of_cons h)
      | invalid | incomplete => cases h

/-- **A script that is generated strictly** is counted as it was sent. -/
theorem count_of_messages? (script : Script) :
    ∀ {pass after : Pass} {messages : List (Option Message)}, (script.map Step.id).Nodup →
      script.messages? pass = (.ok messages, after) →
      script.count after.context = (messages.flatMap sentBytes).length := by
  induction script with
  | nil =>
      intro pass after messages _ h
      cases h
      rfl
  | cons step script ih =>
      intro pass after messages hdistinct h
      obtain ⟨message, more, between, hstep, hmore, rfl⟩ := messages?_cons_eq_ok h
      have hleaves := leaves_messages? script between
      rw [hmore] at hleaves
      rw [count, hleaves.count_first hdistinct, Step.count_of_generate hstep,
        ih hdistinct.of_cons hmore, List.flatMap_cons, List.length_append]

/-- **A script that is generated leniently** is counted at least as long as what
    was sent of it. -/
theorem length_le_count (script : Script) :
    ∀ (pass : Pass), (script.map Step.id).Nodup →
      ((script.messages pass).1.flatMap sentBytes).length
        ≤ script.count (script.messages pass).2.context := by
  induction script with
  | nil => exact fun pass _ => Nat.le_refl _
  | cons step script ih =>
      intro pass hdistinct
      have hleaves := leaves_messages script (step.message pass).2
      rw [messages_cons, count, hleaves.count_first hdistinct, List.flatMap_cons,
        List.length_append]
      exact Nat.add_le_add (step.length_le_count pass) (ih _ hdistinct.of_cons)

end Script

/-! ## §5. Parts after any history -/

namespace Marked

/-- Parts of one description carry identities of their own. -/
theorem apart_of_nodup {front back : List Marked} {m other : Marked}
    (h : ((front ++ back).filterMap id?).Nodup) (hm : m ∈ front) (hother : other ∈ back)
    (id : PartId) (hid : m.id? = some id) : other.id? ≠ some id := by
  intro hid'
  rw [List.filterMap_append, List.nodup_append] at h
  obtain ⟨-, -, hapart⟩ := h
  exact hapart id (List.mem_filterMap.mpr ⟨m, hm, hid⟩) id
    (List.mem_filterMap.mpr ⟨other, hother, hid'⟩) rfl

end Marked

namespace World

variable {w : World} {m : Marked} {front back : List Marked} {after : Ledger} {c : Nat}

/-- Parts that an operation leaves alone count as they did. -/
theorem Leaves.count_eq (h : w.Leaves back after c)
    (hdistinct : ((front ++ back).filterMap Marked.id?).Nodup) (hm : m ∈ front)
    (hheld : w.Holds m) : after.count m = w.ledger.count m :=
  h.others hheld fun _ hother => Marked.apart_of_nodup hdistinct hm hother

/-- The first part counts as it did when it was evaluated. -/
theorem Leaves.count_first (h : w.Leaves back after c)
    (hdistinct : ((m :: back).filterMap Marked.id?).Nodup) (hheld : w.Holds m) :
    after.count m = w.ledger.count m :=
  @count_eq w m [m] back after c h hdistinct List.mem_cons_self hheld

/-- The parts that come after the first are distinct too. -/
theorem distinct_of_cons (h : ((m :: back).filterMap Marked.id?).Nodup) :
    (back.filterMap Marked.id?).Nodup :=
  h.sublist ((List.sublist_cons_self m back).filterMap Marked.id?)

namespace Sound

variable {parts : List Marked} {tray : Tray} {counter : Nat}

/-! One part: it is counted as `Part` counts it, whatever was recorded. -/

theorem spends_of_valid (buffer : Bytes) (h : w.Sound) (hm : w.Holds m) :
    (m.validate buffer w.ledger).Ends (fun _ r =>
      r.1 = .valid → Spends (r.2.2.count m) buffer r.2.1) w.counter := by
  refine (Marked.validate_ends buffer m (h.ready hm)).imp ?_
  intro c r hr hvalid
  obtain ⟨ledger, rfl, hsettles⟩ := hr
  rw [h.count_self hm hsettles]
  exact Part.spends_of_valid hvalid _

theorem count_of_generate (h : Sound ⟨parts, tray.ledger, counter⟩)
    (hm : Holds ⟨parts, tray.ledger, counter⟩ m) :
    (m.generate .strict tray).Ends (fun _ r => ∀ message, r.1 = .ok message →
      r.2.ledger.count m = (sentBytes message).length) counter := by
  refine (Marked.generate_ends .strict m (h.ready hm)).imp ?_
  intro c r hr message houtcome
  obtain ⟨ledger, rfl, hsettles⟩ := hr
  rw [h.count_self hm hsettles]
  exact Part.count_of_generate houtcome _

theorem length_le_count (h : Sound ⟨parts, tray.ledger, counter⟩)
    (hm : Holds ⟨parts, tray.ledger, counter⟩ m) :
    (m.generate .lenient tray).Ends (fun _ r =>
      (sentBytes r.1.toOption.join).length ≤ r.2.ledger.count m) counter := by
  refine (Marked.generate_ends .lenient m (h.ready hm)).imp ?_
  intro c r hr
  obtain ⟨ledger, rfl, hsettles⟩ := hr
  obtain ⟨message, houtcome⟩ := m.part.exists_of_makes_lenient tray.supply
  rw [h.count_self hm hsettles, houtcome]
  exact m.part.length_le_count houtcome _

/-! Several parts, one after another. -/

theorem spends_of_validateAll (marks : List Marked) : ∀ {buffer : Bytes} {w : World},
    w.Sound → (∀ m ∈ marks, w.Holds m) → (marks.filterMap Marked.id?).Nodup →
    (Marked.validateAll marks buffer w.ledger).Ends (fun _ r =>
      r.1 = .valid → Spends (Marked.countAll marks r.2.2) buffer r.2.1) w.counter := by
  induction marks with
  | nil => exact fun _ _ _ _ => .nothing _
  | cons m marks ih =>
      intro buffer w h hmarks hdistinct
      obtain ⟨hheld, hmore⟩ := List.forall_mem_cons.mp hmarks
      refine ((h.validate buffer hheld).and (h.spends_of_valid buffer hheld)).bind ?_
      intro c r hr
      obtain ⟨verdict, rest, between⟩ := r
      obtain ⟨hleaves, hspends⟩ := hr
      cases verdict with
      | valid =>
          have hrest := @validateAll marks rest _ hleaves.sound hmore
          refine (hrest.and (ih hleaves.sound hmore (distinct_of_cons hdistinct))).imp ?_
          intro c' r' hr' hvalid
          obtain ⟨hleaves', hspends'⟩ := hr'
          -- the parts after the first leave its record alone
          rw [Marked.countAll, hleaves'.count_first hdistinct hheld]
          exact (hspends rfl).andThen (hspends' hvalid)
      | invalid | incomplete =>
          intro hvalid
          cases hvalid

theorem count_of_messages? (marks : List Marked) : ∀ {tray : Tray} {counter : Nat},
    Sound ⟨parts, tray.ledger, counter⟩ → (∀ m ∈ marks, Holds ⟨parts, tray.ledger, counter⟩ m) →
    (marks.filterMap Marked.id?).Nodup →
    (Marked.messages? marks tray).Ends (fun _ r => ∀ messages, r.1 = .ok messages →
      Marked.countAll marks r.2.ledger = (messages.flatMap sentBytes).length) counter := by
  induction marks with
  | nil =>
      intro tray counter _ _ _ messages hok
      injection hok with hok
      rw [← hok]
      rfl
  | cons m marks ih =>
      intro tray counter h hmarks hdistinct
      obtain ⟨hheld, hmore⟩ := List.forall_mem_cons.mp hmarks
      refine ((h.generate .strict hheld).and (h.count_of_generate hheld)).bind ?_
      intro c r hr
      obtain ⟨outcome, between⟩ := r
      obtain ⟨hleaves, hcount⟩ := hr
      cases outcome with
      | error e =>
          intro messages hok
          cases hok
      | ok message =>
          have hrest := messages? marks hleaves.sound hmore
          refine (hrest.and (ih hleaves.sound hmore (distinct_of_cons hdistinct))).bind ?_
          intro c' r' hr' messages hok
          obtain ⟨outcome', after⟩ := r'
          obtain ⟨hleaves', hcount'⟩ := hr'
          cases outcome' with
          | error e => cases hok
          | ok more =>
              injection hok with hok
              rw [← hok, Marked.countAll, hleaves'.count_first hdistinct hheld,
                List.flatMap_cons, List.length_append, hcount' more rfl]
              exact congrArg (· + _) (hcount message rfl)

theorem length_messages_le (marks : List Marked) : ∀ {tray : Tray} {counter : Nat},
    Sound ⟨parts, tray.ledger, counter⟩ → (∀ m ∈ marks, Holds ⟨parts, tray.ledger, counter⟩ m) →
    (marks.filterMap Marked.id?).Nodup →
    (Marked.messages marks tray).Ends (fun _ r =>
      (r.1.flatMap sentBytes).length ≤ Marked.countAll marks r.2.ledger) counter := by
  induction marks with
  | nil => exact fun _ _ _ => Nat.le_refl _
  | cons m marks ih =>
      intro tray counter h hmarks hdistinct
      obtain ⟨hheld, hmore⟩ := List.forall_mem_cons.mp hmarks
      refine ((h.generate .lenient hheld).and (h.length_le_count hheld)).bind ?_
      intro c r hr
      obtain ⟨hleaves, hle⟩ := hr
      have hrest := messages marks hleaves.sound hmore
      refine (hrest.and (ih hleaves.sound hmore (distinct_of_cons hdistinct))).bind ?_
      intro c' r' hr'
      obtain ⟨hleaves', hle'⟩ := hr'
      show _ ≤ r'.2.ledger.count m + Marked.countAll marks r'.2.ledger
      rw [hleaves'.count_first hdistinct hheld, List.flatMap_cons, List.length_append]
      exact Nat.add_le_add hle hle'

end Sound

end World

/-! ## §6. What counting tells -/

namespace Marked

/-- **COUNTING TELLS WHAT WAS USED.**  Let a script of distinct identities be
    given, and any context.

    • Where checking finds a fit, the script counts the bytes that were spent.
    • Where strict generation succeeds, it counts the bytes that were sent.
    • After lenient generation it counts at least those.
    • No operation on later steps changes the count of earlier ones.

    The same holds for parts with the identities they carry and a context
    that remembers parts, after any history of operations on these parts and
    on others, whatever identities are given out meanwhile. -/
theorem count_tells_what_was_used :
    (∀ (script : Script) (ctx : Context), (script.map Step.id).Nodup →
      (∀ buffer rest after, script.validate buffer ctx = (.valid, rest, after) →
          Spends (script.count after) buffer rest)
      ∧ (∀ args draws messages after, script.messages? ⟨args, draws, ctx⟩ = (.ok messages, after) →
          script.count after.context = (messages.flatMap sentBytes).length)
      ∧ (∀ args draws messages after, script.messages ⟨args, draws, ctx⟩ = (messages, after) →
          (messages.flatMap sentBytes).length ≤ script.count after.context)
      ∧ ∀ front back, script = front ++ back → ∀ (operation : Operation), ∀ step ∈ front,
          step.count (operation.onScript back ctx).2 = step.count ctx)
    ∧ ∀ (w : World) (parts : List Marked), w.Reachable → (∀ m ∈ parts, w.Holds m) →
      (parts.filterMap id?).Nodup →
      (∀ buffer, (validateAll parts buffer w.ledger).Ends (fun _ r => r.1 = .valid →
          Spends (countAll parts r.2.2) buffer r.2.1) w.counter)
      ∧ (∀ args draws, (messages? parts ⟨args, draws, w.ledger⟩).Ends (fun _ r =>
          ∀ messages, r.1 = .ok messages →
            countAll parts r.2.ledger = (messages.flatMap sentBytes).length) w.counter)
      ∧ (∀ args draws, (messages parts ⟨args, draws, w.ledger⟩).Ends (fun _ r =>
          (r.1.flatMap sentBytes).length ≤ countAll parts r.2.ledger) w.counter)
      ∧ ∀ front back, parts = front ++ back → ∀ (operation : Operation),
          (operation.on back w.ledger).Ends (fun _ r =>
            ∀ m ∈ front, r.2.count m = w.ledger.count m) w.counter := by
  constructor
  · intro script ctx hdistinct
    refine ⟨?_, ?_, ?_, ?_⟩
    · exact fun buffer rest after h => script.spends_of_valid hdistinct h
    · exact fun args draws messages after h => script.count_of_messages? hdistinct h
    · intro args draws messages after h
      have hle := script.length_le_count ⟨args, draws, ctx⟩ hdistinct
      rw [h] at hle
      exact hle
    · rintro front back rfl operation step hstep
      exact (back.leaves_operation ctx operation).count_eq hdistinct hstep
  · intro w parts hreachable hheld hdistinct
    have hsound := World.Sound.of_reachable hreachable
    refine ⟨?_, ?_, ?_, ?_⟩
    · exact fun buffer => World.Sound.spends_of_validateAll parts hsound hheld hdistinct
    · exact fun args draws => @World.Sound.count_of_messages? w.parts parts
        ⟨args, draws, w.ledger⟩ w.counter hsound hheld hdistinct
    · exact fun args draws => @World.Sound.length_messages_le w.parts parts
        ⟨args, draws, w.ledger⟩ w.counter hsound hheld hdistinct
    · rintro front back rfl operation
      have hback : ∀ m ∈ back, w.Holds m := fun m hm => hheld m (List.mem_append_right front hm)
      refine (hsound.operation hback operation).imp ?_
      intro c r hleaves m hm
      exact hleaves.count_eq hdistinct hm (hheld m (List.mem_append_left back hm))

/-- A description that was followed with the number two is followed with three,
    or generated; and a part that was checked while n was two is checked again,
    now that n is three.  What was recorded before does not show. -/
theorem count_tells_what_was_used_again :
    let script := Script.ofDescription 0 .counted
    let before := (script.validate [2, 9, 9] .empty).2.2
    let world := World.checkedBefore
    (script.map Step.id).Nodup ∧ script.count before = 3
      ∧ (∃ after, script.validate [3, 9, 9, 9, 3, 5] before = (.valid, [5], after)
          ∧ script.count after = 5)
      ∧ (∃ messages after, script.messages? ⟨[], default, before⟩ = (.ok messages, after)
          ∧ script.count after.context = (messages.flatMap sentBytes).length)
      ∧ (∀ (operation : Operation), ∀ step ∈ script.take 2,
          step.count (operation.onScript (script.drop 2) before).2 = step.count before)
      ∧ world.Reachable ∧ (∀ m ∈ world.parts, world.Holds m)
      ∧ (world.parts.filterMap id?).Nodup ∧ countAll world.parts world.ledger = 2
      ∧ (validateAll world.parts [1, 2, 3, 4] world.ledger).Ends (fun _ r =>
          r.1 = .valid ∧ r.2.1 = [4] ∧ countAll world.parts r.2.2 = 3) world.counter := by
  intro script before world
  obtain ⟨hscripts, hworlds⟩ := count_tells_what_was_used
  have hdistinct := Script.ids_nodup 0 .counted
  have hheld : ∀ m ∈ world.parts, world.Holds m := fun m hm => World.holds_of_mem hm
  obtain ⟨hspends, hsent, -, hfront⟩ := hscripts script before hdistinct
  obtain ⟨hspendsAll, -⟩ := hworlds world world.parts World.reachable_checkedBefore hheld (by decide)
  obtain ⟨after, hfits⟩ : ∃ after, script.validate [3, 9, 9, 9, 3, 5] before = (.valid, [5], after) :=
    ⟨_, rfl⟩
  obtain ⟨messages, last, hgenerated⟩ :
      ∃ messages last, script.messages? ⟨[], default, before⟩ = (.ok messages, last) := ⟨_, _, rfl⟩
  have hcount : script.count after + 1 = 6 := (hspends _ _ _ hfits).length_eq
  refine ⟨hdistinct, rfl, ⟨after, hfits, Nat.add_right_cancel hcount⟩,
    ⟨messages, last, hgenerated, hsent _ _ _ _ hgenerated⟩, hfront _ _ rfl,
    World.reachable_checkedBefore, hheld, by decide, World.count_guarded, ?_⟩
  have hfitsAll : (validateAll world.parts [1, 2, 3, 4] world.ledger).Ends
      (fun _ r => r.1 = .valid ∧ r.2.1 = [4]) world.counter := by
    have hready := (World.Sound.of_reachable World.reachable_checkedBefore).ready
      (hheld _ List.mem_cons_self)
    refine (validate_ends [1, 2, 3, 4] World.guarded hready).bind ?_
    intro c r hr
    obtain ⟨ledger, rfl, -⟩ := hr
    exact ⟨rfl, rfl⟩
  refine ((hspendsAll [1, 2, 3, 4]).and hfitsAll).imp ?_
  intro c r hr
  obtain ⟨hspends, hverdict, hrest⟩ := hr
  have hthree := (hspends hverdict).length_eq
  rw [hrest] at hthree
  exact ⟨hverdict, hrest, Nat.add_right_cancel hthree⟩

end Marked

end Masquerade
