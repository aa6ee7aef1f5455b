/-
  Masquerade.Proofs.Readiness — A VALID CONFIGURATION NEVER FAILS AS ONE.

  A configuration is checked when it is taken up, and what it stands for is
  made anew for each connection: the messages of its toneburst under other
  random draws, the cipher from another secret.  So the check has to hold
  for draws that nobody has seen yet.

  Whether an exchange has a message at all is decided before any byte is
  produced: up to the first message no variable is set, so an optional part
  and a length read from a variable give nothing, and a length taken from
  the arguments is the same under all draws (`Part.silent?`).

  Main results:
    * `Instance.isEmpty_messages` — whether an instance has messages is read
      off its parts and arguments.
    * `Toneburst.validate_eq` — a toneburst is valid under all draws or under
      none.
    * `Opening.Sound.endures` — a handshake of a valid configuration never
      fails as a configuration, whatever the peer does.
-/
import Masquerade.Handshake.Opening
import Masquerade.Proofs.Generation
import Masquerade.Proofs.Rounds

namespace Masquerade

/-! ## §1. Silence -/

namespace Part

/-- **Whether a part has nothing to say while no variable is set:** if so,
    the arguments it leaves. -/
def silent? : Part → Arguments → Option Arguments
  | .bytes _, _ | .timed _ _, _ => none
  | .dynamic .argument _, args =>
    match args.popInt with
    | (.ok n, left) => if 0 ≤ n ∧ n ≤ maxRunLength then none else some left
    | (.error _, left) => some left
  | .dynamic (.named _) _, args | .dynamic (.seeded _) _, args => some args
  | .optional _ _ _, args | .empty, args => some args

/-- A run without its failing elements is a message. -/
theorem generateOnto_lenient (run : List Element) :
    ∀ (done : Bytes) (s : Supply), ∃ word, (generateOnto .lenient done run s).1 = .ok word := by
  induction run with
  | nil =>
      intro done s
      exact ⟨done.reverse, rfl⟩
  | cons element run ih =>
      intro done s
      unfold generateOnto
      split
      next byte s' _ => exact ih (byte :: done) s'
      next s' _ => exact ih done s'

theorem generateMessage_speaks (delay : Option UInt64) (run : List Element) (s : Supply)
    (resolution : Option Resolution) :
    ∃ message, (generateMessage .lenient delay run s resolution).outcome = .ok (some message) := by
  obtain ⟨word, hword⟩ := generateOnto_lenient run [] s
  unfold generateMessage generateRun
  cases hrun : generateOnto .lenient [] run s with
  | mk outcome after =>
      rw [hrun] at hword
      cases hword
      exact ⟨⟨delay, word⟩, rfl⟩

/-- An integer taken off the arguments is a length if it is in range. -/
theorem takeLength_of_popInt_ok {s : Supply} {n : Int} {left : Arguments}
    (h : s.args.popInt = (.ok n, left)) :
    (0 ≤ n ∧ n ≤ maxRunLength → takeLength .argument s = (.ok n.toNat, { s with args := left }))
      ∧ (¬ (0 ≤ n ∧ n ≤ maxRunLength) →
          ∃ e, takeLength .argument s = (.error e, { s with args := left })) := by
  have htake : takeLength .argument s
      = (if 0 ≤ n then
          if n.toNat ≤ maxRunLength then .ok n.toNat else .error (.tooLong n.toNat maxRunLength)
        else .error (.mismatch .length .negative), { s with args := left }) := by
    unfold takeLength
    dsimp only
    rw [h]
    by_cases hsign : 0 ≤ n
    · simp only [if_pos hsign]
    · simp only [if_neg hsign]
  rw [htake]
  refine ⟨?_, ?_⟩
  · rintro ⟨hsign, hle⟩
    rw [if_pos hsign, if_pos (by omega)]
  · intro hmisfit
    by_cases hsign : 0 ≤ n
    · rw [if_pos hsign, if_neg (by omega)]
      exact ⟨_, rfl⟩
    · rw [if_neg hsign]
      exact ⟨_, rfl⟩

/-- What is no integer is taken off the arguments all the same. -/
theorem takeLength_of_popInt_error {s : Supply} {e : PatternError} {left : Arguments}
    (h : s.args.popInt = (.error e, left)) :
    takeLength .argument s = (.error e, { s with args := left }) := by
  unfold takeLength
  dsimp only
  rw [h]

/-- A length read from a variable that is not set is missing. -/
theorem takeLength_of_unset {source : LengthSource} {s : Supply} {name : String}
    (hsource : source = .named name ∨ source = .seeded name) (hunset : s.vars.get? name = none) :
    takeLength source s = (.error (.undefined name), s) := by
  rcases hsource with rfl | rfl <;>
    simp only [takeLength, length?, Variables.getInt?, hunset, Option.bind_none, Option.map_none]

/-- A length that is taken makes a message. -/
theorem generate_of_takeLength_ok {source : LengthSource} {item : Element} {s s' : Supply} {n : Nat}
    (h : takeLength source s = (.ok n, s')) :
    ∃ message, (generate .lenient (.dynamic source item) s).outcome = .ok (some message) := by
  unfold generate
  rw [h]
  exact generateMessage_speaks ..

/-- A length that is missing makes no message, and leaves the rest alone. -/
theorem generate_of_takeLength_error {source : LengthSource} {item : Element} {s s' : Supply}
    {e : PatternError} (h : takeLength source s = (.error e, s')) :
    generate .lenient (.dynamic source item) s = ⟨.ok none, s', none⟩ := by
  unfold generate
  rw [h]
  rfl

/-- A part that is not silent gives a message under all draws. -/
theorem generate_of_silent?_eq_none {part : Part} {s : Supply} (h : part.silent? s.args = none) :
    ∃ message, (part.generate .lenient s).outcome = .ok (some message) := by
  cases part with
  | bytes items => exact generateMessage_speaks none items s none
  | timed milliseconds items => exact generateMessage_speaks (some milliseconds) items s none
  | empty => cases h
  | optional name condition item => cases h
  | dynamic source item =>
      cases source with
      | named name => cases h
      | seeded name => cases h
      | argument =>
          rcases hpop : s.args.popInt with ⟨outcome, left⟩
          cases outcome with
          | error e =>
              rw [silent?, hpop] at h
              cases h
          | ok n =>
              rw [silent?, hpop] at h
              dsimp only at h
              split at h
              next hfits => exact generate_of_takeLength_ok ((takeLength_of_popInt_ok hpop).1 hfits)
              next => cases h

/-- **A silent part** gives nothing under all draws, sets no variable, and
    leaves the same arguments. -/
theorem generate_of_silent?_eq_some {part : Part} {s : Supply} {left : Arguments}
    (hvars : s.vars = .empty) (h : part.silent? s.args = some left) :
    (part.generate .lenient s).outcome = .ok none
      ∧ (part.generate .lenient s).supply = { s with args := left } := by
  have hunset : ∀ name, s.vars.get? name = none := by
    intro name
    rw [hvars]
    rfl
  cases part with
  | bytes items => cases h
  | timed milliseconds items => cases h
  | empty =>
      cases h
      exact ⟨rfl, rfl⟩
  | optional name condition item =>
      cases h
      rw [generate_unset (hunset name)]
      exact ⟨rfl, rfl⟩
  | dynamic source item =>
      cases source with
      | named name =>
          cases h
          rw [generate_of_takeLength_error (takeLength_of_unset (.inl rfl) (hunset name))]
          exact ⟨rfl, rfl⟩
      | seeded name =>
          cases h
          rw [generate_of_takeLength_error (takeLength_of_unset (.inr rfl) (hunset name))]
          exact ⟨rfl, rfl⟩
      | argument =>
          rcases hpop : s.args.popInt with ⟨outcome, rest⟩
          cases outcome with
          | error e =>
              rw [silent?, hpop] at h
              cases h
              rw [generate_of_takeLength_error (takeLength_of_popInt_error hpop)]
              exact ⟨rfl, rfl⟩
          | ok n =>
              rw [silent?, hpop] at h
              dsimp only at h
              split at h
              next => cases h
              next hmisfit =>
                cases h
                obtain ⟨e, htake⟩ := (takeLength_of_popInt_ok hpop).2 hmisfit
                rw [generate_of_takeLength_error htake]
                exact ⟨rfl, rfl⟩

end Part

/-- **Whether a script has nothing to say** while no variable is set. -/
def Script.isSilent : Script → Arguments → Bool
  | [], _ => true
  | step :: rest, args =>
    match step.part.silent? args with
    | some left => isSilent rest left
    | none => false

/-- Whether a script has messages does not depend on the draws. -/
theorem Script.isEmpty_messages (script : Script) :
    ∀ {pass : Pass}, pass.context.vars = .empty →
      ((script.messages pass).1.filterMap id).isEmpty = script.isSilent pass.args := by
  induction script with
  | nil =>
      intro pass _
      rfl
  | cons step rest ih =>
      intro pass hvars
      have hcons : (Script.messages (step :: rest) pass).1
          = (step.message pass).1 :: (messages rest (step.message pass).2).1 := rfl
      unfold isSilent
      rw [hcons]
      cases hsilent : step.part.silent? pass.args with
      | none =>
          obtain ⟨message, hmessage⟩ :=
            Part.generate_of_silent?_eq_none (s := ⟨pass.args, pass.context.vars, pass.draws⟩)
              hsilent
          have hsome : (step.message pass).1 = some message := by
            unfold Step.message Step.generate
            dsimp only
            rw [hmessage]
          rw [hsome]
          rfl
      | some left =>
          obtain ⟨hnone, hsupply⟩ :=
            Part.generate_of_silent?_eq_some (s := ⟨pass.args, pass.context.vars, pass.draws⟩)
              hvars hsilent
          have hmessage : (step.message pass).1 = none := by
            unfold Step.message Step.generate
            dsimp only
            rw [hnone]
          have hargs : (step.message pass).2.args = left := by
            unfold Step.message Step.generate
            dsimp only
            rw [hnone, hsupply]
          have hstill : (step.message pass).2.context.vars = .empty := by
            unfold Step.message Step.generate
            dsimp only
            rw [hnone, hsupply]
            dsimp only
            rw [Context.vars_record, hvars]
          rw [hmessage, ← hargs]
          exact ih hstill

namespace Instance

/-- **Whether an instance has nothing to say.** -/
def isSilent (inst : Instance) : Bool :=
  (Script.ofDescription 0 inst.description).isSilent inst.args

/-- **Whether an instance has messages** is read off its parts and
    arguments; the draws have no part in it. -/
theorem isEmpty_messages (inst : Instance) (draws : Draws) :
    (inst.messages draws).isEmpty = inst.isSilent :=
  Script.isEmpty_messages _ rfl

end Instance

/-! ## §2. Checks under other draws -/

/-- **A toneburst is valid under all draws or under none.** -/
theorem Toneburst.validate_eq (config : Toneburst) (draws draws' : Draws) :
    config.validate draws = config.validate draws' := by
  have hmessages : (config.messages draws).isEmpty = (config.messages draws').isEmpty := by
    unfold messages
    cases config.add with
    | none => rfl
    | some inst => exact (inst.isEmpty_messages draws).trans (inst.isEmpty_messages draws').symm
  unfold validate
  rw [hmessages]

theorem validateOption_some {α : Type} (check : α → Except Error Unit) (a : α) :
    validateOption check (some a) = check a := rfl

theorem validateOption_toneburst_eq (toneburst : Option Toneburst) (draws draws' : Draws) :
    validateOption (·.validate draws) toneburst = validateOption (·.validate draws') toneburst := by
  cases toneburst with
  | none => rfl
  | some config => exact config.validate_eq draws draws'

theorem ServerConfig.validate_eq (config : ServerConfig) (draws draws' : Draws) :
    config.validate draws = config.validate draws' := by
  unfold validate
  rw [validateOption_toneburst_eq config.toneburst draws draws']

/-- Two checks in order succeed where both do. -/
theorem both_eq_ok {first second : Except Error Unit} :
    both first second = .ok () ↔ first = .ok () ∧ second = .ok () := by
  unfold both
  cases first with
  | ok _ => simp
  | error e => simp

/-! ## §3. A server that is ready -/

/-- **A configuration that passed its check makes a server ready** under all
    draws. -/
theorem Acceptor.new_of_validate {config : ServerConfig} {draws : Draws}
    (h : config.validate draws = .ok ()) (draws' : Draws) :
    new config draws' = .ok ⟨config.toneburst, config.polish⟩ := by
  unfold new
  rw [config.validate_eq draws' draws, h]

/-! ## §4. Handshakes without configuration errors -/

/-- **A failure of the configuration.** -/
def Error.IsConfig (e : Error) : Prop := ∃ fault, e = .config fault

/-- An exchange that has not failed as a configuration. -/
def Exchange.Sound (x : Exchange) : Prop :=
  ∀ e, x.phase = .over (.error e) → ¬ e.IsConfig

namespace Exchange

variable {x : Exchange}

theorem not_isConfig_network (f : StreamFault) : ¬ (Error.network f).IsConfig := nofun

theorem sound_fail (f : StreamFault) : (x.fail (.network f)).Sound := by
  intro e h
  cases h
  exact not_isConfig_network f

theorem sound_enter {phase : Phase} (h : phase.failed = false) : (x.enter phase).Sound := by
  intro e hphase
  have hphase : phase = .over (.error e) := hphase
  rw [hphase] at h
  cases h

theorem sound_next (x : Exchange) : x.next.Sound := by
  intro e h
  unfold next at h
  split at h <;> cases h

theorem sound_check (x : Exchange) (step : Step) (got : Bytes) : (x.check step got).Sound := by
  intro e h
  unfold check at h
  dsimp only at h
  split at h
  · cases h
  · cases h
    exact nofun

theorem sound_speak (x : Exchange) (now : Nat) : (x.speak now).Sound := by
  intro e h
  unfold speak at h
  split at h
  · cases h
  · dsimp only at h
    split at h <;> cases h

theorem sound_receive (x : Exchange) (step : Step) (missing : Nat) (got : Bytes)
    (answer : Arrival) : (x.receive step missing got answer).Sound := by
  cases answer with
  | data bytes => exact sound_enter rfl
  | closed => exact sound_fail _
  | fault f => exact sound_fail f

theorem sound_sent (x : Exchange) (left : Bytes) (answer : Acceptance) :
    (x.sent left answer).Sound := by
  cases answer with
  | fault f => exact sound_fail f
  | taken count =>
      cases count with
      | zero => exact sound_fail _
      | succ count => exact sound_enter rfl

/-- An exchange that is done is over. -/
theorem phase_of_act_done {outcome : Except Error Unit} (h : x.act = .done outcome) :
    x.phase = .over outcome := by
  unfold act at h
  split at h <;> cases h
  assumption

/-- **No step of an exchange fails as a configuration.** -/
theorem sound_of_after {x' : Exchange} (h : x.act.After x') : x'.Sound := by
  cases hphase : x.phase with
  | round =>
      rw [act_round hphase] at h
      cases h
      exact sound_next x
  | receiving step missing got =>
      cases missing with
      | zero =>
          rw [act_check hphase] at h
          cases h
          exact sound_check x step got
      | succ missing =>
          rw [act_receiving hphase (Nat.succ_ne_zero _)] at h
          cases h with
          | read answer => exact sound_receive x step (missing + 1) got answer
  | speaking =>
      rw [act_speaking hphase] at h
      cases h with
      | go now => exact sound_speak x now
  | pausing bytes wake =>
      rw [act_pausing hphase] at h
      cases h
      exact sound_enter rfl
  | sending left =>
      by_cases hleft : left = []
      · rw [hleft] at hphase
        rw [act_sent hphase] at h
        cases h
        exact sound_enter rfl
      · rw [act_sending hphase hleft] at h
        cases h with
        | write answer => exact sound_sent x left answer
  | «over» outcome =>
      rw [act_over hphase] at h
      cases h

end Exchange

/-- A usable way to go on after the exchange. -/
def Keying.Usable : Keying → Prop
  | .plain => True
  | .offer config _ => config.validate = .ok ()
  | .accept config => config.validate = .ok ()

namespace Opening

/-- **A handshake that has not failed as a configuration, and will not.** -/
def Sound : Opening → Prop
  | .exchanging exchange keying => exchange.Sound ∧ keying.Usable
  | .agreeing keying => keying.Usable
  | .offering _ _ => True
  | .accepting config _ _ => config.validate = .ok ()
  | .over outcome => ∀ e, outcome = .error e → ¬ e.IsConfig

/-- **One step of a handshake with a peer that may do anything.**  What has
    been written to the end may still fail on its way. -/
inductive Endures : Opening → Opening → Prop where
  | after {s s' : Opening} (h : s.act.After s') : Endures s s'
  | messageLost {x : Exchange} (keying : Keying) (f : StreamFault) (h : x.phase = .sending []) :
      Endures (.exchanging x keying) (.over (.error (.network f)))
  | keyLost (cipher : Cipher) (f : StreamFault) :
      Endures (.offering [] cipher) (.over (.error (.network f)))

theorem sound_network (f : StreamFault) : (Opening.over (.error (.network f))).Sound := by
  intro e h
  cases h
  exact Exchange.not_isConfig_network f

/-- A usable keying begins without a configuration error. -/
theorem sound_agree {keying : Keying} (h : keying.Usable) : (agree keying).Sound := by
  cases keying with
  | plain => exact nofun
  | accept config => exact h
  | offer config draws =>
      have hcipher : ∃ cipher, Agreement.clientCipher config (scalarOf draws.next) = .ok cipher := by
        have hvalid : checkChunkSize config.chunkSize.toNat = .ok () := h
        unfold checkChunkSize at hvalid
        split at hvalid
        next hsize =>
          unfold Agreement.clientCipher Cipher.new
          rw [show config.validate = .ok () from h]
          dsimp only
          rw [dif_pos hsize]
          exact ⟨_, rfl⟩
        next => cases hvalid
      obtain ⟨cipher, hcipher⟩ := hcipher
      have hagree : agree (.offer config draws) = .offering (keyBlock config draws) cipher := by
        unfold agree
        dsimp only
        rw [hcipher]
      rw [hagree]
      trivial

/-- A usable key gives a cipher, or is refused for the peer's sake. -/
theorem sound_accepted {config : SilverServer} (h : config.validate = .ok ()) (block : Bytes) :
    (Opening.over ((Agreement.serverCipher config block).map some)).Sound := by
  obtain ⟨hmin, hmax, -⟩ := config.validate_eq_ok_iff.mp h
  intro e he
  unfold Agreement.serverCipher Cipher.new at he
  dsimp only at he
  split at he
  · cases he
    exact nofun
  · rw [dif_pos ⟨hmin, hmax⟩] at he
    cases he

/-- **Every step of a sound handshake keeps it sound,** whatever the peer
    does. -/
theorem Sound.endures {s s' : Opening} (h : s.Sound) (hstep : Endures s s') : s'.Sound := by
  cases hstep with
  | messageLost keying f _ => exact sound_network f
  | keyLost cipher f => exact sound_network f
  | after hafter =>
      cases s with
      | exchanging x keying =>
          have hwithin : (x.act.within (exchanging · keying) (afterExchange keying)
              : Action Opening (Except Error (Option Cipher))).After s' := hafter
          obtain ⟨x', hx, rfl⟩ | ⟨outcome, hdone, rfl⟩ := hwithin.of_within
          · exact ⟨Exchange.sound_of_after hx, h.2⟩
          · cases outcome with
            | ok u => exact h.2
            | error e =>
                intro e' he
                cases he
                exact h.1 e (Exchange.phase_of_act_done hdone)
      | agreeing keying =>
          cases hafter
          exact sound_agree h
      | offering left cipher =>
          cases left with
          | nil =>
              cases hafter
              exact nofun
          | cons byte left =>
              cases hafter with
              | write answer =>
                  cases answer with
                  | fault f => exact sound_network f
                  | taken count =>
                      cases count with
                      | zero => exact sound_network _
                      | succ count => trivial
      | accepting config missing got =>
          cases missing with
          | zero =>
              cases hafter
              exact sound_accepted h got
          | succ missing =>
              cases hafter with
              | read answer =>
                  cases answer with
                  | data bytes => exact h
                  | closed => exact sound_network _
                  | fault f => exact sound_network f
      | «over» outcome => cases hafter

/-- A handshake begins soundly where the toneburst is valid. -/
theorem sound_start {toneburst : Option Toneburst} {draws : Draws} {keying : Keying}
    (htoneburst : validateOption (·.validate draws) toneburst = .ok ()) (hkeying : keying.Usable) :
    (start toneburst draws keying).Sound := by
  cases toneburst with
  | none => exact hkeying
  | some config =>
      have hvalid : config.validate draws = .ok () := htoneburst
      obtain ⟨x, hx⟩ := (Exchange.start_eq_ok_iff config draws).mpr hvalid
      have hstart : start (some config) draws keying = .exchanging x keying := by
        unfold start
        dsimp only
        rw [hx]
      rw [hstart]
      refine ⟨?_, hkeying⟩
      intro e hphase
      unfold Exchange.start at hx
      rw [hvalid] at hx
      cases hx
      dsimp only at hphase
      split at hphase <;> cases hphase

/-- **A sound handshake never ends as a configuration error,** whatever the
    peer does. -/
theorem Sound.never_config {s s' : Opening} (h : s.Sound)
    (hrun : Relation.ReflTransGen Endures s s') (fault : ConfigFault) :
    s'.act ≠ .done (.error (.config fault)) := by
  have hsound : s'.Sound := keeps_of_run Sound Sound.endures hrun h
  intro hdone
  cases s' with
  | «over» outcome =>
      cases hdone
      exact hsound _ rfl ⟨fault, rfl⟩
  | exchanging x keying =>
      have hwithin : (x.act.within (exchanging · keying) (afterExchange keying)
          : Action Opening (Except Error (Option Cipher))) = .done (.error (.config fault)) := hdone
      cases hact : x.act <;> rw [hact] at hwithin <;> cases hwithin
  | agreeing keying => cases hdone
  | offering left cipher => cases left <;> cases hdone
  | accepting config missing got => cases missing <;> cases hdone

end Opening

/-- The server's way to go on is usable where its configuration is valid. -/
theorem Acceptor.usable_keying {config : ServerConfig} {draws : Draws}
    (h : config.validate draws = .ok ()) :
    (Acceptor.mk config.toneburst config.polish).keying.Usable := by
  have hpolish := (both_eq_ok.mp h).2
  cases hsilver : config.polish with
  | none => trivial
  | some silver =>
      rw [hsilver] at hpolish
      exact hpolish

/-- **A VALID CONFIGURATION NEVER FAILS AS ONE.**  A server whose
    configuration passed its check is made ready under all draws, and no
    handshake of it, under any draws and against any peer, ends in a failure
    of the configuration; nor does a handshake of a tunnel client whose
    configuration passed.  For whether an instance has messages does not
    depend on the draws, and so neither does the check of a toneburst. -/
theorem Opening.never_config_of_validate (server : ServerConfig) (client : TunnelClient)
    {checked checked' : Draws} (hserver : server.validate checked = .ok ())
    (hclient : client.validate checked' = .ok ()) :
    (∀ made : Draws, ∃ acceptor, Acceptor.new server made = .ok acceptor
      ∧ ∀ (draws : Draws) (s : Opening),
          Relation.ReflTransGen Endures (acceptor.handshake draws) s →
          ∀ fault, s.act ≠ .done (.error (.config fault)))
    ∧ (∀ (draws keyDraws : Draws) (s : Opening),
        Relation.ReflTransGen Endures (Opening.client client.connection draws keyDraws) s →
        ∀ fault, s.act ≠ .done (.error (.config fault)))
    ∧ (∀ (inst : Instance) (draws draws' : Draws),
        (inst.messages draws).isEmpty = (inst.messages draws').isEmpty)
    ∧ ∀ (toneburst : Toneburst) (draws draws' : Draws),
        toneburst.validate draws = toneburst.validate draws' := by
  refine ⟨?_, ?_, ?_, Toneburst.validate_eq⟩
  · intro made
    refine ⟨_, Acceptor.new_of_validate hserver made, ?_⟩
    intro draws s hrun
    have htoneburst := (both_eq_ok.mp hserver).1
    rw [validateOption_toneburst_eq _ checked draws] at htoneburst
    exact (sound_start htoneburst (Acceptor.usable_keying hserver)).never_config hrun
  · intro draws keyDraws s hrun
    obtain ⟨-, htext⟩ := both_eq_ok.mp hclient
    obtain ⟨-, hconnection⟩ := both_eq_ok.mp htext
    obtain ⟨htoneburst, hpolish⟩ := both_eq_ok.mp hconnection
    rw [validateOption_toneburst_eq _ checked' draws] at htoneburst
    refine (sound_start htoneburst ?_).never_config hrun
    cases hsilver : client.connection.polish with
    | none => trivial
    | some silver =>
        rw [hsilver] at hpolish
        exact hpolish
  · intro inst draws draws'
    rw [inst.isEmpty_messages draws, inst.isEmpty_messages draws']

/-- A toneburst that speaks first: its first part is left out, since nothing
    is remembered yet, and its second is a run of random bytes. -/
def Toneburst.hesitant : Toneburst where
  add := some
    ⟨⟨[.optional "n" (.greater 7) (.bytes [.random]), .dynamic .argument (.producer "n" .random),
      .optional "n" (.greater 7) (.bytes [.random])]⟩, [.int 2]⟩
  remove := none
  speakFirst := true

/-- A server and a client that speak first, checked under one supply of draws
    and run under others. -/
theorem Opening.never_config_of_validate_hesitant :
    (∃ acceptor,
      Acceptor.new ⟨some .hesitant, some ⟨(scalarOf 6).publicPoint, scalarOf 6, 93⟩⟩
          ⟨fun n => n, 0⟩ = .ok acceptor
      ∧ ∀ s, Relation.ReflTransGen Endures (acceptor.handshake ⟨fun _ => 255, 0⟩) s →
          ∀ fault, s.act ≠ .done (.error (.config fault)))
    ∧ ∀ s, Relation.ReflTransGen Endures
          (Opening.client ⟨some .hesitant, some ⟨(scalarOf 6).publicPoint, 93⟩⟩
            ⟨fun _ => 255, 0⟩ ⟨fun n => n, 0⟩) s →
        ∀ fault, s.act ≠ .done (.error (.config fault)) := by
  have htoneburst : Toneburst.hesitant.validate ⟨fun _ => 0, 0⟩ = .ok () := rfl
  have hkey : (SilverServer.mk (scalarOf 6).publicPoint (scalarOf 6) 93).validate = .ok () :=
    (SilverServer.validate_eq_ok_iff _).mpr ⟨by decide, by decide, rfl⟩
  have hserver : (ServerConfig.mk (some .hesitant)
      (some ⟨(scalarOf 6).publicPoint, scalarOf 6, 93⟩)).validate ⟨fun _ => 0, 0⟩ = .ok () :=
    both_eq_ok.mpr ⟨htoneburst, (validateOption_some ..).trans hkey⟩
  have hclient : (TunnelClient.mk "127.0.0.1:1080" "198.51.100.7:443"
      ⟨some .hesitant, some ⟨(scalarOf 6).publicPoint, 93⟩⟩).validate ⟨fun _ => 0, 0⟩ = .ok () :=
    both_eq_ok.mpr ⟨rfl, both_eq_ok.mpr ⟨rfl, both_eq_ok.mpr ⟨htoneburst, rfl⟩⟩⟩
  obtain ⟨hready, hdial, -⟩ := never_config_of_validate _ _ hserver hclient
  obtain ⟨acceptor, hnew, hnever⟩ := hready ⟨fun n => n, 0⟩
  exact ⟨⟨acceptor, hnew, hnever ⟨fun _ => 255, 0⟩⟩, hdial ⟨fun _ => 255, 0⟩ ⟨fun n => n, 0⟩⟩

end Masquerade
