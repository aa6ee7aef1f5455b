/-
  Masquerade.Proofs.Mirror — TWO EXCHANGES THAT MIRROR EACH OTHER.

  What one end sends is what the other expects, and the client speaks first.
  The two lists do not run in step: a part that sends nothing is a part to
  the receiver but no message to the sender.  What holds all the same:

    • the bytes on their way to an end, with those its peer still has to
      write, are just what it still expects, word by word (`Expects`),
    • an end that waits for a part has sent as many messages as its turns
      allow, unless it has none left (`Paced`).

  An end that waits in vain lacks bytes of a word that its peer has not
  sent yet, so its peer has had fewer turns than it has; and this cannot be
  so of both ends.

  Main results:
    * `Exchange.expects_of_move`, `Exchange.paced_of_move` — both facts are
      kept.
    * `Dialogue.Mirrored.exists_step` — no dialogue is stuck before its end.
    * `Dialogue.mirrored_completes` — mirrored scripts always complete.
-/
import Masquerade.Proofs.Language
import Masquerade.Proofs.Rounds
import Mathlib.Data.List.Flatten

namespace Masquerade

/-! ## §1. Words for parts -/

/-- **Words that just fit parts**, one after the other. -/
inductive Spells : Variables → List Part → List Bytes → Prop where
  | nil {vars : Variables} : Spells vars [] []
  | cons {part : Part} {parts : List Part} {word : Bytes} {words : List Bytes}
      {vars after : Variables} (hfit : (part.validate none word vars).1 = ⟨.valid, [], after⟩)
      (hrest : Spells after parts words) : Spells vars (part :: parts) (word :: words)

theorem Spells.length_eq {vars : Variables} {parts : List Part} {words : List Bytes}
    (h : Spells vars parts words) : words.length = parts.length := by
  induction h with
  | nil => rfl
  | cons _ _ ih => exact congrArg Nat.succ ih

/-- What strict generation makes of parts just fits them. -/
theorem spells_of_spellParts (parts : List Part) :
    (∀ part ∈ parts, part.selfSized = true) →
    ∀ {s after : Supply} {words : List Bytes}, spellParts parts s = (.ok words, after) →
      Spells s.vars parts words := by
  induction parts with
  | nil =>
      intro _ s after words h
      injection (Prod.mk.inj h).1 with hwords
      subst hwords
      exact .nil
  | cons part parts ih =>
      intro hsized s after words h
      obtain ⟨hpart, hparts⟩ := List.forall_mem_cons.mp hsized
      obtain ⟨word, more, between, hword, hmore, rfl⟩ := spellParts_cons_eq_ok h
      have hfit := Part.validate_of_yields hpart hword none []
      rw [List.append_nil] at hfit
      exact .cons hfit (ih hparts hmore)

/-- A word that just fits a part has the length foreseen for it. -/
theorem Part.length_eq_foreseen {part : Part} {word : Bytes} {vars after : Variables}
    (h : (part.validate none word vars).1 = ⟨.valid, [], after⟩) :
    word.length = part.foreseen none vars := by
  have hvalid : (part.validate none word vars).1.verdict = .valid := by rw [h]
  obtain ⟨hle, hrest⟩ := Part.rest_of_valid hvalid
  rw [h] at hrest
  have hge := List.drop_eq_nil_iff.mp hrest.symm
  omega

/-- **Messages do not lag behind words:** who has left out no fewer messages
    than words has no more bytes left in messages than in words. -/
theorem length_drop_le (outs : List (Option Message)) :
    ∀ {taken sent : Nat}, taken ≤ sent →
      (((outs.filterMap id).drop sent).flatMap Message.bytes).length
        ≤ ((outs.map sentBytes).drop taken).flatten.length := by
  induction outs with
  | nil =>
      intro taken sent _
      rw [List.filterMap_nil, List.drop_nil]
      exact Nat.zero_le _
  | cons out outs ih =>
      intro taken sent hle
      cases taken with
      | zero =>
          -- all words are left, and they hold all the bytes there are
          rw [List.drop_zero, ← wireOf_eq_flatten]
          exact ((List.drop_sublist sent _).flatMap Message.bytes).length_le
      | succ taken =>
          rw [List.map_cons, List.drop_succ_cons]
          cases out with
          | none =>
              -- a word of no bytes that is no message
              exact ih (Nat.le_of_succ_le hle)
          | some message =>
              cases sent with
              | zero => exact absurd hle (Nat.not_succ_le_zero _)
              | succ sent => exact ih (Nat.le_of_succ_le_succ hle)

namespace Exchange

/-! ## §2. What is on its way to an exchange -/

/-- **What is on its way to an exchange is what it expects.**  Of the words
    that its peer has for it, some last ones are left; they just fit the
    parts left; and with the missing bytes of the part in hand they are the
    bytes to come. -/
def Expects (words : List Bytes) (x : Exchange) (coming : Bytes) : Prop :=
  match x.phase with
  | .over outcome => outcome = .ok () ∧ x.messages = [] ∧ coming = []
  | .receiving step missing got =>
    ∃ need after left, need.length = missing
      ∧ (step.part.validate none (got ++ need) x.context.vars).1 = ⟨.valid, [], after⟩
      ∧ Spells after (x.script.map Step.part) left
      ∧ left <:+ words ∧ coming = need ++ left.flatten
  | _ =>
    ∃ left, Spells x.context.vars (x.script.map Step.part) left
      ∧ left <:+ words ∧ coming = left.flatten

/-- **Turns are taken in step** with the parts, as long as messages are left:
    so many more messages than parts, at the start of a round, as the end
    was ahead at first. -/
def Paced (ahead : Nat) (messages : List Message) (words : List Bytes) (x : Exchange) : Prop :=
  x.messages <:+ messages ∧
    match x.phase with
    | .over _ => True
    -- the part in hand is taken, the message of its round is not
    | .receiving _ _ _ => x.messages ≠ [] →
      messages.length + x.script.length + 1 = words.length + x.messages.length + ahead
    | .speaking => x.script ≠ [] → x.messages ≠ [] →
      messages.length + x.script.length + 1 = words.length + x.messages.length + ahead
    | _ => x.script ≠ [] → x.messages ≠ [] →
      messages.length + x.script.length = words.length + x.messages.length + ahead

section

variable {w w' : Wired Exchange} {words : List Bytes}

/-- **An exchange that gets what it expects goes on to expect what is left**,
    and never fails. -/
theorem expects_of_move {tail : Bytes} (h : Expects words w.state (w.input ++ tail))
    (hmove : Move false w w') : Expects words w'.state (w'.input ++ tail) := by
  unfold Expects at h
  cases hmove with
  | finish hphase hscript hmessages =>
      rw [hphase, hscript] at h
      obtain ⟨left, hspells, -, hcoming⟩ := h
      cases hspells
      exact ⟨rfl, hmessages, hcoming⟩
  | skip hphase _ _ | listen hphase _ | delay _ hphase _ | speak hphase _ | wake hphase
  | write _ hphase _ _ | sent hphase =>
      rw [hphase] at h
      exact h
  | expect context hphase hscript hvars =>
      rw [hphase, hscript, ← hvars] at h
      obtain ⟨left, hspells, hsuffix, hcoming⟩ := h
      cases hspells with
      | @cons _ _ word left _ after hfit hrest =>
          refine ⟨word, after, left, Part.length_eq_foreseen hfit, hfit, hrest, ?_, hcoming⟩
          exact (List.suffix_cons word left).trans hsuffix
  | @read step missing got bytes rest hphase hinput _ hroom =>
      rw [hphase, hinput] at h
      obtain ⟨need, after, left, hneed, hfit, hrest, hsuffix, hcoming⟩ := h
      -- what was read is the beginning of what was missing
      rw [List.append_assoc] at hcoming
      obtain ⟨need', rfl⟩ : bytes <+: need := by
        have hread : bytes <+: need ++ left.flatten := ⟨_, hcoming⟩
        exact List.prefix_of_prefix_length_le hread (List.prefix_append _ _) (by omega)
      rw [List.append_assoc] at hcoming
      refine ⟨need', after, left, ?_, ?_, hrest, hsuffix, List.append_cancel_left hcoming⟩
      · rw [List.length_append] at hneed
        omega
      · rw [List.append_assoc]
        exact hfit
  | starve _ _ _ hended => cases hended
  | @accept step got context hphase hvalid =>
      rw [hphase] at h
      obtain ⟨need, after, left, hneed, hfit, hrest, hsuffix, hcoming⟩ := h
      cases List.length_eq_zero_iff.mp hneed
      rw [List.append_nil, hvalid] at hfit
      injection hfit with _ _ hafter
      subst hafter
      exact ⟨left, hrest, hsuffix, hcoming⟩
  | @refuse step got context buffer hphase hinvalid =>
      rw [hphase] at h
      obtain ⟨need, after, left, hneed, hfit, -⟩ := h
      cases List.length_eq_zero_iff.mp hneed
      rw [List.append_nil] at hfit
      rw [hfit] at hinvalid
      cases hinvalid

/-- A message taken up is a turn taken. -/
theorem turns_of_message {ahead : Nat} {messages : List Message} {x : Exchange}
    (h : Paced ahead messages words x) (hphase : x.phase = .speaking) {message : Message}
    {left : List Message} (hmessages : x.messages = message :: left) :
    left <:+ messages ∧ (x.script ≠ [] → left ≠ [] →
      messages.length + x.script.length = words.length + left.length + ahead) := by
  obtain ⟨hsuffix, hpace⟩ := h
  rw [hphase, hmessages] at hpace
  rw [hmessages] at hsuffix
  refine ⟨(List.suffix_cons message left).trans hsuffix, ?_⟩
  intro hscript _
  have hturns := hpace hscript (List.cons_ne_nil message left)
  rw [List.length_cons] at hturns
  omega

/-- **Every move keeps the pace.** -/
theorem paced_of_move {ended : Bool} {ahead : Nat} {messages : List Message}
    (h : Paced ahead messages words w.state) (hmove : Move ended w w') :
    Paced ahead messages words w'.state := by
  have hwhole := h
  obtain ⟨hsuffix, hpace⟩ := h
  cases hmove with
  | finish _ _ _ | starve _ _ _ _ | refuse _ _ _ _ => exact ⟨hsuffix, trivial⟩
  | skip _ hscript _ => exact ⟨hsuffix, fun hne => absurd hscript hne⟩
  | listen _ hmessages => exact ⟨hsuffix, fun _ hne => absurd hmessages hne⟩
  | read _ _ hphase _ _ _ | wake hphase | write _ hphase _ _ | sent hphase =>
      rw [hphase] at hpace
      exact ⟨hsuffix, hpace⟩
  | @expect step rest context hphase hscript _ =>
      rw [hphase, hscript] at hpace
      refine ⟨hsuffix, ?_⟩
      intro hne
      have hturns := hpace (List.cons_ne_nil step rest) hne
      rw [List.length_cons] at hturns
      show messages.length + rest.length + 1 = _
      omega
  | accept context hphase _ =>
      rw [hphase] at hpace
      exact ⟨hsuffix, fun _ hne => hpace hne⟩
  | delay _ hphase hmessages => exact turns_of_message hwhole hphase hmessages
  | speak hphase hmessages => exact turns_of_message hwhole hphase hmessages

end

/-- **An exchange that waits in vain:** it lacks bytes, and none are there. -/
def Starved (x : Exchange) (input : Bytes) : Prop :=
  ∃ step missing got, x.phase = .receiving step missing got ∧ missing ≠ 0 ∧ input = []

/-- An exchange that can go no further: over, or starved. -/
def Stopped (x : Exchange) (input : Bytes) : Prop :=
  (∃ outcome, x.phase = .over outcome) ∨ x.Starved input

/-- An exchange whose input may still go on stops at its end, or starved. -/
theorem stopped_of_stuck {x : Exchange} {input : Bytes} (output : Bytes)
    (hstuck : ¬ ∃ w', Advance act false ⟨x, input, output⟩ w') : x.Stopped input := by
  by_cases hover : ∃ outcome, x.phase = .over outcome
  · exact .inl hover
  · right
    apply Classical.byContradiction
    intro hfed
    refine hstuck (exists_advance (fun outcome he => hover ⟨outcome, he⟩) ?_)
    intro step missing got hphase hmissing hinput
    exact absurd ⟨step, missing, got, hphase, hmissing, hinput⟩ hfed

/-- What an end that has stopped has still to write are its messages. -/
theorem Stopped.unsent_eq {x : Exchange} {input : Bytes} (h : x.Stopped input) :
    x.unsent = x.messages.flatMap Message.bytes := by
  have hnone : x.phase.unsent = [] := by
    obtain ⟨outcome, hphase⟩ | ⟨step, missing, got, hphase, -, -⟩ := h
    · rw [hphase]
      rfl
    · rw [hphase]
      rfl
  unfold unsent
  rw [hnone, List.nil_append]

/-- An end that is over has succeeded, has nothing to say and nothing to
    hear. -/
theorem Expects.of_over {words : List Bytes} {x : Exchange} {coming : Bytes}
    (h : Expects words x coming) {outcome : Except Error Unit} (hphase : x.phase = .over outcome) :
    outcome = .ok () ∧ x.messages = [] ∧ coming = [] := by
  unfold Expects at h
  rw [hphase] at h
  exact h

/-- An end that gets what it expects has not failed. -/
theorem Expects.not_failed {words : List Bytes} {x : Exchange} {coming : Bytes}
    (h : Expects words x coming) : x.phase.failed = false := by
  cases hphase : x.phase with
  | «over» outcome =>
      obtain ⟨rfl, -⟩ := h.of_over hphase
      rfl
  | _ => rfl

/-- **Who waits in vain for a peer has taken more parts than the peer has
    sent messages.** -/
theorem Starved.lag {outs : List (Option Message)} {x y : Exchange} {input : Bytes}
    (hstarved : x.Starved input)
    (hexpects : Expects (outs.map sentBytes) x (input ++ y.messages.flatMap Message.bytes))
    (hsuffix : y.messages <:+ outs.filterMap id) :
    (outs.filterMap id).length + x.script.length + 1 ≤ outs.length + y.messages.length
      ∧ y.messages ≠ [] := by
  obtain ⟨step, missing, got, hphase, hmissing, rfl⟩ := hstarved
  unfold Expects at hexpects
  rw [hphase] at hexpects
  obtain ⟨need, after, left, hneed, -, hspells, hleft, hcoming⟩ := hexpects
  rw [List.nil_append] at hcoming
  have hlength := congrArg List.length hcoming
  rw [List.length_append] at hlength
  have hscript : left.length = x.script.length := by
    rw [hspells.length_eq, List.length_map]
  have hwords := hleft.length_le
  rw [List.length_map] at hwords
  refine ⟨?_, ?_⟩
  · -- otherwise the messages left hold no more than the words after this one
    apply Classical.byContradiction
    intro hlag
    have hcover := @length_drop_le outs (outs.length - left.length)
      ((outs.filterMap id).length - y.messages.length) (by omega)
    have hdrop := List.suffix_iff_eq_drop.mp hleft
    rw [List.length_map] at hdrop
    rw [← List.suffix_iff_eq_drop.mp hsuffix, ← hdrop] at hcover
    omega
  · intro hnone
    rw [hnone] at hlength
    have hzero : 0 = need.length + left.flatten.length := hlength
    omega

/-- An end that waits for a part, with messages left, has taken its turns. -/
theorem Paced.turns_of_starved {ahead : Nat} {messages : List Message} {words : List Bytes}
    {x : Exchange} {input : Bytes} (h : Paced ahead messages words x)
    (hstarved : x.Starved input) (hspeaks : x.messages ≠ []) :
    messages.length + x.script.length + 1 = words.length + x.messages.length + ahead := by
  obtain ⟨step, missing, got, hphase, -, -⟩ := hstarved
  obtain ⟨-, hpace⟩ := h
  rw [hphase] at hpace
  exact hpace hspeaks

/-! ## §3. The start -/

theorem parts_of_script (description : Description) :
    (Script.ofDescription 0 description).map Step.part = description.parts :=
  congrArg Description.parts (Script.parts_ofDescription 0 description)

/-- **What an instance sends without a failure** are messages that spell its
    description to a fresh receiver. -/
theorem spells_of_messages? {inst : Instance} {draws : Draws} {sent : List Message}
    (hsized : ∀ part ∈ inst.description.parts, part.selfSized = true)
    (h : inst.messages? draws = .ok sent) :
    ∃ outs : List (Option Message), sent = outs.filterMap id
      ∧ inst.messages draws = outs.filterMap id
      ∧ Spells .empty inst.description.parts (outs.map sentBytes) := by
  unfold Instance.messages? at h
  cases hgen : (Script.ofDescription 0 inst.description).messages? (inst.pass draws) with
  | mk outcome after =>
      rw [hgen] at h
      cases outcome with
      | error e => cases h
      | ok outs =>
          injection h with h
          refine ⟨outs, h.symm, ?_, ?_⟩
          · unfold Instance.messages
            rw [Script.messages_of_messages? _ hgen]
          · have hspelled := (Script.spelled_eq_ok_iff _ _ _ _).mpr ⟨outs, after, hgen, rfl, rfl⟩
            rw [Script.spelled_eq_spellParts, parts_of_script] at hspelled
            exact spells_of_spellParts _ hsized hspelled

/-- Where an exchange begins that has these messages to send. -/
def opening (messages : List Message) (expected : Description) (first : Bool) : Exchange :=
  ⟨messages, Script.ofDescription 0 expected, .empty, [], if first then .speaking else .round⟩

theorem start_eq_opening {inst : Instance} {draws : Draws} {messages : List Message}
    (hmessages : inst.messages draws = messages) (expected : Description) (first : Bool)
    (hspeaks : first = true → messages ≠ []) :
    start ⟨some inst, some expected, first⟩ draws = .ok (opening messages expected first) := by
  subst hmessages
  have hvalid : Toneburst.validate ⟨some inst, some expected, first⟩ draws = .ok () := by
    refine if_neg ?_
    rintro ⟨hfirst, hnone⟩
    exact hspeaks hfirst (List.isEmpty_iff.mp hnone)
  unfold start
  rw [hvalid]
  rfl

theorem expects_opening {expected : Description} {words : List Bytes}
    (h : Spells .empty expected.parts words) (messages : List Message) (first : Bool) :
    Expects words (opening messages expected first) words.flatten := by
  have hspells : Spells .empty ((Script.ofDescription 0 expected).map Step.part) words := by
    rw [parts_of_script]
    exact h
  unfold Expects opening
  cases first with
  | true => exact ⟨words, hspells, List.suffix_refl words, rfl⟩
  | false => exact ⟨words, hspells, List.suffix_refl words, rfl⟩

theorem paced_opening {expected : Description} {words : List Bytes}
    (h : Spells .empty expected.parts words) (messages : List Message) (first : Bool) :
    Paced first.toNat messages words (opening messages expected first) := by
  have hlength : (Script.ofDescription 0 expected).length = words.length := by
    rw [h.length_eq, ← parts_of_script, List.length_map]
  refine ⟨List.suffix_refl messages, ?_⟩
  unfold opening
  cases first with
  | true =>
      intro _ _
      show messages.length + (Script.ofDescription 0 expected).length + 1 = _ + messages.length + 1
      omega
  | false =>
      intro _ _
      show messages.length + (Script.ofDescription 0 expected).length = _ + messages.length + 0
      omega

/-- At the start all messages are still to be sent. -/
theorem unsent_opening (outs : List (Option Message)) (expected : Description) (first : Bool) :
    (opening (outs.filterMap id) expected first).unsent = (outs.map sentBytes).flatten := by
  rw [← wireOf_eq_flatten]
  cases first <;> rfl

end Exchange

/-! ## §4. Dialogues -/

/-- **Two exchanges and the two pipes between them.** -/
structure Dialogue where
  client : Exchange
  server : Exchange
  toServer : Bytes
  toClient : Bytes

namespace Dialogue

/-- **One step of a dialogue:** either end moves. -/
inductive Step (d : Dialogue) : Dialogue → Prop where
  | client {w : Wired Exchange}
      (h : Advance Exchange.act false ⟨d.client, d.toClient, d.toServer⟩ w) :
      Step d ⟨w.state, d.server, w.output, w.input⟩
  | server {w : Wired Exchange}
      (h : Advance Exchange.act false ⟨d.server, d.toServer, d.toClient⟩ w) :
      Step d ⟨d.client, w.state, w.input, w.output⟩

/-- Both ends have succeeded. -/
def Finished (d : Dialogue) : Prop :=
  d.client.phase = .over (.ok ()) ∧ d.server.phase = .over (.ok ())

/-- **What holds all along** in a dialogue whose client sends `asked` and
    whose server sends `answered`, absent messages included. -/
structure Mirrored (asked answered : List (Option Message)) (d : Dialogue) : Prop where
  clientTidy : d.client.Tidy
  serverTidy : d.server.Tidy
  clientExpects : d.client.Expects (answered.map sentBytes) (d.toClient ++ d.server.unsent)
  serverExpects : d.server.Expects (asked.map sentBytes) (d.toServer ++ d.client.unsent)
  clientPaced : d.client.Paced 1 (asked.filterMap id) (answered.map sentBytes)
  serverPaced : d.server.Paced 0 (answered.filterMap id) (asked.map sentBytes)

section

variable {asked answered : List (Option Message)} {d d' : Dialogue}

/-- Every step of a mirrored dialogue leaves it mirrored. -/
theorem Mirrored.step (h : Mirrored asked answered d) (hstep : Step d d') :
    Mirrored asked answered d' := by
  cases hstep with
  | @client w hadvance =>
      obtain ⟨hmove, htidy⟩ := h.clientTidy.move_of_advance hadvance
      refine ⟨htidy, h.serverTidy, Exchange.expects_of_move h.clientExpects hmove, ?_,
        Exchange.paced_of_move h.clientPaced hmove, h.serverPaced⟩
      -- what the client wrote it no longer has to write
      show d.server.Expects _ (w.output ++ w.state.unsent)
      rw [Exchange.unsent_of_move hmove]
      exact h.serverExpects
  | @server w hadvance =>
      obtain ⟨hmove, htidy⟩ := h.serverTidy.move_of_advance hadvance
      refine ⟨h.clientTidy, htidy, ?_, Exchange.expects_of_move h.serverExpects hmove,
        h.clientPaced, Exchange.paced_of_move h.serverPaced hmove⟩
      show d.client.Expects _ (w.output ++ w.state.unsent)
      rw [Exchange.unsent_of_move hmove]
      exact h.clientExpects

/-- **No dialogue is stuck before its end.** -/
theorem Mirrored.exists_step (h : Mirrored asked answered d) (hgoal : ¬ d.Finished) :
    ∃ d', Step d d' := by
  apply Classical.byContradiction
  intro hstuck
  have hclient : d.client.Stopped d.toClient := by
    refine Exchange.stopped_of_stuck d.toServer ?_
    rintro ⟨w, hw⟩
    exact hstuck ⟨_, .client hw⟩
  have hserver : d.server.Stopped d.toServer := by
    refine Exchange.stopped_of_stuck d.toClient ?_
    rintro ⟨w, hw⟩
    exact hstuck ⟨_, .server hw⟩
  have hasked := h.serverExpects
  have hanswered := h.clientExpects
  rw [hclient.unsent_eq] at hasked
  rw [hserver.unsent_eq] at hanswered
  cases hclient with
  | inl hclientOver =>
      obtain ⟨outcome, hclientPhase⟩ := hclientOver
      obtain ⟨rfl, hsilent, -⟩ := h.clientExpects.of_over hclientPhase
      cases hserver with
      | inl hserverOver =>
          obtain ⟨outcome, hserverPhase⟩ := hserverOver
          obtain ⟨rfl, -⟩ := h.serverExpects.of_over hserverPhase
          exact hgoal ⟨hclientPhase, hserverPhase⟩
      | inr hserverStarved =>
          exact (hserverStarved.lag hasked h.clientPaced.1).2 hsilent
  | inr hclientStarved =>
      obtain ⟨hserverLag, hserverSpeaks⟩ := hclientStarved.lag hanswered h.serverPaced.1
      cases hserver with
      | inl hserverOver =>
          obtain ⟨outcome, hserverPhase⟩ := hserverOver
          exact hserverSpeaks (h.serverExpects.of_over hserverPhase).2.1
      | inr hserverStarved =>
          -- each end would have had fewer turns than the other
          obtain ⟨hclientLag, hclientSpeaks⟩ := hserverStarved.lag hasked h.clientPaced.1
          have hclientTurns := h.clientPaced.turns_of_starved hclientStarved hclientSpeaks
          have hserverTurns := h.serverPaced.turns_of_starved hserverStarved hserverSpeaks
          rw [List.length_map] at hclientTurns hserverTurns
          omega

/-- The effort left to both ends, and the bytes on their way. -/
def effort (d : Dialogue) : Nat :=
  d.client.effort + d.server.effort + d.toServer.length + d.toClient.length

theorem Mirrored.effort_lt (h : Mirrored asked answered d) (hstep : Step d d') :
    d'.effort < d.effort := by
  unfold effort
  cases hstep with
  | @client w hadvance =>
      have hless := Exchange.effort_of_move (h.clientTidy.move_of_advance hadvance).1
      dsimp only at hless ⊢
      omega
  | @server w hadvance =>
      have hless := Exchange.effort_of_move (h.serverTidy.move_of_advance hadvance).1
      dsimp only at hless ⊢
      omega

end

/-! ## §5. Mirrored scripts -/

/-- **MIRRORED SCRIPTS ALWAYS COMPLETE.**  Let no length in two descriptions
    come from an argument, let an instance of each generate its messages
    without a failure, and let the first have a message.  Then a client that
    sends the first, expects the second and speaks first can begin, and so
    can a server that sends the second and expects the first.  However the
    two take their steps, and in whatever pieces the bytes go through the
    pipes between them, they are bound to succeed, neither fails, they never
    stop before both have succeeded, and then both pipes are empty. -/
theorem mirrored_completes (sent received : Description)
    (hsent : ∀ part ∈ sent.parts, part.selfSized = true)
    (hreceived : ∀ part ∈ received.parts, part.selfSized = true)
    (clientArgs serverArgs : Arguments) (clientDraws serverDraws : Draws)
    {clientMessages serverMessages : List Message}
    (hclient : Instance.messages? ⟨sent, clientArgs⟩ clientDraws = .ok clientMessages)
    (hserver : Instance.messages? ⟨received, serverArgs⟩ serverDraws = .ok serverMessages)
    (hspeaks : clientMessages ≠ []) :
    ∃ client server,
      Exchange.start ⟨some ⟨sent, clientArgs⟩, some received, true⟩ clientDraws = .ok client
        ∧ Exchange.start ⟨some ⟨received, serverArgs⟩, some sent, false⟩ serverDraws = .ok server
        ∧ Inevitably Step Finished ⟨client, server, [], []⟩
        ∧ ∀ d, Relation.ReflTransGen Step ⟨client, server, [], []⟩ d →
          d.client.phase.failed = false ∧ d.server.phase.failed = false
            ∧ (d.Finished ∨ ∃ d', Step d d')
            ∧ (d.Finished → d.toServer = [] ∧ d.toClient = []) := by
  obtain ⟨asked, rfl, hasked, hclientSpells⟩ := Exchange.spells_of_messages? hsent hclient
  obtain ⟨answered, rfl, hanswered, hserverSpells⟩ :=
    Exchange.spells_of_messages? hreceived hserver
  have hclientStart := Exchange.start_eq_opening hasked received true fun _ => hspeaks
  have hserverStart := Exchange.start_eq_opening hanswered sent false nofun
  have hmirrored : Mirrored asked answered
      ⟨Exchange.opening (asked.filterMap id) received true,
        Exchange.opening (answered.filterMap id) sent false, [], []⟩ := by
    refine ⟨Exchange.tidy_of_start hclientStart, Exchange.tidy_of_start hserverStart, ?_, ?_,
      Exchange.paced_opening hserverSpells _ true, Exchange.paced_opening hclientSpells _ false⟩
    · show Exchange.Expects _ _ ([] ++ _)
      rw [List.nil_append, Exchange.unsent_opening]
      exact Exchange.expects_opening hserverSpells _ true
    · show Exchange.Expects _ _ ([] ++ _)
      rw [List.nil_append, Exchange.unsent_opening]
      exact Exchange.expects_opening hclientSpells _ false
  refine ⟨_, _, hclientStart, hserverStart, ?_, ?_⟩
  · exact Inevitably.of_measure (Mirrored asked answered) effort (fun h hstep => h.step hstep)
      (fun h hstep => .inr (h.effort_lt hstep)) (fun h hgoal => h.exists_step hgoal) hmirrored
  · intro d hrun
    have h := keeps_of_run (Mirrored asked answered) (fun h hstep => h.step hstep) hrun hmirrored
    refine ⟨h.clientExpects.not_failed, h.serverExpects.not_failed, ?_, ?_⟩
    · by_cases hgoal : d.Finished
      · exact .inl hgoal
      · exact .inr (h.exists_step hgoal)
    · rintro ⟨hclientOver, hserverOver⟩
      -- nothing is coming, so nothing is on its way
      have hnone := (h.clientExpects.of_over hclientOver).2.2
      have hnone' := (h.serverExpects.of_over hserverOver).2.2
      exact ⟨(List.append_eq_nil_iff.mp hnone').1, (List.append_eq_nil_iff.mp hnone).1⟩

/-- A client that counts, and a server that answers with one byte after a
    part that sends nothing. -/
theorem mirrored_completes_counted :
    ∃ client server,
      Exchange.start ⟨some ⟨.counted, []⟩, some ⟨[.empty, .bytes [.fixed 7]]⟩, true⟩ default
          = .ok client
        ∧ Exchange.start ⟨some ⟨⟨[.empty, .bytes [.fixed 7]]⟩, []⟩, some .counted, false⟩ default
          = .ok server
        ∧ Inevitably Step Finished ⟨client, server, [], []⟩ := by
  have hcounted : Instance.messages? ⟨.counted, []⟩ default
      = .ok [⟨none, [2]⟩, ⟨none, [0, 0]⟩] := by rfl
  have hanswer : Instance.messages? ⟨⟨[.empty, .bytes [.fixed 7]]⟩, []⟩ default
      = .ok [⟨none, [7]⟩] := by rfl
  obtain ⟨client, server, hclient, hserver, hdone, -⟩ := mirrored_completes .counted
    ⟨[.empty, .bytes [.fixed 7]]⟩ (by decide) (by decide) [] [] default default hcounted hanswer
    (List.cons_ne_nil _ _)
  exact ⟨client, server, hclient, hserver, hdone⟩

end Dialogue

end Masquerade
