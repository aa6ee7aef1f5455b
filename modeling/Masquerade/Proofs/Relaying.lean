/-
  Masquerade.Proofs.Relaying — A RELAY FORWARDS BOTH DIRECTIONS EXACTLY.

  The two directions of a relay share nothing but the way they end: a failure
  of either ends both, and the relay succeeds when both have come to their
  proper ends.  So what is known of each direction on its own holds under
  every interleaving of the two, and what a relay delivers is a function of
  its connection and of what its two sources hold.

  Main results:
    * `Relay.Faithful.step` — every step of a relay keeps both directions
      faithful.
    * `Relay.inevitably_succeeds` — where nothing fails a relay is bound to
      succeed, whichever source closes first.
    * `Relay.relays_exactly` — what a relay forwards, whether it succeeds or
      not.
-/
import Masquerade.Connection.Basic
import Masquerade.Proofs.Forwarding

namespace Masquerade

/-! ## §1. Relays -/

/-- **A relay:** its two directions, and once it is over its outcome, which is
    how many bytes it has received and sent. -/
structure Relay where
  inbound : Conduit Inbound
  outbound : Conduit Outbound
  result : Option (Except Error (Nat × Nat))

namespace Relay

/-- A relay between a connection, on whose wire these bytes are to come before
    it closes, and a plain stream that holds these. -/
def start (connection : Connection) (draws : Draws) (wire plain : Bytes) : Relay where
  inbound := .start (.start connection.split.1) wire
  outbound := .start (.start connection.split.2 draws) plain
  result := none

/-- **One step of a relay:** either direction goes on, or the relay takes note
    that one has failed or that both are at their proper ends. -/
inductive Step (faulty : Bool) (r : Relay) : Relay → Prop where
  | receive {d : Conduit Inbound} (hrunning : r.result = none)
      (h : Conduit.Step Inbound.act Inbound.Breaks faulty r.inbound d) :
      Step faulty r { r with inbound := d }
  | send {d : Conduit Outbound} (hrunning : r.result = none)
      (h : Conduit.Step Outbound.act Outbound.Breaks faulty r.outbound d) :
      Step faulty r { r with outbound := d }
  | failInbound {e : Error} (hrunning : r.result = none)
      (h : r.inbound.wired.state.phase = .over (.error e)) :
      Step faulty r { r with result := some (.error e) }
  | failOutbound {e : Error} (hrunning : r.result = none)
      (h : r.outbound.wired.state.phase = .over (.error e)) :
      Step faulty r { r with result := some (.error e) }
  | succeed {received sent : Nat} (hrunning : r.result = none)
      (hin : r.inbound.wired.state.phase = .over (.ok received))
      (hout : r.outbound.wired.state.phase = .over (.ok sent)) :
      Step faulty r { r with result := some (.ok (received, sent)) }

/-! ## §2. Both directions at once -/

/-- **A faithful relay:** both directions are, and it has succeeded only if
    both have come to their proper ends. -/
structure Faithful (total : Yield) (cipher : Option Cipher) (plain : Bytes) (r : Relay) : Prop where
  inbound : r.inbound.Faithful (Inbound.Forwards total) Inbound.ended
  outbound : r.outbound.Faithful (Outbound.Forwards cipher plain) Outbound.ended
  success : ∀ received sent, r.result = some (.ok (received, sent)) →
    r.inbound.wired.state.phase = .over (.ok received)
      ∧ r.outbound.wired.state.phase = .over (.ok sent)

theorem faithful_start (connection : Connection) (draws : Draws) (wire plain : Bytes) :
    (start connection draws wire plain).Faithful (connection.reader.yield wire)
      connection.writer.cipher plain := by
  have hroom : relayBufferSize ≠ 0 := by decide
  exact ⟨⟨⟨Reading.due_start (Yield.behind_nil _).symm hroom, rfl⟩, rfl⟩,
    ⟨⟨[], rfl, Carries.nil _, rfl, rfl⟩, rfl⟩, nofun⟩

section

variable {total : Yield} {cipher : Option Cipher} {plain : Bytes} {faulty : Bool} {r r' : Relay}

/-- **Every step of a relay** keeps both directions faithful. -/
theorem Faithful.step (h : r.Faithful total cipher plain) (hstep : Step faulty r r') :
    r'.Faithful total cipher plain := by
  obtain ⟨hinbound, houtbound, hsuccess⟩ := h
  cases hstep with
  | receive hrunning hin =>
      refine ⟨Inbound.faithful_of_move hinbound (Inbound.move_of_step hin), houtbound, ?_⟩
      intro received sent hresult
      cases hrunning.symm.trans hresult
  | send hrunning hout =>
      refine ⟨hinbound, Outbound.faithful_of_move houtbound (Outbound.move_of_step hout), ?_⟩
      intro received sent hresult
      cases hrunning.symm.trans hresult
  | failInbound _ _ | failOutbound _ _ => exact ⟨hinbound, houtbound, nofun⟩
  | succeed _ hin hout =>
      refine ⟨hinbound, houtbound, ?_⟩
      intro received sent hresult
      cases hresult
      exact ⟨hin, hout⟩

/-- A direction that has closed its output has delivered all. -/
theorem Faithful.received (h : r.Faithful total cipher plain) (hshut : r.inbound.shut = true) :
    total = ⟨r.inbound.wired.output, .ok ()⟩ := by
  have hended : r.inbound.wired.state.ended = true := h.inbound.shut.symm.trans hshut
  have hforwards := h.inbound.forwards
  unfold Inbound.ended at hended
  unfold Inbound.Forwards at hforwards
  split at hended
  next hphase =>
    rw [hphase] at hforwards
    exact hforwards.1
  next => cases hended

theorem Faithful.sent (h : r.Faithful total cipher plain) (hshut : r.outbound.shut = true) :
    Carries cipher r.outbound.wired.output plain := by
  have hended : r.outbound.wired.state.ended = true := h.outbound.shut.symm.trans hshut
  have hforwards := h.outbound.forwards
  unfold Outbound.ended at hended
  unfold Outbound.Forwards at hforwards
  split at hended
  next hphase =>
    rw [hphase] at hforwards
    exact hforwards.1
  next => cases hended

/-- **A relay that has succeeded** has closed both outputs, and counted what
    it forwarded. -/
theorem Faithful.counts (h : r.Faithful total cipher plain) {received sent : Nat}
    (hresult : r.result = some (.ok (received, sent))) :
    r.inbound.shut = true ∧ r.outbound.shut = true
      ∧ received = r.inbound.wired.output.length ∧ sent = plain.length := by
  obtain ⟨hin, hout⟩ := h.success received sent hresult
  have hreceived := h.inbound.forwards
  have hsent := h.outbound.forwards
  unfold Inbound.Forwards at hreceived
  unfold Outbound.Forwards at hsent
  rw [hin] at hreceived
  rw [hout] at hsent
  refine ⟨?_, ?_, hreceived.2, hsent.2⟩
  · rw [h.inbound.shut, Inbound.ended, hin]
  · rw [h.outbound.shut, Outbound.ended, hout]

end

/-! ## §3. Relays that succeed -/

/-- **A relay on its way to success.** -/
structure Hale (total : Yield) (cipher : Option Cipher) (plain : Bytes) (r : Relay) : Prop where
  faithful : r.Faithful total cipher plain
  inbound : Inbound.Hale r.inbound.wired
  outbound : Outbound.Hale cipher r.outbound.wired
  running : r.result = none

/-- The outcome that a relay is to have. -/
def Succeeds (total : Yield) (plain : Bytes) (r : Relay) : Prop :=
  r.result = some (.ok (total.data.length, plain.length))

/-- What is left to do in both directions. -/
def cost (cipher : Option Cipher) (r : Relay) : Nat :=
  Inbound.cost r.inbound.wired + Outbound.cost cipher r.outbound.wired

section

variable {total : Yield} {cipher : Option Cipher} {plain : Bytes} {r r' : Relay}

/-- **Where nothing fails,** every step of a relay succeeds or leaves less to
    do. -/
theorem Hale.step (h : r.Hale total cipher plain) (hends : total.ending = .ok ())
    (hstep : Step false r r') :
    r'.Succeeds total plain ∨ (r'.Hale total cipher plain ∧ r'.cost cipher < r.cost cipher) := by
  obtain ⟨hfaithful, hinbound, houtbound, hrunning⟩ := h
  have hnext := hfaithful.step hstep
  cases hstep with
  | receive _ hin =>
      obtain ⟨hhale, hless⟩ := Inbound.hale_of_move hinbound hfaithful.inbound.forwards hends
        (Inbound.move_of_step hin)
      exact .inr ⟨⟨hnext, hhale, houtbound, hrunning⟩, Nat.add_lt_add_right hless _⟩
  | send _ hout =>
      obtain ⟨hhale, hless⟩ := Outbound.hale_of_move houtbound (Outbound.move_of_step hout)
      exact .inr ⟨⟨hnext, hinbound, hhale, hrunning⟩, Nat.add_lt_add_left hless _⟩
  | failInbound _ hphase =>
      unfold Inbound.Hale at hinbound
      rw [hphase] at hinbound
      exact hinbound.elim
  | failOutbound _ hphase =>
      unfold Outbound.Hale at houtbound
      rw [hphase] at houtbound
      exact houtbound.elim
  | @succeed received sent _ _ _ =>
      obtain ⟨hshut, -, hreceived, hsent⟩ := hnext.counts rfl
      have htotal := hnext.received hshut
      refine .inl ?_
      unfold Succeeds
      rw [hreceived, hsent, htotal]

/-- **Where nothing fails,** a relay stops only when it has succeeded. -/
theorem Hale.exists_step (h : r.Hale total cipher plain) : ∃ r', Step false r r' := by
  obtain ⟨hfaithful, hinbound, houtbound, hrunning⟩ := h
  cases hin : r.inbound.wired.state.ended with
  | false =>
      obtain ⟨d, hstep⟩ := Inbound.exists_step hinbound hfaithful.inbound.forwards hin
      exact ⟨_, .receive hrunning hstep⟩
  | true =>
      cases hout : r.outbound.wired.state.ended with
      | false =>
          obtain ⟨d, hstep⟩ := Outbound.exists_step houtbound hout
          exact ⟨_, .send hrunning hstep⟩
      | true =>
          unfold Inbound.ended at hin
          unfold Outbound.ended at hout
          split at hin
          next received hreceived =>
            split at hout
            next sent hsent => exact ⟨_, .succeed hrunning hreceived hsent⟩
            next => cases hout
          next => cases hin

end

/-- **A relay is bound to succeed** where nothing fails and the wire ends
    well, whichever source closes first. -/
theorem inevitably_succeeds (connection : Connection) (draws : Draws) (wire plain : Bytes)
    (hends : (connection.reader.yield wire).ending = .ok ()) (hwhole : connection.reader.Whole)
    (hclean : connection.writer.poisoned = false) :
    Inevitably (Step false) (Succeeds (connection.reader.yield wire) plain)
      (start connection draws wire plain) := by
  refine Inevitably.of_approach
    (Hale (connection.reader.yield wire) connection.writer.cipher plain)
    (cost connection.writer.cipher) ?_ ?_ ?_
  · intro s s' h _ hstep
    exact h.step hends hstep
  · intro s h _
    exact h.exists_step
  · exact ⟨faithful_start connection draws wire plain, ⟨hwhole, nofun⟩, ⟨rfl, hclean⟩, rfl⟩

/-! ## §4. Exact relaying -/

/-- **A RELAY FORWARDS BOTH DIRECTIONS EXACTLY.**  Whatever a connection holds
    back, however both sources are cut into pieces, however the directions
    take turns, and whatever fails:

    • at any time, what was written to the plain side is the beginning of
      what the connection delivers, and what was written to the connection
      carries the beginning of what the plain side holds,
    • an output is closed only after all its data,
    • a relay that succeeds has closed both outputs, and its counts are the
      lengths of all that the connection delivers and of all that the plain
      side holds,
    • any two relays that succeed on the same sources have delivered and
      counted the same,
    • and where nothing fails and the wire ends well a relay is bound to
      succeed, whichever source closes first. -/
theorem relays_exactly (connection : Connection) (draws : Draws) (wire plain : Bytes)
    {faulty : Bool} {r : Relay}
    (hrun : Relation.ReflTransGen (Step faulty) (start connection draws wire plain) r) :
    (r.inbound.wired.output <+: (connection.reader.yield wire).data
      ∧ ((Reader.start connection.writer.cipher).yield r.outbound.wired.output).data <+: plain)
    ∧ (r.inbound.shut = true →
        connection.reader.yield wire = ⟨r.inbound.wired.output, .ok ()⟩)
    ∧ (r.outbound.shut = true →
        (Reader.start connection.writer.cipher).yield r.outbound.wired.output = ⟨plain, .ok ()⟩)
    ∧ (∀ received sent, r.result = some (.ok (received, sent)) →
        r.inbound.shut = true ∧ r.outbound.shut = true
          ∧ received = (connection.reader.yield wire).data.length ∧ sent = plain.length)
    ∧ (∀ (draws' : Draws) (faulty' : Bool) (r' : Relay) (counts counts' : Nat × Nat),
        Relation.ReflTransGen (Step faulty') (start connection draws' wire plain) r' →
        r.result = some (.ok counts) → r'.result = some (.ok counts') →
        counts' = counts ∧ r'.inbound.wired.output = r.inbound.wired.output)
    ∧ ((connection.reader.yield wire).ending = .ok () → connection.reader.Whole →
        connection.writer.poisoned = false →
        Inevitably (Step false) (Succeeds (connection.reader.yield wire) plain)
          (start connection draws wire plain)) := by
  have hfaithful : ∀ {draws : Draws} {faulty : Bool} {r : Relay},
      Relation.ReflTransGen (Step faulty) (start connection draws wire plain) r →
      r.Faithful (connection.reader.yield wire) connection.writer.cipher plain := by
    intro draws faulty r hrun
    exact keeps_of_run (Faithful _ _ _) (fun h hstep => h.step hstep) hrun
      (faithful_start connection draws wire plain)
  have h := hfaithful hrun
  have hcounts : ∀ {r : Relay} {received sent : Nat},
      r.Faithful (connection.reader.yield wire) connection.writer.cipher plain →
      r.result = some (.ok (received, sent)) →
      connection.reader.yield wire = ⟨r.inbound.wired.output, .ok ()⟩
        ∧ received = r.inbound.wired.output.length ∧ sent = plain.length := by
    intro r received sent h hresult
    obtain ⟨hshut, -, hreceived, hsent⟩ := h.counts hresult
    exact ⟨h.received hshut, hreceived, hsent⟩
  refine ⟨⟨h.inbound.forwards.output_begins, h.outbound.forwards.begins.yield_of_begin⟩,
    h.received, fun hshut => (h.sent hshut).yield_eq, ?_, ?_,
    inevitably_succeeds connection draws wire plain⟩
  · intro received sent hresult
    obtain ⟨hin, hout, hreceived, hsent⟩ := h.counts hresult
    refine ⟨hin, hout, ?_, hsent⟩
    rw [h.received hin]
    exact hreceived
  · rintro draws' faulty' r' ⟨received, sent⟩ ⟨received', sent'⟩ hrun' hresult hresult'
    obtain ⟨hyield, hreceived, hsent⟩ := hcounts h hresult
    obtain ⟨hyield', hreceived', hsent'⟩ := hcounts (hfaithful hrun') hresult'
    have houtput : r'.inbound.wired.output = r.inbound.wired.output :=
      congrArg Yield.data (hyield'.symm.trans hyield)
    refine ⟨?_, houtput⟩
    rw [hreceived, hreceived', hsent, hsent', houtput]

/-- A connection that holds two bytes back and the beginning of a chunk with
    three more, and a plain side that holds two: a relay between them is bound
    to succeed, and one that has succeeded has delivered all five. -/
theorem relays_exactly_held_back :
    ∃ (c : Cipher) (chunk : Bytes) (r : Relay),
      Relation.ReflTransGen (Step false)
        (start ⟨⟨some c, chunk.take 40, [1, 2], none⟩, .start (some c)⟩ default (chunk.drop 40)
          [3, 4]) r
      ∧ r.result = some (.ok (5, 2)) ∧ r.inbound.wired.output = [1, 2, 7, 8, 9]
      ∧ ((Reader.start (some c)).yield r.outbound.wired.output) = ⟨[3, 4], .ok ()⟩ := by
  let c : Cipher := ⟨[], 93, by decide, by decide⟩
  let chunk : Bytes := c.sealChunk (Cipher.nonceOf 5) [7, 8, 9]
  let connection : Connection := ⟨⟨some c, chunk.take 40, [1, 2], none⟩, .start (some c)⟩
  have hframed : c.Framed (chunk ++ []) ([7, 8, 9] ++ []) :=
    .cons (Bytes.length_ofNatLE _ _) (by decide) .nil
  have howes : connection.reader.Owes (some c) (chunk.drop 40) [1, 2, 7, 8, 9] := by
    refine ⟨rfl, ?_, [7, 8, 9], ?_, rfl⟩
    · show (chunk.take 40).length ≤ 93
      exact Nat.le_trans (List.length_take_le _ _) (by decide)
    · show c.Framed (chunk.take 40 ++ chunk.drop 40) [7, 8, 9]
      rw [List.take_append_drop]
      rw [List.append_nil] at hframed
      exact hframed
  have hwhole : connection.reader.Whole := by
    intro c' hcipher
    obtain rfl : c = c' := Option.some.inj hcipher
    exact howes.whole
  have hbegin : Relation.ReflTransGen (Step false)
      (start connection default (chunk.drop 40) [3, 4])
      (start connection default (chunk.drop 40) [3, 4]) := .refl
  have hbound := (relays_exactly connection default (chunk.drop 40) [3, 4] hbegin).2.2.2.2.2
    (by rw [howes.yield_eq]) hwhole rfl
  obtain ⟨r, hrun, hresult⟩ := hbound.exists_run
  rw [howes.yield_eq] at hresult
  obtain ⟨-, hreceived, hsent, hcounts, -⟩ :=
    relays_exactly connection default (chunk.drop 40) [3, 4] hrun
  obtain ⟨hin, hout, -⟩ := hcounts 5 2 hresult
  refine ⟨c, chunk, r, hrun, hresult, ?_, hsent hout⟩
  have hyield := hreceived hin
  rw [howes.yield_eq] at hyield
  exact (congrArg Yield.data hyield).symm

end Relay

end Masquerade
