/-
  Masquerade.Proofs.KeyAgreement — BOTH ENDS OBTAIN THE SAME CIPHER.

  The client writes one block: the code of a fresh public key, and padding
  up to the size of a chunk.  The server reads one block and no more.  The
  two come to the same point by different ways, each from its own secret and
  the other's public key, and derive the key from that point and the code of
  the client's key.

  Of the curve two things are taken for granted wherever they are used: that
  the public points in question lie on it, and that the two ways lead to the
  same point.

  Main results:
    * `Agreement.clientCipher_eq`, `Agreement.serverCipher_eq` — what each
      end derives.
    * `Opening.offers_of_advance`, `Opening.accepts_of_advance` — what each
      end keeps, whatever it moves.
    * `Opening.inevitably_accepted` — a server reads just one block.
    * `Meeting.agree_on_cipher` — both ends, in whatever steps.
-/
import Masquerade.Handshake.Opening
import Masquerade.Proofs.Framing
import Masquerade.Proofs.Motion
import Masquerade.Proofs.Persistence

namespace Masquerade

/-! ## §1. What each end derives -/

namespace Agreement

section

variable {config : SilverServer} {secret : P256.Scalar}

/-- **The cipher of a server's configuration and a client's secret.** -/
def cipherOf (config : SilverServer) (hvalid : config.validate = .ok ()) (secret : P256.Scalar) :
    Cipher where
  key := deriveKey (shared secret config.serverKey) secret.publicPoint.encode
  chunkSize := config.chunkSize.toNat
  min_le := (config.validate_eq_ok_iff.mp hvalid).1
  le_max := (config.validate_eq_ok_iff.mp hvalid).2.1

/-- What the client derives. -/
theorem clientCipher_eq (hvalid : config.validate = .ok ()) :
    clientCipher config.client secret = .ok (cipherOf config hvalid secret) := by
  obtain ⟨hmin, hmax, -⟩ := config.validate_eq_ok_iff.mp hvalid
  unfold clientCipher SilverClient.validate checkChunkSize Cipher.new SilverServer.client
  dsimp only
  rw [if_pos ⟨hmin, hmax⟩]
  dsimp only
  rw [dif_pos ⟨hmin, hmax⟩]
  rfl

/-- **What the server derives** from a block that begins with the code of the
    client's key, whatever follows it. -/
theorem serverCipher_eq (hvalid : config.validate = .ok ())
    (hcurve : secret.publicPoint.onCurve = true)
    (hcommutes : P256.mul secret config.privateKey.publicPoint
      = P256.mul config.privateKey secret.publicPoint) (padding : Bytes) :
    serverCipher config (secret.publicPoint.encode ++ padding)
      = .ok (cipherOf config hvalid secret) := by
  obtain ⟨hmin, hmax, hkey⟩ := config.validate_eq_ok_iff.mp hvalid
  have hshared : shared config.privateKey secret.publicPoint = shared secret config.serverKey := by
    unfold shared
    rw [← hkey, hcommutes]
  unfold serverCipher
  rw [List.take_left' (P256.length_encode _)]
  dsimp only
  rw [P256.decode?_encode _ hcurve]
  dsimp only
  unfold Cipher.new
  rw [dif_pos ⟨hmin, hmax⟩, hshared]
  rfl

/-- **A block that begins with no code of a point** gives no cipher. -/
theorem serverCipher_of_no_point {block : Bytes} (hlength : P256.pointSize ≤ block.length)
    (hnone : ∀ p : P256.Point, p.onCurve = true → block.take P256.pointSize ≠ p.encode) :
    serverCipher config block = .error (.keyExchange .malformedPublicKey) := by
  have htake : (block.take P256.pointSize).length = P256.pointSize := by
    rw [List.length_take]
    omega
  unfold serverCipher
  dsimp only
  cases hdecode : P256.Point.decode? (block.take P256.pointSize) with
  | none => rfl
  | some p =>
      exact absurd (P256.eq_encode_of_decode? hdecode htake)
        (hnone p (P256.onCurve_of_decode? hdecode))

end

theorem pointSize_le_chunkSize {config : SilverServer} (hvalid : config.validate = .ok ()) :
    P256.pointSize ≤ config.chunkSize.toNat :=
  Nat.le_trans (by decide) (config.validate_eq_ok_iff.mp hvalid).1

end Agreement

/-! ## §2. The two processes -/

namespace Opening

theorem act_agreeing (keying : Keying) : (agreeing keying).act = .go fun _ => agree keying := rfl

theorem act_offered (cipher : Cipher) :
    (offering [] cipher).act = .go fun _ => .over (.ok (some cipher)) := rfl

theorem act_offering {left : Bytes} (hleft : left ≠ []) (cipher : Cipher) :
    (offering left cipher).act = .write left none (offered left cipher) := by
  cases left with
  | nil => exact absurd rfl hleft
  | cons byte left => rfl

theorem act_accepted (config : SilverServer) (got : Bytes) :
    (accepting config 0 got).act
      = .go fun _ => .over ((Agreement.serverCipher config got).map some) := rfl

theorem act_accepting (config : SilverServer) {missing : Nat} (hmissing : missing ≠ 0)
    (got : Bytes) :
    (accepting config missing got).act = .read missing none (arrived config missing got) := by
  cases missing with
  | zero => exact absurd rfl hmissing
  | succ missing => rfl

theorem offered_taken (left : Bytes) (cipher : Cipher) {count : Nat} (h : 0 < count) :
    offered left cipher (.taken count) = .offering (left.drop count) cipher := by
  cases count with
  | zero => exact absurd h (Nat.lt_irrefl 0)
  | succ count => rfl

/-- **The bytes that a client has still to write.** -/
def unsent : Opening → Bytes
  | .agreeing (.offer config draws) => keyBlock config draws
  | .offering left _ => left
  | _ => []

/-- **A client on its way to a cipher.** -/
def Offers (cipher : Cipher) : Opening → Prop
  | .agreeing (.offer config draws) =>
    Agreement.clientCipher config (scalarOf draws.next) = .ok cipher
  | .offering _ offered => offered = cipher
  | .over outcome => outcome = .ok (some cipher)
  | _ => False

/-- **A server on its way through a block**, with these bytes still coming. -/
def Accepts (config : SilverServer) (block rest : Bytes) : Opening → (coming : Bytes) → Prop
  | .agreeing (.accept accepted), coming => accepted = config ∧ coming = block ++ rest
  | .accepting accepted missing got, coming =>
    accepted = config ∧ got ++ coming = block ++ rest ∧ got.length + missing = block.length
  | .over outcome, coming =>
    outcome = (Agreement.serverCipher config block).map some ∧ coming = rest
  | _, _ => False

/-- How much an end has still to do. -/
def effort : Opening → Nat
  | .agreeing (.offer config draws) => (keyBlock config draws).length + 2
  | .agreeing (.accept config) => config.chunkSize.toNat + 2
  | .offering left _ => left.length + 1
  | .accepting _ missing _ => missing + 1
  | _ => 0

section

variable {cipher : Cipher} {config : SilverServer} {block rest : Bytes} {ended : Bool}
  {w w' : Wired Opening}

/-- **Whatever a client moves,** it stays on its way, and what it writes is
    the next of its block. -/
theorem offers_of_advance (h : Offers cipher w.state) (hadvance : Advance act ended w w') :
    Offers cipher w'.state
      ∧ (∃ new, w'.output = w.output ++ new ∧ w.state.unsent = new ++ w'.state.unsent)
      ∧ w'.state.effort < w.state.effort := by
  obtain ⟨state, input, output⟩ := w
  cases state with
  | agreeing keying =>
      obtain ⟨now, rfl⟩ := hadvance.of_go (act_agreeing keying)
      cases keying with
      | offer config draws =>
          have hcipher : Agreement.clientCipher config (scalarOf draws.next) = .ok cipher := h
          have hagree : agree (.offer config draws) = .offering (keyBlock config draws) cipher := by
            unfold agree
            dsimp only
            rw [hcipher]
          dsimp only
          rw [hagree]
          exact ⟨rfl, ⟨[], (List.append_nil _).symm, rfl⟩, Nat.lt_succ_self _⟩
      | _ => exact h.elim
  | offering left offered =>
      by_cases hleft : left = []
      · subst hleft
        obtain ⟨now, rfl⟩ := hadvance.of_go (act_offered offered)
        obtain rfl : offered = cipher := h
        exact ⟨rfl, ⟨[], (List.append_nil _).symm, rfl⟩, Nat.zero_lt_one⟩
      · obtain ⟨count, hsome, hle, rfl⟩ := hadvance.of_write (act_offering hleft offered)
        dsimp only
        rw [offered_taken left offered hsome]
        refine ⟨h, ⟨left.take count, rfl, (List.take_append_drop _ _).symm⟩, ?_⟩
        · show (left.drop count).length + 1 < left.length + 1
          rw [List.length_drop]
          omega
  | «over» outcome => exact (hadvance.not_of_done rfl).elim
  | _ => exact h.elim

/-- A client can move until it has its cipher. -/
theorem Offers.exists_advance (h : Offers cipher w.state)
    (hgoal : w.state ≠ .over (.ok (some cipher))) : ∃ w', Advance act ended w w' := by
  obtain ⟨state, input, output⟩ := w
  cases state with
  | agreeing keying => exact ⟨_, .go 0 (act_agreeing keying)⟩
  | offering left offered =>
      by_cases hleft : left = []
      · subst hleft
        exact ⟨_, .go 0 (act_offered offered)⟩
      · exact ⟨_, .write 1 (act_offering hleft offered) Nat.one_pos
          (List.length_pos_iff.mpr hleft)⟩
  | «over» outcome =>
      have hover : outcome = .ok (some cipher) := h
      exact absurd (congrArg Opening.over hover) hgoal
  | _ => exact h.elim

/-- **Whatever a server moves,** it stays on its way, and reads no more than
    the block.  `tail` has not been written yet. -/
theorem accepts_of_advance {tail : Bytes} (hlength : block.length = config.chunkSize.toNat)
    (htail : ended = true → tail = []) (h : Accepts config block rest w.state (w.input ++ tail))
    (hadvance : Advance act ended w w') :
    Accepts config block rest w'.state (w'.input ++ tail) ∧ w'.output = w.output
      ∧ w'.state.effort < w.state.effort := by
  obtain ⟨state, input, output⟩ := w
  cases state with
  | agreeing keying =>
      obtain ⟨now, rfl⟩ := hadvance.of_go (act_agreeing keying)
      cases keying with
      | accept accepted =>
          obtain ⟨rfl, hcoming⟩ := h
          refine ⟨⟨rfl, hcoming, ?_⟩, rfl, Nat.lt_succ_self _⟩
          rw [List.length_nil, Nat.zero_add, hlength]
      | _ => exact h.elim
  | accepting accepted missing got =>
      obtain ⟨rfl, hcoming, hsize⟩ := h
      dsimp only at hcoming
      by_cases hmissing : missing = 0
      · subst hmissing
        obtain ⟨now, rfl⟩ := hadvance.of_go (act_accepted accepted got)
        obtain ⟨rfl, hrest⟩ := List.append_inj hcoming hsize
        exact ⟨⟨rfl, hrest⟩, rfl, Nat.zero_lt_one⟩
      · rcases hadvance.of_read (act_accepting accepted hmissing got) with
          ⟨bytes, more, hinput, hsome, hroom, rfl⟩ | ⟨hnone, hended, rfl⟩
        · have hpos := List.length_pos_iff.mpr hsome
          dsimp only at hinput
          refine ⟨⟨rfl, ?_, ?_⟩, rfl, ?_⟩
          · rw [hinput] at hcoming
            show (got ++ bytes) ++ (more ++ tail) = _
            rw [← hcoming, List.append_assoc, List.append_assoc]
          · rw [List.length_append]
            omega
          · show missing - bytes.length + 1 < missing + 1
            omega
        · -- the block is not there yet, so the input cannot have ended
          dsimp only at hnone
          rw [hnone, htail hended, List.append_nil, List.append_nil] at hcoming
          have hlong := congrArg List.length hcoming
          rw [List.length_append] at hlong
          omega
  | «over» outcome => exact (hadvance.not_of_done rfl).elim
  | _ => exact h.elim

/-- A server can move until it is done, if nothing is held back. -/
theorem Accepts.exists_advance (h : Accepts config block rest w.state w.input)
    (hgoal : w.state ≠ .over ((Agreement.serverCipher config block).map some)) :
    ∃ w', Advance act ended w w' := by
  obtain ⟨state, input, output⟩ := w
  cases state with
  | agreeing keying => exact ⟨_, .go 0 (act_agreeing keying)⟩
  | accepting accepted missing got =>
      obtain ⟨rfl, hcoming, hsize⟩ := h
      by_cases hmissing : missing = 0
      · subst hmissing
        exact ⟨_, .go 0 (act_accepted accepted got)⟩
      · cases input with
        | nil =>
            have hlong := congrArg List.length hcoming
            rw [List.append_nil, List.length_append] at hlong
            omega
        | cons byte input =>
            exact ⟨_, .read [byte] input (act_accepting accepted hmissing got) rfl
              (List.cons_ne_nil _ _) (Nat.one_le_iff_ne_zero.mpr hmissing)⟩
  | «over» outcome => exact absurd (congrArg Opening.over h.1) hgoal
  | _ => exact h.elim

end

/-- **A server reads one block and no more,** in whatever pieces it comes,
    and returns what it derives from the block. -/
theorem inevitably_accepted {config : SilverServer} {block : Bytes}
    (hlength : block.length = config.chunkSize.toNat) (ended : Bool) (rest output : Bytes) :
    Inevitably (Advance act ended)
      (fun w => w.state = .over ((Agreement.serverCipher config block).map some)
        ∧ w.input = rest ∧ w.output = output)
      ⟨.agreeing (.accept config), block ++ rest, output⟩ := by
  have happend : ∀ w : Wired Opening, w.input = w.input ++ [] := fun w => (List.append_nil _).symm
  have hstart : Accepts config block rest (.agreeing (.accept config)) (block ++ rest) := ⟨rfl, rfl⟩
  refine Inevitably.of_measure
    (fun w => Accepts config block rest w.state w.input ∧ w.output = output)
    (fun w => w.state.effort) ?_ ?_ ?_ ⟨hstart, rfl⟩
  · rintro w w' ⟨h, houtput⟩ hadvance
    rw [happend w] at h
    obtain ⟨h', houtput', -⟩ := accepts_of_advance hlength (fun _ => rfl) h hadvance
    rw [← happend w'] at h'
    exact ⟨h', houtput'.trans houtput⟩
  · rintro w w' ⟨h, -⟩ hadvance
    rw [happend w] at h
    exact .inr (accepts_of_advance hlength (fun _ => rfl) h hadvance).2.2
  · rintro w ⟨h, houtput⟩ hgoal
    refine h.exists_advance ?_
    intro hover
    rw [hover] at h
    exact hgoal ⟨hover, h.2, houtput⟩

end Opening

/-! ## §3. A client and a server -/

/-- **A client and a server on one pipe**, with a record of what the client
    has written. -/
structure Meeting where
  client : Opening
  server : Opening
  /-- Bytes on their way to the server. -/
  pipe : Bytes
  written : Bytes

namespace Meeting

/-- Neither end has moved. -/
def start (client : SilverClient) (draws : Draws) (server : SilverServer) : Meeting where
  client := .agreeing (.offer client draws)
  server := .agreeing (.accept server)
  pipe := []
  written := []

/-- **One step of a meeting:** either end moves. -/
inductive Step (m : Meeting) : Meeting → Prop where
  | client {w : Wired Opening} (h : Advance Opening.act false ⟨m.client, [], m.pipe⟩ w) :
      Step m
        { m with
          client := w.state
          pipe := w.output
          written := m.written ++ w.output.drop m.pipe.length }
  | server {w : Wired Opening} (h : Advance Opening.act false ⟨m.server, m.pipe, []⟩ w) :
      Step m { m with server := w.state, pipe := w.input }

/-- **Both ends have this cipher,** the client has written as much as a chunk,
    and the server has read all of it. -/
def Agreed (cipher : Cipher) (m : Meeting) : Prop :=
  m.client = .over (.ok (some cipher)) ∧ m.server = .over (.ok (some cipher))
    ∧ m.written.length = cipher.chunkSize ∧ m.pipe = []

/-- **What holds all along:** the client is on its way to the cipher, the
    server on its way through the client's block. -/
structure Keyed (cipher : Cipher) (config : SilverServer) (block : Bytes) (m : Meeting) : Prop where
  offers : m.client.Offers cipher
  accepts : m.server.Accepts config block [] (m.pipe ++ m.client.unsent)
  written : m.written ++ m.client.unsent = block

section

variable {cipher : Cipher} {config : SilverServer} {block : Bytes} {m m' : Meeting}

theorem Keyed.step (hlength : block.length = config.chunkSize.toNat)
    (h : m.Keyed cipher config block) (hstep : Step m m') :
    m'.Keyed cipher config block
      ∧ m'.client.effort + m'.server.effort < m.client.effort + m.server.effort := by
  cases hstep with
  | @client w hadvance =>
      obtain ⟨hoffers, ⟨new, houtput, hunsent⟩, heffort⟩ :=
        Opening.offers_of_advance h.offers hadvance
      have haccepts := h.accepts
      have hwritten := h.written
      dsimp only at houtput hunsent
      rw [hunsent, ← List.append_assoc] at haccepts hwritten
      refine ⟨⟨hoffers, ?_, ?_⟩, Nat.add_lt_add_right heffort _⟩
      · show m.server.Accepts config block [] (w.output ++ w.state.unsent)
        rw [houtput]
        exact haccepts
      · show m.written ++ w.output.drop m.pipe.length ++ w.state.unsent = block
        rw [houtput, List.drop_left]
        exact hwritten
  | @server w hadvance =>
      have hopen : false = true → m.client.unsent = [] := fun hended => nomatch hended
      obtain ⟨haccepts, -, heffort⟩ :=
        Opening.accepts_of_advance hlength hopen h.accepts hadvance
      exact ⟨⟨h.offers, haccepts, h.written⟩, Nat.add_lt_add_left heffort _⟩

/-- **No meeting is stuck before both have the cipher.** -/
theorem Keyed.exists_step (h : m.Keyed cipher config block)
    (hserver : Agreement.serverCipher config block = .ok cipher)
    (hlength : block.length = cipher.chunkSize) (hgoal : ¬ m.Agreed cipher) :
    ∃ m', Step m m' := by
  by_cases hclient : m.client = .over (.ok (some cipher))
  · -- the client has written everything, so the whole block is within reach
    obtain ⟨-, haccepts, hwritten⟩ := h
    rw [hclient] at haccepts hwritten
    have haccepts : m.server.Accepts config block [] (m.pipe ++ []) := haccepts
    have hwritten : m.written ++ [] = block := hwritten
    rw [List.append_nil] at haccepts hwritten
    have hmove : m.server ≠ .over ((Agreement.serverCipher config block).map some) := by
      intro hover
      rw [hover] at haccepts
      rw [hserver] at hover
      exact hgoal ⟨hclient, hover, by rw [hwritten, hlength], haccepts.2⟩
    obtain ⟨w, hadvance⟩ := @Opening.Accepts.exists_advance config block [] false
      ⟨m.server, m.pipe, []⟩ haccepts hmove
    exact ⟨_, .server hadvance⟩
  · obtain ⟨w, hadvance⟩ := @Opening.Offers.exists_advance cipher false ⟨m.client, [], m.pipe⟩
      h.offers hclient
    exact ⟨_, .client hadvance⟩

/-- **Both ends are bound to obtain the cipher** that they both derive. -/
theorem inevitably_agreed {client : SilverClient} {draws : Draws}
    (hclient : Agreement.clientCipher client (scalarOf draws.next) = .ok cipher)
    (hserver : Agreement.serverCipher config (Opening.keyBlock client draws) = .ok cipher)
    (hsize : (Opening.keyBlock client draws).length = config.chunkSize.toNat)
    (hlength : (Opening.keyBlock client draws).length = cipher.chunkSize) :
    Inevitably Step (Agreed cipher) (start client draws config) := by
  have hstart : (start client draws config).Keyed cipher config (Opening.keyBlock client draws) := by
    refine ⟨hclient, ⟨rfl, ?_⟩, rfl⟩
    rw [List.append_nil]
    rfl
  exact Inevitably.of_measure (Keyed cipher config (Opening.keyBlock client draws))
    (fun m => m.client.effort + m.server.effort) (fun h hstep => (h.step hsize hstep).1)
    (fun h hstep => .inr (h.step hsize hstep).2)
    (fun h hgoal => h.exists_step hserver hlength hgoal) hstart

end

/-! ## §4. Both ends -/

/-- A client's configuration for this server, with any toneburst. -/
def clientOf (config : SilverServer) (toneburst : Option Toneburst) : ClientConfig :=
  (ServerConfig.mk none (some config)).client toneburst

theorem valid_clientOf {config : SilverServer} (h : config.serverKey.onCurve = true)
    (toneburst : Option Toneburst) : (clientOf config toneburst).Valid := by
  intro polish hpolish
  rw [← Option.some.inj hpolish]
  exact h

/-- Decoded, a client's configuration is as it was encoded. -/
theorem eq_clientOf_of_decode {config : SilverServer} (h : config.serverKey.onCurve = true)
    {toneburst : Option Toneburst} {client : ClientConfig}
    (hdecode : ClientConfig.decode (clientOf config toneburst).encode = .ok client) :
    client = clientOf config toneburst := by
  by_cases hfits : Envelope.Fits (clientOf config toneburst).toJson
  · rw [ClientConfig.saves_bare.loads (valid_clientOf h toneburst) hfits] at hdecode
    exact (Except.ok.inj hdecode).symm
  · rw [ClientConfig.saves_bare.refuses hfits] at hdecode
    cases hdecode

theorem fits_clientOf (config : SilverServer) : Envelope.Fits (clientOf config none).toJson := by
  rw [Envelope.fits_iff]
  simp [clientOf, ServerConfig.client, ClientConfig.toJson, SilverClient.toJson, optionJson,
    bytesJson, Json.nesting, Json.nestingMembers, Json.nestingMember, Json.maxNesting]

/-- **A cipher that both ends obtain,** of a server's configuration and a
    client that draws so. -/
structure Shared (config : SilverServer) (draws : Draws) (cipher : Cipher) : Prop where
  size : cipher.chunkSize = config.chunkSize.toNat
  /-- A client with the configuration derived from the server's, as it is or
      encoded and decoded, and the server are bound to obtain it, in whatever
      steps they take. -/
  meets : ∀ (toneburst : Option Toneburst) (client : ClientConfig),
    client = clientOf config toneburst
        ∨ ClientConfig.decode (clientOf config toneburst).encode = .ok client →
      ∃ silver, client.polish = some silver
        ∧ Inevitably Step (Agreed cipher) (start silver draws config)
  /-- Such a configuration does survive encoding and decoding. -/
  survives : ∀ toneburst : Option Toneburst, Envelope.Fits (clientOf config toneburst).toJson →
    ClientConfig.decode (clientOf config toneburst).encode = .ok (clientOf config toneburst)
  /-- Without a toneburst there is no question of its fitting. -/
  survives_bare : ClientConfig.decode (clientOf config none).encode = .ok (clientOf config none)
  /-- The server obtains it from every block that begins with the code of the
      client's point, whatever the padding, and leaves what follows unread. -/
  reads : ∀ (padding rest output : Bytes) (ended : Bool),
    ((scalarOf draws.next).publicPoint.encode ++ padding).length = config.chunkSize.toNat →
    Inevitably (Advance Opening.act ended)
      (fun w => w.state = .over (.ok (some cipher)) ∧ w.input = rest ∧ w.output = output)
      ⟨.agreeing (.accept config),
        ((scalarOf draws.next).publicPoint.encode ++ padding) ++ rest, output⟩
  /-- Opening undoes sealing, for any data and any nonces. -/
  opens : ∀ (data : Bytes) (nonces : Draws), cipher.unpolish (cipher.polish data nonces).1 = .ok data

/-- What both ends derive, each in its own way, is shared by them. -/
theorem shared_cipherOf {config : SilverServer} (hvalid : config.validate = .ok ()) (draws : Draws)
    (hserver : config.serverKey.onCurve = true)
    (hclient : (scalarOf draws.next).publicPoint.onCurve = true)
    (hcommutes : P256.mul (scalarOf draws.next) config.privateKey.publicPoint
      = P256.mul config.privateKey (scalarOf draws.next).publicPoint) :
    Shared config draws (Agreement.cipherOf config hvalid (scalarOf draws.next)) := by
  have hsurvives : ∀ toneburst, Envelope.Fits (clientOf config toneburst).toJson →
      ClientConfig.decode (clientOf config toneburst).encode = .ok (clientOf config toneburst) :=
    fun toneburst hfits => ClientConfig.saves_bare.loads (valid_clientOf hserver toneburst) hfits
  have hderived : ∀ padding, Agreement.serverCipher config
      ((scalarOf draws.next).publicPoint.encode ++ padding)
      = .ok (Agreement.cipherOf config hvalid (scalarOf draws.next)) :=
    Agreement.serverCipher_eq hvalid hclient hcommutes
  refine ⟨rfl, ?_, hsurvives, hsurvives none (fits_clientOf config), ?_, Cipher.unpolish_polish _⟩
  · intro toneburst client hfrom
    have hsame : client = clientOf config toneburst := by
      rcases hfrom with hsame | hdecode
      · exact hsame
      · exact eq_clientOf_of_decode hserver hdecode
    refine ⟨config.client, by rw [hsame]; rfl, ?_⟩
    have hlength : (Opening.keyBlock config.client draws).length = config.chunkSize.toNat := by
      unfold Opening.keyBlock
      rw [Agreement.length_keyBlock, length_randomBytes]
      · rfl
      · rw [P256.length_encode, length_randomBytes]
        exact Agreement.pointSize_le_chunkSize hvalid
    exact inevitably_agreed (Agreement.clientCipher_eq hvalid) (hderived _) hlength hlength
  · intro padding rest output ended hlength
    have hread := Opening.inevitably_accepted hlength ended rest output
    rw [hderived padding] at hread
    exact hread

/-- **BOTH ENDS OBTAIN THE SAME CIPHER.**  If a server's configuration is
    valid, if its public point and the client's fresh one lie on the curve,
    and if the two ways to the shared point lead to the same, there is a
    cipher that both ends obtain.  Of the curve nothing is assumed for the
    rest: from a block that begins with no code of a point on it the server
    gets an error, and no cipher. -/
theorem agree_on_cipher (config : SilverServer) (hvalid : config.validate = .ok ()) :
    (∀ draws : Draws, config.serverKey.onCurve = true →
      (scalarOf draws.next).publicPoint.onCurve = true →
      P256.mul (scalarOf draws.next) config.privateKey.publicPoint
        = P256.mul config.privateKey (scalarOf draws.next).publicPoint →
      ∃ cipher, Shared config draws cipher)
    ∧ ∀ (block rest output : Bytes) (ended : Bool), block.length = config.chunkSize.toNat →
        (∀ p : P256.Point, p.onCurve = true → block.take P256.pointSize ≠ p.encode) →
        Inevitably (Advance Opening.act ended)
          (fun w => w.state = .over (.error (.keyExchange .malformedPublicKey))
            ∧ w.input = rest ∧ w.output = output)
          ⟨.agreeing (.accept config), block ++ rest, output⟩ := by
  refine ⟨?_, ?_⟩
  · intro draws hserver hclient hcommutes
    exact ⟨_, shared_cipherOf hvalid draws hserver hclient hcommutes⟩
  · intro block rest output ended hlength hnone
    have hlong : P256.pointSize ≤ block.length := by
      rw [hlength]
      exact Agreement.pointSize_le_chunkSize hvalid
    have hread := Opening.inevitably_accepted hlength ended rest output
    rw [Agreement.serverCipher_of_no_point hlong hnone] at hread
    exact hread

/-- A server whose scalar is 7 and a client whose scalar is 3 agree on a
    cipher with the smallest chunks, and a block of zeros gives none. -/
theorem agree_on_cipher_small :
    (∃ cipher : Cipher, cipher.chunkSize = 93
      ∧ Inevitably Step (Agreed cipher)
        (start ⟨(scalarOf 6).publicPoint, 93⟩ ⟨fun _ => 2, 0⟩
          ⟨(scalarOf 6).publicPoint, scalarOf 6, 93⟩))
    ∧ Inevitably (Advance Opening.act true)
        (fun w => w.state = .over (.error (.keyExchange .malformedPublicKey))
          ∧ w.input = [] ∧ w.output = [])
        ⟨.agreeing (.accept ⟨(scalarOf 6).publicPoint, scalarOf 6, 93⟩),
          List.replicate 93 0 ++ [], []⟩ := by
  have hvalid : (SilverServer.mk (scalarOf 6).publicPoint (scalarOf 6) 93).validate = .ok () :=
    (SilverServer.validate_eq_ok_iff _).mpr ⟨by decide, by decide, rfl⟩
  have hserver : (scalarOf 6).publicPoint.onCurve = true := by decide +kernel
  have hclient : (scalarOf 2).publicPoint.onCurve = true := by decide +kernel
  have hcommutes : P256.mul (scalarOf 2) (scalarOf 6).publicPoint
      = P256.mul (scalarOf 6) (scalarOf 2).publicPoint := by decide +kernel
  -- the code of a point begins with a four
  have hzeros : ∀ p : P256.Point, p.onCurve = true →
      (List.replicate 93 (0 : UInt8)).take P256.pointSize ≠ p.encode := by
    intro p _ heq
    injection heq with hfirst
    exact absurd hfirst (by decide)
  obtain ⟨hshared, hrefused⟩ := agree_on_cipher ⟨(scalarOf 6).publicPoint, scalarOf 6, 93⟩ hvalid
  refine ⟨?_, hrefused _ [] [] true rfl hzeros⟩
  obtain ⟨cipher, h⟩ := hshared ⟨fun _ => 2, 0⟩ hserver hclient hcommutes
  obtain ⟨silver, hpolish, hbound⟩ := h.meets none _ (.inl rfl)
  rw [← Option.some.inj hpolish] at hbound
  exact ⟨cipher, h.size, hbound⟩

end Meeting

end Masquerade
