/-
  Masquerade.Proofs.Limits — TIME LIMITS OF A READ.

  Bytes arrive on a clock, each at its instant, and a process that waits for
  them goes on as soon as some are there (`Timed.Step`).  What is left open
  is how many of the bytes that have arrived one read hands over.

  A read of a connection with a time limit has a deadline while it waits.
  The deadline is set anew for every chunk, so a chunk that carries no data
  starts the limit again.  What the read comes to, and when, then depends on
  the arrivals alone, and not on how they are handed over (`Expected`).

  Main results:
    * `Reading.Expected.of_complete` — what is complete before the limit
      passes is what the read comes to.
    * `Reading.expected_of_unread` — bytes handed over early change nothing.
    * `Reading.onward_of_step` — every step of a read goes on as awaited.
    * `Reading.within_limits` — every read comes to what its arrivals say, no
      later than one limit's length for each chunk without data and one.
-/
import Masquerade.Proofs.Reception

namespace Masquerade

/-! ## §1. Processes that read on a clock -/

/-- A byte and the instant at which it arrives. -/
abbrev Arriving : Type := Nat × UInt8

/-- **A process that reads on a clock.** -/
structure Timed (σ : Type) where
  state : σ
  /-- What has not been read; a byte is not there before its instant, nor
      before the bytes in front of it. -/
  coming : List Arriving
  now : Nat

/-- What the end of an input answers to a read. -/
def Ending.answer? : Ending → Option Arrival
  | .never => none
  | .closed => some .closed
  | .broken f => some (.fault f)

/-- Whether an instant is within a limit, if there is one. -/
def InTime {σ : Type} (limit : Option (Nat × σ)) (instant : Nat) : Prop :=
  ∀ l, limit = some l → instant ≤ l.1

/-- **One step of a process that reads on a clock.**  It does not wait for
    longer than it has to.  `last` is the instant at which the input ends.
    At the very instant of a limit the limit may pass or not. -/
inductive Timed.Step {σ α : Type} (act : σ → Action σ α) (ending : Ending) (last : Nat)
    (w : Timed σ) : Timed σ → Prop where
  | go {next : Nat → σ} (h : act w.state = .go next) :
      Step act ending last w { w with state := next w.now }
  /-- It reads the first of what is coming, and some of what is there by
      then. -/
  | read {room : Nat} {limit : Option (Nat × σ)} {next : Arrival → σ} (first : Arriving)
      (more rest : List Arriving) (h : act w.state = .read room limit next)
      (hcoming : w.coming = first :: (more ++ rest)) (hroom : more.length < room)
      (hthere : ∀ b ∈ more, b.1 ≤ max w.now first.1) (hin : InTime limit (max w.now first.1)) :
      Step act ending last w
        ⟨next (.data ((first :: more).map Prod.snd)), rest, max w.now first.1⟩
  /-- It finds how the input ends. -/
  | ended {room : Nat} {limit : Option (Nat × σ)} {next : Arrival → σ} (answer : Arrival)
      (h : act w.state = .read room limit next) (hcoming : w.coming = [])
      (hanswer : ending.answer? = some answer) (hin : InTime limit (max w.now last)) :
      Step act ending last w { w with state := next answer, now := max w.now last }
  /-- The limit passes before anything arrives. -/
  | late {room instant : Nat} {expired : σ} {next : Arrival → σ}
      (h : act w.state = .read room (some (instant, expired)) next)
      (hcoming : ∀ first more, w.coming = first :: more → instant ≤ max w.now first.1)
      (hending : w.coming = [] → ending ≠ .never → instant ≤ max w.now last) :
      Step act ending last w { w with state := expired, now := max w.now instant }

namespace Timed.Step

variable {σ α : Type} {act : σ → Action σ α} {ending : Ending} {last : Nat} {w w' : Timed σ}

theorem of_go (h : Step act ending last w w') {next : Nat → σ} (hact : act w.state = .go next) :
    w' = { w with state := next w.now } := by
  cases h with
  | go h =>
      cases hact.symm.trans h
      rfl
  | read _ _ _ h => cases hact.symm.trans h
  | ended _ h => cases hact.symm.trans h
  | late h => cases hact.symm.trans h

/-- **How a wait ends:** bytes come, the input ends, or the limit passes. -/
theorem of_read (h : Step act ending last w w') {room : Nat} {limit : Option (Nat × σ)}
    {next : Arrival → σ} (hact : act w.state = .read room limit next) :
    (∃ first more rest, w.coming = first :: (more ++ rest) ∧ more.length < room
        ∧ (∀ b ∈ more, b.1 ≤ max w.now first.1) ∧ InTime limit (max w.now first.1)
        ∧ w' = ⟨next (.data ((first :: more).map Prod.snd)), rest, max w.now first.1⟩)
      ∨ (∃ answer, w.coming = [] ∧ ending.answer? = some answer ∧ InTime limit (max w.now last)
        ∧ w' = { w with state := next answer, now := max w.now last })
      ∨ ∃ instant expired, limit = some (instant, expired)
        ∧ (∀ first more, w.coming = first :: more → instant ≤ max w.now first.1)
        ∧ (w.coming = [] → ending ≠ .never → instant ≤ max w.now last)
        ∧ w' = { w with state := expired, now := max w.now instant } := by
  cases h with
  | go h => cases hact.symm.trans h
  | read first more rest h hcoming hroom hthere hin =>
      cases hact.symm.trans h
      exact .inl ⟨first, more, rest, hcoming, hroom, hthere, hin, rfl⟩
  | ended answer h hcoming hanswer hin =>
      cases hact.symm.trans h
      exact .inr (.inl ⟨answer, hcoming, hanswer, hin, rfl⟩)
  | @late _ instant expired _ h hcoming hending =>
      cases hact.symm.trans h
      exact .inr (.inr ⟨instant, expired, rfl, hcoming, hending, rfl⟩)

/-- A process that has finished takes no step. -/
theorem not_of_done (h : Step act ending last w w') {result : α}
    (hact : act w.state = .done result) : False := by
  cases h with
  | go h => cases hact.symm.trans h
  | read _ _ _ h => cases hact.symm.trans h
  | ended _ h => cases hact.symm.trans h
  | late h => cases hact.symm.trans h

/-- **A process that waits with a limit goes on:** at the latest when the
    limit passes. -/
theorem exists_of_read {room instant : Nat} {expired : σ} {next : Arrival → σ}
    (hact : act w.state = .read room (some (instant, expired)) next) (hroom : room ≠ 0) :
    ∃ w', Step act ending last w w' := by
  cases hcoming : w.coming with
  | cons first rest =>
      by_cases hin : max w.now first.1 ≤ instant
      · refine ⟨_, .read first [] rest hact hcoming (Nat.pos_of_ne_zero hroom) nofun ?_⟩
        intro l hl
        cases hl
        exact hin
      · refine ⟨_, .late hact ?_ ?_⟩
        · intro first' more hfirst
          rw [hcoming] at hfirst
          cases hfirst
          omega
        · intro hnone
          rw [hcoming] at hnone
          cases hnone
  | nil =>
      by_cases hin : ending ≠ .never ∧ max w.now last ≤ instant
      · obtain ⟨answer, hanswer⟩ : ∃ answer, ending.answer? = some answer := by
          cases ending with
          | never => exact absurd rfl hin.1
          | closed => exact ⟨_, rfl⟩
          | broken f => exact ⟨_, rfl⟩
        refine ⟨_, .ended answer hact hcoming hanswer ?_⟩
        intro l hl
        cases hl
        exact hin.2
      · refine ⟨_, .late hact ?_ ?_⟩
        · intro first' more hfirst
          rw [hcoming] at hfirst
          cases hfirst
        · intro _ hends
          have hpassed : ¬ max w.now last ≤ instant := fun hle => hin ⟨hends, hle⟩
          omega

end Timed.Step

/-- When the last of these is there. -/
def arrived (now : Nat) (part : List Arriving) : Nat := part.foldl (fun i b => max i b.1) now

theorem arrived_append (now : Nat) (part rest : List Arriving) :
    arrived now (part ++ rest) = arrived (arrived now part) rest := List.foldl_append ..

theorem le_arrived (part : List Arriving) : ∀ (now : Nat), now ≤ arrived now part := by
  induction part with
  | nil =>
      intro now
      exact Nat.le_refl now
  | cons b part ih =>
      intro now
      exact Nat.le_trans (Nat.le_max_left now b.1) (ih (max now b.1))

/-- What has arrived by an instant does not move the clock beyond it. -/
theorem arrived_of_le {now : Nat} (part : List Arriving) :
    (∀ b ∈ part, b.1 ≤ now) → arrived now part = now := by
  induction part with
  | nil =>
      intro _
      rfl
  | cons b part ih =>
      intro h
      obtain ⟨hb, hpart⟩ := List.forall_mem_cons.mp h
      show arrived (max now b.1) part = now
      rw [Nat.max_eq_left hb]
      exact ih hpart

/-- Bytes that all arrive at one instant. -/
def atOnce (instant : Nat) (bytes : Bytes) : List Arriving := bytes.map fun b => (instant, b)

theorem arrived_atOnce {now instant : Nat} {bytes : Bytes} (hsome : bytes ≠ [])
    (h : now ≤ instant) : arrived now (atOnce instant bytes) = instant := by
  cases bytes with
  | nil => exact absurd rfl hsome
  | cons b bytes =>
      show arrived (max now instant) (atOnce instant bytes) = instant
      rw [Nat.max_eq_right h]
      refine arrived_of_le _ ?_
      intro later hlater
      obtain ⟨_, -, rfl⟩ := List.mem_map.mp hlater
      exact Nat.le_refl instant

theorem bytes_atOnce (instant : Nat) (bytes : Bytes) :
    (atOnce instant bytes).map Prod.snd = bytes := by
  unfold atOnce
  rw [List.map_map]
  exact List.map_id bytes

namespace Reading

/-! ## §2. What the arrivals say -/

/-- How many bytes it takes to end the wait for a byte, or for a chunk of
    which some bytes are held. -/
def wanted (cipher : Option Cipher) (held : Nat) : Nat :=
  match cipher with
  | none => 1
  | some c => c.chunkSize - held

/-- **What the end of the input comes to,** for a read that holds so many
    bytes of a chunk. -/
def broughtBy (cipher : Option Cipher) (held : Nat) : Ending → Option (Except Error Bytes)
  | .never => none
  | .closed =>
    match cipher, held with
    | some c, held + 1 => some (.error (.buffer c.chunkSize (held + 1)))
    | _, _ => some (.ok [])
  | .broken f => some (.error (.network f))

/-- **A chunk is complete in time:** with the bytes held these make a whole
    chunk, all are there within the limit, and opening it gives this. -/
structure Complete (cipher : Option Cipher) (now limit : Nat) (held : Bytes)
    (part : List Arriving) (opened : Except Error Bytes) : Prop where
  inTime : arrived now part ≤ limit
  opens : ∃ c, cipher = some c ∧ held.length + part.length = c.chunkSize
    ∧ c.unpolish (held ++ part.map Prod.snd) = opened

section

variable (cipher : Option Cipher) (length room : Nat) (ending : Ending) (last : Nat)

/-- **What a read comes to, and when,** told from the arrivals: with a time
    limit of this length, which passes at the instant `limit`, at the instant
    `now`, with the beginning of a chunk held and these bytes coming.
    `blanks` counts the chunks without data on the way. -/
inductive Expected : (blanks now limit : Nat) → (held : Bytes) → (coming : List Arriving) →
    Except Error Bytes → (instant : Nat) → Prop where
  /-- Bytes pass through. -/
  | passes {now limit : Nat} {held : Bytes} (first : Arriving) (more rest : List Arriving)
      (hraw : cipher = none) (hin : max now first.1 ≤ limit) (hroom : more.length < room)
      (hthere : ∀ b ∈ more, b.1 ≤ max now first.1) :
      Expected 0 now limit held (first :: (more ++ rest)) (.ok ((first :: more).map Prod.snd))
        (max now first.1)
  /-- A chunk is complete and carries data. -/
  | opens {now limit : Nat} {held plain : Bytes} (part rest : List Arriving)
      (h : Complete cipher now limit held part (.ok plain)) (hplain : plain ≠ []) :
      Expected 0 now limit held (part ++ rest) (.ok (plain.take room)) (arrived now part)
  /-- A chunk is complete and does not open. -/
  | fails {now limit : Nat} {held : Bytes} {e : Error} (part rest : List Arriving)
      (h : Complete cipher now limit held part (.error e)) :
      Expected 0 now limit held (part ++ rest) (.error e) (arrived now part)
  /-- A chunk is complete and carries nothing: the limit starts again. -/
  | blank {blanks now limit instant : Nat} {held : Bytes} {outcome : Except Error Bytes}
      (part rest : List Arriving) (h : Complete cipher now limit held part (.ok []))
      (hrest : Expected blanks (arrived now part) (arrived now part + length) [] rest outcome
        instant) :
      Expected (blanks + 1) now limit held (part ++ rest) outcome instant
  /-- The input ends before there is enough. -/
  | ends {now limit : Nat} {held : Bytes} {outcome : Except Error Bytes} (coming : List Arriving)
      (hshort : coming.length < wanted cipher held.length)
      (hbrought : broughtBy cipher (held.length + coming.length) ending = some outcome)
      (hin : max (arrived now coming) last ≤ limit) :
      Expected 0 now limit held coming outcome (max (arrived now coming) last)
  /-- The limit passes before there is enough, and before the input ends. -/
  | expires {now limit : Nat} {held : Bytes} (coming : List Arriving)
      (hlate : ∀ part rest, coming = part ++ rest → part.length = wanted cipher held.length →
        limit ≤ arrived now part)
      (hending : coming.length < wanted cipher held.length → ending ≠ .never →
        limit ≤ max (arrived now coming) last) :
      Expected 0 now limit held coming (.error (.timeout length)) limit

end

section

variable {cipher : Option Cipher} {length room : Nat} {ending : Ending} {last : Nat}
  {blanks now limit instant : Nat} {held : Bytes} {coming : List Arriving}
  {outcome : Except Error Bytes}

/-- No read waits longer than the limit allows: one length for each chunk
    without data, after the limit that is running. -/
theorem Expected.instant_le
    (h : Expected cipher length room ending last blanks now limit held coming outcome instant) :
    instant ≤ limit + blanks * length := by
  induction h with
  | passes _ _ _ _ hin | ends _ _ _ hin => exact Nat.le_trans hin (Nat.le_add_right _ _)
  | opens _ _ h | fails _ _ h => exact Nat.le_trans h.inTime (Nat.le_add_right _ _)
  | expires => exact Nat.le_add_right _ _
  | blank part rest h hrest ih =>
      have hin := h.inTime
      rw [Nat.succ_mul]
      omega

/-- Without a cipher there are no chunks. -/
theorem Expected.blanks_eq_zero (hraw : cipher = none)
    (h : Expected cipher length room ending last blanks now limit held coming outcome instant) :
    blanks = 0 := by
  cases h with
  | blank part rest h =>
      obtain ⟨-, c, hcipher, -⟩ := h
      cases hraw.symm.trans hcipher
  | _ => rfl

/-- One beginning of what is coming completes the chunk. -/
theorem Complete.eq_of_append {part rest part' rest' : List Arriving} {limit' : Nat}
    {opened opened' : Except Error Bytes} (h : Complete cipher now limit held part opened)
    (h' : Complete cipher now limit' held part' opened') (hwhole : part ++ rest = part' ++ rest') :
    part = part' ∧ rest = rest' ∧ opened = opened' := by
  obtain ⟨-, c, hcipher, hchunk, rfl⟩ := h
  obtain ⟨-, c', hcipher', hchunk', rfl⟩ := h'
  cases hcipher.symm.trans hcipher'
  obtain ⟨rfl, rfl⟩ := List.append_inj hwhole (by omega)
  exact ⟨rfl, rfl, rfl⟩

/-- **What is complete before the limit passes is what the read comes to:** a
    chunk with data, a chunk that does not open, and after a chunk without
    data whatever is expected next, with a limit that has started again. -/
theorem Expected.of_complete {part rest : List Arriving} {opened : Except Error Bytes}
    (h : Expected cipher length room ending last blanks now limit held (part ++ rest) outcome
      instant) (hcomplete : Complete cipher now limit held part opened)
    (hbefore : arrived now part < limit) :
    (∃ plain, opened = .ok plain ∧ plain ≠ [] ∧ outcome = .ok (plain.take room)
        ∧ instant = arrived now part)
      ∨ (∃ e, opened = .error e ∧ outcome = .error e ∧ instant = arrived now part)
      ∨ ∃ fewer, opened = .ok [] ∧ Expected cipher length room ending last fewer (arrived now part)
        (arrived now part + length) [] rest outcome instant := by
  have hwanted : ∃ c, cipher = some c ∧ part.length = wanted cipher held.length := by
    obtain ⟨-, c, hcipher, hchunk, -⟩ := hcomplete
    refine ⟨c, hcipher, ?_⟩
    rw [hcipher]
    show part.length = c.chunkSize - held.length
    omega
  obtain ⟨c, hcipher, hlength⟩ := hwanted
  generalize hwhole : part ++ rest = whole at h
  cases h with
  | passes first more rest' hraw => cases hraw.symm.trans hcipher
  | opens part' rest' h hplain =>
      obtain ⟨rfl, rfl, rfl⟩ := hcomplete.eq_of_append h hwhole
      exact .inl ⟨_, rfl, hplain, rfl, rfl⟩
  | fails part' rest' h =>
      obtain ⟨rfl, rfl, rfl⟩ := hcomplete.eq_of_append h hwhole
      exact .inr (.inl ⟨_, rfl, rfl, rfl⟩)
  | blank part' rest' h hrest =>
      obtain ⟨rfl, rfl, rfl⟩ := hcomplete.eq_of_append h hwhole
      exact .inr (.inr ⟨_, rfl, hrest⟩)
  | ends coming hshort =>
      rw [← hwhole, List.length_append] at hshort
      omega
  | expires coming hlate hending =>
      have hpassed := hlate part rest hwhole.symm hlength
      omega

/-- What completes a chunk of which some bytes are already in hand. -/
theorem Complete.unread {part : List Arriving} {opened : Except Error Bytes}
    (bytes : List Arriving)
    (h : Complete cipher (arrived now bytes) limit (held ++ bytes.map Prod.snd) part opened) :
    Complete cipher now limit held (bytes ++ part) opened := by
  obtain ⟨hin, c, hcipher, hchunk, hopen⟩ := h
  refine ⟨?_, c, hcipher, ?_, ?_⟩
  · rw [arrived_append]
    exact hin
  · rw [List.length_append, List.length_map] at hchunk
    rw [List.length_append]
    omega
  · rw [List.map_append, ← List.append_assoc]
    exact hopen

/-- **Bytes of a chunk that are handed over early change nothing.** -/
theorem expected_of_unread {c : Cipher} (hcipher : cipher = some c) (bytes : List Arriving)
    (hroom : held.length + bytes.length ≤ c.chunkSize)
    (h : Expected cipher length room ending last blanks (arrived now bytes) limit
      (held ++ bytes.map Prod.snd) coming outcome instant) :
    Expected cipher length room ending last blanks now limit held (bytes ++ coming) outcome
      instant := by
  have hheld : (held ++ bytes.map Prod.snd).length = held.length + bytes.length := by
    rw [List.length_append, List.length_map]
  have hwanted : wanted cipher held.length
      = bytes.length + wanted cipher (held ++ bytes.map Prod.snd).length := by
    rw [hcipher, hheld]
    show c.chunkSize - held.length = bytes.length + (c.chunkSize - (held.length + bytes.length))
    omega
  cases h with
  | passes first more rest hraw =>
      rw [hcipher] at hraw
      cases hraw
  | opens part rest h hplain =>
      rw [← List.append_assoc, ← arrived_append]
      exact .opens _ rest (h.unread bytes) hplain
  | fails part rest h =>
      rw [← List.append_assoc, ← arrived_append]
      exact .fails _ rest (h.unread bytes)
  | blank part rest h hrest =>
      rw [← arrived_append] at hrest
      rw [← List.append_assoc]
      exact .blank _ rest (h.unread bytes) hrest
  | ends coming hshort hbrought hin =>
      rw [← arrived_append] at hin ⊢
      refine .ends _ ?_ ?_ hin
      · rw [hwanted, List.length_append]
        omega
      · rw [hheld, Nat.add_assoc, ← List.length_append] at hbrought
        exact hbrought
  | expires coming hlate hending =>
      refine .expires _ ?_ ?_
      · intro part rest hsplit hlength
        -- the bytes in hand are the first of what completes the chunk
        obtain ⟨later, rfl⟩ : bytes <+: part := by
          refine List.prefix_of_prefix_length_le (List.prefix_append bytes coming) ?_ (by omega)
          rw [hsplit]
          exact List.prefix_append part rest
        rw [List.append_assoc] at hsplit
        rw [arrived_append]
        rw [List.length_append] at hlength
        exact hlate later rest (List.append_cancel_left hsplit) (by omega)
      · intro hshort hends
        rw [List.length_append] at hshort
        rw [arrived_append]
        exact hending (by omega) hends

end

/-! ## §3. A read that is waiting -/

/-- The phases of a read that is not over and whose deadline, if it has one,
    has not passed. -/
def Phase.Pending (cipher : Option Cipher) (length now : Nat) : Phase → Prop
  | .start => True
  | .passing deadline => cipher = none ∧ ∃ limit, deadline = some ⟨length, limit⟩ ∧ now ≤ limit
  | .chunk c => cipher = some c
  | .filling c deadline =>
    cipher = some c ∧ ∃ limit, deadline = some ⟨length, limit⟩ ∧ now ≤ limit
  | .over _ => False

/-- **What is known of a read with a time limit of this length** that is not
    over: it looks for new bytes, it holds no more than a chunk of them, and
    if it has a deadline, this has not passed. -/
structure Limited (cipher : Option Cipher) (length room : Nat) (w : Timed Reading) : Prop where
  asks : room ≠ 0
  room : w.state.room = room
  polish : w.state.reader.cipher = cipher
  timeout : w.state.reader.timeout = some length
  kept : w.state.reader.received = []
  held : ∀ c, cipher = some c → w.state.reader.pending.length ≤ c.chunkSize
  pending : w.state.phase.Pending cipher length w.now

section

variable (cipher : Option Cipher) (length room : Nat) (ending : Ending) (last : Nat)

/-- **What is still expected of a read** that is not over. -/
def Awaits (w : Timed Reading) (outcome : Except Error Bytes) (instant : Nat) : Prop :=
  match w.state.phase with
  | .start | .chunk _ =>
    ∃ blanks, Expected cipher length room ending last blanks w.now (w.now + length)
      w.state.reader.pending w.coming outcome instant
  | .passing (some deadline) | .filling _ (some deadline) =>
    ∃ blanks, Expected cipher length room ending last blanks w.now deadline.instant
      w.state.reader.pending w.coming outcome instant
  | .passing none | .filling _ none | .over _ => False

end

section

variable {cipher : Option Cipher} {length room : Nat} {ending : Ending} {last : Nat}
  {w w' : Timed Reading} {outcome : Except Error Bytes} {instant : Nat}

/-- What a full chunk opens to is complete already. -/
theorem complete_of_full {c : Cipher} {now limit : Nat} {held : Bytes} (hcipher : cipher = some c)
    (hfull : held.length = c.chunkSize) (hin : now ≤ limit) :
    Complete cipher now limit held [] (c.unpolish held) := by
  refine ⟨hin, c, hcipher, hfull, ?_⟩
  show c.unpolish (held ++ []) = _
  rw [List.append_nil]

/-- The first of what is coming is there before the last of it. -/
theorem le_arrived_of_cons {now limit : Nat} {first : Arriving} {part : List Arriving}
    (h : limit ≤ max now first.1) : limit ≤ arrived now (first :: part) :=
  Nat.le_trans h (le_arrived part _)

section

variable {held : Bytes} {coming : List Arriving} {now limit : Nat}

/-- **A deadline that passes** before anything arrives. -/
theorem expected_of_late (hwanted : wanted cipher held.length ≠ 0)
    (hcoming : ∀ first more, coming = first :: more → limit ≤ max now first.1)
    (hending : coming = [] → ending ≠ .never → limit ≤ max now last) :
    Expected cipher length room ending last 0 now limit held coming (.error (.timeout length))
      limit := by
  refine .expires coming ?_ ?_
  · intro part rest hsplit hlength
    cases part with
    | nil => exact absurd hlength.symm hwanted
    | cons first part => exact le_arrived_of_cons (hcoming first (part ++ rest) hsplit)
  · intro _ hends
    cases hcoming' : coming with
    | nil => exact hending hcoming' hends
    | cons first part =>
        exact Nat.le_trans (le_arrived_of_cons (hcoming first part hcoming')) (Nat.le_max_left _ _)

/-- **An input that ends** before anything more arrives. -/
theorem expected_of_ended (hwanted : wanted cipher held.length ≠ 0)
    (hbrought : broughtBy cipher held.length ending = some outcome) (hin : max now last ≤ limit) :
    Expected cipher length room ending last 0 now limit held [] outcome (max now last) :=
  .ends [] (Nat.pos_of_ne_zero hwanted) hbrought hin

end

/-- What the end of the input is to a read that passes bytes through. -/
theorem pass_of_answer (r : Reading) (held : Nat) {answer : Arrival}
    (h : ending.answer? = some answer) :
    ∃ reported, broughtBy none held ending = some reported
      ∧ r.pass answer = r.enter (.over reported) := by
  cases ending with
  | never => cases h
  | closed =>
      cases h
      exact ⟨_, rfl, rfl⟩
  | broken f =>
      cases h
      exact ⟨_, rfl, rfl⟩

/-- What the end of the input is to a read in a chunk. -/
theorem fill_of_answer (r : Reading) (c : Cipher) (deadline : Option Deadline) {answer : Arrival}
    (h : ending.answer? = some answer) :
    ∃ reported, broughtBy (some c) r.reader.pending.length ending = some reported
      ∧ r.fill c deadline answer = r.enter (.over reported) := by
  cases ending with
  | never => cases h
  | closed =>
      cases h
      cases hpending : r.reader.pending with
      | nil =>
          refine ⟨_, rfl, ?_⟩
          unfold fill
          rw [hpending]
          rfl
      | cons byte pending =>
          refine ⟨_, rfl, ?_⟩
          unfold fill
          rw [hpending]
          rfl
  | broken f =>
      cases h
      exact ⟨_, rfl, rfl⟩

/-- What is expected at a deadline is what a waiting read awaits. -/
theorem awaits_of_expected {deadline : Deadline}
    (hphase : w.state.phase = .passing (some deadline)
      ∨ ∃ c, w.state.phase = .filling c (some deadline))
    (h : ∃ blanks, Expected cipher length room ending last blanks w.now deadline.instant
      w.state.reader.pending w.coming outcome instant) :
    Awaits cipher length room ending last w outcome instant := by
  unfold Awaits
  obtain hphase | ⟨c, hphase⟩ := hphase
  · rw [hphase]
    exact h
  · rw [hphase]
    exact h

/-! ## §4. Steps -/

/-- How far a read is from its end: what its phase costs, the bytes it holds
    and, twice, the bytes that are coming. -/
def remoteness (w : Timed Reading) : Nat := w.state.effort + 2 * w.coming.length

end

/-- **What a step does for a read with a time limit:** the read ends as it is
    awaited to, or it comes nearer to its end and nothing else is awaited of
    it than before. -/
inductive Onward (cipher : Option Cipher) (length room : Nat) (ending : Ending) (last : Nat)
    (w w' : Timed Reading) : Prop where
  | ends {outcome : Except Error Bytes} (hover : w'.state.phase = .over outcome)
      (h : Awaits cipher length room ending last w outcome w'.now)
  | goes (hlimited : Limited cipher length room w') (hnearer : remoteness w' < remoteness w)
      (h : ∀ {outcome instant}, Awaits cipher length room ending last w' outcome instant →
        Awaits cipher length room ending last w outcome instant)

section

variable {cipher : Option Cipher} {length room : Nat} {ending : Ending} {last : Nat}
  {w w' : Timed Reading}

/-- **A complete chunk** that is opened comes to what is expected of it. -/
theorem onward_of_openPending {c : Cipher} {limit : Nat} (hlimited : Limited cipher length room w)
    (hphase : w.state.phase = .filling c (some ⟨length, limit⟩))
    (hfull : w.state.reader.pending.length = c.chunkSize) (hcipher : cipher = some c)
    (hnow : w.now ≤ limit) :
    Onward cipher length room ending last w { w with state := w.state.openPending c } := by
  obtain rfl := hlimited.room
  have hcomplete := complete_of_full hcipher hfull hnow
  cases hopen : c.unpolish w.state.reader.pending with
  | error e =>
      rw [hopen] at hcomplete
      rw [openPending_of_error hopen]
      refine .ends rfl (awaits_of_expected (.inr ⟨c, hphase⟩) ⟨0, ?_⟩)
      exact .fails [] w.coming hcomplete
  | ok plain =>
      rw [hopen] at hcomplete
      by_cases hplain : plain = []
      · subst hplain
        rw [openPending_of_ok_nil hopen]
        obtain ⟨hasks, hroom, hpolish, htimeout, hkept, -, -⟩ := hlimited
        refine .goes ⟨hasks, hroom, hpolish, htimeout, hkept, fun _ _ => Nat.zero_le _, hcipher⟩
          ?_ ?_
        · -- the chunk that is dropped pays for the wait that begins again
          have hmin := c.min_le
          unfold minChunkSize at hmin
          unfold remoteness effort
          rw [hphase, hfull]
          show 4 + 0 + 2 * w.coming.length < 3 + _ + 2 * w.coming.length
          omega
        · rintro outcome instant ⟨blanks, hexpected⟩
          refine awaits_of_expected (.inr ⟨c, hphase⟩) ⟨blanks + 1, ?_⟩
          exact .blank [] w.coming hcomplete hexpected
      · rw [openPending_of_ok hopen hplain]
        refine .ends rfl (awaits_of_expected (.inr ⟨c, hphase⟩) ⟨0, ?_⟩)
        exact .opens [] w.coming hcomplete hplain

/-- **A wait for bytes that pass through** goes on as awaited. -/
theorem onward_of_passing (h : Limited cipher length room w) {deadline : Option Deadline}
    (hphase : w.state.phase = .passing deadline) (hstep : Timed.Step act ending last w w') :
    Onward cipher length room ending last w w' := by
  have hpending := h.pending
  rw [hphase] at hpending
  obtain ⟨hraw, limit, rfl, hnow⟩ := hpending
  have hwanted : wanted cipher w.state.reader.pending.length ≠ 0 := by
    rw [hraw]
    exact Nat.one_ne_zero
  obtain ⟨first, more, rest, hcoming, hroom, hthere, hin, rfl⟩
    | ⟨answer, hcoming, hanswer, hin, rfl⟩
    | ⟨_, _, hlimit, hcoming, hending, rfl⟩ := hstep.of_read (act_passing hphase)
  · refine .ends rfl (awaits_of_expected (.inl hphase) ⟨0, ?_⟩)
    rw [hcoming]
    exact .passes first more rest hraw (hin _ rfl) (h.room ▸ hroom) hthere
  · obtain ⟨reported, hbrought, hpass⟩ :=
      pass_of_answer w.state w.state.reader.pending.length hanswer
    rw [hpass]
    rw [← hraw] at hbrought
    refine .ends rfl (awaits_of_expected (.inl hphase) ⟨0, ?_⟩)
    rw [hcoming]
    exact expected_of_ended hwanted hbrought (hin _ rfl)
  · cases hlimit
    refine .ends rfl (awaits_of_expected (.inl hphase) ⟨0, ?_⟩)
    show Expected _ _ _ _ _ _ w.now limit _ _ _ (max w.now limit)
    rw [Nat.max_eq_right hnow]
    exact expected_of_late hwanted hcoming hending

/-- **A wait for the rest of a chunk** goes on as awaited. -/
theorem onward_of_filling (h : Limited cipher length room w) {c : Cipher}
    {deadline : Option Deadline} (hphase : w.state.phase = .filling c deadline)
    (hstep : Timed.Step act ending last w w') :
    Onward cipher length room ending last w w' := by
  have hpending := h.pending
  rw [hphase] at hpending
  obtain ⟨hcipher, limit, rfl, hnow⟩ := hpending
  have hheld := h.held c hcipher
  by_cases hfull : c.chunkSize - w.state.reader.pending.length = 0
  · obtain rfl := hstep.of_go (act_full hphase hfull)
    exact onward_of_openPending h hphase (by omega) hcipher hnow
  · have hwanted : wanted cipher w.state.reader.pending.length ≠ 0 := by
      rw [hcipher]
      exact hfull
    obtain ⟨first, more, rest, hcoming, hroom, hthere, hin, rfl⟩
      | ⟨answer, hcoming, hanswer, hin, rfl⟩
      | ⟨_, _, hlimit, hcoming, hending, rfl⟩ := hstep.of_read (act_filling hphase hfull)
    · -- the bytes that are handed over are some that would complete the chunk
      have hspace : w.state.reader.pending.length + (first :: more).length ≤ c.chunkSize := by
        rw [List.length_cons]
        omega
      have hclock : arrived w.now (first :: more) = max w.now first.1 := arrived_of_le more hthere
      obtain ⟨hasks, hroom', hpolish, htimeout, hkept, -, -⟩ := h
      have hpending : (w.state.reader.pending ++ (first :: more).map Prod.snd).length
          = w.state.reader.pending.length + (first :: more).length := by
        rw [List.length_append, List.length_map]
      refine .goes ⟨hasks, hroom', hpolish, htimeout, hkept, ?_, hcipher, limit, rfl, hin _ rfl⟩
        ?_ ?_
      · intro c' hc'
        cases hcipher.symm.trans hc'
        exact Nat.le_trans (Nat.le_of_eq hpending) hspace
      · unfold remoteness effort
        rw [hphase, hcoming]
        show 3 + (w.state.reader.pending ++ (first :: more).map Prod.snd).length + 2 * rest.length
          < 3 + _ + 2 * (first :: (more ++ rest)).length
        rw [hpending, List.length_cons, List.length_cons, List.length_append]
        omega
      · rintro outcome instant ⟨blanks, hexpected⟩
        refine awaits_of_expected (.inr ⟨c, hphase⟩) ⟨blanks, ?_⟩
        rw [hcoming]
        rw [← hclock] at hexpected
        exact expected_of_unread hcipher (first :: more) hspace hexpected
    · obtain ⟨reported, hbrought, hfill⟩ := fill_of_answer w.state c (some ⟨length, limit⟩) hanswer
      rw [hfill]
      rw [← hcipher] at hbrought
      refine .ends rfl (awaits_of_expected (.inr ⟨c, hphase⟩) ⟨0, ?_⟩)
      rw [hcoming]
      exact expected_of_ended hwanted hbrought (hin _ rfl)
    · cases hlimit
      refine .ends rfl (awaits_of_expected (.inr ⟨c, hphase⟩) ⟨0, ?_⟩)
      show Expected _ _ _ _ _ _ w.now limit _ _ _ (max w.now limit)
      rw [Nat.max_eq_right hnow]
      exact expected_of_late hwanted hcoming hending

/-- The limit that starts now. -/
theorem Limited.deadline (h : Limited cipher length room w) :
    Deadline.start w.now w.state.reader.timeout = some ⟨length, w.now + length⟩ := by
  rw [h.timeout]
  rfl

/-- **A read that begins** looks for new bytes. -/
theorem onward_of_start (h : Limited cipher length room w) (hphase : w.state.phase = .start) :
    Onward cipher length room ending last w { w with state := w.state.begin w.now } := by
  have hdeadline := h.deadline
  obtain ⟨hasks, hroom, hpolish, htimeout, hkept, hheld, -⟩ := h
  unfold begin
  rw [if_neg (hroom ▸ hasks), hkept, if_neg (fun hne => hne rfl)]
  cases hcipher : w.state.reader.cipher with
  | none =>
      dsimp only
      rw [hdeadline]
      refine .goes ⟨hasks, hroom, hpolish, htimeout, hkept, hheld, hpolish.symm.trans hcipher,
        _, rfl, Nat.le_add_right _ _⟩ ?_ ?_
      · unfold remoteness effort
        rw [hphase]
        show 3 + w.state.reader.pending.length + 2 * w.coming.length < 5 + _ + _
        omega
      · intro outcome instant hawaits
        unfold Awaits
        rw [hphase]
        exact hawaits
  | some c =>
      refine .goes ⟨hasks, hroom, hpolish, htimeout, hkept, hheld, hpolish.symm.trans hcipher⟩ ?_ ?_
      · unfold remoteness effort
        rw [hphase]
        show 4 + w.state.reader.pending.length + 2 * w.coming.length < 5 + _ + _
        omega
      · intro outcome instant hawaits
        unfold Awaits
        rw [hphase]
        exact hawaits

/-- **A chunk that is begun** has a limit of its own. -/
theorem onward_of_chunk (h : Limited cipher length room w) {c : Cipher}
    (hphase : w.state.phase = .chunk c) :
    Onward cipher length room ending last w
      { w with
        state := w.state.enter (.filling c (Deadline.start w.now w.state.reader.timeout)) } := by
  have hdeadline := h.deadline
  obtain ⟨hasks, hroom, hpolish, htimeout, hkept, hheld, hpending⟩ := h
  rw [hphase] at hpending
  rw [hdeadline]
  refine .goes ⟨hasks, hroom, hpolish, htimeout, hkept, hheld, hpending, _, rfl,
    Nat.le_add_right _ _⟩ ?_ ?_
  · unfold remoteness effort
    rw [hphase]
    show 3 + w.state.reader.pending.length + 2 * w.coming.length < 4 + _ + _
    omega
  · intro outcome instant hawaits
    unfold Awaits
    rw [hphase]
    exact hawaits

/-- **Every step of a read with a time limit** goes on as awaited. -/
theorem onward_of_step (h : Limited cipher length room w)
    (hstep : Timed.Step act ending last w w') :
    Onward cipher length room ending last w w' := by
  have hpending := h.pending
  cases hphase : w.state.phase with
  | start =>
      obtain rfl := hstep.of_go (act_start hphase)
      exact onward_of_start h hphase
  | passing deadline => exact onward_of_passing h hphase hstep
  | chunk c =>
      obtain rfl := hstep.of_go (act_chunk hphase)
      exact onward_of_chunk h hphase
  | filling c deadline => exact onward_of_filling h hphase hstep
  | «over» outcome =>
      rw [hphase] at hpending
      exact hpending.elim

/-- **A read with a time limit can always go on.** -/
theorem exists_step (h : Limited cipher length room w) :
    ∃ w', Timed.Step act ending last w w' := by
  have hpending := h.pending
  cases hphase : w.state.phase with
  | start => exact ⟨_, .go (act_start hphase)⟩
  | passing deadline =>
      rw [hphase] at hpending
      obtain ⟨-, limit, rfl, -⟩ := hpending
      exact Timed.Step.exists_of_read (act_passing hphase) (h.room ▸ h.asks)
  | chunk c => exact ⟨_, .go (act_chunk hphase)⟩
  | filling c deadline =>
      rw [hphase] at hpending
      obtain ⟨-, limit, rfl, -⟩ := hpending
      by_cases hfull : c.chunkSize - w.state.reader.pending.length = 0
      · exact ⟨_, .go (act_full hphase hfull)⟩
      · exact Timed.Step.exists_of_read (act_filling hphase hfull) hfull
  | «over» outcome =>
      rw [hphase] at hpending
      exact hpending.elim

end

/-! ## §5. A whole read -/

/-- What a run has come to is what was expected at its beginning. -/
theorem expected_of_run {cipher : Option Cipher} {length room : Nat} {ending : Ending}
    {last : Nat} {w w' : Timed Reading} {outcome : Except Error Bytes}
    (h : Limited cipher length room w)
    (hrun : Relation.ReflTransGen (Timed.Step act ending last) w w')
    (hover : w'.state.phase = .over outcome) :
    Awaits cipher length room ending last w outcome w'.now := by
  -- along the run what is awaited can only be traced back to the beginning
  have hkept := keeps_of_run (fun v =>
      (∃ outcome, v.state.phase = .over outcome
        ∧ Awaits cipher length room ending last w outcome v.now)
      ∨ (Limited cipher length room v ∧ ∀ outcome instant,
        Awaits cipher length room ending last v outcome instant →
        Awaits cipher length room ending last w outcome instant)) ?_ hrun
    (.inr ⟨h, fun _ _ hawaits => hawaits⟩)
  · obtain ⟨reported, hreported, hawaits⟩ | ⟨hlimited, -⟩ := hkept
    · cases hover.symm.trans hreported
      exact hawaits
    · have hpending := hlimited.pending
      rw [hover] at hpending
      exact hpending.elim
  · intro v v' hv hstep
    obtain ⟨reported, hreported, -⟩ | ⟨hlimited, hback⟩ := hv
    · exact (hstep.not_of_done (act_over hreported)).elim
    · cases onward_of_step hlimited hstep with
      | ends hreported hawaits => exact .inl ⟨_, hreported, hback _ _ hawaits⟩
      | goes hlimited' _ hawaits =>
          exact .inr ⟨hlimited', fun outcome instant h => hback _ _ (hawaits h)⟩

/-- **HOW LONG A READ WAITS.**  Let a read with some room begin on a
    receiving side with a time limit and no kept plaintext, against any
    arrivals and any end of the input, however the bytes are handed over.
    Then the read comes to an end, and what it comes to and when is what the
    arrivals say:

    • what the bytes or the end of the input bring, if it comes before the
      limit passes, and otherwise the report of the limit at its instant,
    • where the limit starts at the beginning, and again at every chunk that
      is complete and carries no data,
    • so that the read is over no later than one limit's length after the
      beginning, and one more for each of these chunks. -/
theorem within_limits {r : Reader} {length room : Nat} (htimeout : r.timeout = some length)
    (hkept : r.received = []) (hroom : room ≠ 0)
    (hheld : ∀ c, r.cipher = some c → r.pending.length ≤ c.chunkSize)
    (coming : List Arriving) (ending : Ending) (last now : Nat) :
    Inevitably (Timed.Step act ending last) (fun w => ∃ outcome, w.state.phase = .over outcome)
        ⟨start r room, coming, now⟩
      ∧ ∀ w outcome, Relation.ReflTransGen (Timed.Step act ending last)
          ⟨start r room, coming, now⟩ w → w.state.phase = .over outcome →
        ∃ blanks, Expected r.cipher length room ending last blanks now (now + length) r.pending
            coming outcome w.now
          ∧ w.now ≤ now + length + blanks * length ∧ (r.cipher = none → blanks = 0) := by
  have hlimited : Limited r.cipher length room ⟨start r room, coming, now⟩ :=
    ⟨hroom, rfl, rfl, htimeout, hkept, hheld, trivial⟩
  refine ⟨?_, ?_⟩
  · refine Inevitably.of_approach (Limited r.cipher length room) remoteness ?_ ?_ hlimited
    · intro w w' h _ hstep
      cases onward_of_step h hstep with
      | ends hover _ => exact .inl ⟨_, hover⟩
      | goes hlimited' hnearer _ => exact .inr ⟨hlimited', hnearer⟩
    · intro w h _
      exact exists_step h
  · intro w outcome hrun hover
    obtain ⟨blanks, hexpected⟩ := expected_of_run hlimited hrun hover
    exact ⟨blanks, hexpected, hexpected.instant_le, fun hraw => hexpected.blanks_eq_zero hraw⟩

/-- A chunk that arrives at one instant, in time, is complete. -/
theorem complete_atOnce {c : Cipher} {chunk : Bytes} {now limit instant : Nat}
    (hchunk : chunk.length = c.chunkSize) (hnow : now ≤ instant) (hin : instant ≤ limit) :
    Complete (some c) now limit [] (atOnce instant chunk) (c.unpolish chunk)
      ∧ arrived now (atOnce instant chunk) = instant := by
  have hpos := c.chunkSize_pos
  have hsome : chunk ≠ [] := by
    intro hnone
    rw [hnone, List.length_nil] at hchunk
    omega
  have harrived := arrived_atOnce hsome hnow
  refine ⟨⟨Nat.le_trans (Nat.le_of_eq harrived) hin, c, rfl, ?_, ?_⟩, harrived⟩
  · rw [atOnce, List.length_map, List.length_nil, hchunk, Nat.zero_add]
  · rw [bytes_atOnce]
    rfl

/-- The limit is 20.  A chunk without data comes at 15 and the byte 7 at 30,
    and the read, begun at 0, is bound to return it then. -/
theorem within_limits_blank : ∃ (c : Cipher) (blank full : Bytes),
    c.unpolish blank = .ok [] ∧ c.unpolish full = .ok [7]
      ∧ ∀ w outcome, Relation.ReflTransGen (Timed.Step act .never 0)
          ⟨start ⟨some c, [], [], some 20⟩ 8, atOnce 15 blank ++ atOnce 30 full, 0⟩ w →
        w.state.phase = .over outcome → outcome = .ok [7] ∧ w.now = 30 := by
  let c : Cipher := ⟨List.replicate 32 0, 93, by decide, by decide⟩
  let nonce : Bytes := List.replicate 12 1
  have hnonce : nonce.length = Aead.nonceSize := rfl
  have hblank := c.length_sealChunk nonce [] hnonce
  have hfull := c.length_sealChunk nonce [7] hnonce
  have hopens : c.unpolish (c.sealChunk nonce []) = .ok [] := by
    rw [Cipher.unpolish_of_length hblank]
    exact c.openChunk_sealChunk nonce [] hnonce (by decide)
  have hopens' : c.unpolish (c.sealChunk nonce [7]) = .ok [7] := by
    rw [Cipher.unpolish_of_length hfull]
    exact c.openChunk_sealChunk nonce [7] hnonce (by decide)
  refine ⟨c, _, _, hopens, hopens', ?_⟩
  intro w outcome hrun hover
  have hlimits := @within_limits ⟨some c, [], [], some 20⟩ 20 8 rfl rfl (by decide)
    (fun _ _ => Nat.zero_le _)
    (atOnce 15 (c.sealChunk nonce []) ++ atOnce 30 (c.sealChunk nonce [7])) .never 0 0
  obtain ⟨blanks, hexpected, -, -⟩ := hlimits.2 w outcome hrun hover
  -- the first chunk is complete in time, and the limit starts again at 15
  obtain ⟨hfirst, harrived⟩ := @complete_atOnce c _ 0 20 15 hblank (by decide) (by decide)
  rw [hopens] at hfirst
  obtain ⟨plain, hplain, hne, -⟩ | ⟨e, he, -⟩ | ⟨fewer, -, hnext⟩ :=
    hexpected.of_complete hfirst (by rw [harrived]; decide)
  · cases hplain
    exact absurd rfl hne
  · cases he
  · rw [harrived, ← List.append_nil (atOnce 30 _)] at hnext
    obtain ⟨hsecond, harrived'⟩ := @complete_atOnce c _ 15 35 30 hfull (by decide) (by decide)
    rw [hopens'] at hsecond
    obtain ⟨plain, hplain, -, houtcome, hinstant⟩ | ⟨e, he, -⟩ | ⟨_, hnone, -⟩ :=
      hnext.of_complete hsecond (by rw [harrived']; decide)
    · cases hplain
      exact ⟨houtcome, hinstant.trans harrived'⟩
    · cases he
    · cases hnone

end Reading

end Masquerade
