/-
  Masquerade.Proofs.Retrying — READING AN EXACT COUNT, and trying again.

  Reading an exact count is several reads in a row.  Each of them keeps what
  it has not handed out, whatever interrupts it.  What they have handed out
  is held by the attempt alone: where a time limit passes the attempt fails,
  and these bytes are gone.

  So one equation holds through any number of attempts (`Retrying.Accounted`):
  the data is what the failed attempts had collected, what the present one
  has collected, and what the receiving side still owes.

  Main results:
    * `Reading.length_of_advance` — a read returns no more than it has room
      for.
    * `Retrying.accounted_of_step` — every step keeps the equation.
    * `Retrying.succeeds_with_next` — what an attempt returns that succeeds.
-/
import Masquerade.Proofs.Reception

namespace Masquerade

/-! ## §1. What a read returns -/

/-- **A time limit inside another process** is its own. -/
theorem Expires.of_within {σ τ α β : Type} {act : σ → Action σ α} {outer : τ → Action τ β} {s : σ}
    {t t' : τ} {f : σ → τ} {finish : α → τ} (h : Expires outer t t')
    (hact : outer t = (act s).within f finish) : ∃ s', Expires act s s' ∧ t' = f s' := by
  obtain ⟨room, instant, next, hread⟩ := h
  rw [hact] at hread
  cases hs : act s with
  | read room' limit next' =>
      rw [hs] at hread
      injection hread with _ hlimit _
      obtain ⟨l, rfl, hl⟩ := Option.map_eq_some_iff.mp hlimit
      exact ⟨l.2, ⟨room', l.1, next', hs⟩, (Prod.mk.inj hl).2.symm⟩
  | done _ | go _ | write _ _ _ | sleep _ _ | shutdown _ =>
      rw [hs] at hread
      cases hread

namespace Reading

variable {ended : Bool} {w w' : Wired Reading}

theorem length_of_finish (r : Reading) {bytes : Bytes} (h : r.finish.phase = .over (.ok bytes)) :
    bytes.length ≤ r.room := by
  cases h
  exact List.length_take_le _ _

theorem length_of_openPending (r : Reading) (c : Cipher) :
    (r.openPending c).room = r.room
      ∧ ∀ bytes, (r.openPending c).phase = .over (.ok bytes) → bytes.length ≤ r.room := by
  cases hopen : c.unpolish r.reader.pending with
  | error e =>
      rw [openPending_of_error hopen]
      exact ⟨rfl, nofun⟩
  | ok plain =>
      by_cases hplain : plain = []
      · subst hplain
        rw [openPending_of_ok_nil hopen]
        exact ⟨rfl, nofun⟩
      · rw [openPending_of_ok hopen hplain]
        exact ⟨rfl, fun _ hover => length_of_finish { r with
          reader := { r.reader with pending := [], received := plain } } hover⟩

/-- **A read returns no more than it has room for,** and its room stays. -/
theorem length_of_advance (h : Advance act ended w w') :
    w'.state.room = w.state.room
      ∧ ∀ bytes, w'.state.phase = .over (.ok bytes) → bytes.length ≤ w.state.room := by
  cases hphase : w.state.phase with
  | passing deadline =>
      -- the moves of a read do not tell how much it was handed here
      obtain ⟨bytes, rest, hinput, hsome, hroom, rfl⟩ | ⟨hinput, hended, rfl⟩ :=
        h.of_read (act_passing hphase)
      · refine ⟨rfl, ?_⟩
        intro taken hover
        cases hover
        exact hroom
      · refine ⟨rfl, ?_⟩
        intro taken hover
        cases hover
        exact Nat.zero_le _
  | _ =>
      cases move_of_advance h with
      | pass _ _ hpassing | finish hpassing => cases hphase.symm.trans hpassing
      | drain _ _ => exact ⟨rfl, fun _ hover => length_of_finish _ hover⟩
      | openUp _ _ => exact length_of_openPending _ _
      | refuse _ _ | close _ _ _ _ =>
          refine ⟨rfl, ?_⟩
          intro taken hover
          cases hover
          exact Nat.zero_le _
      | listen _ _ _ _ _ | frame _ _ _ _ | arm _ _ | fill _ _ _ _ _ _ | cut _ _ _ _ _ =>
          exact ⟨rfl, nofun⟩

end Reading

/-! ## §2. Attempts -/

/-- **Reading an exact count, with any number of attempts.** -/
structure Retrying where
  /-- The present attempt. -/
  collecting : Collecting
  input : Bytes
  /-- What each of the failed attempts had collected. -/
  failed : List Bytes

namespace Retrying

/-- The first attempt begins. -/
def start (reader : Reader) (size : Nat) (input : Bytes) : Retrying :=
  ⟨.start reader size, input, []⟩

/-- **What happens to an attempt:** it goes on, its time limit passes, and
    where it has failed for that reason the next attempt begins. -/
inductive Step (ended : Bool) (s : Retrying) : Retrying → Prop where
  | advance {w : Wired Collecting}
      (h : Advance Collecting.act ended ⟨s.collecting, s.input, []⟩ w) :
      Step ended s { s with collecting := w.state, input := w.input }
  | expire {collecting : Collecting} (h : Expires Collecting.act s.collecting collecting) :
      Step ended s { s with collecting }
  | retry {milliseconds : Nat}
      (h : s.collecting.outcome = some (.error (.timeout milliseconds))) :
      Step ended s
        { s with
          collecting := .start s.collecting.reading.reader s.collecting.size
          failed := s.failed ++ [s.collecting.got] }

/-- **What is still owed to an attempt** whose result, if any, is this. -/
def Owed (cipher : Option Cipher) (ended : Bool) (s : Retrying) (rest : Bytes) :
    Option (Except Error Bytes) → Prop
  | none =>
    s.collecting.got.length + s.collecting.reading.room = s.collecting.size
      ∧ s.collecting.reading.Owes cipher s.input rest
      ∧ (∀ bytes, s.collecting.reading.phase = .over (.ok bytes) →
        bytes.length ≤ s.collecting.reading.room)
      ∧ (s.collecting.reading.phase = .over (.ok []) → ended = true ∧ rest = [])
  | some (.ok bytes) =>
    bytes = s.collecting.got ∧ bytes.length = s.collecting.size
      ∧ s.collecting.reading.reader.Owes cipher s.input rest
  | some (.error (.timeout _)) =>
    s.collecting.got.length < s.collecting.size
      ∧ s.collecting.reading.reader.Owes cipher s.input rest
  | some (.error _) => ended = true ∧ rest = []

/-- **Every byte of the data is accounted for:** collected by an attempt that
    failed, collected by the present one, or still owed. -/
structure Accounted (cipher : Option Cipher) (ended : Bool) (size : Nat) (data : Bytes)
    (s : Retrying) : Prop where
  asks : s.collecting.size = size
  short : ∀ lost ∈ s.failed, lost.length < size
  owed : ∃ rest, data = s.failed.flatten ++ (s.collecting.got ++ rest)
    ∧ s.Owed cipher ended rest s.collecting.outcome

section

variable {cipher : Option Cipher} {ended : Bool} {size : Nat} {data : Bytes} {s s' : Retrying}

/-- An attempt that begins has collected nothing. -/
theorem owed_of_start {reader : Reader} {input rest : Bytes} (failed : List Bytes)
    (h : reader.Owes cipher input rest) :
    Owed cipher ended ⟨.start reader size, input, failed⟩ rest
      (Collecting.start reader size).outcome := by
  by_cases hsize : size = 0
  · subst hsize
    exact ⟨rfl, rfl, h⟩
  · unfold Collecting.start
    rw [if_neg hsize]
    exact ⟨Nat.zero_add _, Reading.owes_start h hsize, nofun, nofun⟩

theorem accounted_of_start {reader : Reader} {input : Bytes} (h : reader.Owes cipher input data)
    (size : Nat) : Accounted cipher ended size data (start reader size input) :=
  ⟨rfl, nofun, data, rfl, owed_of_start [] h⟩

/-- **What one of the reads returns** is collected. -/
theorem accounted_of_collect (h : Accounted cipher ended size data s)
    (hlive : s.collecting.outcome = none) {outcome : Except Error Bytes}
    (hover : s.collecting.reading.phase = .over outcome) :
    Accounted cipher ended size data { s with collecting := s.collecting.collect outcome } := by
  obtain ⟨hsize, hshort, rest, hdata, howed⟩ := h
  rw [hlive] at howed
  obtain ⟨hroom, ⟨hsome, hfits, later, hrest, hreader⟩, hlength, hnone⟩ := howed
  rw [hover] at hfits hrest
  cases outcome with
  | error e =>
      -- only a time limit makes a read fail that is owed something
      obtain ⟨milliseconds, rfl⟩ := hfits
      obtain rfl : rest = later := hrest
      refine ⟨hsize, hshort, rest, hdata, ?_, hreader⟩
      show s.collecting.got.length < s.collecting.size
      omega
  | ok bytes =>
      obtain rfl : rest = bytes ++ later := hrest
      by_cases hbytes : bytes = []
      · subst hbytes
        exact ⟨hsize, hshort, _, hdata, hnone hover⟩
      · have hfew := hlength bytes hover
        have hcollect : s.collecting.collect (.ok bytes) = { s.collecting with
            got := s.collecting.got ++ bytes
            reading := .start s.collecting.reading.reader
              (s.collecting.size - (s.collecting.got ++ bytes).length)
            outcome := if (s.collecting.got ++ bytes).length < s.collecting.size then none
              else some (.ok (s.collecting.got ++ bytes)) } := by
          cases bytes with
          | nil => exact absurd rfl hbytes
          | cons byte bytes => rfl
        have hgot : (s.collecting.got ++ bytes).length
            = s.collecting.got.length + bytes.length := List.length_append
        rw [hcollect]
        refine ⟨hsize, hshort, later, ?_, ?_⟩
        · rw [hdata]
          show _ = _ ++ ((s.collecting.got ++ bytes) ++ later)
          rw [List.append_assoc]
        · dsimp only
          by_cases hmore : (s.collecting.got ++ bytes).length < s.collecting.size
          · rw [if_pos hmore]
            refine ⟨?_, Reading.owes_start hreader (by omega), nofun, nofun⟩
            show (s.collecting.got ++ bytes).length + (_ - _) = s.collecting.size
            omega
          · rw [if_neg hmore]
            refine ⟨rfl, ?_, hreader⟩
            show (s.collecting.got ++ bytes).length = s.collecting.size
            omega

/-- What an attempt does until it has a result is done by its read. -/
theorem act_collecting {c : Collecting} (hlive : c.outcome = none) :
    c.act = c.reading.act.within (fun reading => { c with reading }) c.collect := by
  unfold Collecting.act
  rw [hlive]

/-- **An attempt that goes on** keeps the account. -/
theorem accounted_of_advance (h : Accounted cipher ended size data s) {w : Wired Collecting}
    (hadvance : Advance Collecting.act ended ⟨s.collecting, s.input, []⟩ w) :
    Accounted cipher ended size data { s with collecting := w.state, input := w.input } := by
  cases hlive : s.collecting.outcome with
  | some outcome =>
      have hact : s.collecting.act = .done outcome := by
        unfold Collecting.act
        rw [hlive]
      exact (hadvance.not_of_done hact).elim
  | none =>
      obtain ⟨v, hread, rfl⟩ | ⟨outcome, hdone, rfl⟩ :=
        Advance.of_within (w := ⟨s.collecting.reading, s.input, []⟩) hadvance
          (act_collecting hlive)
      · obtain ⟨hsize, hshort, rest, hdata, howed⟩ := h
        rw [hlive] at howed
        obtain ⟨hroom, howes, -, -⟩ := howed
        obtain ⟨hsame, hlength⟩ := Reading.length_of_advance hread
        refine ⟨hsize, hshort, rest, hdata, ?_⟩
        show Owed _ _ _ _ s.collecting.outcome
        rw [hlive]
        have hmove := Reading.move_of_advance hread
        rw [← List.append_nil s.input] at howes
        obtain ⟨howes', hnone⟩ :=
          Reading.owes_of_move (w := ⟨s.collecting.reading, s.input, []⟩) howes (fun _ => rfl) hmove
        rw [List.append_nil] at howes'
        refine ⟨?_, howes', ?_, hnone⟩
        · show s.collecting.got.length + v.state.room = s.collecting.size
          rw [hsame]
          exact hroom
        · intro bytes hover
          show bytes.length ≤ v.state.room
          rw [hsame]
          exact hlength bytes hover
      · exact accounted_of_collect h hlive (Reading.phase_of_act_done hdone)

/-- **An attempt whose time limit passes** keeps the account. -/
theorem accounted_of_expires (h : Accounted cipher ended size data s) {collecting : Collecting}
    (hexpires : Expires Collecting.act s.collecting collecting) :
    Accounted cipher ended size data { s with collecting } := by
  cases hlive : s.collecting.outcome with
  | some outcome =>
      obtain ⟨_, _, _, hact⟩ := hexpires
      unfold Collecting.act at hact
      rw [hlive] at hact
      cases hact
  | none =>
      obtain ⟨reading, hexpired, rfl⟩ := hexpires.of_within (act_collecting hlive)
      obtain ⟨hsize, hshort, rest, hdata, howed⟩ := h
      rw [hlive] at howed
      obtain ⟨hroom, howes, -, -⟩ := howed
      obtain ⟨⟨milliseconds, rfl⟩, -⟩ := Reading.fail_of_expires hexpired
      obtain ⟨howes', -⟩ := Reading.owes_of_expires howes hexpired
      refine ⟨hsize, hshort, rest, hdata, ?_⟩
      show Owed _ _ _ _ s.collecting.outcome
      rw [hlive]
      exact ⟨hroom, howes', nofun, nofun⟩

/-- **Every step of an attempt keeps the account.** -/
theorem accounted_of_step (h : Accounted cipher ended size data s) (hstep : Step ended s s') :
    Accounted cipher ended size data s' := by
  cases hstep with
  | advance hadvance => exact accounted_of_advance h hadvance
  | expire hexpires => exact accounted_of_expires h hexpires
  | retry hfailed =>
      obtain ⟨hsize, hshort, rest, hdata, howed⟩ := h
      rw [hfailed] at howed
      obtain ⟨hfew, hreader⟩ := howed
      refine ⟨hsize, ?_, rest, ?_, ?_⟩
      · intro lost hlost
        obtain hlost | hlost := List.mem_append.mp hlost
        · exact hshort lost hlost
        · rw [List.mem_singleton.mp hlost, ← hsize]
          exact hfew
      · -- what the attempt had collected is lost
        rw [hdata]
        show _ = (s.failed ++ [s.collecting.got]).flatten ++ ([] ++ rest)
        rw [List.flatten_append, List.flatten_singleton, List.append_assoc]
        rfl
      · exact owed_of_start _ hreader

end

/-! ## §3. An attempt that succeeds -/

/-- **WHAT READING AN EXACT COUNT RETURNS, IF IT IS TRIED AGAIN.**  Let a
    receiving side owe some data, and let attempts to read `size` bytes of it
    follow one another, each after the time limit of the one before has
    passed, in whatever pieces the bytes come and whenever they stall.  If an
    attempt succeeds,

    • it returns the next bytes after those that the failed attempts had
      collected, and just as many as were asked for,
    • these are gone: they are the beginning of the data, each failed attempt
      had collected fewer than were asked for, and the receiving side owes
      only what comes after the bytes returned.

    So the first attempt, or one after attempts that had collected nothing,
    returns the beginning of the data. -/
theorem succeeds_with_next {cipher : Option Cipher} {reader : Reader} {input data : Bytes}
    (howes : reader.Owes cipher input data) {size : Nat} {ended : Bool} {s : Retrying}
    (hrun : Relation.ReflTransGen (Step ended) (start reader size input) s) {bytes : Bytes}
    (hok : s.collecting.outcome = some (.ok bytes)) :
    bytes.length = size
      ∧ bytes = (data.drop s.failed.flatten.length).take size
      ∧ s.failed.flatten <+: data
      ∧ (∀ lost ∈ s.failed, lost.length < size)
      ∧ s.collecting.reading.reader.Owes cipher s.input
        (data.drop (s.failed.flatten.length + size)) := by
  obtain ⟨hsize, hshort, rest, hdata, howed⟩ :=
    keeps_of_run (Accounted cipher ended size data) accounted_of_step hrun
      (accounted_of_start howes size)
  rw [hok] at howed
  obtain ⟨hgot, hlength, hreader⟩ := howed
  rw [← hgot] at hdata
  rw [hsize] at hlength
  have hafter : data.drop s.failed.flatten.length = bytes ++ rest := by
    rw [hdata, List.drop_left]
  refine ⟨hlength, ?_, hdata ▸ List.prefix_append _ _, hshort, ?_⟩
  · rw [hafter, List.take_left' hlength]
  · rw [← List.drop_drop, hafter, List.drop_left' hlength]
    exact hreader

/-- The wire carries 1, 2 and 3, and two bytes are asked for.  The wire
    stalls after the first; the second attempt returns 2 and 3. -/
theorem succeeds_with_next_stalled : ∃ s : Retrying,
    Relation.ReflTransGen (Step false) (start ⟨none, [], [], some 20⟩ 2 [1, 2, 3]) s
      ∧ s.collecting.outcome = some (.ok [2, 3]) ∧ s.failed = [[1]]
      ∧ [2, 3] = (([1, 2, 3] : Bytes).drop s.failed.flatten.length).take 2 := by
  have howes : (⟨none, [], [], some 20⟩ : Reader).Owes none [1, 2, 3] [1, 2, 3] :=
    ⟨rfl, Nat.zero_le _, [1, 2, 3], rfl, rfl⟩
  have hrun : Relation.ReflTransGen (Step false) (start ⟨none, [], [], some 20⟩ 2 [1, 2, 3])
      ⟨⟨2, [2, 3], .start ⟨none, [], [], some 20⟩ 0, some (.ok [2, 3])⟩, [], [[1]]⟩ :=
    .head (.advance (.go 0 rfl)) <|
    .head (.advance (.read [1] [2, 3] rfl rfl (by decide) (by decide))) <|
    .head (.advance (.go 0 rfl)) <|
    .head (.advance (.go 0 rfl)) <|
    .head (.expire ⟨_, _, _, rfl⟩) <|
    .head (.advance (.go 20 rfl)) <|
    .head (.retry rfl) <|
    .head (.advance (.go 20 rfl)) <|
    .head (.advance (.read [2, 3] [] rfl rfl (by decide) (by decide))) <|
    .head (.advance (.go 30 rfl)) .refl
  exact ⟨_, hrun, rfl, rfl, (succeeds_with_next howes hrun rfl).2.1⟩

end Retrying

end Masquerade
