/-
  Masquerade.Proofs.Motion — PROCESSES IN MOTION between two pipes.

  A process (`Action`) does not know what its input and output are connected
  to.  Here both are pipes that hold any number of bytes: the process takes
  bytes from the front of one and adds bytes at the back of the other.  What
  is left open is everything that a network leaves open: how many bytes one
  read or one write moves, and when.  So a statement about all motions
  (`Advance`) is a statement about every fragmentation and every timing.

  A process moves without interference from its pipes: no write fails, and
  the input ends only if it is said to end.  Where nothing of the kind is
  known, any answer may come to what the process asks for (`Action.After`);
  the answers of a stream that fails are apart (`Action.Adverse`).

  Main results:
    * `Inevitably.of_approach`, `Inevitably.of_measure` — what shrinks with
      every step and can always go on arrives.
    * `Advance.of_go`, `Advance.of_read`, `Advance.of_write`,
      `Advance.of_sleep`, `Advance.not_of_done` — what a process may do next
      decides how it moves.
    * `Advance.of_within`, `Action.After.of_within`,
      `Action.Adverse.of_within` — a process inside another goes on as it
      does by itself.
-/
import Masquerade.Stream.Action
import Mathlib.Logic.Relation

namespace Masquerade

/-! ## §1. What is bound to happen -/

/-- **From this state every way of going on leads to the goal:** none goes on
    for ever without it, and none ends before it. -/
inductive Inevitably {σ : Type} (step : σ → σ → Prop) (goal : σ → Prop) : σ → Prop where
  | now {s : σ} (h : goal s) : Inevitably step goal s
  | later {s : σ} (some : ∃ s', step s s') (all : ∀ s', step s s' → Inevitably step goal s') :
      Inevitably step goal s

section

variable {σ : Type} {step : σ → σ → Prop}

/-- What every step keeps holds at the end of every run. -/
theorem keeps_of_run (safe : σ → Prop) (hkeep : ∀ {s s'}, safe s → step s s' → safe s')
    {s s' : σ} (hrun : Relation.ReflTransGen step s s') (h : safe s) : safe s' := by
  induction hrun with
  | refl => exact h
  | tail _ hstep ih => exact hkeep ih hstep

/-- **Approach.**  If every step short of the goal reaches it, or keeps what
    is safe and makes some measure smaller, and short of the goal there always
    is a step, the goal is inevitable. -/
theorem Inevitably.of_approach {goal : σ → Prop} (safe : σ → Prop) (measure : σ → Nat)
    (hnear : ∀ {s s'}, safe s → ¬ goal s → step s s' → goal s' ∨ (safe s' ∧ measure s' < measure s))
    (hgo : ∀ {s}, safe s → ¬ goal s → ∃ s', step s s') :
    ∀ {s : σ}, safe s → Inevitably step goal s := by
  -- induction on a bound for the measure
  have hbound : ∀ (n : Nat) {s : σ}, measure s < n → safe s → Inevitably step goal s := by
    intro n
    induction n with
    | zero =>
        intro s hlt
        exact absurd hlt (Nat.not_lt_zero _)
    | succ n ih =>
        intro s hlt hsafe
        by_cases hgoal : goal s
        · exact .now hgoal
        · refine .later (hgo hsafe hgoal) ?_
          intro s' hstep
          obtain hthere | ⟨hsafe', hdrop⟩ := hnear hsafe hgoal hstep
          · exact .now hthere
          · exact ih (by omega) hsafe'
  intro s hsafe
  exact hbound (measure s + 1) (Nat.lt_succ_self _) hsafe

/-- **Arrival,** where every step keeps what is safe. -/
theorem Inevitably.of_measure {goal : σ → Prop} (safe : σ → Prop) (measure : σ → Nat)
    (hkeep : ∀ {s s'}, safe s → step s s' → safe s')
    (hless : ∀ {s s'}, safe s → step s s' → goal s' ∨ measure s' < measure s)
    (hgo : ∀ {s}, safe s → ¬ goal s → ∃ s', step s s') {s : σ} (h : safe s) :
    Inevitably step goal s := by
  refine of_approach safe measure ?_ hgo h
  intro s s' hsafe _ hstep
  exact (hless hsafe hstep).imp_right fun hdrop => ⟨hkeep hsafe hstep, hdrop⟩

/-- **One goal after another:** what is inevitable from every place that is
    bound to be reached is inevitable. -/
theorem Inevitably.andThen {first second : σ → Prop} {s : σ} (h : Inevitably step first s)
    (hthen : ∀ s', first s' → Inevitably step second s') : Inevitably step second s := by
  induction h with
  | now hfirst => exact hthen _ hfirst
  | later hsome _ ih => exact .later hsome ih

/-- What is inevitable is reached by some run. -/
theorem Inevitably.exists_run {goal : σ → Prop} {s : σ} (h : Inevitably step goal s) :
    ∃ s', Relation.ReflTransGen step s s' ∧ goal s' := by
  induction h with
  | now hgoal => exact ⟨_, .refl, hgoal⟩
  | later hsome _ ih =>
      obtain ⟨s', hstep⟩ := hsome
      obtain ⟨end_, hrun, hgoal⟩ := ih s' hstep
      exact ⟨end_, .head hstep hrun, hgoal⟩

/-- **A step that is the only one** is bound to be taken. -/
theorem Inevitably.of_only_step {s s' : σ} (hstep : step s s')
    (honly : ∀ s'', step s s'' → s'' = s') : Inevitably step (· = s') s :=
  .later ⟨s', hstep⟩ fun s'' hstep' => .now (honly s'' hstep')

end

/-! ## §2. A process between two pipes -/

/-- **A process with its pipes:** the bytes that wait to be read, and the
    bytes it has written. -/
structure Wired (σ : Type) where
  state : σ
  input : Bytes
  output : Bytes

/-- How an input ends, after the bytes it holds. -/
inductive Ending where
  /-- It does not end; a reader waits. -/
  | never
  | closed
  | broken (f : StreamFault)
  deriving DecidableEq, Repr

/-- Whether an input ends with the end of the stream. -/
def Ending.isClosed : Ending → Bool
  | .closed => true
  | _ => false

/-- **One motion of a process.**  `ended` tells whether the input ends after
    what it holds. -/
inductive Advance {σ α : Type} (act : σ → Action σ α) (ended : Bool) (w : Wired σ) :
    Wired σ → Prop where
  /-- It goes on at once; the clock may show any instant. -/
  | go {next : Nat → σ} (now : Nat) (h : act w.state = .go next) :
      Advance act ended w { w with state := next now }
  /-- It reads some of what waits, at most as much as it asked for. -/
  | read {room : Nat} {limit : Option (Nat × σ)} {next : Arrival → σ} (bytes rest : Bytes)
      (h : act w.state = .read room limit next) (hinput : w.input = bytes ++ rest)
      (hsome : bytes ≠ []) (hroom : bytes.length ≤ room) :
      Advance act ended w { w with state := next (.data bytes), input := rest }
  /-- It finds that the input has ended. -/
  | closed {room : Nat} {limit : Option (Nat × σ)} {next : Arrival → σ}
      (h : act w.state = .read room limit next) (hinput : w.input = []) (hended : ended = true) :
      Advance act ended w { w with state := next .closed }
  /-- It writes some of what it offers. -/
  | write {bytes : Bytes} {limit : Option (Nat × σ)} {next : Acceptance → σ} (count : Nat)
      (h : act w.state = .write bytes limit next) (hsome : 0 < count)
      (hle : count ≤ bytes.length) :
      Advance act ended w
        { w with state := next (.taken count), output := w.output ++ bytes.take count }
  /-- What it waited for has come about on the clock. -/
  | sleep {wake : Nat} {next : σ} (h : act w.state = .sleep wake next) :
      Advance act ended w { w with state := next }

/-- **A process gives up waiting:** the time limit of its read passes. -/
def Expires {σ α : Type} (act : σ → Action σ α) (s s' : σ) : Prop :=
  ∃ room instant next, act s = .read room (some (instant, s')) next

namespace Advance

variable {σ α : Type} {act : σ → Action σ α} {ended : Bool} {w w' : Wired σ}

theorem of_go (h : Advance act ended w w') {next : Nat → σ} (hact : act w.state = .go next) :
    ∃ now, w' = { w with state := next now } := by
  cases h with
  | go now h =>
      cases hact.symm.trans h
      exact ⟨now, rfl⟩
  | read _ _ h => cases hact.symm.trans h
  | closed h => cases hact.symm.trans h
  | write _ h => cases hact.symm.trans h
  | sleep h => cases hact.symm.trans h

theorem of_read (h : Advance act ended w w') {room : Nat} {limit : Option (Nat × σ)}
    {next : Arrival → σ} (hact : act w.state = .read room limit next) :
    (∃ bytes rest, w.input = bytes ++ rest ∧ bytes ≠ [] ∧ bytes.length ≤ room
        ∧ w' = { w with state := next (.data bytes), input := rest })
      ∨ (w.input = [] ∧ ended = true ∧ w' = { w with state := next .closed }) := by
  cases h with
  | go _ h => cases hact.symm.trans h
  | read bytes rest h hinput hsome hroom =>
      cases hact.symm.trans h
      exact .inl ⟨bytes, rest, hinput, hsome, hroom, rfl⟩
  | closed h hinput hended =>
      cases hact.symm.trans h
      exact .inr ⟨hinput, hended, rfl⟩
  | write _ h => cases hact.symm.trans h
  | sleep h => cases hact.symm.trans h

theorem of_write (h : Advance act ended w w') {bytes : Bytes} {limit : Option (Nat × σ)}
    {next : Acceptance → σ} (hact : act w.state = .write bytes limit next) :
    ∃ count, 0 < count ∧ count ≤ bytes.length
      ∧ w' = { w with state := next (.taken count), output := w.output ++ bytes.take count } := by
  cases h with
  | go _ h => cases hact.symm.trans h
  | read _ _ h => cases hact.symm.trans h
  | closed h => cases hact.symm.trans h
  | write count h hsome hle =>
      cases hact.symm.trans h
      exact ⟨count, hsome, hle, rfl⟩
  | sleep h => cases hact.symm.trans h

theorem of_sleep (h : Advance act ended w w') {wake : Nat} {next : σ}
    (hact : act w.state = .sleep wake next) : w' = { w with state := next } := by
  cases h with
  | go _ h => cases hact.symm.trans h
  | read _ _ h => cases hact.symm.trans h
  | closed h => cases hact.symm.trans h
  | write _ h => cases hact.symm.trans h
  | sleep h =>
      cases hact.symm.trans h
      rfl

/-- A process that has finished does not move. -/
theorem not_of_done (h : Advance act ended w w') {result : α}
    (hact : act w.state = .done result) : False := by
  cases h with
  | go _ h => cases hact.symm.trans h
  | read _ _ h => cases hact.symm.trans h
  | closed h => cases hact.symm.trans h
  | write _ h => cases hact.symm.trans h
  | sleep h => cases hact.symm.trans h

/-- Closing the output is no motion between the pipes. -/
theorem not_of_shutdown (h : Advance act ended w w') {next : σ}
    (hact : act w.state = .shutdown next) : False := by
  cases h with
  | go _ h => cases hact.symm.trans h
  | read _ _ h => cases hact.symm.trans h
  | closed h => cases hact.symm.trans h
  | write _ h => cases hact.symm.trans h
  | sleep h => cases hact.symm.trans h

/-- A process moves inside another as it does by itself. -/
theorem within {τ β : Type} {outer : τ → Action τ β} {t : τ} {f : σ → τ} {finish : α → τ}
    (h : Advance act ended w w') (hact : outer t = (act w.state).within f finish) :
    Advance outer ended ⟨t, w.input, w.output⟩ ⟨f w'.state, w'.input, w'.output⟩ := by
  cases h with
  | go now h =>
      rw [h] at hact
      exact Advance.go (w := ⟨t, w.input, w.output⟩) now hact
  | read bytes rest h hinput hsome hroom =>
      rw [h] at hact
      exact Advance.read (w := ⟨t, w.input, w.output⟩) bytes rest hact hinput hsome hroom
  | closed h hinput hended =>
      rw [h] at hact
      exact Advance.closed (w := ⟨t, w.input, w.output⟩) hact hinput hended
  | write count h hsome hle =>
      rw [h] at hact
      exact Advance.write (w := ⟨t, w.input, w.output⟩) count hact hsome hle
  | sleep h =>
      rw [h] at hact
      exact Advance.sleep (w := ⟨t, w.input, w.output⟩) hact

/-- **A process inside another** moves as it does by itself, until it has
    finished and the outer process goes on. -/
theorem of_within {τ β : Type} {outer : τ → Action τ β} {t : τ} {v : Wired τ} {f : σ → τ}
    {finish : α → τ} (h : Advance outer ended ⟨t, w.input, w.output⟩ v)
    (hact : outer t = (act w.state).within f finish) :
    (∃ w', Advance act ended w w' ∧ v = ⟨f w'.state, w'.input, w'.output⟩)
      ∨ ∃ result, act w.state = .done result ∧ v = ⟨finish result, w.input, w.output⟩ := by
  cases hs : act w.state with
  | done result =>
      rw [hs] at hact
      obtain ⟨_, rfl⟩ := h.of_go hact
      exact .inr ⟨result, rfl, rfl⟩
  | go next =>
      rw [hs] at hact
      obtain ⟨now, rfl⟩ := h.of_go hact
      exact .inl ⟨_, .go now hs, rfl⟩
  | read room limit next =>
      rw [hs] at hact
      obtain ⟨bytes, rest, hinput, hsome, hroom, rfl⟩ | ⟨hinput, hended, rfl⟩ := h.of_read hact
      · exact .inl ⟨_, .read bytes rest hs hinput hsome hroom, rfl⟩
      · exact .inl ⟨_, .closed hs hinput hended, rfl⟩
  | write bytes limit next =>
      rw [hs] at hact
      obtain ⟨count, hsome, hle, rfl⟩ := h.of_write hact
      exact .inl ⟨_, .write count hs hsome hle, rfl⟩
  | sleep wake next =>
      rw [hs] at hact
      cases h.of_sleep hact
      exact .inl ⟨_, .sleep hs, rfl⟩
  | shutdown next =>
      rw [hs] at hact
      exact (h.not_of_shutdown hact).elim

end Advance

/-! ## §3. A process in an unknown world -/

/-- **What may follow an action in a world that may do anything:** any answer
    may come to what the process asks for, and any time limit may pass. -/
inductive Action.After {σ α : Type} : Action σ α → σ → Prop where
  | go {next : Nat → σ} (now : Nat) : After (.go next) (next now)
  | read {room : Nat} {limit : Option (Nat × σ)} {next : Arrival → σ} (answer : Arrival) :
      After (.read room limit next) (next answer)
  | unread {room instant : Nat} {late : σ} {next : Arrival → σ} :
      After (.read room (some (instant, late)) next) late
  | write {bytes : Bytes} {limit : Option (Nat × σ)} {next : Acceptance → σ}
      (answer : Acceptance) : After (.write bytes limit next) (next answer)
  | unwritten {bytes : Bytes} {instant : Nat} {late : σ} {next : Acceptance → σ} :
      After (.write bytes (some (instant, late)) next) late
  | sleep {wake : Nat} {next : σ} : After (.sleep wake next) next
  | shutdown {next : σ} : After (.shutdown next) next

/-- **A process inside another** goes on as it does by itself, until it has
    finished and the outer process goes on. -/
theorem Action.After.of_within {σ τ α β : Type} {action : Action σ α} {f : σ → τ}
    {finish : α → τ} {t : τ} (h : (action.within f finish : Action τ β).After t) :
    (∃ s, action.After s ∧ t = f s) ∨ ∃ result, action = .done result ∧ t = finish result := by
  cases action with
  | done result =>
      cases h
      exact .inr ⟨result, rfl, rfl⟩
  | go next =>
      cases h with
      | go now => exact .inl ⟨next now, .go now, rfl⟩
  | read room limit next =>
      cases limit with
      | none =>
          cases h with
          | read answer => exact .inl ⟨next answer, .read answer, rfl⟩
      | some late =>
          cases h with
          | read answer => exact .inl ⟨next answer, .read answer, rfl⟩
          | unread => exact .inl ⟨late.2, .unread, rfl⟩
  | write bytes limit next =>
      cases limit with
      | none =>
          cases h with
          | write answer => exact .inl ⟨next answer, .write answer, rfl⟩
      | some late =>
          cases h with
          | write answer => exact .inl ⟨next answer, .write answer, rfl⟩
          | unwritten => exact .inl ⟨late.2, .unwritten, rfl⟩
  | sleep wake next =>
      cases h
      exact .inl ⟨next, .sleep, rfl⟩
  | shutdown next =>
      cases h
      exact .inl ⟨next, .shutdown, rfl⟩

/-! ## §4. A process on streams that fail -/

/-- **What may follow an action where a stream fails:** a read or a write is
    answered with a fault, nothing is taken, or a time limit passes. -/
inductive Action.Adverse {σ α : Type} : Action σ α → σ → Prop where
  | unreadable {room : Nat} {limit : Option (Nat × σ)} {next : Arrival → σ} (f : StreamFault) :
      Adverse (.read room limit next) (next (.fault f))
  | unread {room instant : Nat} {late : σ} {next : Arrival → σ} :
      Adverse (.read room (some (instant, late)) next) late
  | refused {bytes : Bytes} {limit : Option (Nat × σ)} {next : Acceptance → σ} :
      Adverse (.write bytes limit next) (next (.taken 0))
  | unwritable {bytes : Bytes} {limit : Option (Nat × σ)} {next : Acceptance → σ}
      (f : StreamFault) : Adverse (.write bytes limit next) (next (.fault f))
  | unwritten {bytes : Bytes} {instant : Nat} {late : σ} {next : Acceptance → σ} :
      Adverse (.write bytes (some (instant, late)) next) late

/-- **A process inside another** suffers what it suffers by itself. -/
theorem Action.Adverse.of_within {σ τ α β : Type} {action : Action σ α} {f : σ → τ}
    {finish : α → τ} {t : τ} (h : (action.within f finish : Action τ β).Adverse t) :
    ∃ s, action.Adverse s ∧ t = f s := by
  cases action with
  | read room limit next =>
      cases limit with
      | none =>
          cases h with
          | unreadable fault => exact ⟨_, .unreadable fault, rfl⟩
      | some late =>
          cases h with
          | unreadable fault => exact ⟨_, .unreadable fault, rfl⟩
          | unread => exact ⟨_, .unread, rfl⟩
  | write bytes limit next =>
      cases limit with
      | none =>
          cases h with
          | refused => exact ⟨_, .refused, rfl⟩
          | unwritable fault => exact ⟨_, .unwritable fault, rfl⟩
      | some late =>
          cases h with
          | refused => exact ⟨_, .refused, rfl⟩
          | unwritable fault => exact ⟨_, .unwritable fault, rfl⟩
          | unwritten => exact ⟨_, .unwritten, rfl⟩
  | done result => cases h
  | go next => cases h
  | sleep wake next => cases h
  | shutdown next => cases h

/-- A process inside another closes what it closes by itself. -/
theorem Action.eq_shutdown_of_within {σ τ α β : Type} {action : Action σ α} {f : σ → τ}
    {finish : α → τ} {t : τ} (h : (action.within f finish : Action τ β) = .shutdown t) :
    ∃ s, action = .shutdown s ∧ t = f s := by
  cases action with
  | shutdown s =>
      cases h
      exact ⟨s, rfl, rfl⟩
  | done result => cases h
  | go next => cases h
  | read room limit next => cases h
  | write bytes limit next => cases h
  | sleep wake next => cases h

end Masquerade
