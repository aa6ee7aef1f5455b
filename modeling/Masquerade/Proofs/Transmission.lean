/-
  Masquerade.Proofs.Transmission — ONE WRITE.

  A write seals its data, sends the sealed form and is done.  Into a pipe
  that takes what it can and never fails, it goes on until all is sent.  On a
  stream that fails it breaks off, and the wire carries the beginning of the
  data.

  Main results:
    * `Writing.move_of_advance` — the moves of a write.
    * `Writing.sound_of_move`, `Writing.carried_of_move` — a write that can
      begin does not fail, and puts its data on the wire.
    * `Writing.Bears.of_move`, `Writing.Bears.fail` — what a write has put on
      the wire, whether it breaks off or not.
    * `Writing.cost_of_advance`, `Writing.exists_advance` — a write comes to
      an end.
-/
import Masquerade.Proofs.Framing
import Masquerade.Proofs.Motion

namespace Masquerade

namespace Writing

/-! ## §1. Moves -/

section

variable {w : Writing}

theorem act_start {data : Bytes} (h : w.phase = .start data) : w.act = .go (w.begin data) := by
  unfold act
  rw [h]

theorem act_sent {length : Nat} {deadline : Option Deadline}
    (h : w.phase = .sending [] length deadline) : w.act = .go fun _ => w.finish length := by
  unfold act
  rw [h]

theorem act_sending {left : Bytes} {length : Nat} {deadline : Option Deadline}
    (h : w.phase = .sending left length deadline) (hleft : left ≠ []) :
    w.act = .write left (Deadline.limit deadline w.fail) (w.sent left length deadline) := by
  unfold act
  rw [h]
  cases left with
  | nil => exact absurd rfl hleft
  | cons byte left => rfl

theorem act_over {outcome : Except Error Nat} (h : w.phase = .over outcome) :
    w.act = .done outcome := by
  unfold act
  rw [h]

/-- What a write that is done has come to. -/
theorem phase_of_act_done {outcome : Except Error Nat} (h : w.act = .done outcome) :
    w.phase = .over outcome := by
  cases hphase : w.phase with
  | start data => cases (act_start hphase).symm.trans h
  | sending left length deadline =>
      by_cases hleft : left = []
      · subst hleft
        cases (act_sent hphase).symm.trans h
      · cases (act_sending hphase hleft).symm.trans h
  | «over» outcome' =>
      cases (act_over hphase).symm.trans h
      rfl

/-- A write does not close its output. -/
theorem act_ne_shutdown (w w' : Writing) : w.act ≠ .shutdown w' := by
  intro h
  cases hphase : w.phase with
  | start data => cases (act_start hphase).symm.trans h
  | sending left length deadline =>
      by_cases hleft : left = []
      · subst hleft
        cases (act_sent hphase).symm.trans h
      · cases (act_sending hphase hleft).symm.trans h
  | «over» outcome => cases (act_over hphase).symm.trans h

end

theorem sent_taken (w : Writing) (left : Bytes) (length : Nat) (deadline : Option Deadline)
    {count : Nat} (h : 0 < count) :
    w.sent left length deadline (.taken count)
      = w.enter (.sending (left.drop count) length deadline) := by
  cases count with
  | zero => exact absurd h (Nat.lt_irrefl 0)
  | succ count => rfl

/-- **The moves of a write** into a pipe. -/
inductive Move (w : Wired Writing) : Wired Writing → Prop where
  | refuse {data : Bytes} (hphase : w.state.phase = .start data)
      (hpoisoned : w.state.writer.poisoned = true) :
      Move w { w with state := w.state.fail (.network .unfinishedWrite) }
  | begin {data : Bytes} (deadline : Option Deadline) (hphase : w.state.phase = .start data)
      (hclean : w.state.writer.poisoned = false) :
      Move w
        { w with state := {
            writer := { w.state.writer with poisoned := true }
            draws := (w.state.writer.wireForm data w.state.draws).2
            phase := .sending (w.state.writer.wireForm data w.state.draws).1 data.length
              deadline } }
  | write {left : Bytes} {length : Nat} {deadline : Option Deadline} (count : Nat)
      (hphase : w.state.phase = .sending left length deadline) :
      Move w
        { w with
          state := w.state.enter (.sending (left.drop count) length deadline)
          output := w.output ++ left.take count }
  | finish {length : Nat} {deadline : Option Deadline}
      (hphase : w.state.phase = .sending [] length deadline) :
      Move w { w with state := w.state.finish length }

/-- **Every motion of a write is one of its moves.** -/
theorem move_of_advance {ended : Bool} {w w' : Wired Writing} (h : Advance act ended w w') :
    Move w w' := by
  cases hphase : w.state.phase with
  | start data =>
      obtain ⟨now, rfl⟩ := h.of_go (act_start hphase)
      cases hpoisoned : w.state.writer.poisoned with
      | true =>
          rw [begin_poisoned _ _ _ hpoisoned]
          exact .refuse hphase hpoisoned
      | false =>
          unfold begin
          rw [if_neg (by rw [hpoisoned]; exact Bool.false_ne_true)]
          exact .begin _ hphase hpoisoned
  | sending left length deadline =>
      by_cases hleft : left = []
      · subst hleft
        obtain ⟨now, rfl⟩ := h.of_go (act_sent hphase)
        exact .finish hphase
      · obtain ⟨count, hsome, -, rfl⟩ := h.of_write (act_sending hphase hleft)
        rw [sent_taken _ _ _ _ hsome]
        exact .write count hphase
  | «over» outcome => exact (h.not_of_done (act_over hphase)).elim

/-! ## §2. What a write sends -/

/-- The data that a write has still to seal. -/
def Phase.unsealed : Phase → Bytes
  | .start data => data
  | _ => []

/-- The sealed bytes that a write has still to send. -/
def Phase.unsent : Phase → Bytes
  | .sending left _ _ => left
  | _ => []

/-- **A write that can do its work:** its sending side is not poisoned before
    it begins nor once it is over, and it has not failed. -/
structure Sound (cipher : Option Cipher) (w : Writing) : Prop where
  polish : w.writer.cipher = cipher
  clean : match w.phase with
    | .start _ | .over (.ok _) => w.writer.poisoned = false
    | .sending _ _ _ => True
    | .over (.error _) => False

section

variable {cipher : Option Cipher} {w w' : Wired Writing}

/-- **A write that can begin does not fail.** -/
theorem sound_of_move (h : w.state.Sound cipher) (hmove : Move w w') :
    w'.state.Sound cipher := by
  obtain ⟨hpolish, hclean⟩ := h
  cases hmove with
  | refuse hphase hpoisoned =>
      rw [hphase] at hclean
      have hclean : w.state.writer.poisoned = false := hclean
      rw [hpoisoned] at hclean
      cases hclean
  | begin _ _ _ => exact ⟨hpolish, trivial⟩
  | write _ _ => exact ⟨hpolish, trivial⟩
  | finish _ => exact ⟨hpolish, rfl⟩

/-- **A write puts its data on the wire:** what is sealed by a move was to be
    sealed before, and what is sent was sealed. -/
theorem carried_of_move (h : w.state.Sound cipher) (hmove : Move w w') :
    ∃ more extra, Carries cipher more extra
      ∧ w'.output ++ w'.state.phase.unsent = (w.output ++ w.state.phase.unsent) ++ more
      ∧ w.state.phase.unsealed = extra ++ w'.state.phase.unsealed := by
  cases hmove with
  | refuse hphase hpoisoned =>
      have hclean := h.clean
      rw [hphase] at hclean
      have hclean : w.state.writer.poisoned = false := hclean
      rw [hpoisoned] at hclean
      cases hclean
  | @begin data deadline hphase _ =>
      have hcarries := w.state.writer.carries_wireForm data w.state.draws
      rw [h.polish] at hcarries
      refine ⟨_, data, hcarries, ?_, ?_⟩
      · rw [hphase]
        show _ = (w.output ++ []) ++ _
        rw [List.append_nil]
        rfl
      · rw [hphase]
        show data = data ++ []
        rw [List.append_nil]
  | @write left length deadline count hphase =>
      refine ⟨[], [], Carries.nil cipher, ?_, ?_⟩
      · rw [hphase, List.append_nil]
        show (w.output ++ left.take count) ++ left.drop count = w.output ++ left
        rw [List.append_assoc, List.take_append_drop]
      · rw [hphase]
        rfl
  | finish hphase =>
      refine ⟨[], [], Carries.nil cipher, ?_, ?_⟩
      · rw [hphase, List.append_nil]
        rfl
      · rw [hphase]
        rfl

end

end Writing

/-! ## §3. A write on any stream -/

/-- **The wire carries the beginning of some data,** and may break off in
    the middle of a chunk. -/
def Begins (cipher : Option Cipher) (wire data : Bytes) : Prop :=
  ∃ left carried, Carries cipher (wire ++ left) carried ∧ carried <+: data

/-- What is carried in full is begun. -/
theorem Carries.begins {cipher : Option Cipher} {wire carried data : Bytes}
    (h : Carries cipher wire carried) (hbegin : carried <+: data) : Begins cipher wire data := by
  refine ⟨[], carried, ?_, hbegin⟩
  rw [List.append_nil]
  exact h

/-- What is begun of some data is begun of more. -/
theorem Begins.more {cipher : Option Cipher} {wire data more : Bytes}
    (h : Begins cipher wire data) (hbegin : data <+: more) : Begins cipher wire more := by
  obtain ⟨left, carried, hcarries, hcarried⟩ := h
  exact ⟨left, carried, hcarries, hcarried.trans hbegin⟩

namespace Writing

/-- **What a write has put on the wire** behind what was there: if the wire
    carried this much before, and this is what the write is to add. -/
structure Bears (cipher : Option Cipher) (done data : Bytes) (w : Writing) (wire : Bytes) :
    Prop where
  polish : w.writer.cipher = cipher
  bears : match w.phase with
    | .start unsealed => unsealed = data ∧ Carries cipher wire done
    | .sending left length _ =>
      length = data.length ∧ Carries cipher (wire ++ left) (done ++ data)
    | .over (.ok length) => length = data.length ∧ Carries cipher wire (done ++ data)
    | .over (.error _) => Begins cipher wire (done ++ data)

section

variable {cipher : Option Cipher} {done data : Bytes}

/-- **No move of a write** puts anything else on the wire. -/
theorem Bears.of_move {w w' : Wired Writing} (h : w.state.Bears cipher done data w.output)
    (hmove : Move w w') : w'.state.Bears cipher done data w'.output ∧ w'.input = w.input := by
  obtain ⟨hpolish, hbears⟩ := h
  cases hmove with
  | refuse hphase _ =>
      rw [hphase] at hbears
      exact ⟨⟨hpolish, hbears.2.begins (List.prefix_append _ _)⟩, rfl⟩
  | @begin unsealed deadline hphase _ =>
      rw [hphase] at hbears
      obtain ⟨rfl, hcarries⟩ := hbears
      have hform := w.state.writer.carries_wireForm unsealed w.state.draws
      rw [hpolish] at hform
      exact ⟨⟨hpolish, rfl, hcarries.append hform⟩, rfl⟩
  | write count hphase =>
      rw [hphase] at hbears
      refine ⟨⟨hpolish, hbears.1, ?_⟩, rfl⟩
      show Carries cipher ((w.output ++ _) ++ _) _
      rw [List.append_assoc, List.take_append_drop]
      exact hbears.2
  | finish hphase =>
      rw [hphase] at hbears
      obtain ⟨hlength, hcarries⟩ := hbears
      rw [List.append_nil] at hcarries
      exact ⟨⟨hpolish, hlength, hcarries⟩, rfl⟩

/-- A write that breaks off has begun. -/
theorem Bears.fail {w : Writing} {wire : Bytes} (h : w.Bears cipher done data wire) {left : Bytes}
    {length : Nat} {deadline : Option Deadline} (hphase : w.phase = .sending left length deadline)
    (e : Error) : (w.fail e).Bears cipher done data wire := by
  obtain ⟨hpolish, hbears⟩ := h
  rw [hphase] at hbears
  exact ⟨hpolish, left, _, hbears.2, List.prefix_refl _⟩

/-- Where the stream of a write fails, or its time limit passes, the write
    breaks off. -/
theorem fail_of_adverse {w w' : Writing} (h : w.act.Adverse w') :
    ∃ left length deadline e, w.phase = .sending left length deadline ∧ w' = w.fail e := by
  cases hphase : w.phase with
  | start data =>
      rw [act_start hphase] at h
      cases h
  | «over» outcome =>
      rw [act_over hphase] at h
      cases h
  | sending left length deadline =>
      refine ⟨left, length, deadline, ?_⟩
      by_cases hleft : left = []
      · rw [hleft] at hphase
        rw [act_sent hphase] at h
        cases h
      · rw [act_sending hphase hleft] at h
        cases deadline with
        | none =>
            cases h with
            | refused => exact ⟨_, rfl, rfl⟩
            | unwritable f => exact ⟨_, rfl, rfl⟩
        | some d =>
            cases h with
            | refused => exact ⟨_, rfl, rfl⟩
            | unwritable f => exact ⟨_, rfl, rfl⟩
            | unwritten => exact ⟨_, rfl, rfl⟩

/-- Whatever a write has done, the wire carries the beginning of the data. -/
theorem Bears.begins {w : Writing} {wire : Bytes} (h : w.Bears cipher done data wire) :
    Begins cipher wire (done ++ data) := by
  have hbears := h.bears
  split at hbears
  next => exact hbears.2.begins (List.prefix_append _ _)
  next left _ _ _ => exact ⟨left, _, hbears.2, List.prefix_refl _⟩
  next => exact hbears.2.begins (List.prefix_refl _)
  next => exact hbears

end

/-- **What is left to do** of a write: the bytes to send, and what the phase
    costs. -/
def cost (w : Writing) : Nat :=
  match w.phase with
  | .start data => (w.writer.wireForm data w.draws).1.length + 5
  | .sending left _ _ => left.length + 4
  | .over _ => 3

/-- Each motion of a write leaves less to do. -/
theorem cost_of_advance {ended : Bool} {w w' : Wired Writing} (h : Advance act ended w w') :
    w'.state.cost < w.state.cost := by
  unfold cost
  cases hphase : w.state.phase with
  | start data =>
      obtain ⟨now, rfl⟩ := h.of_go (act_start hphase)
      cases hpoisoned : w.state.writer.poisoned with
      | true =>
          rw [begin_poisoned _ _ _ hpoisoned]
          show 3 < _ + 5
          omega
      | false =>
          unfold begin
          rw [if_neg (by rw [hpoisoned]; exact Bool.false_ne_true)]
          exact Nat.lt_succ_self _
  | sending left length deadline =>
      by_cases hleft : left = []
      · subst hleft
        obtain ⟨now, rfl⟩ := h.of_go (act_sent hphase)
        exact Nat.lt_succ_self _
      · obtain ⟨count, hsome, hle, rfl⟩ := h.of_write (act_sending hphase hleft)
        rw [sent_taken _ _ _ _ hsome]
        dsimp only [Writing.enter]
        rw [List.length_drop]
        omega
  | «over» outcome => exact (h.not_of_done (act_over hphase)).elim

/-- A write goes on until it is over. -/
theorem exists_advance {ended : Bool} {w : Wired Writing}
    (hlive : ∀ outcome, w.state.phase ≠ .over outcome) : ∃ w', Advance act ended w w' := by
  cases hphase : w.state.phase with
  | start data => exact ⟨_, .go 0 (act_start hphase)⟩
  | sending left length deadline =>
      by_cases hleft : left = []
      · subst hleft
        exact ⟨_, .go 0 (act_sent hphase)⟩
      · exact ⟨_, .write 1 (act_sending hphase hleft) Nat.one_pos (List.length_pos_iff.mpr hleft)⟩
  | «over» outcome => exact absurd hphase (hlive outcome)

end Writing

end Masquerade
