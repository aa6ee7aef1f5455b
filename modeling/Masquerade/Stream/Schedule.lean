/-
  Masquerade.Stream.Schedule — RUNNING PROCESSES on a virtual clock.

  Time stands still while a process can go on, and jumps to the next instant
  at which something may happen when none can.  What arrives at the same
  instant at which a limit passes is taken, and the limit is not.  Two
  processes in one world take turns at going first.
-/
import Masquerade.Stream.Duplex
import Masquerade.Stream.Scripted

namespace Masquerade

/-! ## §1. Ports -/

/-- **What a process's input and output are connected to**, in a world of
    type `ω`.  No answer means that the process has to wait. -/
structure Ports (ω : Type) where
  read : ω → (now room : Nat) → Option Arrival × ω
  write : ω → (now : Nat) → Bytes → Option Acceptance × ω
  shutdown : ω → (now : Nat) → ω

namespace Ports

/-- A scripted peer on both sides. -/
def scripted : Ports Scripted := ⟨Scripted.read, Scripted.write, Scripted.shutdown⟩

/-- Input from the first of two peers, output to the second. -/
def across : Ports (Scripted × Scripted) where
  read := fun w now room =>
    let (answer, s) := w.1.read now room
    (answer, s, w.2)
  write := fun w now bytes =>
    let (answer, s) := w.2.write now bytes
    (answer, w.1, s)
  shutdown := fun w now => (w.1, w.2.shutdown now)

/-- The same ports in a world that is seen through a pair of functions. -/
def through {ω ν : Type} (get : ν → ω) (put : ω → ν → ν) (ports : Ports ω) : Ports ν where
  read := fun w now room =>
    let (answer, s) := ports.read (get w) now room
    (answer, put s w)
  write := fun w now bytes =>
    let (answer, s) := ports.write (get w) now bytes
    (answer, put s w)
  shutdown := fun w now => put (ports.shutdown (get w) now) w

/-- Input from the second of two peers, output to the first. -/
def back : Ports (Scripted × Scripted) := across.through Prod.swap fun w _ => w.swap

/-- The client's end of a pipe. -/
def clientEnd : Ports Duplex where
  read := fun w _ room =>
    let (answer, toClient) := w.toClient.read room
    (answer, { w with toClient })
  write := fun w _ bytes =>
    let (answer, toServer) := w.toServer.write bytes
    (answer, { w with toServer })
  shutdown := fun w _ => { w with toServer := w.toServer.close }

/-- The server's end of a pipe. -/
def serverEnd : Ports Duplex where
  read := fun w _ room =>
    let (answer, toServer) := w.toServer.read room
    (answer, { w with toServer })
  write := fun w _ bytes =>
    let (answer, toClient) := w.toClient.write bytes
    (answer, { w with toClient })
  shutdown := fun w _ => { w with toClient := w.toClient.close }

end Ports

namespace Schedule

variable {σ τ α β ω : Type}

/-! ## §2. One instant -/

/-- How far a process has come. -/
inductive Stage (σ α : Type) where
  /-- It waits, at most until some instant. -/
  | waiting (state : σ) (until? : Option Nat)
  /-- It has finished, in this state. -/
  | finished (state : σ) (result : α)

/-- The last state of a process. -/
def Stage.state : Stage σ α → σ
  | .waiting state _ => state
  | .finished state _ => state

/-- The result of a process, if it has finished. -/
def Stage.result? : Stage σ α → Option α
  | .waiting _ _ => none
  | .finished _ result => some result

/-- A process, the world, and whether anything happened. -/
structure Settled (σ α ω : Type) where
  stage : Stage σ α
  world : ω
  moved : Bool

/-- Wait, or go on where the limit has passed. -/
def orLimit (now : Nat) (limit : Option (Nat × σ)) : σ ⊕ Option Nat :=
  match limit with
  | some (instant, expired) => if instant ≤ now then .inl expired else .inr (some instant)
  | none => .inr none

/-- **Run a process at one instant**, until it finishes or has to wait. -/
def settle (act : σ → Action σ α) (ports : Ports ω) (now : Nat) :
    (fuel : Nat) → (moved : Bool) → σ → ω → Settled σ α ω
  | 0, moved, s, w => ⟨.waiting s none, w, moved⟩
  | fuel + 1, moved, s, w =>
    match act s with
    | .done result => ⟨.finished s result, w, moved⟩
    | .go next => settle act ports now fuel true (next now) w
    | .read room limit next =>
      match ports.read w now room with
      | (some answer, w) => settle act ports now fuel true (next answer) w
      | (none, w) =>
        match orLimit now limit with
        | .inl s => settle act ports now fuel true s w
        | .inr until? => ⟨.waiting s until?, w, moved⟩
    | .write bytes limit next =>
      match ports.write w now bytes with
      | (some answer, w) => settle act ports now fuel true (next answer) w
      | (none, w) =>
        match orLimit now limit with
        | .inl s => settle act ports now fuel true s w
        | .inr until? => ⟨.waiting s until?, w, moved⟩
    | .sleep wake next =>
      if wake ≤ now then settle act ports now fuel true next w
      else ⟨.waiting s (some wake), w, moved⟩
    | .shutdown next => settle act ports now fuel true next (ports.shutdown w now)

/-! ## §3. The clock -/

/-- The next instant at which something may happen, at most `last`. -/
def nextInstant (now last : Nat) (instants : List (Option Nat)) : Nat :=
  (instants.filterMap id).foldl (fun best i => if now < i ∧ i < best then i else best) last

/-! ## §4. One process -/

/-- The end of a run: a process that is still waiting was cancelled. -/
structure Ran (σ α ω : Type) where
  stage : Stage σ α
  world : ω
  now : Nat

/-- **Run one process** until it finishes, or cancel it at the last
    instant. -/
def run (act : σ → Action σ α) (ports : Ports ω) (wake : ω → Option Nat) (last : Nat) :
    (fuel : Nat) → (now : Nat) → σ → ω → Ran σ α ω
  | 0, now, s, w => ⟨.waiting s none, w, now⟩
  | fuel + 1, now, s, w =>
    let settled := settle act ports now (fuel + 1) false s w
    match settled.stage with
    | .finished s result => ⟨.finished s result, settled.world, now⟩
    | .waiting s until? =>
      if last ≤ now then ⟨.waiting s until?, settled.world, now⟩
      else
        run act ports wake last fuel (nextInstant now last [until?, wake settled.world]) s
          settled.world

/-! ## §5. Two processes -/

/-- One of two processes in a world. -/
structure Side (σ α ω : Type) where
  act : σ → Action σ α
  ports : Ports ω
  /-- When the process is cancelled, and its result then. -/
  limit : Option (Nat × α)
  /-- What its end does to the world. -/
  leave : α → ω → ω
  /-- Whether its end is the end of both. -/
  endsBoth : α → Bool

/-- Run one side at one instant. -/
def Side.settle (side : Side σ α ω) (now fuel : Nat) (stage : Stage σ α) (w : ω) :
    Settled σ α ω :=
  match stage with
  | .finished s result => ⟨.finished s result, w, false⟩
  | .waiting s _ =>
    let settled := Schedule.settle side.act side.ports now fuel false s w
    match settled.stage with
    | .finished s result => ⟨.finished s result, side.leave result settled.world, true⟩
    | .waiting s until? =>
      match side.limit with
      | none => ⟨.waiting s until?, settled.world, settled.moved⟩
      | some (instant, result) =>
        if instant ≤ now then ⟨.finished s result, side.leave result settled.world, true⟩
        else
          ⟨.waiting s (some (until?.elim instant (min instant))), settled.world, settled.moved⟩

/-- Until when a stage waits. -/
def Stage.until? : Stage σ α → Option Nat
  | .waiting _ until? => until?
  | .finished _ _ => none

/-- Whether a stage is final. -/
def Stage.isFinished : Stage σ α → Bool
  | .waiting _ _ => false
  | .finished _ _ => true

/-- Which of two processes goes first. -/
inductive Turn where
  | left | right
  deriving DecidableEq, Repr

/-- The turn after this one. -/
def Turn.other : Turn → Turn
  | .left => .right
  | .right => .left

/-- Two processes, their world, the clock, and whose turn it is. -/
structure Joint (σ α τ β ω : Type) where
  left : Stage σ α
  right : Stage τ β
  world : ω
  now : Nat
  turn : Turn

namespace Joint

/-- Two processes at the beginning; the left one goes first. -/
def start (left : σ) (right : τ) (world : ω) (now : Nat) : Joint σ α τ β ω :=
  ⟨.waiting left none, .waiting right none, world, now, .left⟩

/-- Run the left process at one instant, and tell whether anything
    happened. -/
def stepLeft (side : Side σ α ω) (fuel : Nat) (joint : Joint σ α τ β ω) :
    Joint σ α τ β ω × Bool :=
  let settled := side.settle joint.now fuel joint.left joint.world
  ({ joint with left := settled.stage, world := settled.world }, settled.moved)

/-- Run the right process at one instant, and tell whether anything
    happened. -/
def stepRight (side : Side τ β ω) (fuel : Nat) (joint : Joint σ α τ β ω) :
    Joint σ α τ β ω × Bool :=
  let settled := side.settle joint.now fuel joint.right joint.world
  ({ joint with right := settled.stage, world := settled.world }, settled.moved)

/-- Whether both processes have finished, or one in a way that ends both. -/
def isOver (left : Side σ α ω) (right : Side τ β ω) (joint : Joint σ α τ β ω) : Bool :=
  joint.left.result?.any left.endsBoth || joint.right.result?.any right.endsBoth
    || (joint.left.isFinished && joint.right.isFinished)

/-- Run both processes at one instant, in turn.  One that ends both leaves
    the other no time. -/
def round (left : Side σ α ω) (right : Side τ β ω) (fuel : Nat) (joint : Joint σ α τ β ω) :
    Joint σ α τ β ω × Bool :=
  match joint.turn with
  | .left =>
    let (joint, moved) := joint.stepLeft left fuel
    if joint.isOver left right then (joint, moved)
    else
      let (joint, movedToo) := joint.stepRight right fuel
      (joint, moved || movedToo)
  | .right =>
    let (joint, moved) := joint.stepRight right fuel
    if joint.isOver left right then (joint, moved)
    else
      let (joint, movedToo) := joint.stepLeft left fuel
      (joint, moved || movedToo)

/-- Move the clock to the next instant at which something may happen, and
    let the other process go first. -/
def advance (wake : ω → List (Option Nat)) (last : Nat) (joint : Joint σ α τ β ω) :
    Joint σ α τ β ω :=
  { joint with
    now := nextInstant joint.now last
      (joint.left.until? :: joint.right.until? :: wake joint.world)
    turn := joint.turn.other }

end Joint

/-- **Run two processes side by side** until both have finished or one of
    them ends both.  They take turns at going first. -/
def runBoth (left : Side σ α ω) (right : Side τ β ω) (wake : ω → List (Option Nat))
    (last : Nat) : (fuel : Nat) → Joint σ α τ β ω → Joint σ α τ β ω
  | 0, joint => joint
  | fuel + 1, joint =>
    let (joint, moved) := joint.round left right (fuel + 1)
    if joint.isOver left right then joint
    else if moved then runBoth left right wake last fuel joint
    else if last ≤ joint.now then joint
    else runBoth left right wake last fuel (joint.advance wake last)

end Schedule

end Masquerade
