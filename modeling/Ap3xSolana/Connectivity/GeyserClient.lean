import Mathlib.Data.List.Basic
import Ap3xSolana.Lib.Run

/-!
# `GeyserClient`

One subscription.  Updates come from the stream into a bounded queue, and `#drain` takes them
off one at a time.  Between two turns `#drain` is at rest or awaits the gap callback, the handler
or the checkpoint store.  `emit` throws where a listener does, and for `error` where there is
none.  The log is what can be seen from outside.
-/

namespace Ap3xSolana.Connectivity.GeyserClient

open Ap3xSolana.Lib.Run

variable {υ : Type*}

structure GeyserClientOptions (υ : Type*) where
  /-- `Number(update.slot.slot)` of a slot update. -/
  slotOf : υ → Option Nat
  checkpointStore : Bool := true
  onGap : Bool := true
  queueCapacity : Nat := 1000
  checkpointEvery : Nat := 100
  /-- The constructor throws otherwise. -/
  queueCapacity_pos : 1 ≤ queueCapacity := by decide
  checkpointEvery_pos : 1 ≤ checkpointEvery := by decide

structure Checkpoint where
  lastSlot : Int
  updateCount : Nat
  deriving DecidableEq, Repr

/-- An update, and how many came before it. -/
structure Arrived (υ : Type*) where
  arrival : Nat
  update : υ
  deriving DecidableEq, Repr

inductive Event (υ : Type*) where
  /-- A `dropped` event, and what was dropped. -/
  | dropped (update : Arrived υ) (count : Nat)
  /-- A `gap` event: the first missing slot, and the slot after the last. -/
  | gap (first next : Int)
  /-- The handler is called. -/
  | handled (update : Arrived υ)
  /-- The handler has returned, thrown or settled its promise. -/
  | settled (update : Arrived υ)
  deriving DecidableEq, Repr

/-- What `#drain` awaits. -/
inductive Stage (υ : Type*) where
  /-- Nothing: `#draining` is false. -/
  | idle
  | gap (update : Arrived υ) (slot : Nat)
  | handling (update : Arrived υ)
  | saving (checkpoint : Checkpoint)
  deriving DecidableEq, Repr

structure Subscription (υ : Type*) where
  queue : List (Arrived υ) := []
  lastSlot : Int := -1
  updateCount : Nat := 0
  droppedCount : Nat := 0
  stage : Stage υ := .idle
  closed : Bool := false
  /-- The updates that have come while the subscription was open. -/
  received : List (Arrived υ) := []
  log : List (Event υ) := []
  deriving Repr

/-- The events whose `emit` throws. -/
structure Throws where
  dropped : Bool := false
  gap : Bool := false
  update : Bool := false
  error : Bool := false
  deriving DecidableEq, Repr

inductive Action (υ : Type*) where
  | data (update : υ) (throws : Throws)
  /-- The checkpoint is loaded. -/
  | loaded (checkpoint : Option Checkpoint)
  | gapSettled (failed : Bool) (throws : Throws)
  | handlerSettled (failed : Bool) (throws : Throws)
  | saveSettled (failed : Bool) (throws : Throws)
  /-- `close`, or the end of the stream. -/
  | close
  deriving DecidableEq, Repr

/-! ## `#drain` -/

/-- `#drain` returns or throws. -/
def rest (s : Subscription υ) : Subscription υ := { s with stage := .idle }

def callHandler (s : Subscription υ) (update : Arrived υ) : Subscription υ :=
  { s with stage := .handling update, log := s.log ++ [.handled update] }

/-- After a gap was reported, or where there is none. -/
def seeSlot (s : Subscription υ) (update : Arrived υ) (slot : Nat) : Subscription υ :=
  callHandler { s with lastSlot := max s.lastSlot slot } update

/-- An update that was shifted off the queue, up to the next `await`. -/
def take (opts : GeyserClientOptions υ) (throws : Throws) (s : Subscription υ)
    (update : Arrived υ) : Subscription υ :=
  match opts.slotOf update.update with
  | none => callHandler s update
  | some slot =>
      if 0 ≤ s.lastSlot ∧ s.lastSlot + 1 < slot then
        let s := { s with log := s.log ++ [.gap (s.lastSlot + 1) slot] }
        if throws.gap then rest s
        else if opts.onGap then { s with stage := .gap update slot }
        else seeSlot s update slot
      else seeSlot s update slot

/-- The head of the loop. -/
def drainLoop (opts : GeyserClientOptions υ) (throws : Throws) (s : Subscription υ) :
    Subscription υ :=
  if s.closed then rest s
  else
    match s.queue with
    | [] => rest s
    | update :: queue => take opts throws { s with queue := queue } update

def drain (opts : GeyserClientOptions υ) (throws : Throws) (s : Subscription υ) :
    Subscription υ :=
  match s.stage with
  | .idle => drainLoop opts throws s
  | _ => s

/-- From the gap callback on. -/
def gapSettled (s : Subscription υ) (update : Arrived υ) (slot : Nat) (failed : Bool)
    (throws : Throws) : Subscription υ :=
  if failed && throws.error then rest s else seeSlot s update slot

/-- From the handler on. -/
def handlerSettled (opts : GeyserClientOptions υ) (s : Subscription υ) (update : Arrived υ)
    (failed : Bool) (throws : Throws) : Subscription υ :=
  let s := { s with log := s.log ++ [.settled update] }
  if failed && throws.error then rest s
  else if throws.update then rest s
  else
    let s := { s with updateCount := s.updateCount + 1 }
    if opts.checkpointStore ∧ 0 ≤ s.lastSlot ∧ s.updateCount % opts.checkpointEvery = 0 then
      { s with stage := .saving { lastSlot := s.lastSlot, updateCount := s.updateCount } }
    else drainLoop opts throws s

/-- From `save` on. -/
def saveSettled (opts : GeyserClientOptions υ) (s : Subscription υ) (failed : Bool)
    (throws : Throws) : Subscription υ :=
  if failed && throws.error then rest s else drainLoop opts throws s

/-! ## The stream -/

/-- `#enqueue`; a `dropped` listener that throws comes before the push. -/
def enqueue (opts : GeyserClientOptions υ) (throws : Throws) (s : Subscription υ)
    (update : Arrived υ) : Subscription υ × Bool :=
  match s.queue with
  | oldest :: queue =>
      if opts.queueCapacity ≤ s.queue.length then
        let s := { s with
          queue := queue
          droppedCount := s.droppedCount + 1
          log := s.log ++ [.dropped oldest (s.droppedCount + 1)] }
        if throws.dropped then (s, false)
        else ({ s with queue := s.queue ++ [update] }, true)
      else ({ s with queue := s.queue ++ [update] }, true)
  -- the capacity is at least one
  | [] => ({ s with queue := [update] }, true)

def data (opts : GeyserClientOptions υ) (throws : Throws) (s : Subscription υ) (update : υ) :
    Subscription υ :=
  if s.closed then s
  else
    let update := { arrival := s.received.length, update := update }
    let (s, pushed) := enqueue opts throws { s with received := s.received ++ [update] } update
    if pushed then drain opts throws s else s

def seed (s : Subscription υ) : Option Checkpoint → Subscription υ
  | some checkpoint =>
      if s.lastSlot < 0 then
        { s with lastSlot := checkpoint.lastSlot, updateCount := checkpoint.updateCount }
      else s
  | none => s

def step (opts : GeyserClientOptions υ) (s : Subscription υ) :
    Action υ → Option (Subscription υ)
  | .data update throws => some (data opts throws s update)
  | .loaded checkpoint => some (seed s checkpoint)
  | .gapSettled failed throws =>
      match s.stage with
      | .gap update slot => some (gapSettled s update slot failed throws)
      | _ => none
  | .handlerSettled failed throws =>
      match s.stage with
      | .handling update => some (handlerSettled opts s update failed throws)
      | _ => none
  | .saveSettled failed throws =>
      match s.stage with
      | .saving _ => some (saveSettled opts s failed throws)
      | _ => none
  | .close => some { s with closed := true }

end Ap3xSolana.Connectivity.GeyserClient
