import Ap3xSolana.Lib.RecentKeys
import Ap3xSolana.Lib.Run
import Ap3xSolana.Signals.Signal

/-!
# `SignalQueue`

A bounded buffer behind a memory of recent ids, and a loop that takes one signal off it at a time
and awaits the handlers of the subscribers, one after the other.  The subscriptions are numbered,
so the live iteration over the map goes on with the first one born after the one it has awaited.
A handler that calls the queue back finds it as it is while the loop awaits it.

The last five fields of the state record what has happened.
-/

namespace Ap3xSolana.Signals.SignalQueue

open Ap3xSolana.Lib

variable {δ : Type}

structure SignalQueueOpts where
  capacity : Int := 10000
  dedupWindow : Int := 5000
  dedupTtlMs : Int := 600000
  deriving DecidableEq, Repr

def SignalQueueOpts.dedup (opts : SignalQueueOpts) : RecentKeys.Options :=
  { window := opts.dedupWindow, ttl := opts.dedupTtlMs }

/-- A signal, and which `push` call brought it. -/
structure Pushed (δ : Type) where
  number : Nat
  signal : Signal δ

structure Subscriber where
  birth : Nat
  name : String
  handler : Nat
  deriving DecidableEq, Repr

/-- `handler(sig)`. -/
structure HandlerCall (δ : Type) where
  pushed : Pushed δ
  subscriber : Subscriber

inductive Fate where
  | delivered
  | dropped
  deriving DecidableEq, Repr

/-- A `dispatch` call that is in its loop, and the handler it awaits. -/
structure Dispatching (δ : Type) where
  loop : Nat
  call : HandlerCall δ

inductive DrainStage where
  /-- `setImmediate`. -/
  | immediate
  /-- `await this.dispatch()`: none where another call is in the loop and this one has returned. -/
  | dispatched (loop : Option Nat)
  | resolved
  | rejected
  deriving DecidableEq, Repr

/-- A `drain` call, and the signals that were accepted before it. -/
structure Drain (δ : Type) where
  before : List (Pushed δ)
  stage : DrainStage

structure QueueState (δ : Type) where
  buffer : List (Pushed δ) := []
  subscribers : List Subscriber := []
  births : Nat := 0
  dedup : OrderedMap String Int := .empty
  dispatching : Option (Dispatching δ) := none
  loops : Nat := 0
  /-- The `dispatch` calls that have rejected. -/
  crashed : List Nat := []
  drains : List (Drain δ) := []
  /-- The ids that were pushed, and whether the memory let them pass. -/
  history : RecentKeys.History String := []
  accepted : List (Pushed δ) := []
  /-- What has left the buffer. -/
  taken : List (Pushed δ × Fate) := []
  calls : List (HandlerCall δ) := []
  settled : List (HandlerCall δ) := []

/-! ## The loop -/

def callHandler (q : QueueState δ) (loop : Nat) (pushed : Pushed δ) (s : Subscriber) :
    QueueState δ :=
  { q with
    dispatching := some { loop := loop, call := { pushed := pushed, subscriber := s } }
    calls := q.calls ++ [{ pushed := pushed, subscriber := s }] }

/-- `this.buffer.shift()`. -/
def shift (q : QueueState δ) (fate : Fate) : QueueState δ :=
  match q.buffer with
  | [] => q
  | pushed :: buffer => { q with buffer := buffer, taken := q.taken ++ [(pushed, fate)] }

/-- The head of the loop. -/
def dispatchLoop (q : QueueState δ) (loop : Nat) : QueueState δ :=
  match q.buffer, q.subscribers with
  | pushed :: _, s :: _ => callHandler (shift q .delivered) loop pushed s
  | _, _ => { q with dispatching := none }

def dispatch (q : QueueState δ) : QueueState δ :=
  if q.dispatching.isSome then q else dispatchLoop { q with loops := q.loops + 1 } q.loops

/-- The loop goes on when the handler that it awaits has settled. -/
def nextSubscriber (q : QueueState δ) (d : Dispatching δ) : QueueState δ :=
  match q.subscribers.find? (d.call.subscriber.birth < ·.birth) with
  | some s => callHandler q d.loop d.call.pushed s
  | none => dispatchLoop q d.loop

/-- A listener of `handler-error` that throws ends the `dispatch` call. -/
def settleHandler (q : QueueState δ) (d : Dispatching δ) (failed throws : Bool) : QueueState δ :=
  let q := { q with settled := q.settled ++ [d.call] }
  if failed && throws then { q with dispatching := none, crashed := q.crashed ++ [d.loop] }
  else nextSubscriber q d

/-! ## The calls -/

/-- A name that is there keeps its place. -/
def setSubscriber (q : QueueState δ) (name : String) (handler : Nat) : List Subscriber :=
  if q.subscribers.any (·.name = name) then
    q.subscribers.map fun s => if s.name = name then { s with handler := handler } else s
  else q.subscribers ++ [{ birth := q.births, name := name, handler := handler }]

def subscribe (q : QueueState δ) (name : String) (handler : Nat) : QueueState δ :=
  dispatch { q with subscribers := setSubscriber q name handler, births := q.births + 1 }

def unsubscribe (q : QueueState δ) (name : String) : QueueState δ :=
  { q with subscribers := q.subscribers.filter (·.name ≠ name) }

def enqueue (q : QueueState δ) (pushed : Pushed δ) : QueueState δ :=
  { q with buffer := q.buffer ++ [pushed], accepted := q.accepted ++ [pushed] }

/-- The memory of ids after an offer, and the offer in the history. -/
def offered (opts : SignalQueueOpts) (q : QueueState δ) (o : RecentKeys.Offer String) :
    QueueState δ :=
  { q with
    dedup := (RecentKeys.offer opts.dedup q.dedup o).1
    history := q.history ++ [(o, (RecentKeys.offer opts.dedup q.dedup o).2)] }

/-- `throws` is a listener of `overflow`: the signal is then lost before it is accepted. -/
def push (opts : SignalQueueOpts) (q : QueueState δ) (signal : Signal δ) (sweptAt storedAt : Int)
    (throws : Bool) : QueueState δ :=
  let o : RecentKeys.Offer String :=
    { key := signal.signalId, sweptAt := sweptAt, storedAt := storedAt }
  let pushed : Pushed δ := { number := q.history.length, signal := signal }
  if (RecentKeys.offer opts.dedup q.dedup o).2 then
    if opts.capacity ≤ q.buffer.length then
      if throws then shift (offered opts q o) .dropped
      else dispatch (enqueue (shift (offered opts q o) .dropped) pushed)
    else dispatch (enqueue (offered opts q o) pushed)
  else offered opts q o

/-- `this.buffer.length > 0 && this.subscribers.size > 0`. -/
def hasWork (q : QueueState δ) : Bool := !q.buffer.isEmpty && !q.subscribers.isEmpty

def headOfDrain (q : QueueState δ) : DrainStage := if hasWork q then .immediate else .resolved

def drain (q : QueueState δ) : QueueState δ :=
  { q with drains := q.drains ++ [{ before := q.accepted, stage := headOfDrain q }] }

def setDrain (q : QueueState δ) (i : Nat) (d : Drain δ) (stage : DrainStage) : QueueState δ :=
  { q with drains := q.drains.set i { d with stage := stage } }

/-- `setImmediate` has fired. -/
def drainImmediate (q : QueueState δ) (i : Nat) (d : Drain δ) : QueueState δ :=
  setDrain (dispatch q) i d
    (.dispatched (if q.dispatching.isSome then none else some q.loops))

/-- The `dispatch` call that the drain awaits is in its loop. -/
def inLoop (q : QueueState δ) (loop : Option Nat) : Bool :=
  loop.isSome && loop == q.dispatching.map (·.loop)

/-- `dispatch` has settled. -/
def drainDispatched (q : QueueState δ) (i : Nat) (d : Drain δ) (loop : Option Nat) :
    QueueState δ :=
  setDrain q i d (if loop.any (q.crashed.contains ·) then .rejected else headOfDrain q)

inductive QueueAction (δ : Type) where
  | push (signal : Signal δ) (sweptAt storedAt : Int) (throws : Bool)
  | subscribe (name : String) (handler : Nat)
  | unsubscribe (name : String)
  /-- The handler that the loop awaits returns, throws or settles its promise. -/
  | handlerSettled (failed throws : Bool)
  | drain
  | drainImmediate (i : Nat)
  | drainDispatched (i : Nat)

def step (opts : SignalQueueOpts) (q : QueueState δ) : QueueAction δ → Option (QueueState δ)
  | .push signal sweptAt storedAt throws => some (push opts q signal sweptAt storedAt throws)
  | .subscribe name handler => some (subscribe q name handler)
  | .unsubscribe name => some (unsubscribe q name)
  | .handlerSettled failed throws =>
      match q.dispatching with
      | some d => some (settleHandler q d failed throws)
      | none => none
  | .drain => some (drain q)
  | .drainImmediate i =>
      match q.drains[i]? with
      | some ⟨before, .immediate⟩ => some (drainImmediate q i ⟨before, .immediate⟩)
      | _ => none
  | .drainDispatched i =>
      match q.drains[i]? with
      | some ⟨before, .dispatched loop⟩ =>
          if inLoop q loop then none
          else some (drainDispatched q i ⟨before, .dispatched loop⟩ loop)
      | _ => none

end Ap3xSolana.Signals.SignalQueue
