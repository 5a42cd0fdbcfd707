import Ap3xSolana.Strategies.Guards
import Ap3xSolana.Strategies.LandedTradeAdapter
import Ap3xSolana.Strategies.Strategy

/-!
# One registered instance

`InstanceQueue` chains every task behind the one before it: tasks run one at a
time, in the order in which they were enqueued, and the outcome of one has no
effect on the next.  `τ` is a task, `ρ` what a task that has started waits for.

The record the runtime keeps of an instance has such a queue.  A task runs from one
`await` to the next: `Running` names the promise it waits for, `settle` is what happens
once that promise settles.
-/

namespace Ap3xSolana.Strategies

structure InstanceQueue (τ ρ : Type) where
  waiting : List τ := []
  running : Option ρ := none
  deriving DecidableEq, Repr

namespace InstanceQueue

variable {τ ρ : Type}

/-- Never starts the task: the chain goes on in a later turn, also when idle. -/
def enqueue (q : InstanceQueue τ ρ) (task : τ) : InstanceQueue τ ρ :=
  { q with waiting := q.waiting ++ [task] }

/-- The next task of an idle queue. -/
def next (q : InstanceQueue τ ρ) : Option (τ × List τ) :=
  match q.running, q.waiting with
  | none, task :: waiting => some (task, waiting)
  | _, _ => none

/-- The running task goes on to wait for `next`. -/
def await (q : InstanceQueue τ ρ) (next : ρ) : InstanceQueue τ ρ :=
  { q with running := some next }

/-- The running task is over, whether it returned or threw. -/
def done (q : InstanceQueue τ ρ) : InstanceQueue τ ρ := { q with running := none }

@[simp] theorem enqueue_running (q : InstanceQueue τ ρ) (task : τ) :
    (q.enqueue task).running = q.running := rfl

@[simp] theorem await_running (q : InstanceQueue τ ρ) (next : ρ) :
    (q.await next).running = some next := rfl

@[simp] theorem done_running (q : InstanceQueue τ ρ) : q.done.running = none := rfl

theorem next_idle {q : InstanceQueue τ ρ} {t : τ × List τ} (h : q.next = some t) :
    q.running = none := by
  unfold next at h
  split at h
  · assumption
  · cases h

end InstanceQueue

end Ap3xSolana.Strategies

/-! ## The record -/

namespace Ap3xSolana.Strategies

open Ap3xSolana.Core Ap3xSolana.Executor Ap3xSolana.Lib Ap3xSolana.Portfolio
open Ap3xSolana.Strategies.Guards Ap3xSolana.Strategies.IntentId
open Ap3xSolana.Strategies.LandedTradeAdapter

/-- What the runtime enqueues.  `waiter` is the `deregister` call that awaits the
task. -/
inductive Task where
  | hook (call : HookCall)
  | barrier (waiter : Nat)
  | shutdown (waiter : Nat)
  deriving DecidableEq, Repr

/-- The promise a started task awaits. -/
inductive Running where
  | hook (call : HookCall)
  | barrier (waiter : Nat)
  | shutdown (waiter : Nat)
  | address (intent : TradeIntent)
  | submit (intent : TradeIntent) (wallet : PublicKey)
  | adapt (result : ExecutionResult) (wallet : PublicKey)
  | realizedBefore (trade : LandedTrade) (rest : List LandedTrade) (wallet : PublicKey)
  | apply (trade : LandedTrade) (rest : List LandedTrade) (wallet : PublicKey)
      (before : Int)
  | realizedAfter (rest : List LandedTrade) (wallet : PublicKey) (before : Int)
  | positions (wallet : PublicKey)
  deriving DecidableEq, Repr

/-- How an awaited promise settles. -/
inductive Reply where
  | threw
  | done
  | decided (decision : Option TradeIntent)
  | address (key : PublicKey)
  | executed (result : ExecutionResult)
  | transaction (raw : Option SolanaTransactionResponse)
  | realized (total : Int)
  | positions (ps : List Position)

/-- What an instance does that others can see. -/
inductive Output where
  | hook (call : HookCall)
  | submit (intent : TradeIntent)
  | applyLandedTrade (trade : LandedTrade)
  | recordRealized (amount : Int)
  | tripped (trip : GuardTrip)
  | resumed
  | strategyError (phase : HookPhase)
  | rejected
  deriving DecidableEq, Repr

structure InstanceRecord where
  strategy : Strategy
  instanceId : String
  queue : InstanceQueue Task Running := {}
  guards : GuardTracker
  quarantined : Bool := false
  walletAddresses : OrderedMap String PublicKey := .empty

namespace InstanceRecord

variable (sha256 : List UInt8 → List UInt8)

def enqueue (r : InstanceRecord) (task : Task) : InstanceRecord :=
  { r with queue := r.queue.enqueue task }

def await (r : InstanceRecord) (next : Running) : InstanceRecord :=
  { r with queue := r.queue.await next }

def done (r : InstanceRecord) : InstanceRecord := { r with queue := r.queue.done }

/-- The task's promise rejects; whoever enqueued it has dropped that promise. -/
def fail (r : InstanceRecord) : InstanceRecord × List Output := (r.done, [.rejected])

/-- Idempotent.  The shutdown hook runs beside the queue. -/
def tripGuard (r : InstanceRecord) (trip : GuardTrip) : InstanceRecord × List Output :=
  if r.quarantined then (r, [])
  else
    ({ r with quarantined := true },
      .tripped trip ::
        if r.strategy.hasOnShutdown then [.hook .onShutdown] else [])

def tripIf (r : InstanceRecord) : Option GuardTrip → InstanceRecord × List Output
  | none => (r, [])
  | some trip => r.tripGuard trip

/-- The `catch` of `callHook`; the task goes on with `undefined`. -/
def hookThrew (r : InstanceRecord) (phase : HookPhase) (now : Int) :
    InstanceRecord × List Output :=
  let (guards, trip) := r.guards.recordError now
  let (r, out) := { r with guards := guards }.tripIf trip
  (r.done, out ++ [.strategyError phase])

/-- `executor.submit`, from inside the queue. -/
def submit (r : InstanceRecord) (intent : TradeIntent) (wallet : PublicKey) :
    InstanceRecord × List Output :=
  (r.await (.submit intent wallet), [.submit intent])

/-- The decision with its deterministic intent id. -/
def fullIntent (r : InstanceRecord) (sig : Signal) (decision : TradeIntent) :
    TradeIntent :=
  { decision with
    intentId := intentId sha256
      { signalId := sig.signalId
        strategyName := r.strategy.name
        instanceId := r.instanceId } }

/-- From an `onSignal` decision to the submission, or to the wallet lookup when
the wallet is used for the first time. -/
def decided (r : InstanceRecord) (sig : Signal) (decision : TradeIntent) (now : Int) :
    InstanceRecord × List Output :=
  let (guards, trip) := r.guards.recordDecision now
  let r := { r with guards := guards }
  match trip with
  | some trip =>
      let (r, out) := r.tripGuard trip
      (r.done, out)
  | none =>
      let intent := r.fullIntent sha256 sig decision
      match r.walletAddresses.get? intent.wallet with
      | some wallet => r.submit intent wallet
      | none => (r.await (.address intent), [])

/-- On to the next trade; after the last one, to the open positions. -/
def nextTrade (r : InstanceRecord) (wallet : PublicKey) :
    List LandedTrade → InstanceRecord
  | [] => r.await (.positions wallet)
  | trade :: rest => r.await (.realizedBefore trade rest wallet)

def adapted (r : InstanceRecord) (wallet : PublicKey) :
    List LandedTrade → InstanceRecord
  | [] => r.done
  | trades => r.nextTrade wallet trades

/-- A loss that trips a guard leaves the rest of the trades alone. -/
def realized (r : InstanceRecord) (rest : List LandedTrade) (wallet : PublicKey)
    (amount now : Int) : InstanceRecord × List Output :=
  let (guards, trip) := r.guards.recordRealized now amount
  let r := { r with guards := guards }
  match trip with
  | some trip =>
      let (r, out) := r.tripGuard trip
      (r.done, .recordRealized amount :: out)
  | none => (r.nextTrade wallet rest, [.recordRealized amount])

def checkPositions (r : InstanceRecord) (ps : List Position) :
    InstanceRecord × List Output :=
  let (r, out) := r.tripIf (r.guards.checkOpenPositions (ps.filter (·.isOpen)).length)
  (r.done, out)

/-- The first steps of a task, up to its first `await`. -/
def begin (r : InstanceRecord) (task : Task) : InstanceRecord × List Output :=
  match task with
  | .hook call => (r.await (.hook call), [.hook call])
  | .barrier waiter => (r.await (.barrier waiter), [])
  | .shutdown waiter => (r.await (.shutdown waiter), [.hook .onShutdown])

/-- The chain runs the next task. -/
def startTask (r : InstanceRecord) : Option (InstanceRecord × List Output) :=
  match r.queue.next with
  | none => none
  | some (task, waiting) =>
      some ({ r with queue := { r.queue with waiting := waiting } }.begin task)

/-- The awaited promise settles with `reply`; `now` is what the clock reads when
the tracker asks for it. -/
def settle (r : InstanceRecord) (reply : Reply) (now : Int) :
    Option (InstanceRecord × List Output) :=
  match r.queue.running, reply with
  | some (.barrier _), .done => some (r.done, [])
  | some (.hook (.onSignal _)), .done => none
  | some (.hook (.onSignal _)), .decided none => some (r.done, [])
  | some (.hook (.onSignal sig)), .decided (some decision) =>
      some (r.decided sha256 sig decision now)
  | some (.hook _), .done => some (r.done, [])
  | some (.hook call), .threw => some (r.hookThrew call.phase now)
  | some (.shutdown _), .done => some (r.done, [])
  | some (.shutdown _), .threw => some (r.hookThrew .onShutdown now)
  | some (.address intent), .address wallet =>
      some ({ r with walletAddresses := r.walletAddresses.set intent.wallet wallet }.submit
        intent wallet)
  | some (.submit _ wallet), .executed result => some (r.await (.adapt result wallet), [])
  | some (.adapt result wallet), .transaction raw =>
      match adaptToLandedTrades result wallet raw with
      | .error _ => some r.fail
      | .ok trades => some (r.adapted wallet trades, [])
  | some (.realizedBefore trade rest wallet), .realized before =>
      some (r.await (.apply trade rest wallet before), [.applyLandedTrade trade])
  | some (.apply _ rest wallet before), .done =>
      some (r.await (.realizedAfter rest wallet before), [])
  | some (.realizedAfter rest wallet before), .realized after =>
      some (r.realized rest wallet (after - before) now)
  | some (.positions _), .positions ps => some (r.checkPositions ps)
  | some (.barrier _), .threw => none
  | some _, .threw => some r.fail
  | _, _ => none

end InstanceRecord

end Ap3xSolana.Strategies
