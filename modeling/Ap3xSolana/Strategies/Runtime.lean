import Ap3xSolana.Strategies.Instance

/-!
# The strategy runtime

The instances, the event sources that feed their queues, and one step for
everything that can happen: a call of the public methods, an event, the start of
a queued task, or a promise a running task awaits settling.  Records live on
after `deregister`, since their queues keep running; `instances` says which of
them are registered.
-/

namespace Ap3xSolana.Strategies.Runtime

open Ap3xSolana.Core Ap3xSolana.Executor Ap3xSolana.Lib Ap3xSolana.Portfolio
open Ap3xSolana.Portfolio.Accounting Ap3xSolana.Strategies.Guards

structure StrategyRuntimeOpts where
  guards : GuardConfig := {}
  /-- The hash behind intent ids. -/
  sha256 : List UInt8 → List UInt8

/-- How far a `deregister` call has come. -/
inductive DeregisterStage where
  | draining
  | drained
  | shuttingDown
  | shutDown
  | removed
  deriving DecidableEq, Repr

structure Deregistration where
  ref : Nat
  instanceId : String
  stage : DeregisterStage := .draining
  deriving DecidableEq, Repr

/-- An output with the instance that made it. -/
structure Event where
  ref : Nat
  output : Output
  deriving DecidableEq, Repr

structure StrategyRuntime where
  records : List InstanceRecord := []
  instances : OrderedMap String Nat := .empty
  deregistrations : List Deregistration := []
  signalSubscribed : Bool := false
  resultListeners : Nat := 0
  changeListeners : Nat := 0
  /-- The intervals that still fire. -/
  intervals : List Nat := []
  tickTimer : Option Nat := none
  nextInterval : Nat := 0
  events : List Event := []

inductive Action where
  | register (strategy : Strategy) (instanceId : Option String) (now : Int)
  | deregister (instanceId : String)
  /-- A `deregister` call goes on after what it awaited. -/
  | deregisterNext (call : Nat)
  | start
  | stop
  | pause (instanceId : String)
  | resume (instanceId : String)
  | signal (sig : Signal)
  | executionResult (result : ExecutionResult)
  | positionChange (change : PositionChange)
  | tick (interval : Nat) (now : Int)
  | startTask (ref : Nat)
  | settle (ref : Nat) (reply : Reply) (now : Int)

def modifyRecord (rt : StrategyRuntime) (ref : Nat) (f : InstanceRecord → InstanceRecord) :
    StrategyRuntime :=
  { rt with records := rt.records.modify ref f }

/-- Puts back a record after a step of its task, with what the step put out. -/
def putRecord (rt : StrategyRuntime) (ref : Nat) (r : InstanceRecord × List Output) :
    StrategyRuntime :=
  { rt with
    records := rt.records.set ref r.1
    events := rt.events ++ r.2.map (Event.mk ref) }

/-! ## Lifecycle -/

/-- Registering a known id throws and changes nothing. -/
def register (opts : StrategyRuntimeOpts) (rt : StrategyRuntime) (strategy : Strategy)
    (instanceId : Option String) (now : Int) : StrategyRuntime :=
  let id := instanceId.getD strategy.name
  match rt.instances.get? id with
  | some _ => rt
  | none =>
      let record : InstanceRecord :=
        { strategy := strategy, instanceId := id, guards := .new opts.guards now }
      let record := if strategy.hasOnStart then record.enqueue (.hook .onStart) else record
      { rt with
        records := rt.records ++ [record]
        instances := rt.instances.set id rt.records.length }

/-- The drain barrier goes in first. -/
def deregister (rt : StrategyRuntime) (instanceId : String) : StrategyRuntime :=
  match rt.instances.get? instanceId with
  | none => rt
  | some ref =>
      { modifyRecord rt ref (·.enqueue (.barrier rt.deregistrations.length)) with
        deregistrations :=
          rt.deregistrations ++ [{ ref := ref, instanceId := instanceId }] }

def setStage (rt : StrategyRuntime) (call : Nat) (stage : DeregisterStage) : StrategyRuntime :=
  { rt with
    deregistrations := rt.deregistrations.modify call ({ · with stage := stage }) }

def deregisterNext (rt : StrategyRuntime) (call : Nat) : Option StrategyRuntime :=
  match rt.deregistrations[call]? with
  | none => none
  | some d =>
      let remove := { setStage rt call .removed with
        instances := rt.instances.erase d.instanceId }
      match d.stage, rt.records[d.ref]? with
      | .drained, some rec =>
          if rec.strategy.hasOnShutdown then
            some (modifyRecord (setStage rt call .shuttingDown) d.ref
              (·.enqueue (.shutdown call)))
          else some remove
      | .shutDown, _ => some remove
      | _, _ => none

/-- Subscribes again, also when already started. -/
def start (rt : StrategyRuntime) : StrategyRuntime :=
  { rt with
    signalSubscribed := true
    resultListeners := rt.resultListeners + 1
    changeListeners := rt.changeListeners + 1
    intervals := rt.intervals ++ [rt.nextInterval]
    tickTimer := some rt.nextInterval
    nextInterval := rt.nextInterval + 1 }

/-- Clears the last interval and the signal subscription. -/
def stop (rt : StrategyRuntime) : StrategyRuntime :=
  { rt with
    intervals := match rt.tickTimer with
      | none => rt.intervals
      | some timer => rt.intervals.filter (· ≠ timer)
    tickTimer := none
    signalSubscribed := false }

def setQuarantined (rt : StrategyRuntime) (instanceId : String) (value : Bool) : StrategyRuntime :=
  match rt.instances.get? instanceId with
  | none => rt
  | some ref => modifyRecord rt ref ({ · with quarantined := value })

def pause (rt : StrategyRuntime) (instanceId : String) : StrategyRuntime :=
  setQuarantined rt instanceId true

def resume (rt : StrategyRuntime) (instanceId : String) : StrategyRuntime :=
  let rt' := setQuarantined rt instanceId false
  match rt.instances.get? instanceId with
  | none => rt'
  | some ref => { rt' with events := rt.events ++ [{ ref := ref, output := .resumed }] }

/-! ## Dispatch -/

/-- Enqueues for every registered instance the tasks `tasks` gives it, in
registration order.  Quarantined instances get none. -/
def dispatch (rt : StrategyRuntime) (tasks : InstanceRecord → List Task) : StrategyRuntime :=
  rt.instances.values.foldl
    (fun rt ref => modifyRecord rt ref fun rec =>
      if rec.quarantined then rec else (tasks rec).foldl (·.enqueue ·) rec) rt

def dispatchSignal (rt : StrategyRuntime) (sig : Signal) : StrategyRuntime :=
  dispatch rt fun rec =>
    if matchesAny rec.strategy.filters sig then [.hook (.onSignal sig)] else []

def dispatchExecutionResult (rt : StrategyRuntime) (result : ExecutionResult) : StrategyRuntime :=
  dispatch rt fun rec =>
    if rec.strategy.hasOnExecutionResult then [.hook (.onExecutionResult result)] else []

/-- The balance hook goes to instances that trade with the wallet, under the name
they know it by. -/
def balanceTasks (change : PositionChange) (preAmount postAmount : Int)
    (rec : InstanceRecord) : List Task :=
  if ¬ rec.strategy.hasOnBalanceChange ∨ postAmount = preAmount then []
  else
    match rec.walletAddresses.entries.find? (·.2 = change.wallet) with
    | none => []
    | some (walletName, _) =>
        [.hook (.onBalanceChange walletName
          [{ mint := change.mint
             delta := postAmount - preAmount
             preAmount := preAmount
             postAmount := postAmount
             slot := change.after.lastUpdatedSlot }])]

def dispatchPositionChange (rt : StrategyRuntime) (change : PositionChange) : StrategyRuntime :=
  let preAmount := (change.before.map fun p => totalAmount p.lots).getD 0
  let postAmount := totalAmount change.after.lots
  dispatch rt fun rec =>
    (if rec.strategy.hasOnPositionChange then [.hook (.onPositionChange change)] else []) ++
      balanceTasks change preAmount postAmount rec

def dispatchTick (rt : StrategyRuntime) (now : Int) : StrategyRuntime :=
  dispatch rt fun rec => if rec.strategy.hasOnTick then [.hook (.onTick now)] else []

/-! ## Steps -/

def startTask (rt : StrategyRuntime) (ref : Nat) : Option StrategyRuntime :=
  match rt.records[ref]? with
  | none => none
  | some rec => rec.startTask.map (putRecord rt ref)

/-- The `deregister` call that awaits the running task, and where it goes on. -/
def awaited (rec : InstanceRecord) : Option (Nat × DeregisterStage) :=
  match rec.queue.running with
  | some (.barrier waiter) => some (waiter, .drained)
  | some (.shutdown waiter) => some (waiter, .shutDown)
  | _ => none

def settle (opts : StrategyRuntimeOpts) (rt : StrategyRuntime) (ref : Nat) (reply : Reply)
    (now : Int) : Option StrategyRuntime :=
  match rt.records[ref]? with
  | none => none
  | some rec =>
      match rec.settle opts.sha256 reply now with
      | none => none
      | some r =>
          let rt' := putRecord rt ref r
          match awaited rec with
          | none => some rt'
          | some (call, stage) => some (setStage rt' call stage)

def step (opts : StrategyRuntimeOpts) (rt : StrategyRuntime) : Action → Option StrategyRuntime
  | .register strategy instanceId now => some (register opts rt strategy instanceId now)
  | .deregister instanceId => some (deregister rt instanceId)
  | .deregisterNext call => deregisterNext rt call
  | .start => some (start rt)
  | .stop => some (stop rt)
  | .pause instanceId => some (pause rt instanceId)
  | .resume instanceId => some (resume rt instanceId)
  | .signal sig => if rt.signalSubscribed then some (dispatchSignal rt sig) else none
  | .executionResult result =>
      some ((List.replicate rt.resultListeners result).foldl dispatchExecutionResult rt)
  | .positionChange change =>
      some ((List.replicate rt.changeListeners change).foldl dispatchPositionChange rt)
  | .tick interval now =>
      if interval ∈ rt.intervals then some (dispatchTick rt now) else none
  | .startTask ref => startTask rt ref
  | .settle ref reply now => settle opts rt ref reply now

end Ap3xSolana.Strategies.Runtime
