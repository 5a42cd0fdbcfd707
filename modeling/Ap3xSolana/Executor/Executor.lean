import Ap3xSolana.Executor.Execution
import Ap3xSolana.Lib.Grouping
import Ap3xSolana.Lib.OrderedMap
import Ap3xSolana.Lib.Run

/-!
# The executor

All intents in flight, the bundles they wait in and the bundle submissions under
way, with one step for everything that can happen.  Entries of one group wait for
company in a `BundleAccumulator`: a group is flushed when it is full or when its window
timer fires.  `owner` is the execution whose promise an entry settles.

Steps carry the time at which they happen; the clock never goes back.  What becomes of a
transaction once a submitter has been called with it is not the executor's: `land` lets
any such transaction land at any later time, whatever the submitter answered.
-/

namespace Ap3xSolana.Executor

open Ap3xSolana.Lib

structure PendingEntry where
  entry : BundleEntry
  owner : Nat
  deriving DecidableEq, Repr

structure Accumulator where
  entries : List PendingEntry := []
  timer : Option Nat := none
  deriving DecidableEq, Repr

structure BundleAccumulator where
  groups : OrderedMap String Accumulator := .empty
  /-- The timers that have neither fired nor been cleared, with their group. -/
  timers : List (Nat × String) := []
  nextTimer : Nat := 0

namespace BundleAccumulator

def clearTimer (b : BundleAccumulator) (timer : Option Nat) : BundleAccumulator :=
  { b with timers := b.timers.filter fun t => some t.1 ≠ timer }

/-- The entries of the group, which is gone afterwards; none when it is unknown or
empty. -/
def flush (b : BundleAccumulator) (group : String) :
    BundleAccumulator × Option (List PendingEntry) :=
  match b.groups.get? group with
  | none => (b, none)
  | some acc =>
      if acc.entries = [] then (b, none)
      else
        ({ b with groups := b.groups.erase group }.clearTimer acc.timer, some acc.entries)

/-- Adds an entry; the batch that this completes, if any. -/
def add (maxPerBundle : Int) (b : BundleAccumulator) (group : String)
    (entry : PendingEntry) : BundleAccumulator × Option (List PendingEntry) :=
  let acc := (b.groups.get? group).getD {}
  let acc := { acc with entries := acc.entries ++ [entry] }
  if (acc.entries.length : Int) ≥ maxPerBundle then
    flush ({ b with groups := b.groups.set group acc }.clearTimer acc.timer) group
  else
    match acc.timer with
    | some _ => ({ b with groups := b.groups.set group acc }, none)
    | none =>
        ({ groups := b.groups.set group { acc with timer := some b.nextTimer }
           timers := b.timers ++ [(b.nextTimer, group)]
           nextTimer := b.nextTimer + 1 }, none)

/-- The window timer fires; `none` when there is no such timer. -/
def fire (b : BundleAccumulator) (timer : Nat) :
    Option (BundleAccumulator × Option (List PendingEntry)) :=
  match b.timers.find? (·.1 = timer) with
  | none => none
  | some (_, group) => some (flush (b.clearTimer (some timer)) group)

end BundleAccumulator

open Ap3xSolana.Core Ap3xSolana.Lib Ap3xSolana.Lib.Grouping

/-- A `#flushBundle` call that awaits `current.submit`. -/
structure Flush where
  entries : List PendingEntry
  current : Submitter
  rest : List Submitter
  errors : List String := []
  deriving DecidableEq, Repr

/-- An output with the execution that made it and the time. -/
structure Event where
  exec : Nat
  time : Int
  output : Output
  deriving DecidableEq, Repr

structure State where
  inFlight : OrderedMap String Nat := .empty
  executions : List Execution := []
  bundles : BundleAccumulator := {}
  /-- `none` once the flush is over. -/
  flushes : List (Option Flush) := []
  lastBundleSubmitter : Option String := none
  /-- The results of calls that were refused before anything started. -/
  refused : List ExecutionResult := []
  now : Int := 0
  events : List Event := []

inductive ActionKind where
  | submit (intent : TradeIntent)
  | settle (exec : Nat) (reply : Reply)
  | timer (timer : Nat)
  | flushed (flush : Nat) (outcome : Except String Unit)
  | resume (exec : Nat)
  | release (exec : Nat)
  | land (exec : Nat) (signedTx : List UInt8)

/-- Something happens, with what the code reads when it does. -/
structure Action where
  kind : ActionKind
  env : Readings

def log (time : Int) (exec : Nat) (out : List Output) : List Event :=
  out.map fun o => { exec := exec, time := time, output := o }

/-! ## Bundles -/

/-- Settles the promise of every entry, each with its own outcome. -/
def deliver (st : State) (entries : List (PendingEntry × Except ThrownError String)) :
    State :=
  { st with
    executions := entries.foldl (fun xs (e, outcome) =>
      xs.modify e.owner fun x =>
        match x.running with
        | .bundle signedTx name => { x with running := .bundled signedTx name outcome }
        | _ => x) st.executions }

def deliverError (st : State) (entries : List PendingEntry) (err : ThrownError) : State :=
  deliver st (entries.map fun e => (e, .error err))

/-- The healthy Jito submitters, in fallback order, each once. -/
def jitoSubmitters (opts : ExecutorOpts) (unhealthy : List Nat) : List Submitter :=
  let kinds : List SubmitterKind := opts.fallbackChain ++ [.jitoGrpc, .jitoHttp]
  firstSeen ((kinds.filter (·.isJito)).flatMap (healthyOf opts unhealthy))

/-- Calls `current.submit` with the bundle. -/
def submitBundle (st : State) (entries : List PendingEntry) (current : Submitter) :
    List Event :=
  entries.flatMap fun e => log st.now e.owner [.submit current e.entry.signedTx]

def flushFailed (errors : List String) : ThrownError :=
  .other ("bundle submission failed: " ++
    if errors = [] then "no healthy Jito submitter" else "; ".intercalate errors)

/-- `#flushBundle` up to its first `await`. -/
def startFlush (opts : ExecutorOpts) (st : State) (unhealthy : List Nat)
    (entries : List PendingEntry) : State :=
  if ¬ entries.any (·.entry.tipped) then deliverError st entries .bundleWithoutTip
  else
    match jitoSubmitters opts unhealthy with
    | [] => deliverError st entries (flushFailed [])
    | current :: rest =>
        { st with
          flushes := st.flushes ++ [some { entries := entries, current := current, rest := rest }]
          events := st.events ++ submitBundle st entries current }

def startFlushIf (opts : ExecutorOpts) (st : State) (unhealthy : List Nat) :
    Option (List PendingEntry) → State
  | none => st
  | some entries => startFlush opts st unhealthy entries

/-- Bytes 1..65 after the count. -/
def transactionSignature (signedTx : List UInt8) : Except ThrownError String :=
  if signedTx.length < 65 ∨ signedTx[0]? = some 0 then
    .error (.other "signed transaction is too short to carry a signature")
  else .ok (Base58.encode ((signedTx.drop 1).take 64))

/-- The submitter took the bundle: each entry gets its own signature, unless one of
them has none. -/
def flushDone (st : State) (f : Nat) (flush : Flush) : State :=
  let st := { st with
    flushes := st.flushes.set f none
    lastBundleSubmitter := some flush.current.name }
  match flush.entries.mapM fun e => transactionSignature e.entry.signedTx with
  | .error err => deliverError st flush.entries err
  | .ok sigs => deliver st (flush.entries.zip (sigs.map .ok))

/-- The submitter threw: on to the next one. -/
def flushThrew (st : State) (f : Nat) (flush : Flush) (message : String) : State :=
  let errors := flush.errors ++ [s!"{flush.current.name}: {message}"]
  match flush.rest with
  | [] =>
      deliverError { st with flushes := st.flushes.set f none } flush.entries
        (flushFailed errors)
  | current :: rest =>
      { st with
        flushes := st.flushes.set f
          (some { flush with current := current, rest := rest, errors := errors })
        events := st.events ++ submitBundle st flush.entries current }

/-! ## Steps -/

/-- Hands the bundle entries among the outputs to the accumulator. -/
def addBundles (opts : ExecutorOpts) (st : State) (exec : Nat) (unhealthy : List Nat)
    (out : List Output) : State :=
  out.foldl (fun st o =>
    match o with
    | .addToBundle group entry =>
        let (bundles, batch) := st.bundles.add opts.bundleMaxIntents group
          { entry := entry, owner := exec }
        startFlushIf opts { st with bundles := bundles } unhealthy batch
    | _ => st) st

/-- Puts back an execution after a step of it, with what the step put out. -/
def putExecution (opts : ExecutorOpts) (st : State) (exec : Nat) (unhealthy : List Nat)
    (r : Execution × List Output) : State :=
  addBundles opts { st with
    executions := st.executions.set exec r.1
    events := st.events ++ log st.now exec r.2 } exec unhealthy r.2

/-- `Executor.submit`: a duplicate shares the slot of the intent in flight. -/
def submit (opts : ExecutorOpts) (st : State) (intent : TradeIntent)
    (unhealthy : List Nat) : State :=
  if (bundleGroup intent).isSome ∧ ¬ hasJito opts unhealthy then
    { st with
      refused := st.refused ++ [rejected intent none "no_jito_submitter_for_bundle"
        "bundleGroup requires a healthy Jito submitter; none configured"] }
  else
    match st.inFlight.get? intent.intentId with
    | some _ => st
    | none =>
        let exec := st.executions.length
        let (x, out) := Execution.begin intent
        { st with
          executions := st.executions ++ [x]
          inFlight := st.inFlight.set intent.intentId exec
          events := st.events ++ log st.now exec out }

/-- `.finally(() => this.map.delete(key))`. -/
def release (st : State) (exec : Nat) : Option State :=
  match st.executions[exec]? with
  | some x =>
      match x.running with
      | .settled _ =>
          if st.inFlight.get? x.intent.intentId = some exec then
            some { st with inFlight := st.inFlight.erase x.intent.intentId }
          else none
      | _ => none
  | none => none

/-- The transaction was handed to a submitter for this execution. -/
def handedOver (st : State) (exec : Nat) (signedTx : List UInt8) : Bool :=
  st.events.any fun e => e.exec = exec &&
    match e.output with
    | .submit _ tx => tx = signedTx
    | _ => false

def settleStep (opts : ExecutorOpts) (st : State) (exec : Nat) (reply : Reply)
    (env : Readings) : Option State :=
  match st.executions[exec]? with
  | none => none
  | some x => (x.settle opts reply env).map (putExecution opts st exec env.unhealthy)

def resumeStep (opts : ExecutorOpts) (st : State) (exec : Nat) (env : Readings) :
    Option State :=
  match st.executions[exec]? with
  | none => none
  | some x =>
      (x.resume st.lastBundleSubmitter env).map (putExecution opts st exec env.unhealthy)

def flushedStep (st : State) (f : Nat) (outcome : Except String Unit) : Option State :=
  match st.flushes[f]?, outcome with
  | some (some flush), .ok () => some (flushDone st f flush)
  | some (some flush), .error message => some (flushThrew st f flush message)
  | _, _ => none

def stepAt (opts : ExecutorOpts) (st : State) (a : Action) : Option State :=
  match a.kind with
  | .submit intent => some (submit opts st intent a.env.unhealthy)
  | .settle exec reply => settleStep opts st exec reply a.env
  | .timer timer =>
      (st.bundles.fire timer).map fun (bundles, batch) =>
        startFlushIf opts { st with bundles := bundles } a.env.unhealthy batch
  | .flushed f outcome => flushedStep st f outcome
  | .resume exec => resumeStep opts st exec a.env
  | .release exec => release st exec
  | .land exec signedTx =>
      if handedOver st exec signedTx then
        some { st with events := st.events ++ log st.now exec [.landed signedTx] }
      else none

def step (opts : ExecutorOpts) (st : State) (a : Action) : Option State :=
  if st.now ≤ a.env.now then stepAt opts { st with now := a.env.now } a else none

end Ap3xSolana.Executor
