import Ap3xSolana.Connectivity.HealthState
import Mathlib.Data.List.Rotate

/-!
# The RPC pool

`RpcPool.call` picks an endpoint, sends, and on a transport failure waits and tries again,
up to `attempts` sends.  A call runs from one `await` to the next, and several calls are
under way at a time; how a send ends is up to the endpoint.
-/

namespace Ap3xSolana.Connectivity

/-- What `classifyError` makes of what a send throws. -/
inductive ErrorClass where
  | rpcMethod
  | rateLimited
  | timeout
  | http
  | circuitOpen
  | parse
  | network
  deriving DecidableEq, Repr

inductive SendOutcome where
  | ok
  | threw (errorClass : ErrorClass)
  deriving DecidableEq, Repr

/-- The promise a call awaits, or how it ended.  `probe` marks a send that `takeProbe`
granted. -/
inductive CallPhase where
  | sent (endpoint : Nat) (probe : Bool)
  | backoff
  | resolved
  | rejected (errorClass : ErrorClass)
  deriving DecidableEq, Repr

/-- The locals of `call`. -/
structure RpcCall where
  attempt : Nat := 1
  retryCount : Nat := 0
  lastState : Option Nat := none
  phase : CallPhase
  deriving DecidableEq, Repr

structure RpcMetricEvent where
  endpoint : Nat
  healthState : HealthStateName
  errorClass : Option ErrorClass
  retryCount : Nat
  deriving DecidableEq, Repr

/-- What happens to the endpoints, in order. -/
inductive PoolEvent where
  | sent (call endpoint : Nat) (probe : Bool)
  /-- `takeProbe` granted a probe, with this cooldown in force. -/
  | granted (endpoint now cooldownMs : Nat)
  | failed (endpoint call : Nat) (probe : Bool)
  | becameUnhealthy (endpoint : Nat)
  | metrics (event : RpcMetricEvent)
  deriving DecidableEq, Repr

structure RpcPool where
  /-- `retry.attempts`. -/
  attempts : Nat := 3
  states : List HealthState
  cursor : Nat := 0
  calls : List RpcCall := []
  clock : Nat := 0
  events : List PoolEvent := []
  deriving DecidableEq, Repr

inductive PoolAction where
  | elapse (ms : Nat)
  | call
  | settle (call : Nat) (outcome : SendOutcome)
  /-- The backoff of a call is over. -/
  | retry (call : Nat)
  deriving DecidableEq, Repr

namespace RpcPool

def emit (p : RpcPool) (es : List PoolEvent) : RpcPool := { p with events := p.events ++ es }

def health (p : RpcPool) (i : Nat) : HealthState := (p.states[i]?).getD {}

/-! ## Picking an endpoint -/

/-- The indices in the order in which a pass visits them. -/
def order (p : RpcPool) : List Nat :=
  (List.range p.states.length).map fun i => (p.cursor + i) % p.states.length

theorem order_eq_rotate (p : RpcPool) :
    p.order = (List.range p.states.length).rotate p.cursor := by
  apply List.ext_getElem
  · rw [order, List.length_map, List.length_rotate]
  · intro k _ _
    simp only [order, List.getElem_map, List.getElem_range, List.getElem_rotate,
      List.length_range, Nat.add_comm]

theorem mem_order_iff {p : RpcPool} {i : Nat} : i ∈ p.order ↔ i < p.states.length := by
  rw [order_eq_rotate, List.mem_rotate, List.mem_range]

def inState (p : RpcPool) (name : HealthStateName) (i : Nat) : Bool :=
  (p.health i).state = name

/-- The pass over the endpoints in one state. -/
def firstIn (p : RpcPool) (name : HealthStateName) : Option Nat := p.order.find? (p.inState name)

def advance (p : RpcPool) (i : Nat) : RpcPool :=
  { p with cursor := (i + 1) % p.states.length }

/-- The last pass: the first endpoint that grants a probe. -/
def probeFirst (p : RpcPool) : List Nat → Option (RpcPool × Nat)
  | [] => none
  | i :: is =>
      match (p.health i).takeProbe p.clock with
      | (h, true) =>
          some ({ p with states := p.states.set i h }.emit
            [.granted i p.clock (p.health i).cooldownMs], i)
      | (_, false) => probeFirst p is

/-- The endpoint, and whether it was granted as a probe. -/
def pickEndpoint (p : RpcPool) : RpcPool × Option (Nat × Bool) :=
  match p.firstIn .healthy with
  | some i => (p.advance i, some (i, false))
  | none =>
      match p.firstIn .degraded with
      | some i => (p.advance i, some (i, false))
      | none =>
          match p.probeFirst p.order with
          | some (p, i) => (p.advance i, some (i, true))
          | none => (p, none)

/-! ## A call -/

def setHealth (p : RpcPool) (i : Nat) (h : HealthState) : RpcPool :=
  { p with states := p.states.set i h }

def setCall (p : RpcPool) (c : Nat) (call : RpcCall) : RpcPool :=
  { p with calls := p.calls.set c call }

def emitMetrics (p : RpcPool) (endpoint : Nat) (errorClass : Option ErrorClass)
    (retryCount : Nat) : RpcPool :=
  p.emit [.metrics
    { endpoint := endpoint
      healthState := (p.health endpoint).state
      errorClass := errorClass
      retryCount := retryCount }]

/-- The end of `call`, after the loop. -/
def exhausted (p : RpcPool) (c : Nat) (call : RpcCall) (errorClass : ErrorClass) : RpcPool :=
  (p.setCall c { call with phase := .rejected errorClass }).emitMetrics
    (call.lastState.getD 0) (some errorClass) call.retryCount

/-- The top of the loop, up to the send. -/
def attempt (p : RpcPool) (c : Nat) (call : RpcCall) : RpcPool :=
  match p.pickEndpoint with
  | (p, none) => p.exhausted c call .circuitOpen
  | (p, some (i, probe)) =>
      (p.setCall c { call with phase := .sent i probe }).emit [.sent c i probe]

/-- Without an attempt there is nothing to wait for. -/
def start (p : RpcPool) : RpcPool :=
  let c := p.calls.length
  let call : RpcCall := { phase := .rejected .network }
  let p := { p with calls := p.calls ++ [call] }
  if p.attempts = 0 then p.exhausted c call .network else p.attempt c call

/-- A send succeeded, or failed with a method error, which is the same to the endpoint. -/
def succeeded (p : RpcPool) (c : Nat) (call : RpcCall) (i : Nat) (phase : CallPhase)
    (errorClass : Option ErrorClass) : RpcPool :=
  ((p.setHealth i (p.health i).recordSuccess).setCall c { call with phase := phase }).emitMetrics
    i errorClass call.retryCount

/-- The failure is recorded with the endpoint. -/
def recordFailure (p : RpcPool) (c i : Nat) (probe : Bool) (errorClass : ErrorClass) : RpcPool :=
  let before := p.health i
  let after :=
    if errorClass = .rateLimited then before.recordRateLimit else before.recordError p.clock
  (p.setHealth i after).emit
    (.failed i c probe ::
      if before.state ≠ .unhealthy ∧ after.state = .unhealthy then [.becameUnhealthy i] else [])

/-- A transport failure: after the last attempt the call is over. -/
def failed (p : RpcPool) (c : Nat) (call : RpcCall) (i : Nat) (probe : Bool)
    (errorClass : ErrorClass) : RpcPool :=
  let p := p.recordFailure c i probe errorClass
  let call := { call with lastState := some i }
  if call.attempt < p.attempts then
    p.setCall c
      { call with attempt := call.attempt + 1, retryCount := call.attempt, phase := .backoff }
  else p.exhausted c call errorClass

/-! ## Steps -/

def step (p : RpcPool) : PoolAction → Option RpcPool
  | .elapse ms => some { p with clock := p.clock + ms }
  | .call => some p.start
  | .settle c outcome =>
      match p.calls[c]? with
      | none => none
      | some call =>
          match call.phase, outcome with
          | .sent i _, .ok => some (p.succeeded c call i .resolved none)
          | .sent i _, .threw .rpcMethod =>
              some (p.succeeded c call i (.rejected .rpcMethod) (some .rpcMethod))
          | .sent i probe, .threw errorClass => some (p.failed c call i probe errorClass)
          | _, _ => none
  | .retry c =>
      match p.calls[c]? with
      | none => none
      | some call => if call.phase = .backoff then some (p.attempt c call) else none

end RpcPool

end Ap3xSolana.Connectivity
