import Ap3xSolana.Connectivity.RpcPool
import Ap3xSolana.Lib.Run

/-!
# What `RpcPool.call` promises

Calls are under way side by side.  Every turn of one ends in a send, in a wait or in the end
of the call (`Turn`), and the events tell which: a send has its event, and the end of a call
its metrics.  `call_contract` puts the turns of a run together.
-/

namespace Ap3xSolana.Connectivity.CallContract

open Ap3xSolana.Lib.Run
open RpcPool (mem_order_iff)

/-! ## Counting events -/

def isSentBy (c : Nat) : PoolEvent → Bool
  | .sent c' _ _ => c' = c
  | _ => false

def isMetrics : PoolEvent → Bool
  | .metrics _ => true
  | _ => false

/-- The sends of a call. -/
def sends (c : Nat) (p : RpcPool) : Nat := p.events.countP (isSentBy c)

def metrics (p : RpcPool) : Nat := p.events.countP isMetrics

def settled : CallPhase → Bool
  | .resolved => true
  | .rejected _ => true
  | _ => false

def isSent : CallPhase → Bool
  | .sent _ _ => true
  | _ => false

/-- The calls that are over. -/
def settledCalls (p : RpcPool) : Nat := p.calls.countP fun call => settled call.phase

/-! ## The contract of a step -/

def Has (p : RpcPool) (name : HealthStateName) : Prop :=
  ∃ i < p.states.length, (p.health i).state = name

/-- A healthy endpoint if there is one, else a degraded one, else one that is down and has
just granted a probe. -/
structure Preferred (p p' : RpcPool) (i : Nat) (probe : Bool) : Prop where
  bound : i < p.states.length
  healthy : Has p .healthy → (p.health i).state = .healthy
  degraded : ¬ Has p .healthy → Has p .degraded → (p.health i).state = .degraded
  probed : ¬ Has p .healthy → ¬ Has p .degraded →
    (p.health i).state = .unhealthy ∧ probe = true ∧
      (p.health i).takeProbe p.clock = (p'.health i, true)

/-- No endpoint can be called. -/
def NoneLeft (p : RpcPool) : Prop :=
  ¬ Has p .healthy ∧ ¬ Has p .degraded ∧
    ∀ i < p.states.length, (p.health i).due p.clock = false

/-- The call that a step makes pick an endpoint. -/
def picks (p : RpcPool) : PoolAction → Option Nat
  | .call => some p.calls.length
  | .retry c => some c
  | _ => none

def phaseOf (p : RpcPool) (c : Nat) : Option CallPhase := (p.calls[c]?).map (·.phase)

structure StepContract (p : RpcPool) (a : PoolAction) (p' : RpcPool) : Prop where
  /-- A new send went where it should. -/
  sent : ∀ c, sends c p < sends c p' →
    ∃ i probe, phaseOf p' c = some (.sent i probe) ∧ Preferred p p' i probe
  /-- A method error ends its call, with that error. -/
  methodError : ∀ c, a = .settle c (.threw .rpcMethod) →
    phaseOf p' c = some (.rejected .rpcMethod)
  /-- What is over stays over. -/
  stays : ∀ c phase, phaseOf p c = some phase → settled phase = true →
    phaseOf p' c = some phase ∧ sends c p' = sends c p
  /-- The first pick that finds nothing ends its call without a send. -/
  noneLeft : ∀ c, picks p a = some c → NoneLeft p →
    phaseOf p' c = some (.rejected .circuitOpen) ∧ sends c p' = sends c p

/-! ## Picking -/

theorem firstIn_some {p : RpcPool} {name : HealthStateName} {i : Nat}
    (h : p.firstIn name = some i) : i < p.states.length ∧ (p.health i).state = name := by
  refine ⟨mem_order_iff.1 (List.mem_of_find?_eq_some h), ?_⟩
  have hstate := List.find?_some h
  simpa [RpcPool.inState] using hstate

theorem firstIn_none {p : RpcPool} {name : HealthStateName} (h : p.firstIn name = none) :
    ¬ Has p name := by
  rintro ⟨i, hi, hstate⟩
  have hnot := List.find?_eq_none.1 h i (mem_order_iff.2 hi)
  exact hnot (by simp [RpcPool.inState, hstate])

/-- The pass that may claim a probe touches nothing but the endpoint that grants it. -/
theorem probeFirst_cases (p : RpcPool) (is : List Nat) (his : ∀ i ∈ is, i < p.states.length) :
    (p.probeFirst is = none ∧ ∀ i ∈ is, (p.health i).due p.clock = false) ∨
    ∃ i ∈ is, (p.health i).due p.clock = true ∧
      p.probeFirst is =
        some ({ p with states := p.states.set i ((p.health i).takeProbe p.clock).1 }.emit
          [.granted i p.clock (p.health i).cooldownMs], i) := by
  induction is with
  | nil => exact .inl ⟨rfl, fun i hi => absurd hi List.not_mem_nil⟩
  | cons i is ih =>
      have hrest := ih fun j hj => his j (List.mem_cons_of_mem _ hj)
      unfold RpcPool.probeFirst
      cases hdue : (p.health i).due p.clock with
      | true =>
          have htake : (p.health i).takeProbe p.clock =
              (((p.health i).takeProbe p.clock).1, true) := by
            simp [HealthState.takeProbe, hdue]
          refine .inr ⟨i, List.mem_cons_self, hdue, ?_⟩
          rw [htake]
      | false =>
          have htake : (p.health i).takeProbe p.clock = (p.health i, false) := by
            simp [HealthState.takeProbe, hdue]
          rw [htake]
          dsimp only
          rcases hrest with ⟨hnone, hall⟩ | ⟨j, hj, hdue', hsome⟩
          · refine .inl ⟨hnone, fun j hj => ?_⟩
            rcases List.mem_cons.1 hj with rfl | hj
            · exact hdue
            · exact hall j hj
          · exact .inr ⟨j, List.mem_cons_of_mem _ hj, hdue', hsome⟩

/-- What a pick changes: the cursor, and the probe that it claims. -/
structure Picked (p p' : RpcPool) : Prop where
  calls : p'.calls = p.calls
  attempts : p'.attempts = p.attempts
  length : p'.states.length = p.states.length
  events : ∀ q, (∀ i now cooldownMs, q (.granted i now cooldownMs) = false) →
    p'.events.countP q = p.events.countP q

theorem picked_advance (p : RpcPool) (i : Nat) : Picked p (p.advance i) :=
  ⟨rfl, rfl, rfl, fun _ _ => rfl⟩

theorem pickEndpoint_cases (p : RpcPool) :
    (p.pickEndpoint = (p, none) ∧ NoneLeft p) ∨
    ∃ p' i probe, p.pickEndpoint = (p', some (i, probe)) ∧ Picked p p' ∧
      Preferred p p' i probe := by
  unfold RpcPool.pickEndpoint
  cases hhealthy : p.firstIn .healthy with
  | some i =>
      obtain ⟨hi, hstate⟩ := firstIn_some hhealthy
      have hhas : Has p .healthy := ⟨i, hi, hstate⟩
      exact .inr ⟨_, i, false, rfl, picked_advance p i, hi, fun _ => hstate,
        fun hnot => absurd hhas hnot, fun hnot => absurd hhas hnot⟩
  | none =>
      have hnone := firstIn_none hhealthy
      cases hdegraded : p.firstIn .degraded with
      | some i =>
          obtain ⟨hi, hstate⟩ := firstIn_some hdegraded
          have hhas : Has p .degraded := ⟨i, hi, hstate⟩
          exact .inr ⟨_, i, false, rfl, picked_advance p i, hi, fun h => absurd h hnone,
            fun _ _ => hstate, fun _ hnot => absurd hhas hnot⟩
      | none =>
          have hnone' := firstIn_none hdegraded
          dsimp only
          rcases probeFirst_cases p p.order fun i hi => mem_order_iff.1 hi with
            ⟨hprobe, hdue⟩ | ⟨i, hi, hdue, hprobe⟩
          · rw [hprobe]
            exact .inl ⟨rfl, hnone, hnone', fun i hi => hdue i (mem_order_iff.2 hi)⟩
          · have hbound := mem_order_iff.1 hi
            have hdown : (p.health i).state = .unhealthy := by
              simp only [HealthState.due, Bool.and_eq_true, decide_eq_true_eq] at hdue
              exact hdue.1
            rw [hprobe]
            refine .inr ⟨_, i, true, rfl, ⟨rfl, rfl, ?_, ?_⟩, hbound, fun h => absurd h hnone,
              fun _ h => absurd h hnone', fun _ _ => ⟨hdown, rfl, ?_⟩⟩
            · exact List.length_set
            · intro q hq
              show (p.events ++ [_]).countP q = _
              rw [List.countP_append, List.countP_singleton, hq]
              rfl
            · have hself : ((p.states.set i ((p.health i).takeProbe p.clock).1)[i]?).getD {} =
                  ((p.health i).takeProbe p.clock).1 := by
                rw [List.getElem?_set_self hbound]
                rfl
              show _ = (((p.states.set i ((p.health i).takeProbe p.clock).1)[i]?).getD {}, true)
              rw [hself]
              simp [HealthState.takeProbe, hdue]

/-- A pick that finds an endpoint had one to find. -/
theorem Preferred.not_noneLeft {p p' : RpcPool} {i : Nat} {probe : Bool}
    (h : Preferred p p' i probe) : ¬ NoneLeft p := by
  rintro ⟨hhealthy, hdegraded, hdue⟩
  have hgranted := (h.probed hhealthy hdegraded).2.2
  have hnot := hdue i h.bound
  simp [HealthState.takeProbe, hnot] at hgranted

/-! ## Turns -/

/-- What a turn of the call `c` adds to the counts. -/
structure Turn (p p' : RpcPool) (c : Nat) (call' : RpcCall) : Prop where
  attempts : p'.attempts = p.attempts
  sends : ∀ d, sends d p' = sends d p +
    if d = c ∧ isSent call'.phase = true then 1 else 0
  metrics : metrics p' = metrics p + if settled call'.phase = true then 1 else 0

/-- Why the call `c` had its turn, and how it ended. -/
inductive Kind (p p' : RpcPool) (c : Nat) (call call' : RpcCall) : PoolAction → Prop where
  | sent {a : PoolAction} (i : Nat) (probe : Bool) (hpicks : picks p a = some c)
      (hattempt : call'.attempt = call.attempt) (hphase : call'.phase = .sent i probe)
      (hpreferred : Preferred p p' i probe) : Kind p p' c call call' a
  | noneLeft {a : PoolAction} (hpicks : picks p a = some c) (hnone : NoneLeft p)
      (hphase : call'.phase = .rejected .circuitOpen) : Kind p p' c call call' a
  | resolved (hphase : call'.phase = .resolved) : Kind p p' c call call' (.settle c .ok)
  | methodError (hphase : call'.phase = .rejected .rpcMethod) :
      Kind p p' c call call' (.settle c (.threw .rpcMethod))
  | waits (errorClass : ErrorClass) (hclass : errorClass ≠ .rpcMethod)
      (hphase : call'.phase = .backoff) (hattempt : call'.attempt = call.attempt + 1)
      (hmore : call'.attempt ≤ p.attempts) :
      Kind p p' c call call' (.settle c (.threw errorClass))
  | gaveUp (errorClass : ErrorClass) (hclass : errorClass ≠ .rpcMethod)
      (hphase : call'.phase = .rejected errorClass) :
      Kind p p' c call call' (.settle c (.threw errorClass))

theorem sends_emit (d : Nat) (p : RpcPool) (es : List PoolEvent) :
    sends d (p.emit es) = sends d p + es.countP (isSentBy d) := List.countP_append

theorem metrics_emit (p : RpcPool) (es : List PoolEvent) :
    metrics (p.emit es) = metrics p + es.countP isMetrics := List.countP_append

/-- The end of a call. -/
theorem turn_exhausted (p : RpcPool) (c : Nat) (call : RpcCall) (errorClass : ErrorClass) :
    Turn p (p.exhausted c call errorClass) c { call with phase := .rejected errorClass } := by
  unfold RpcPool.exhausted RpcPool.emitMetrics
  refine ⟨rfl, fun d => ?_, ?_⟩
  · rw [sends_emit, if_neg]
    · rfl
    · rintro ⟨-, hsent⟩
      cases hsent
  · rw [metrics_emit]
    rfl

theorem attempt_turn (p : RpcPool) (c : Nat) (call : RpcCall) {a : PoolAction} {q : RpcPool}
    (hpicks : picks q a = some c) (hstates : q.states = p.states) (hclock : q.clock = p.clock) :
    ∃ call', (p.attempt c call).calls = p.calls.set c call' ∧
      Turn p (p.attempt c call) c call' ∧ Kind q (p.attempt c call) c call call' a := by
  have hhas : ∀ name, Has q name ↔ Has p name := by
    intro name
    unfold Has RpcPool.health
    rw [hstates]
  have hhealth : ∀ i, q.health i = p.health i := by
    intro i
    unfold RpcPool.health
    rw [hstates]
  unfold RpcPool.attempt
  rcases pickEndpoint_cases p with ⟨hpick, hnone⟩ | ⟨p', i, probe, hpick, hpicked, hpreferred⟩
  · rw [hpick]
    refine ⟨_, rfl, turn_exhausted p c call .circuitOpen, .noneLeft hpicks ?_ rfl⟩
    unfold NoneLeft
    simp only [hhas, hhealth, hstates, hclock]
    exact hnone
  · rw [hpick]
    refine ⟨{ call with phase := .sent i probe }, ?_, ⟨hpicked.attempts, fun d => ?_, ?_⟩,
      .sent i probe hpicks rfl rfl ?_⟩
    · show p'.calls.set c _ = _
      rw [hpicked.calls]
    · rw [sends_emit]
      have hevents := hpicked.events (isSentBy d) fun _ _ _ => rfl
      show p'.events.countP _ + _ = p.events.countP _ + _
      rw [hevents, List.countP_singleton]
      by_cases hd : d = c
      · simp [isSentBy, isSent, hd]
      · simp [isSentBy, hd, Ne.symm hd]
    · rw [metrics_emit]
      exact hpicked.events isMetrics fun _ _ _ => rfl
    · refine ⟨hstates ▸ hpreferred.bound, ?_, ?_, ?_⟩
      all_goals
        simp only [hhas, hhealth, hclock]
      · exact hpreferred.healthy
      · exact hpreferred.degraded
      · exact hpreferred.probed

theorem succeeded_turn (p : RpcPool) (c : Nat) (call : RpcCall) (i : Nat) (phase : CallPhase)
    (errorClass : Option ErrorClass) (hphase : settled phase = true) :
    (p.succeeded c call i phase errorClass).calls = p.calls.set c { call with phase := phase } ∧
      Turn p (p.succeeded c call i phase errorClass) c { call with phase := phase } := by
  unfold RpcPool.succeeded RpcPool.emitMetrics
  refine ⟨rfl, rfl, fun d => ?_, ?_⟩
  · rw [sends_emit, if_neg]
    · rfl
    · rintro ⟨-, hsent⟩
      dsimp only at hsent
      cases phase with
      | sent j probe => exact absurd hphase Bool.false_ne_true
      | _ => cases hsent
  · rw [metrics_emit, if_pos hphase]
    rfl

/-- A failure leaves the sends and the metrics alone. -/
theorem recordFailure_counts (p : RpcPool) (c i : Nat) (probe : Bool) (errorClass : ErrorClass) :
    (∀ d, sends d (p.recordFailure c i probe errorClass) = sends d p) ∧
      metrics (p.recordFailure c i probe errorClass) = metrics p := by
  unfold RpcPool.recordFailure
  dsimp only
  constructor
  · intro d
    rw [sends_emit]
    show sends d p + _ = _
    split <;> split <;> rfl
  · rw [metrics_emit]
    show metrics p + _ = _
    split <;> split <;> rfl

theorem failed_turn (p : RpcPool) (c : Nat) (call : RpcCall) (i : Nat) (probe : Bool)
    {errorClass : ErrorClass} (hclass : errorClass ≠ .rpcMethod) :
    ∃ call', (p.failed c call i probe errorClass).calls = p.calls.set c call' ∧
      Turn p (p.failed c call i probe errorClass) c call' ∧
      Kind p (p.failed c call i probe errorClass) c call call'
        (.settle c (.threw errorClass)) := by
  obtain ⟨hsends, hmetrics⟩ := recordFailure_counts p c i probe errorClass
  unfold RpcPool.failed
  dsimp only
  by_cases hmore : call.attempt < p.attempts
  · have hmore' : call.attempt < (p.recordFailure c i probe errorClass).attempts := hmore
    rw [if_pos hmore']
    refine ⟨_, rfl, ⟨rfl, fun d => ?_, ?_⟩, .waits errorClass hclass rfl rfl hmore⟩
    · rw [if_neg]
      · exact hsends d
      · rintro ⟨-, hsent⟩
        cases hsent
    · exact hmetrics
  · have hmore' : ¬ call.attempt < (p.recordFailure c i probe errorClass).attempts := hmore
    rw [if_neg hmore']
    have hturn := turn_exhausted (p.recordFailure c i probe errorClass) c
      { call with lastState := some i } errorClass
    refine ⟨_, rfl, ⟨rfl, fun d => ?_, ?_⟩, .gaveUp errorClass hclass rfl⟩
    · rw [hturn.sends d, hsends d]
    · rw [hturn.metrics, hmetrics]

/-- The phase in which a call has its turn. -/
def Open (a : PoolAction) (c : Nat) (phase : CallPhase) : Prop :=
  (a = .retry c ∧ phase = .backoff) ∨
    ∃ outcome i probe, a = .settle c outcome ∧ phase = .sent i probe

/-- A step lets time pass, or gives one call its turn. -/
theorem step_turn {p p' : RpcPool} {a : PoolAction} (hattempts : a = .call → 1 ≤ p.attempts)
    (h : p.step a = some p') :
    (∃ ms, a = .elapse ms ∧ p' = { p with clock := p.clock + ms }) ∨
    ∃ c call call', Turn p p' c call' ∧ Kind p p' c call call' a ∧
      (c = p.calls.length ∧ call.attempt = 1 ∧ a = .call ∧ p'.calls = p.calls ++ [call'] ∨
        p.calls[c]? = some call ∧ Open a c call.phase ∧ p'.calls = p.calls.set c call') := by
  cases a with
  | elapse ms =>
      cases h
      exact .inl ⟨ms, rfl, rfl⟩
  | call =>
      cases h
      refine .inr ⟨p.calls.length, { phase := .rejected .network }, ?_⟩
      obtain ⟨call', hcalls, hturn, hkind⟩ := attempt_turn
        { p with calls := p.calls ++ [{ phase := .rejected .network }] } p.calls.length
        { phase := .rejected .network } (a := .call) (q := p) rfl rfl rfl
      have hstart : p.start = RpcPool.attempt
          { p with calls := p.calls ++ [{ phase := .rejected .network }] } p.calls.length
          { phase := .rejected .network } := by
        unfold RpcPool.start
        dsimp only
        rw [if_neg (Nat.ne_of_gt (hattempts rfl))]
      rw [hstart]
      refine ⟨call', ⟨hturn.attempts, hturn.sends, hturn.metrics⟩, hkind, .inl ⟨rfl, rfl, rfl, ?_⟩⟩
      rw [hcalls]
      simp
  | settle c outcome =>
      unfold RpcPool.step at h
      dsimp only at h
      cases hcall : p.calls[c]? with
      | none => simp [hcall] at h
      | some call =>
          simp only [hcall] at h
          refine .inr ⟨c, call, ?_⟩
          cases hphase : call.phase with
          | sent i probe =>
              have hopen : Open (.settle c outcome) c (.sent i probe) :=
                .inr ⟨outcome, i, probe, rfl, rfl⟩
              rw [hphase] at h
              cases outcome with
              | ok =>
                  cases h
                  obtain ⟨hcalls, hturn⟩ := succeeded_turn p c call i .resolved none rfl
                  exact ⟨_, hturn, .resolved rfl, .inr ⟨hcall, hopen, hcalls⟩⟩
              | threw errorClass =>
                  by_cases hclass : errorClass = .rpcMethod
                  · subst hclass
                    cases h
                    obtain ⟨hcalls, hturn⟩ := succeeded_turn p c call i
                      (.rejected .rpcMethod) (some .rpcMethod) rfl
                    exact ⟨_, hturn, .methodError rfl, .inr ⟨hcall, hopen, hcalls⟩⟩
                  · have hfailed : p' = p.failed c call i probe errorClass := by
                      cases errorClass <;> first | exact absurd rfl hclass | (cases h; rfl)
                    subst hfailed
                    obtain ⟨call', hcalls, hturn, hkind⟩ := failed_turn p c call i probe hclass
                    exact ⟨call', hturn, hkind, .inr ⟨hcall, hopen, hcalls⟩⟩
          | backoff => simp [hphase] at h
          | resolved => simp [hphase] at h
          | rejected e => simp [hphase] at h
  | retry c =>
      unfold RpcPool.step at h
      dsimp only at h
      cases hcall : p.calls[c]? with
      | none => simp [hcall] at h
      | some call =>
          simp only [hcall] at h
          by_cases hphase : call.phase = .backoff
          · rw [if_pos hphase] at h
            cases h
            obtain ⟨call', hcalls, hturn, hkind⟩ := attempt_turn p c call (a := .retry c) (q := p)
              rfl rfl rfl
            exact .inr ⟨c, call, call', hturn, hkind, .inr ⟨hcall, .inl ⟨rfl, hphase⟩, hcalls⟩⟩
          · rw [if_neg hphase] at h
            cases h

/-! ## Runs -/

/-- How many sends a call has behind it. -/
def SentSo (attempts n : Nat) (call : RpcCall) : Prop :=
  n ≤ attempts ∧ (∀ i probe, call.phase = .sent i probe → n = call.attempt) ∧
    (call.phase = .backoff → n + 1 = call.attempt ∧ call.attempt ≤ attempts)

structure Inv (p : RpcPool) : Prop where
  attempts : 1 ≤ p.attempts
  sent : ∀ c call, p.calls[c]? = some call → SentSo p.attempts (sends c p) call
  unsent : ∀ c, p.calls.length ≤ c → sends c p = 0
  metrics : metrics p = settledCalls p

/-- The counts of a call after its turn. -/
theorem Kind.sentSo {p p' : RpcPool} {a : PoolAction} {c : Nat} {call call' : RpcCall}
    (hkind : Kind p p' c call call' a) (hturn : Turn p p' c call')
    (hle : sends c p ≤ p.attempts)
    (hready : picks p a = some c → sends c p + 1 = call.attempt ∧ call.attempt ≤ p.attempts)
    (hsent : ∀ outcome, a = .settle c outcome → sends c p = call.attempt) :
    SentSo p'.attempts (sends c p') call' := by
  have hsends := hturn.sends c
  rw [hturn.attempts]
  cases hkind with
  | sent i probe hpick hattempt hphase _ =>
      obtain ⟨hnext, hlast⟩ := hready hpick
      rw [hphase, if_pos ⟨rfl, rfl⟩] at hsends
      refine ⟨by omega, fun _ _ _ => by omega, fun hback => ?_⟩
      rw [hphase] at hback
      cases hback
  | waits errorClass _ hphase hattempt hmore =>
      have hnow := hsent _ rfl
      rw [hphase, if_neg (by simp [isSent])] at hsends
      refine ⟨by omega, fun _ _ hbad => ?_, fun _ => ⟨by omega, hmore⟩⟩
      rw [hphase] at hbad
      cases hbad
  | noneLeft _ _ hphase =>
      rw [hphase, if_neg (by simp [isSent])] at hsends
      exact ⟨by omega, by simp [hphase], by simp [hphase]⟩
  | resolved hphase =>
      rw [hphase, if_neg (by simp [isSent])] at hsends
      exact ⟨by omega, by simp [hphase], by simp [hphase]⟩
  | methodError hphase =>
      rw [hphase, if_neg (by simp [isSent])] at hsends
      exact ⟨by omega, by simp [hphase], by simp [hphase]⟩
  | gaveUp _ _ hphase =>
      rw [hphase, if_neg (by simp [isSent])] at hsends
      exact ⟨by omega, by simp [hphase], by simp [hphase]⟩

/-- The other calls are where they were. -/
theorem Turn.others {p p' : RpcPool} {c d : Nat} {call' : RpcCall} (hturn : Turn p p' c call')
    (hd : d ≠ c) : CallContract.sends d p' = CallContract.sends d p := by
  rw [hturn.sends d, if_neg (fun h => hd h.1)]
  rfl

theorem Turn.quiet {p p' : RpcPool} {c : Nat} {call' : RpcCall} (hturn : Turn p p' c call')
    (hphase : isSent call'.phase = false) :
    CallContract.sends c p' = CallContract.sends c p := by
  rw [hturn.sends c, hphase, if_neg (by simp)]
  rfl

theorem Open.not_settled {a : PoolAction} {c : Nat} {phase : CallPhase}
    (h : Open a c phase) : settled phase = false := by
  rcases h with ⟨-, rfl⟩ | ⟨_, _, _, -, rfl⟩ <;> rfl

/-- A new call has sent nothing before its first turn. -/
theorem Inv.first {p p' : RpcPool} {call call' : RpcCall} (hinv : Inv p)
    (hturn : Turn p p' p.calls.length call') (hkind : Kind p p' p.calls.length call call' .call)
    (hfirst : call.attempt = 1) : SentSo p'.attempts (sends p.calls.length p') call' := by
  have hnone := hinv.unsent p.calls.length (Nat.le_refl _)
  have hattempts := hinv.attempts
  exact hkind.sentSo hturn (by omega) (fun _ => by omega) nofun

theorem Inv.later {p p' : RpcPool} {a : PoolAction} {c : Nat} {call call' : RpcCall}
    (hinv : Inv p) (hturn : Turn p p' c call') (hkind : Kind p p' c call call' a)
    (hcall : p.calls[c]? = some call) (hopen : Open a c call.phase) :
    SentSo p'.attempts (sends c p') call' := by
  obtain ⟨hle, hsent, hback⟩ := hinv.sent c call hcall
  apply hkind.sentSo hturn hle
  · intro hpicks
    rcases hopen with ⟨-, hphase⟩ | ⟨_, _, _, rfl, -⟩
    · exact hback hphase
    · cases hpicks
  · intro outcome ha
    rcases hopen with ⟨rfl, -⟩ | ⟨_, i, probe, -, hphase⟩
    · cases ha
    · exact hsent i probe hphase

theorem Inv.step {p p' : RpcPool} {a : PoolAction} (hinv : Inv p) (h : p.step a = some p') :
    Inv p' := by
  rcases step_turn (fun _ => hinv.attempts) h with
    ⟨ms, -, rfl⟩ | ⟨c, call, call', hturn, hkind, hcalls⟩
  · exact ⟨hinv.attempts, hinv.sent, hinv.unsent, hinv.metrics⟩
  · have hattempts : 1 ≤ p'.attempts := hturn.attempts ▸ hinv.attempts
    have hmetrics := hturn.metrics
    rw [hinv.metrics] at hmetrics
    rcases hcalls with ⟨rfl, hfirst, rfl, hcalls⟩ | ⟨hcall, hopen, hcalls⟩
    · refine ⟨hattempts, fun d x hx => ?_, fun d hd => ?_, ?_⟩
      · rw [hcalls] at hx
        rcases Nat.lt_trichotomy d p.calls.length with hlt | rfl | hgt
        · rw [List.getElem?_append_left hlt] at hx
          rw [hturn.others (by omega), hturn.attempts]
          exact hinv.sent d x hx
        · rw [List.getElem?_concat_length] at hx
          cases hx
          exact hinv.first hturn hkind hfirst
        · rw [List.getElem?_eq_none (by simp; omega)] at hx
          cases hx
      · rw [hcalls, List.length_append, List.length_singleton] at hd
        rw [hturn.others (by omega)]
        exact hinv.unsent d (by omega)
      · rw [hmetrics, settledCalls, settledCalls, hcalls, List.countP_append,
          List.countP_singleton]
    · have hlt : c < p.calls.length := (List.getElem?_eq_some_iff.1 hcall).1
      have hget : p.calls[c] = call := (List.getElem?_eq_some_iff.1 hcall).2
      refine ⟨hattempts, fun d x hx => ?_, fun d hd => ?_, ?_⟩
      · rw [hcalls] at hx
        by_cases hd : d = c
        · subst hd
          rw [List.getElem?_set_self hlt] at hx
          cases hx
          exact hinv.later hturn hkind hcall hopen
        · rw [List.getElem?_set_ne (Ne.symm hd)] at hx
          rw [hturn.others hd, hturn.attempts]
          exact hinv.sent d x hx
      · rw [hcalls, List.length_set] at hd
        rw [hturn.others (by omega)]
        exact hinv.unsent d hd
      · have hold : settled call.phase = false := hopen.not_settled
        rw [hmetrics, settledCalls, settledCalls, hcalls, List.countP_set hlt, hget, hold]
        simp

/-! ## The contract -/

theorem phaseOf_new {p p' : RpcPool} {call' : RpcCall} (hcalls : p'.calls = p.calls ++ [call']) :
    phaseOf p' p.calls.length = some call'.phase := by
  unfold phaseOf
  rw [hcalls, List.getElem?_concat_length]
  rfl

theorem phaseOf_set {p p' : RpcPool} {c : Nat} {call call' : RpcCall}
    (hcall : p.calls[c]? = some call) (hcalls : p'.calls = p.calls.set c call') :
    phaseOf p' c = some call'.phase := by
  unfold phaseOf
  rw [hcalls, List.getElem?_set_self (List.getElem?_eq_some_iff.1 hcall).1]
  rfl

/-- The turn of a call shows in its phase, and only there. -/
theorem phaseOf_turn {p p' : RpcPool} {a : PoolAction} {c : Nat} {call call' : RpcCall}
    (hcalls : c = p.calls.length ∧ call.attempt = 1 ∧ a = .call ∧ p'.calls = p.calls ++ [call'] ∨
      p.calls[c]? = some call ∧ Open a c call.phase ∧ p'.calls = p.calls.set c call') :
    phaseOf p' c = some call'.phase ∧
      (∀ phase, phaseOf p c = some phase → settled phase = false) ∧
      ∀ d, d ≠ c → phaseOf p' d = phaseOf p d := by
  rcases hcalls with ⟨rfl, -, -, hcalls⟩ | ⟨hcall, hopen, hcalls⟩
  · refine ⟨phaseOf_new hcalls, fun phase hphase => ?_, fun d hd => ?_⟩
    · unfold phaseOf at hphase
      rw [List.getElem?_eq_none (Nat.le_refl _)] at hphase
      cases hphase
    · unfold phaseOf
      rw [hcalls]
      by_cases hlt : d < p.calls.length
      · rw [List.getElem?_append_left hlt]
      · have hge : (p.calls ++ [call']).length ≤ d := by
          rw [List.length_append, List.length_singleton]
          omega
        rw [List.getElem?_eq_none hge, List.getElem?_eq_none (Nat.le_of_not_lt hlt)]
  · refine ⟨phaseOf_set hcall hcalls, fun phase hphase => ?_, fun d hd => ?_⟩
    · unfold phaseOf at hphase
      rw [hcall] at hphase
      cases hphase
      exact hopen.not_settled
    · unfold phaseOf
      rw [hcalls, List.getElem?_set_ne (Ne.symm hd)]

theorem step_contract {p p' : RpcPool} {a : PoolAction} (hattempts : 1 ≤ p.attempts)
    (h : p.step a = some p') : StepContract p a p' := by
  rcases step_turn (fun _ => hattempts) h with
    ⟨ms, rfl, rfl⟩ | ⟨c, call, call', hturn, hkind, hcalls⟩
  · exact
      { sent := fun c hlt => absurd hlt (Nat.lt_irrefl _)
        methodError := nofun
        stays := fun c phase hphase _ => ⟨hphase, rfl⟩
        noneLeft := nofun }
  · obtain ⟨hphase', hbefore, hothers⟩ := phaseOf_turn hcalls
    refine ⟨fun d hlt => ?_, fun d ha => ?_, fun d phase hphase hover => ?_,
      fun d hpicks hnone => ?_⟩
    · by_cases hd : d = c
      · subst hd
        have hquiet : isSent call'.phase = false → False := fun hphase =>
          absurd hlt (by rw [hturn.quiet hphase]; exact Nat.lt_irrefl _)
        cases hkind with
        | sent i probe _ _ hphase hpreferred =>
            exact ⟨i, probe, by rw [hphase', hphase], hpreferred⟩
        | noneLeft _ _ hphase => exact (hquiet (by rw [hphase]; rfl)).elim
        | resolved hphase => exact (hquiet (by rw [hphase]; rfl)).elim
        | methodError hphase => exact (hquiet (by rw [hphase]; rfl)).elim
        | waits _ _ hphase => exact (hquiet (by rw [hphase]; rfl)).elim
        | gaveUp _ _ hphase => exact (hquiet (by rw [hphase]; rfl)).elim
      · exact absurd hlt (by rw [hturn.others hd]; exact Nat.lt_irrefl _)
    · subst ha
      cases hkind with
      | sent _ _ hpicks => cases hpicks
      | noneLeft hpicks => cases hpicks
      | methodError hphase => rw [hphase', hphase]
      | waits _ hclass => exact absurd rfl hclass
      | gaveUp _ hclass => exact absurd rfl hclass
    · have hd : d ≠ c := by
        rintro rfl
        rw [hbefore phase hphase] at hover
        cases hover
      exact ⟨(hothers d hd).trans hphase, hturn.others hd⟩
    · cases hkind with
      | sent i probe hpicks' _ _ hpreferred =>
          exact absurd hnone hpreferred.not_noneLeft
      | noneLeft hpicks' _ hphase =>
          obtain rfl : c = d := Option.some.inj (hpicks'.symm.trans hpicks)
          exact ⟨by rw [hphase', hphase], hturn.quiet (by rw [hphase]; rfl)⟩
      | _ => cases hpicks

/-- A pool that has not been called yet, with its endpoints in any health. -/
def idle (attempts : Nat) (states : List HealthState) (cursor clock : Nat) : RpcPool :=
  { attempts := attempts, states := states, cursor := cursor, clock := clock }

theorem inv_idle {attempts : Nat} (hattempts : 1 ≤ attempts) (states : List HealthState)
    (cursor clock : Nat) : Inv (idle attempts states cursor clock) where
  attempts := hattempts
  sent c call hcall := by simp [idle] at hcall
  unsent _ _ := rfl
  metrics := rfl

/-- In every state of every run: at most `attempts` sends for each call, one metrics event
for each call that is over, and the contract of every step. -/
theorem call_contract {attempts : Nat} (hattempts : 1 ≤ attempts) (states : List HealthState)
    (cursor clock : Nat) (acts : List PoolAction) {p : RpcPool}
    (hrun : exec RpcPool.step (idle attempts states cursor clock) acts = some p) :
    (∀ c, sends c p ≤ attempts) ∧ metrics p = settledCalls p ∧
      ∀ a p', p.step a = some p' → StepContract p a p' := by
  have hinv : Inv p ∧ p.attempts = attempts := by
    have hstep : ∀ p a p', Inv p ∧ p.attempts = attempts → RpcPool.step p a = some p' →
        Inv p' ∧ p'.attempts = attempts := by
      intro p a p' hp hstep
      refine ⟨hp.1.step hstep, ?_⟩
      rcases step_turn (fun _ => hp.1.attempts) hstep with ⟨ms, -, rfl⟩ | ⟨c, call, call', hturn, -⟩
      · exact hp.2
      · rw [hturn.attempts, hp.2]
    exact exec_inv hstep ⟨inv_idle hattempts states cursor clock, rfl⟩ hrun
  refine ⟨fun c => ?_, hinv.1.metrics, fun a p' hstep => step_contract hinv.1.attempts hstep⟩
  cases hcall : p.calls[c]? with
  | none =>
      rw [hinv.1.unsent c (List.getElem?_eq_none_iff.1 hcall)]
      exact Nat.zero_le _
  | some call =>
      rw [← hinv.2]
      exact (hinv.1.sent c call hcall).1

/-- One endpoint is down and one degraded; the call fails twice. -/
def failsTwice : List PoolAction :=
  [.call, .settle 0 (.threw .network), .retry 0, .settle 0 (.threw .timeout)]

theorem call_contract_failsTwice :
    ∃ p, exec RpcPool.step (idle 2 [{ state := .unhealthy, probeAt := 9 }, { state := .degraded }]
        0 0) failsTwice = some p ∧ sends 0 p ≤ 2 :=
  ⟨_, rfl, (call_contract (by decide)
    [{ state := .unhealthy, probeAt := 9 }, { state := .degraded }] 0 0 failsTwice rfl).1 0⟩

end Ap3xSolana.Connectivity.CallContract
