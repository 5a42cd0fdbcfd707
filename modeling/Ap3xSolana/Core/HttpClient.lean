import Ap3xSolana.Lib.Run
import Mathlib.Data.List.Basic

/-!
# `HttpClient`: retries and the circuit breaker

Concurrent requests share one client.  A step of the machine is one synchronous
segment of the code: the start of `request` up to its first `await`, what
follows when an attempt's `fetch` settles, and what follows when the backoff
delay is over.  The clock readings a segment takes come with the action.

`request_oneProbe_iff` says when half-open really means one probe.
-/

namespace Ap3xSolana.Core.HttpClient

open Ap3xSolana.Lib.Run

structure RetryPolicy where
  attempts : Int
  deriving DecidableEq, Repr

structure CircuitBreakerPolicy where
  failureThreshold : Int
  recoveryMs : Int
  deriving DecidableEq, Repr

structure HttpClientOptions where
  retry : RetryPolicy := { attempts := 1 }
  circuitBreaker : Option CircuitBreakerPolicy := none
  deriving DecidableEq, Repr

inductive CircuitState where
  | closed
  | opened
  | halfOpen
  deriving DecidableEq, Repr

inductive HttpErrorClass where
  | timeout
  | network
  | http
  | circuitOpen
  deriving DecidableEq, Repr

structure HttpMetrics where
  latencyMs : Int
  statusCode : Option Nat := none
  errorClass : Option HttpErrorClass := none
  retryCount : Int
  deriving DecidableEq, Repr

inductive Event where
  | circuit (next : CircuitState)
  | metrics (m : HttpMetrics)
  deriving DecidableEq, Repr

/-- What one `_fetchOnce` ends in. -/
inductive AttemptOutcome where
  | response (status : Nat)
  | timeout
  | network
  deriving DecidableEq, Repr

inductive HttpError where
  | rpc (code message : String)
  | timeout
  | network
  | delay
  deriving DecidableEq, Repr

/-- What the caller's promise settles with: the response, or what is thrown. -/
abbrev HttpResult := Except HttpError Nat

structure Failure where
  kind : HttpErrorClass
  statusCode : Option Nat
  err : HttpError
  deriving DecidableEq, Repr

inductive Phase where
  | fetching
  | waiting
  deriving DecidableEq, Repr

/-- A running `request` call with the locals it keeps across its `await`s.
`probe` is bookkeeping of the model: whether the breaker let the request through
as a half-open probe.  The code does not remember it. -/
structure Request where
  id : Nat
  probe : Bool
  startedAt : Int
  attempt : Int := 1
  retryCount : Int := 0
  lastFailure : Option Failure := none
  phase : Phase := .fetching
  deriving DecidableEq, Repr

structure Client where
  state : CircuitState := .closed
  consecutiveFailures : Int := 0
  openedAt : Int := 0
  inflightHalfOpenProbe : Bool := false
  events : List Event := []
  inflight : List Request := []
  settled : List (Nat × HttpResult) := []
  deriving DecidableEq, Repr

/-! ## The breaker -/

def transitionTo (next : CircuitState) (c : Client) : Client :=
  if c.state = next then c
  else { c with state := next, events := c.events ++ [.circuit next] }

inductive BreakerDecision where
  | allow
  | reject
  deriving DecidableEq, Repr

def breakerPreCheck (breaker : Option CircuitBreakerPolicy) (now : Int)
    (c : Client) : BreakerDecision × Client :=
  match breaker with
  | none => (.allow, c)
  | some policy =>
      match c.state with
      | .closed => (.allow, c)
      | .halfOpen =>
          if c.inflightHalfOpenProbe then (.reject, c)
          else (.allow, { c with inflightHalfOpenProbe := true })
      | .opened =>
          if now - c.openedAt ≥ policy.recoveryMs then
            (.allow, { transitionTo .halfOpen c with inflightHalfOpenProbe := true })
          else (.reject, c)

def recordSuccess (breaker : Option CircuitBreakerPolicy) (c : Client) : Client :=
  match breaker with
  | none => c
  | some _ =>
      let c := if c.state = .halfOpen then transitionTo .closed c else c
      { c with consecutiveFailures := 0, inflightHalfOpenProbe := false }

def recordFailure (breaker : Option CircuitBreakerPolicy) (now : Int)
    (c : Client) : Client :=
  match breaker with
  | none => c
  | some policy =>
      if c.state = .halfOpen then
        { transitionTo .opened { c with openedAt := now } with
          consecutiveFailures := 0
          inflightHalfOpenProbe := false }
      else
        let c := { c with consecutiveFailures := c.consecutiveFailures + 1 }
        let c :=
          if c.state = .closed ∧ c.consecutiveFailures ≥ policy.failureThreshold then
            transitionTo .opened { c with openedAt := now }
          else c
        { c with inflightHalfOpenProbe := false }

/-! ## One request -/

/-- The clock readings of one synchronous segment, in the order taken. -/
structure Clock where
  startedAt : Int
  checkedAt : Int
  recordedAt : Int
  endedAt : Int
  deriving DecidableEq, Repr

/-- The same reading throughout. -/
def Clock.at (now : Int) : Clock :=
  { startedAt := now, checkedAt := now, recordedAt := now, endedAt := now }

def isRetryableStatus (status : Nat) : Bool :=
  (500 ≤ status && status ≤ 599) || status == 429

/-- `response.ok`. -/
def isOk (status : Nat) : Bool := 200 ≤ status && status ≤ 299

/-- The request leaves the client: one `metrics` event, then the promise
settles. -/
def conclude (r : Request) (endedAt : Int) (statusCode : Option Nat)
    (errorClass : Option HttpErrorClass) (result : HttpResult) (c : Client) :
    Client :=
  { c with
    events := c.events ++ [.metrics
      { latencyMs := endedAt - r.startedAt
        statusCode := statusCode
        errorClass := errorClass
        retryCount := r.retryCount }]
    inflight := c.inflight.filter (·.id ≠ r.id)
    settled := c.settled ++ [(r.id, result)] }

/-- After the retry loop: all attempts exhausted. -/
def exhausted (opts : HttpClientOptions) (r : Request) (clock : Clock)
    (c : Client) : Client :=
  let kind := (r.lastFailure.map Failure.kind).getD .network
  let statusCode := r.lastFailure.bind Failure.statusCode
  let err := (r.lastFailure.map Failure.err).getD (.rpc "http" "request failed")
  conclude r clock.endedAt statusCode (some kind) (.error err)
    (recordFailure opts.circuitBreaker clock.recordedAt c)

/-- `request` up to its first `await`. -/
def startRequest (opts : HttpClientOptions) (id : Nat) (clock : Clock)
    (c : Client) : Client :=
  let r : Request := { id := id, probe := false, startedAt := clock.startedAt }
  match breakerPreCheck opts.circuitBreaker clock.checkedAt c with
  | (.reject, c) =>
      conclude r clock.endedAt none (some .circuitOpen)
        (.error (.rpc "circuit_open" "circuit open")) c
  | (.allow, c) =>
      let r := { r with probe := c.state = .halfOpen }
      if r.attempt ≤ opts.retry.attempts then
        { c with inflight := c.inflight ++ [r] }
      else exhausted opts r clock c

/-- The failure a retryable outcome leaves in `lastFailure`. -/
def failureOf : AttemptOutcome → Failure
  | .response status =>
      { kind := .http
        statusCode := some status
        err := .rpc (if status = 429 then "rate_limited" else "http")
          s!"HTTP {status}" }
  | .timeout => { kind := .timeout, statusCode := none, err := .timeout }
  | .network => { kind := .network, statusCode := none, err := .network }

/-- A response that ends the request without a retry. -/
def finalStatus : AttemptOutcome → Option Nat
  | .response status => if isRetryableStatus status then none else some status
  | _ => none

def updateRequest (id : Nat) (f : Request → Request) (c : Client) : Client :=
  { c with inflight := c.inflight.map fun r => if r.id = id then f r else r }

/-- `request` from a settled `_fetchOnce` to the next `await` or the end. -/
def settleAttempt (opts : HttpClientOptions) (r : Request)
    (outcome : AttemptOutcome) (clock : Clock) (c : Client) : Client :=
  match finalStatus outcome with
  | some status =>
      if isOk status then
        conclude r clock.endedAt (some status) none (.ok status)
          (recordSuccess opts.circuitBreaker c)
      else
        conclude r clock.endedAt (some status) (some .http)
          (.error (.rpc "http" s!"HTTP {status}"))
          (recordFailure opts.circuitBreaker clock.recordedAt c)
  | none =>
      if r.attempt = opts.retry.attempts then
        exhausted opts { r with lastFailure := some (failureOf outcome) } clock c
      else
        updateRequest r.id
          (fun r => { r with
            lastFailure := some (failureOf outcome)
            phase := .waiting }) c

/-- `request` from the end of the backoff delay to the next attempt. -/
def nextAttempt (opts : HttpClientOptions) (r : Request) (clock : Clock)
    (c : Client) : Client :=
  if r.attempt + 1 ≤ opts.retry.attempts then
    updateRequest r.id
      (fun r => { r with
        retryCount := r.attempt
        attempt := r.attempt + 1
        phase := .fetching }) c
  else exhausted opts { r with retryCount := r.attempt } clock c

/-! ## The machine -/

inductive Action where
  | request (id : Nat) (clock : Clock)
  | settle (id : Nat) (outcome : AttemptOutcome) (clock : Clock)
  | delayElapsed (id : Nat) (clock : Clock)
  /-- An injected `delay` may reject; `request` then rejects on the spot. -/
  | delayRejects (id : Nat)
  deriving DecidableEq, Repr

def findRequest (id : Nat) (phase : Phase) (c : Client) : Option Request :=
  c.inflight.find? fun r => r.id = id ∧ r.phase = phase

def step (opts : HttpClientOptions) (c : Client) : Action → Option Client
  | .request id clock =>
      if c.inflight.any (·.id = id) then none
      else some (startRequest opts id clock c)
  | .settle id outcome clock =>
      (findRequest id .fetching c).map fun r => settleAttempt opts r outcome clock c
  | .delayElapsed id clock =>
      (findRequest id .waiting c).map fun r => nextAttempt opts r clock c
  | .delayRejects id =>
      (findRequest id .waiting c).map fun r =>
        { c with
          inflight := c.inflight.filter (·.id ≠ r.id)
          settled := c.settled ++ [(r.id, .error .delay)] }

/-- The request whose own outcome a step records with the breaker, if the step
records one. -/
def recordedBy (opts : HttpClientOptions) (c : Client) : Action → Option Request
  | .request id clock =>
      match breakerPreCheck opts.circuitBreaker clock.checkedAt c with
      | (.reject, _) => none
      | (.allow, c') =>
          if 1 ≤ opts.retry.attempts then none
          else some { id := id, probe := c'.state = .halfOpen,
                      startedAt := clock.startedAt }
  | .settle id outcome _ =>
      (findRequest id .fetching c).filter fun r =>
        (finalStatus outcome).isSome ∨ r.attempt = opts.retry.attempts
  | .delayElapsed id _ =>
      (findRequest id .waiting c).filter fun r =>
        ¬ r.attempt + 1 ≤ opts.retry.attempts
  | .delayRejects _ => none

/-! ## What the breaker operations do -/

/-- Half-open probes in flight. -/
def probes (c : Client) : List Request := c.inflight.filter (·.probe)

@[simp] theorem transitionTo_state (next : CircuitState) (c : Client) :
    (transitionTo next c).state = next := by
  unfold transitionTo; split <;> simp_all

@[simp] theorem transitionTo_inflight (next : CircuitState) (c : Client) :
    (transitionTo next c).inflight = c.inflight := by
  unfold transitionTo; split <;> rfl

/-- Every way the pre-check lets a request through. -/
theorem breakerPreCheck_allow {breaker : Option CircuitBreakerPolicy} {now : Int}
    {c c' : Client} (h : breakerPreCheck breaker now c = (.allow, c')) :
    c'.inflight = c.inflight ∧
      ((breaker = none ∧ c' = c) ∨ (c.state = .closed ∧ c' = c) ∨
        (breaker.isSome ∧ c'.state = .halfOpen ∧ c'.inflightHalfOpenProbe = true ∧
          (c.state = .opened ∨
            (c.state = .halfOpen ∧ c.inflightHalfOpenProbe = false)))) := by
  cases breaker with
  | none =>
      simp only [breakerPreCheck, Prod.mk.injEq, true_and] at h
      simp [h]
  | some policy =>
      simp only [breakerPreCheck] at h
      cases hs : c.state with
      | closed =>
          simp only [hs, Prod.mk.injEq, true_and] at h
          simp [h]
      | halfOpen =>
          simp only [hs] at h
          split at h
          · simp at h
          · simp only [Prod.mk.injEq, true_and] at h
            subst h
            simp_all
      | opened =>
          simp only [hs] at h
          split at h
          · simp only [Prod.mk.injEq, true_and] at h
            subst h
            simp
          · simp at h

theorem breakerPreCheck_reject {breaker : Option CircuitBreakerPolicy} {now : Int}
    {c c' : Client} (h : breakerPreCheck breaker now c = (.reject, c')) : c' = c := by
  unfold breakerPreCheck at h
  repeat' split at h
  all_goals simp_all

/-- What a request's outcome may do to the breaker in state `c`: nothing without
a breaker, else it frees the slot and leaves half-open. -/
structure Recorded (opts : HttpClientOptions) (c c' : Client) : Prop where
  inflight : c'.inflight = c.inflight
  disabled : opts.circuitBreaker = none → c' = c
  slot : opts.circuitBreaker.isSome → c'.inflightHalfOpenProbe = false
  leaves : opts.circuitBreaker.isSome → c'.state ≠ .halfOpen
  closes : c'.state = .closed → c.state = .closed ∨ c.state = .halfOpen

theorem recorded_success (opts : HttpClientOptions) (c : Client) :
    Recorded opts c (recordSuccess opts.circuitBreaker c) := by
  cases hb : opts.circuitBreaker with
  | none => exact ⟨rfl, fun _ => rfl, by simp [hb], by simp [hb], Or.inl⟩
  | some policy =>
      by_cases hs : c.state = .halfOpen
      · constructor <;> simp [recordSuccess, hs, hb]
      · constructor <;> simp [recordSuccess, hs, hb]

theorem recorded_failure (opts : HttpClientOptions) (now : Int) (c : Client) :
    Recorded opts c (recordFailure opts.circuitBreaker now c) := by
  cases hb : opts.circuitBreaker with
  | none => exact ⟨rfl, fun _ => rfl, by simp [hb], by simp [hb], Or.inl⟩
  | some policy =>
      by_cases hs : c.state = .halfOpen
      · constructor <;> simp [recordFailure, hs, hb]
      · by_cases ht : c.state = .closed ∧
          c.consecutiveFailures + 1 ≥ policy.failureThreshold
        · constructor <;> simp [recordFailure, ht, hb]
        · constructor <;> simp only [recordFailure, hs, ht, hb, if_false]
          all_goals simp_all

@[simp] theorem conclude_state (r : Request) (endedAt : Int)
    (statusCode : Option Nat) (errorClass : Option HttpErrorClass)
    (result : HttpResult) (c : Client) :
    (conclude r endedAt statusCode errorClass result c).state = c.state := rfl

@[simp] theorem conclude_slot (r : Request) (endedAt : Int)
    (statusCode : Option Nat) (errorClass : Option HttpErrorClass)
    (result : HttpResult) (c : Client) :
    (conclude r endedAt statusCode errorClass result c).inflightHalfOpenProbe =
      c.inflightHalfOpenProbe := rfl

/-! ## What a step can do -/

theorem probes_conclude_le (r : Request) (endedAt : Int)
    (statusCode : Option Nat) (errorClass : Option HttpErrorClass)
    (result : HttpResult) (c : Client) :
    (probes (conclude r endedAt statusCode errorClass result c)).length ≤
      (probes c).length := by
  have hsub := (List.filter_sublist (l := c.inflight)
    (p := fun r' => r'.id ≠ r.id)).filter (·.probe)
  exact hsub.length_le

/-- A probe that concludes is one probe less. -/
theorem probes_conclude_lt {r r' : Request} (endedAt : Int)
    (statusCode : Option Nat) (errorClass : Option HttpErrorClass)
    (result : HttpResult) {c : Client} (hr : r' ∈ c.inflight) (hid : r'.id = r.id)
    (hprobe : r'.probe = true) :
    (probes (conclude r endedAt statusCode errorClass result c)).length <
      (probes c).length := by
  have hsub : (probes (conclude r endedAt statusCode errorClass result c)).Sublist
      ((probes c).filter (·.id ≠ r.id)) := by
    simp only [probes, conclude, List.filter_filter, Bool.and_comm]
    exact List.Sublist.refl _
  refine Nat.lt_of_le_of_lt hsub.length_le ?_
  exact List.length_filter_lt_length_iff_exists.2
    ⟨r', List.mem_filter.2 ⟨hr, hprobe⟩, by simp [hid]⟩

theorem probes_updateRequest (id : Nat) (f : Request → Request)
    (hf : ∀ r, (f r).probe = r.probe) (c : Client) :
    (probes (updateRequest id f c)).length = (probes c).length := by
  simp only [probes, updateRequest, List.filter_map, List.length_map]
  congr 1
  refine List.filter_congr fun r _ => ?_
  simp only [Function.comp]
  split <;> simp [hf]

/-- The three kinds of step: nothing recorded, a request admitted, or the
outcome of one request recorded. -/
inductive StepCase (opts : HttpClientOptions) (c c' : Client) :
    Option Request → Prop where
  | keep : c'.state = c.state →
      c'.inflightHalfOpenProbe = c.inflightHalfOpenProbe →
      (probes c').length ≤ (probes c).length → StepCase opts c c' none
  | allow (now : Int) (c₁ : Client) :
      breakerPreCheck opts.circuitBreaker now c = (.allow, c₁) →
      c'.state = c₁.state →
      c'.inflightHalfOpenProbe = c₁.inflightHalfOpenProbe →
      (probes c').length =
        (probes c).length + (if c₁.state = .halfOpen then 1 else 0) →
      StepCase opts c c' none
  | settle (r : Request) (c₁ : Client) :
      r ∈ c.inflight → Recorded opts c c₁ → c'.state = c₁.state →
      c'.inflightHalfOpenProbe = c₁.inflightHalfOpenProbe →
      (probes c').length + (if r.probe then 1 else 0) ≤ (probes c).length →
      StepCase opts c c' (some r)
  | allowAndFail (now : Int) (r : Request) (c₁ c₂ : Client) :
      breakerPreCheck opts.circuitBreaker now c = (.allow, c₁) →
      r.probe = (c₁.state = .halfOpen : Bool) → Recorded opts c₁ c₂ →
      c'.state = c₂.state →
      c'.inflightHalfOpenProbe = c₂.inflightHalfOpenProbe →
      (probes c').length ≤ (probes c).length → StepCase opts c c' (some r)

/-- Recording `r`'s outcome and concluding it. -/
private theorem stepCase_conclude {opts : HttpClientOptions} {c c₁ : Client}
    {r r' : Request} (hr : r ∈ c.inflight) (hid : r.id = r'.id)
    (hrec : Recorded opts c c₁) (endedAt : Int) (statusCode : Option Nat)
    (errorClass : Option HttpErrorClass) (result : HttpResult) :
    StepCase opts c (conclude r' endedAt statusCode errorClass result c₁)
      (some r) := by
  have hprobes : probes c₁ = probes c := by rw [probes, hrec.inflight, probes]
  refine .settle r c₁ hr hrec rfl rfl ?_
  cases hp : r.probe with
  | false =>
      simpa [hprobes] using
        probes_conclude_le r' endedAt statusCode errorClass result c₁
  | true =>
      have hlt := probes_conclude_lt endedAt statusCode errorClass result
        (c := c₁) (by rw [hrec.inflight]; exact hr) hid hp
      rw [hprobes] at hlt
      simpa using Nat.succ_le_of_lt hlt

theorem findRequest_mem {id : Nat} {phase : Phase} {c : Client} {r : Request}
    (h : findRequest id phase c = some r) : r ∈ c.inflight :=
  List.mem_of_find?_eq_some h

theorem step_cases {opts : HttpClientOptions} {c c' : Client} {a : Action}
    (h : step opts c a = some c') : StepCase opts c c' (recordedBy opts c a) := by
  cases a with
  | request id clock =>
      simp only [step] at h
      split at h
      · simp at h
      simp only [Option.some.injEq] at h
      subst h
      simp only [startRequest, recordedBy]
      rcases hpre : breakerPreCheck opts.circuitBreaker clock.checkedAt c with
        ⟨_ | _, c₁⟩
      · obtain ⟨hin, -⟩ := breakerPreCheck_allow hpre
        have hprobes : probes c₁ = probes c := by rw [probes, hin, probes]
        simp only
        split
        · refine .allow clock.checkedAt c₁ hpre rfl rfl ?_
          simp only [probes, hin, List.filter_append, List.length_append]
          by_cases hs : c₁.state = .halfOpen <;> simp [hs]
        · refine .allowAndFail clock.checkedAt _ c₁ _ hpre (by simp)
            (recorded_failure opts clock.recordedAt c₁) rfl rfl ?_
          refine Nat.le_trans (probes_conclude_le _ _ _ _ _ _) (Nat.le_of_eq ?_)
          rw [probes, (recorded_failure opts clock.recordedAt c₁).inflight,
            ← probes, hprobes]
      · obtain rfl := breakerPreCheck_reject hpre
        exact .keep rfl rfl (probes_conclude_le _ _ _ _ _ _)
  | settle id outcome clock =>
      simp only [step, Option.map_eq_some_iff] at h
      obtain ⟨r, hfind, rfl⟩ := h
      have hr := findRequest_mem hfind
      simp only [recordedBy, hfind, settleAttempt, Option.filter_some]
      cases hfin : finalStatus outcome with
      | some status =>
          simp only [Option.isSome_some, true_or, decide_true, if_true]
          split
          · exact stepCase_conclude hr (by rfl) (recorded_success opts c) _ _ _ _
          · exact stepCase_conclude hr (by rfl) (recorded_failure opts _ c) _ _ _ _
      | none =>
          by_cases hlast : r.attempt = opts.retry.attempts
          · simp only [hlast, Option.isSome_none, or_true, decide_true, if_true]
            exact stepCase_conclude hr (by rfl) (recorded_failure opts _ c) _ _ _ _
          · simp only [hlast, Option.isSome_none, Bool.false_eq_true, or_self,
              decide_false, if_false]
            exact .keep rfl rfl
              (Nat.le_of_eq (by apply probes_updateRequest; intro _; rfl))
  | delayElapsed id clock =>
      simp only [step, Option.map_eq_some_iff] at h
      obtain ⟨r, hfind, rfl⟩ := h
      have hr := findRequest_mem hfind
      simp only [recordedBy, hfind, nextAttempt, Option.filter_some]
      by_cases hnext : r.attempt + 1 ≤ opts.retry.attempts
      · simp only [hnext, not_true_eq_false, decide_false, Bool.false_eq_true,
          if_false, if_true]
        exact .keep rfl rfl
          (Nat.le_of_eq (by apply probes_updateRequest; intro _; rfl))
      · simp only [hnext, not_false_eq_true, decide_true, if_true, if_false,
          exhausted]
        exact stepCase_conclude hr (by rfl) (recorded_failure opts _ c) _ _ _ _
  | delayRejects id =>
      simp only [step, Option.map_eq_some_iff] at h
      obtain ⟨r, hfind, rfl⟩ := h
      exact .keep rfl rfl (List.filter_sublist.filter _).length_le

/-! ## One probe while half-open -/

/-- What half-open promises of a step: one probe at most, only that probe's own
outcome ends it, and a request let through while closed neither closes nor
re-opens the breaker, nor frees the slot. -/
structure OneProbe (opts : HttpClientOptions) (c : Client) (a : Action)
    (c' : Client) : Prop where
  single : c'.state = .halfOpen → (probes c').length ≤ 1
  ownOutcome : c.state = .halfOpen → c'.state ≠ .halfOpen →
    ∃ r ∈ probes c, recordedBy opts c a = some r
  closes : ∀ r, recordedBy opts c a = some r → r.probe = false →
    c'.state = .closed → c.state = .closed
  reopens : ∀ r, recordedBy opts c a = some r → r.probe = false →
    c.state = .halfOpen → c'.state ≠ .opened
  frees : ∀ r, recordedBy opts c a = some r → r.probe = false →
    c.inflightHalfOpenProbe = true → c'.inflightHalfOpenProbe = true

/-- No request let through while the breaker was closed finishes while it is
half-open. -/
def NoLateFinish (opts : HttpClientOptions) (c : Client) (a : Action)
    (_ : Client) : Prop :=
  c.state = .halfOpen → ∀ r, recordedBy opts c a = some r → r.probe = true

/-- The slot is taken exactly while half-open, by the one probe in flight. -/
structure Inv (opts : HttpClientOptions) (c : Client) : Prop where
  slot : c.inflightHalfOpenProbe = true ↔ c.state = .halfOpen
  probes : (probes c).length ≤ if c.state = .halfOpen then 1 else 0
  disabled : opts.circuitBreaker = none → c.state = .closed

theorem inv_init {opts : HttpClientOptions} : Inv opts {} where
  slot := by simp
  probes := by simp [HttpClient.probes]
  disabled := fun _ => rfl

/-- While the invariant holds, a request is admitted unrecorded as a probe or
without any change to the breaker. -/
theorem Inv.allowed {opts : HttpClientOptions} {c c₁ : Client} {now : Int}
    (hc : Inv opts c)
    (h : breakerPreCheck opts.circuitBreaker now c = (.allow, c₁)) :
    c.state ≠ .halfOpen ∧ (c₁ = c ∨
      (opts.circuitBreaker.isSome ∧ c.state = .opened ∧ c₁.state = .halfOpen ∧
        c₁.inflightHalfOpenProbe = true)) := by
  obtain ⟨-, ⟨hnone, rfl⟩ | ⟨hs, rfl⟩ | ⟨hsome, hs, hslot, hfrom⟩⟩ :=
    breakerPreCheck_allow h
  · simp [hc.disabled hnone]
  · simp [hs]
  · have hopened : c.state = .opened := by
      rcases hfrom with hopened | ⟨hhalf, hfree⟩
      · exact hopened
      · simp [hc.slot.2 hhalf] at hfree
    exact ⟨by simp [hopened], Or.inr ⟨hsome, hopened, hs, hslot⟩⟩

/-- After an outcome is recorded the slot is free and half-open is over. -/
theorem Recorded.idle {opts : HttpClientOptions} {c c' : Client}
    (h : Recorded opts c c')
    (hnone : opts.circuitBreaker = none →
      c.state = .closed ∧ c.inflightHalfOpenProbe = false) :
    c'.state ≠ .halfOpen ∧ c'.inflightHalfOpenProbe = false ∧
      (opts.circuitBreaker = none → c'.state = .closed) := by
  cases hb : opts.circuitBreaker with
  | none =>
      rw [h.disabled hb]
      simp [hnone hb]
  | some policy =>
      have hsome : opts.circuitBreaker.isSome := by simp [hb]
      exact ⟨h.leaves hsome, h.slot hsome, fun h => by simp at h⟩

theorem Inv.unguarded {opts : HttpClientOptions} {c : Client} (hc : Inv opts c)
    (hnone : opts.circuitBreaker = none) :
    c.state = .closed ∧ c.inflightHalfOpenProbe = false := by
  have hs := hc.disabled hnone
  refine ⟨hs, ?_⟩
  cases hslot : c.inflightHalfOpenProbe with
  | false => rfl
  | true => simp [hc.slot.1 hslot] at hs

theorem step_inv {opts : HttpClientOptions} {c c' : Client} {a : Action}
    (hc : Inv opts c) (h : step opts c a = some c')
    (hlate : NoLateFinish opts c a c') : Inv opts c' := by
  have hprobes := hc.probes
  have hcase := step_cases h
  unfold NoLateFinish at hlate
  generalize recordedBy opts c a = recorded at hcase hlate
  cases hcase with
  | keep hs hf hp =>
      exact ⟨by rw [hs, hf, hc.slot], by rw [hs]; omega, by rw [hs]; exact hc.disabled⟩
  | allow now c₁ hpre hs hf hp =>
      obtain ⟨hnot, rfl | ⟨hsome, hopened, hhalf, htaken⟩⟩ := hc.allowed hpre
      · rw [if_neg hnot] at hp hprobes
        exact ⟨by rw [hs, hf, hc.slot], by rw [hs, if_neg hnot]; omega,
          by rw [hs]; exact hc.disabled⟩
      · rw [if_neg hnot] at hprobes
        refine ⟨by simp [hs, hf, hhalf, htaken], ?_, fun hnone => ?_⟩
        · rw [hs, hp, if_pos hhalf]
          omega
        · simp [hnone] at hsome
  | settle r c₁ hr hrecd hs hf hp =>
      obtain ⟨hleft, hfree, hdis⟩ := hrecd.idle hc.unguarded
      refine ⟨by simp [hs, hf, hleft, hfree], ?_, by rwa [hs]⟩
      rw [hs, if_neg hleft]
      by_cases hhalf : c.state = .halfOpen
      · rw [if_pos hhalf] at hprobes
        rw [if_pos (hlate hhalf r rfl)] at hp
        omega
      · rw [if_neg hhalf] at hprobes
        omega
  | allowAndFail now r c₁ c₂ hpre hprobe hrecd hs hf hp =>
      obtain ⟨hnot, hfrom⟩ := hc.allowed hpre
      have hnone : opts.circuitBreaker = none →
          c₁.state = .closed ∧ c₁.inflightHalfOpenProbe = false := by
        intro hnone
        rcases hfrom with rfl | ⟨hsome, -⟩
        · exact hc.unguarded hnone
        · simp [hnone] at hsome
      obtain ⟨hleft, hfree, hdis⟩ := hrecd.idle hnone
      rw [if_neg hnot] at hprobes
      exact ⟨by simp [hs, hf, hleft, hfree], by rw [hs, if_neg hleft]; omega,
        by rwa [hs]⟩

/-- Where the invariant holds, a step keeps the promise exactly when no
closed-admitted request finishes in it during half-open. -/
theorem step_oneProbe_iff {opts : HttpClientOptions} {c c' : Client} {a : Action}
    (hc : Inv opts c) (h : step opts c a = some c') :
    OneProbe opts c a c' ↔ NoLateFinish opts c a c' := by
  have hcase := step_cases h
  constructor
  · intro hone hhalf r hr
    rw [hr] at hcase
    cases hcase with
    | settle _ c₁ hmem hrecd hs hf hp =>
        by_contra hprobe
        rw [Bool.not_eq_true] at hprobe
        have hleft := (hrecd.idle hc.unguarded).1
        rw [← hs] at hleft
        cases hs' : c'.state with
        | closed => simp [hone.closes r hr hprobe hs'] at hhalf
        | opened => exact hone.reopens r hr hprobe hhalf hs'
        | halfOpen => exact hleft hs'
    | allowAndFail now _ c₁ c₂ hpre => exact absurd hhalf (hc.allowed hpre).1
  · intro hlate
    have hc' := step_inv hc h hlate
    have hearly : ∀ r, recordedBy opts c a = some r → r.probe = false →
        c.state ≠ .halfOpen := by
      intro r hr hprobe hhalf
      simp [hlate hhalf r hr] at hprobe
    refine ⟨fun hhalf => ?_, fun hhalf hleft => ?_, fun r hr hprobe hclosed => ?_,
      fun r hr hprobe hhalf => absurd hhalf (hearly r hr hprobe),
      fun r hr hprobe hslot => absurd (hc.slot.1 hslot) (hearly r hr hprobe)⟩
    · have := hc'.probes
      rwa [if_pos hhalf] at this
    · unfold NoLateFinish at hlate
      generalize recordedBy opts c a = recorded at hcase hlate
      cases hcase with
      | keep hs => exact absurd (hs.trans hhalf) hleft
      | allow now c₁ hpre => exact absurd hhalf (hc.allowed hpre).1
      | settle r c₁ hr =>
          exact ⟨r, List.mem_filter.2 ⟨hr, hlate hhalf r rfl⟩, rfl⟩
      | allowAndFail now r c₁ c₂ hpre => exact absurd hhalf (hc.allowed hpre).1
    · have hnot := hearly r hr hprobe
      rw [hr] at hcase
      cases hcase with
      | settle _ c₁ hmem hrecd hs =>
          exact (hrecd.closes (hs ▸ hclosed)).resolve_right hnot
      | allowAndFail now _ c₁ c₂ hpre hprobe' hrecd hs =>
          rcases (hc.allowed hpre).2 with rfl | ⟨-, -, hhalf, -⟩
          · exact (hrecd.closes (hs ▸ hclosed)).resolve_right hnot
          · simp [hprobe, hhalf] at hprobe'

/-- Half-open means one probe along exactly the runs in which no request let
through while the breaker was closed finishes while it is half-open. -/
theorem request_oneProbe_iff (opts : HttpClientOptions) (acts : List Action) :
    Along (step opts) (OneProbe opts) {} acts ↔
      Along (step opts) (NoLateFinish opts) {} acts := by
  refine along_iff_of_inv (Inv opts) ?_ ?_ acts {} inv_init
  · exact fun c a c' hc h => step_oneProbe_iff hc h
  · exact fun c a c' hc h hlate => step_inv hc h hlate

/-- One failure opens this breaker, for ten milliseconds. -/
def strictOptions : HttpClientOptions :=
  { circuitBreaker := some { failureThreshold := 1, recoveryMs := 10 } }

/-- Request 0 is let through while closed; request 1 opens the breaker and
request 2 becomes the probe. -/
def probing : List Action :=
  [.request 0 (.at 0), .request 1 (.at 0), .settle 1 .network (.at 1),
   .request 2 (.at 20)]

/-- Then request 0 succeeds. -/
def lateSuccess : Action := .settle 0 (.response 200) (.at 21)

theorem request_lateSuccess_closes :
    (∃ c, exec (step strictOptions) {} (probing ++ [lateSuccess]) = some c ∧
      c.state = .closed ∧ (probes c).length = 1) ∧
    ¬ Along (step strictOptions) (OneProbe strictOptions) {}
        (probing ++ [lateSuccess]) := by
  refine ⟨⟨_, rfl, rfl, rfl⟩, fun h => ?_⟩
  obtain ⟨c', hc', hone⟩ := h.last rfl
  cases hc'
  exact CircuitState.noConfusion (hone.closes _ rfl rfl rfl)

end Ap3xSolana.Core.HttpClient
