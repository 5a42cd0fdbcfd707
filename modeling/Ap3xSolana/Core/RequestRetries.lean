import Mathlib.Order.Bounds.Basic
import Ap3xSolana.Core.HttpClient

/-!
# The retries of one request

`request` on its own, with what its fetches throw: the effects of the call in order, and
what its promise settles with.  `request_accounted` counts them; `exec_script` says that
the request of the machine does the same among other requests.
-/

namespace Ap3xSolana.Core.RequestRetries

open Ap3xSolana.Core.HttpClient Ap3xSolana.Lib.Run

variable {ε : Type}

/-- What one `_fetchOnce` settles with; `ε` is what `fetch` throws. -/
inductive FetchOutcome (ε : Type) where
  | response (status : Nat)
  | timeout
  | threw (e : ε)
  deriving DecidableEq, Repr

inductive RequestError (ε : Type) where
  | rpc (code message : String)
  | timeout
  | threw (e : ε)
  deriving DecidableEq, Repr

structure LastFailure (ε : Type) where
  kind : HttpErrorClass
  statusCode : Option Nat
  err : RequestError ε
  deriving DecidableEq, Repr

inductive Effect where
  | fetch
  | delay
  | recordSuccess
  | recordFailure
  | metrics (m : HttpMetrics)
  deriving DecidableEq, Repr

/-- The effects of a call and its result, a status or an error. -/
abbrev Performed (ε : Type) := List Effect × Except (RequestError ε) Nat

/-- The outcome as the machine of all requests sees it. -/
def FetchOutcome.attempt : FetchOutcome ε → AttemptOutcome
  | .response status => .response status
  | .timeout => .timeout
  | .threw _ => .network

def RequestError.plain : RequestError ε → HttpError
  | .rpc code message => .rpc code message
  | .timeout => .timeout
  | .threw _ => .network

/-- What a retryable outcome leaves in `lastFailure`. -/
def lastFailureOf : FetchOutcome ε → LastFailure ε
  | .response status =>
      { kind := .http
        statusCode := some status
        err := .rpc (if status = 429 then "rate_limited" else "http") s!"HTTP {status}" }
  | .timeout => { kind := .timeout, statusCode := none, err := .timeout }
  | .threw e => { kind := .network, statusCode := none, err := .threw e }

/-- After the loop. -/
def allExhausted (clock : Clock) (retryCount : Int) (lastFailure : Option (LastFailure ε)) :
    Performed ε :=
  ([.recordFailure, .metrics
      { latencyMs := clock.endedAt - clock.startedAt
        statusCode := lastFailure.bind (·.statusCode)
        errorClass := some ((lastFailure.map (·.kind)).getD .network)
        retryCount := retryCount }],
    .error ((lastFailure.map (·.err)).getD (.rpc "http" "request failed")))

/-- A response that is not retried. -/
def finish (clock : Clock) (retryCount : Int) (status : Nat) : Performed ε :=
  if isOk status then
    ([.recordSuccess, .metrics
        { latencyMs := clock.endedAt - clock.startedAt
          statusCode := some status
          retryCount := retryCount }], .ok status)
  else
    ([.recordFailure, .metrics
        { latencyMs := clock.endedAt - clock.startedAt
          statusCode := some status
          errorClass := some .http
          retryCount := retryCount }], .error (.rpc "http" s!"HTTP {status}"))

def Performed.after (effects : List Effect) (p : Performed ε) : Performed ε :=
  (effects ++ p.1, p.2)

/-- The retry loop; `turns` are left. -/
def requestLoop (attempts : Int) (clock : Clock) (outcomes : Nat → FetchOutcome ε) :
    Nat → Nat → Int → Option (LastFailure ε) → Performed ε
  | 0, _, retryCount, lastFailure => allExhausted clock retryCount lastFailure
  | turns + 1, attempt, retryCount, _ =>
      match finalStatus (outcomes attempt).attempt with
      | some status => (finish clock retryCount status).after [.fetch]
      | none =>
          let lastFailure := some (lastFailureOf (outcomes attempt))
          if (attempt : Int) = attempts then
            (allExhausted clock retryCount lastFailure).after [.fetch]
          else
            (requestLoop attempts clock outcomes turns (attempt + 1) attempt lastFailure).after
              [.fetch, .delay]

/-- `request` of a client in state `c`; the outcome of the n-th fetch is `outcomes n`. -/
def request (opts : HttpClientOptions) (c : Client) (clock : Clock)
    (outcomes : Nat → FetchOutcome ε) : Performed ε :=
  match breakerPreCheck opts.circuitBreaker clock.checkedAt c with
  | (.reject, _) =>
      ([.metrics
          { latencyMs := clock.endedAt - clock.startedAt
            errorClass := some .circuitOpen
            retryCount := 0 }], .error (.rpc "circuit_open" "circuit open"))
  | (.allow, _) =>
      requestLoop opts.retry.attempts clock outcomes opts.retry.attempts.toNat 1 0 none

/-! ## The accounts -/

/-- A 429, a 5xx or a thrown error. -/
def Retryable : FetchOutcome ε → Prop
  | .response status => status = 429 ∨ 500 ≤ status ∧ status ≤ 599
  | .timeout => True
  | .threw _ => True

/-- What the call settles with if this was its last fetch. -/
def resultOf : FetchOutcome ε → Except (RequestError ε) Nat
  | .response status =>
      if isOk status then .ok status
      else .error (.rpc (if status = 429 then "rate_limited" else "http") s!"HTTP {status}")
  | .timeout => .error .timeout
  | .threw e => .error (.threw e)

def isFetch : Effect → Bool
  | .fetch => true
  | _ => false

def isRecord : Effect → Bool
  | .recordSuccess => true
  | .recordFailure => true
  | _ => false

def metricsOf : Effect → Option HttpMetrics
  | .metrics m => some m
  | _ => none

def fetches (p : Performed ε) : Nat := p.1.countP isFetch

/-- The smaller of `attempts` and the index of the first outcome that is not retried. -/
def IsLastFetch (attempts : Int) (outcomes : Nat → FetchOutcome ε) (n : Nat) : Prop :=
  IsLeast {k : Nat | (k : Int) = attempts ∨ 1 ≤ k ∧ ¬ Retryable (outcomes k)} n

structure Accounted (attempts : Int) (outcomes : Nat → FetchOutcome ε) (p : Performed ε) :
    Prop where
  fetches : IsLastFetch attempts outcomes (fetches p)
  resolves : p.2.isOk = true ↔
    ∃ status, outcomes (RequestRetries.fetches p) = .response status ∧ isOk status = true
  result : p.2 = resultOf (outcomes (RequestRetries.fetches p))
  metrics : ∃ m, p.1.filterMap metricsOf = [m] ∧
    m.retryCount = RequestRetries.fetches p - 1
  breaker : p.1.filter isRecord =
    [if p.2.isOk then .recordSuccess else .recordFailure]

theorem finalStatus_eq_none {o : FetchOutcome ε} : finalStatus o.attempt = none ↔ Retryable o := by
  cases o with
  | response status =>
      have hstatus : isRetryableStatus status = true ↔
          status = 429 ∨ 500 ≤ status ∧ status ≤ 599 := by
        simp only [isRetryableStatus, Bool.or_eq_true, Bool.and_eq_true, decide_eq_true_eq,
          beq_iff_eq]
        omega
      simp only [FetchOutcome.attempt, finalStatus, Retryable]
      rw [← hstatus]
      split <;> simp_all
  | timeout => exact iff_of_true rfl trivial
  | threw e => exact iff_of_true rfl trivial

theorem finalStatus_eq_some {o : FetchOutcome ε} {status : Nat}
    (h : finalStatus o.attempt = some status) : o = .response status := by
  cases o with
  | response s =>
      simp only [FetchOutcome.attempt, finalStatus] at h
      split at h
      · cases h
      · cases h
        rfl
  | timeout => cases h
  | threw e => cases h

/-- A retried outcome is no success, and `lastFailure` keeps its error. -/
theorem resultOf_retryable {o : FetchOutcome ε} (h : Retryable o) :
    resultOf o = .error (lastFailureOf o).err := by
  cases o with
  | response status =>
      have hnot : isOk status = false := by
        simp only [isOk, Bool.and_eq_false_iff, decide_eq_false_iff_not]
        rcases h with rfl | h <;> omega
      simp [resultOf, lastFailureOf, hnot]
  | timeout => rfl
  | threw e => rfl

theorem resultOf_final {status : Nat}
    (h : ¬ Retryable (FetchOutcome.response status : FetchOutcome ε)) (clock : Clock)
    (retryCount : Int) :
    (finish clock retryCount status : Performed ε).2 = resultOf (.response status) := by
  have hne : status ≠ 429 := fun h429 => h (.inl h429)
  by_cases hok : isOk status = true
  · simp [finish, resultOf, hok]
  · simp [finish, resultOf, hok, hne]

/-- The end of a call: its last fetch, one record and one metrics event. -/
structure Concluded (retryCount : Int) (o : FetchOutcome ε) (p : Performed ε) : Prop where
  result : p.2 = resultOf o
  fetches : p.1.countP isFetch = 0
  metrics : ∃ m, p.1.filterMap metricsOf = [m] ∧ m.retryCount = retryCount
  breaker : p.1.filter isRecord =
    [if p.2.isOk then .recordSuccess else .recordFailure]

theorem concluded_exhausted (clock : Clock) (retryCount : Int) {o : FetchOutcome ε}
    (h : Retryable o) :
    Concluded retryCount o (allExhausted clock retryCount (some (lastFailureOf o))) where
  result := (resultOf_retryable h).symm
  fetches := rfl
  metrics := ⟨_, rfl, rfl⟩
  breaker := rfl

theorem concluded_finish (clock : Clock) (retryCount : Int) {status : Nat}
    (h : ¬ Retryable (FetchOutcome.response status : FetchOutcome ε)) :
    Concluded retryCount (.response status) (finish clock retryCount status : Performed ε) := by
  refine ⟨resultOf_final h clock retryCount, ?_, ?_, ?_⟩
  · unfold finish
    split <;> rfl
  · unfold finish
    split
    · exact ⟨_, rfl, rfl⟩
    · exact ⟨_, rfl, rfl⟩
  · unfold finish
    split <;> rfl

/-- The loop from an attempt on: earlier outcomes were retried. -/
theorem requestLoop_accounted (attempts : Int) (clock : Clock)
    (outcomes : Nat → FetchOutcome ε) :
    ∀ (turns attempt : Nat) (lastFailure : Option (LastFailure ε)), 1 ≤ attempt →
    0 < turns → (attempt : Int) + turns = attempts + 1 →
    (∀ k, 1 ≤ k → k < attempt → Retryable (outcomes k)) →
    ∃ n, attempt ≤ n ∧ IsLastFetch attempts outcomes n ∧
      ∃ earlier p, requestLoop attempts clock outcomes turns attempt (attempt - 1) lastFailure =
          Performed.after earlier p ∧
        earlier.countP isFetch = n + 1 - attempt ∧ earlier.filterMap metricsOf = [] ∧
        earlier.filter isRecord = [] ∧ Concluded (n - 1 : Int) (outcomes n) p := by
  intro turns
  induction turns with
  | zero =>
      intro _ _ _ hturns
      omega
  | succ turns ih =>
      intro attempt lastFailure hfirst _ hturns hearlier
      unfold requestLoop
      have hlower : ∀ k ∈ {k : Nat | (k : Int) = attempts ∨ 1 ≤ k ∧ ¬ Retryable (outcomes k)},
          attempt ≤ k := by
        rintro k (hk | ⟨hk, hnot⟩)
        · omega
        · by_contra hlt
          exact hnot (hearlier k hk (by omega))
      cases hfinal : finalStatus (outcomes attempt).attempt with
      | some status =>
          have hresponse := finalStatus_eq_some hfinal
          have hnot : ¬ Retryable (outcomes attempt) := by
            rw [← finalStatus_eq_none, hfinal]
            exact Option.some_ne_none status
          refine ⟨attempt, Nat.le_refl _, ⟨.inr ⟨hfirst, hnot⟩, hlower⟩, [.fetch],
            finish clock (attempt - 1) status, rfl, ?_, rfl, rfl, ?_⟩
          · show 1 = _
            omega
          · rw [hresponse] at hnot ⊢
            exact concluded_finish clock _ hnot
      | none =>
          have hretry := finalStatus_eq_none.1 hfinal
          dsimp only
          by_cases hlast : (attempt : Int) = attempts
          · rw [if_pos hlast]
            refine ⟨attempt, Nat.le_refl _, ⟨.inl hlast, hlower⟩, [.fetch], _, rfl, ?_, rfl, rfl,
              concluded_exhausted clock _ hretry⟩
            show 1 = _
            omega
          · rw [if_neg hlast]
            obtain ⟨n, hn, hleast, earlier, p, hloop, hcount, hmetrics, hrecords, hend⟩ :=
              ih (attempt + 1) (some (lastFailureOf (outcomes attempt))) (by omega) (by omega)
                (by omega) fun k hk hlt => by
                  by_cases heq : k = attempt
                  · exact heq ▸ hretry
                  · exact hearlier k hk (by omega)
            have hcast : ((attempt + 1 : Nat) : Int) - 1 = attempt := by omega
            rw [hcast] at hloop
            refine ⟨n, by omega, hleast, [.fetch, .delay] ++ earlier, p, ?_, ?_, ?_, ?_, hend⟩
            · rw [hloop]
              simp [Performed.after]
            · rw [List.countP_append, hcount]
              show 1 + _ = _
              omega
            · rw [List.filterMap_append, hmetrics]
              rfl
            · rw [List.filter_append, hrecords]
              rfl

theorem request_accounted (opts : HttpClientOptions) (hattempts : 1 ≤ opts.retry.attempts)
    {c : Client} (hclosed : c.state = .closed) (clock : Clock)
    (outcomes : Nat → FetchOutcome ε) :
    Accounted opts.retry.attempts outcomes (request opts c clock outcomes) := by
  have hallow : breakerPreCheck opts.circuitBreaker clock.checkedAt c = (.allow, c) := by
    unfold breakerPreCheck
    cases opts.circuitBreaker with
    | none => rfl
    | some policy => simp [hclosed]
  obtain ⟨n, hn, hleast, earlier, p, hloop, hcount, hmetrics, hrecords, hend⟩ :=
    requestLoop_accounted opts.retry.attempts clock outcomes
      opts.retry.attempts.toNat 1 none (Nat.le_refl _) (by omega) (by omega)
      fun k hk hlt => by omega
  have hrequest : request opts c clock outcomes = Performed.after earlier p := by
    unfold request
    rw [hallow]
    exact hloop
  have hfetches : RequestRetries.fetches (Performed.after earlier p) = n := by
    show (earlier ++ p.1).countP isFetch = n
    rw [List.countP_append, hcount, hend.fetches]
    omega
  rw [hrequest]
  refine ⟨?_, ?_, ?_, ?_, ?_⟩
  · rw [hfetches]
    exact hleast
  · rw [hfetches]
    show p.2.isOk = true ↔ _
    rw [hend.result]
    cases outcomes n with
    | response status =>
        unfold resultOf
        by_cases hok : isOk status = true <;> simp [hok, Except.isOk, Except.toBool]
    | timeout => simp [resultOf, Except.isOk, Except.toBool]
    | threw e => simp [resultOf, Except.isOk, Except.toBool]
  · rw [hfetches]
    exact hend.result
  · obtain ⟨m, hm, hretries⟩ := hend.metrics
    refine ⟨m, ?_, ?_⟩
    · show (earlier ++ p.1).filterMap metricsOf = [m]
      rw [List.filterMap_append, hmetrics, hm]
      rfl
    · rw [hfetches, hretries]
  · show (earlier ++ p.1).filter isRecord = _
    rw [List.filter_append, hrecords, hend.breaker]
    rfl

/-! ## Among other requests -/

def applyEffect (opts : HttpClientOptions) (clock : Clock) (c : Client) : Effect → Client
  | .recordSuccess => recordSuccess opts.circuitBreaker c
  | .recordFailure => recordFailure opts.circuitBreaker clock.recordedAt c
  | .metrics m => { c with events := c.events ++ [.metrics m] }
  | _ => c

def plainResult : Except (RequestError ε) Nat → HttpResult
  | .ok status => .ok status
  | .error e => .error e.plain

/-- The client after the call. -/
def performed (opts : HttpClientOptions) (clock : Clock) (id : Nat) (c : Client)
    (p : Performed ε) : Client :=
  let c := p.1.foldl (applyEffect opts clock) c
  { c with settled := c.settled ++ [(id, plainResult p.2)] }

/-- The steps of the request after its start. -/
def script (attempts : Int) (id : Nat) (clock : Clock) (outcomes : Nat → FetchOutcome ε) :
    Nat → Nat → List Action
  | 0, _ => []
  | turns + 1, attempt =>
      .settle id (outcomes attempt).attempt clock ::
        match finalStatus (outcomes attempt).attempt with
        | some _ => []
        | none =>
            if (attempt : Int) = attempts then []
            else .delayElapsed id clock :: script attempts id clock outcomes turns (attempt + 1)

/-- The client with one more request in flight. -/
def add (r : Request) (c : Client) : Client := { c with inflight := c.inflight ++ [r] }

theorem transitionTo_add (next : CircuitState) (r : Request) (c : Client) :
    transitionTo next (add r c) = add r (transitionTo next c) := by
  unfold transitionTo
  show (if c.state = next then add r c else _) = _
  split <;> rfl

theorem recordSuccess_add (breaker : Option CircuitBreakerPolicy) (r : Request) (c : Client) :
    recordSuccess breaker (add r c) = add r (recordSuccess breaker c) := by
  cases breaker with
  | none => rfl
  | some policy =>
      unfold recordSuccess
      dsimp only
      rw [transitionTo_add]
      show Client.mk _ _ _ _ _ _ _ = _
      by_cases h : c.state = .halfOpen
      · simp [add, h]
      · simp [add, h]

theorem recordFailure_add (breaker : Option CircuitBreakerPolicy) (now : Int) (r : Request)
    (c : Client) : recordFailure breaker now (add r c) = add r (recordFailure breaker now c) := by
  cases breaker with
  | none => rfl
  | some policy =>
      by_cases hhalf : c.state = .halfOpen
      · simp [recordFailure, add, hhalf, transitionTo]
      · by_cases hopens : c.state = .closed ∧
          c.consecutiveFailures + 1 ≥ policy.failureThreshold
        · simp [recordFailure, add, hopens, transitionTo]
        · simp [recordFailure, add, hhalf, hopens]

section Script

variable {r : Request} {c : Client}

theorem findRequest_add (hfresh : ∀ q ∈ c.inflight, q.id ≠ r.id) :
    findRequest r.id r.phase (add r c) = some r := by
  have hnone : c.inflight.find? (fun q => q.id = r.id ∧ q.phase = r.phase) = none := by
    rw [List.find?_eq_none]
    intro q hq
    simp [hfresh q hq]
  show List.find? _ (c.inflight ++ [r]) = some r
  rw [List.find?_append, hnone]
  simp

theorem updateRequest_add (hfresh : ∀ q ∈ c.inflight, q.id ≠ r.id) (f : Request → Request) :
    updateRequest r.id f (add r c) = add (f r) c := by
  have hmap : c.inflight.map (fun q => if q.id = r.id then f q else q) = c.inflight :=
    (List.map_congr_left fun q hq => if_neg (hfresh q hq)).trans (List.map_id' _)
  show { c with inflight := (c.inflight ++ [r]).map _ } = _
  rw [List.map_append, hmap]
  simp [add]

theorem conclude_add (hfresh : ∀ q ∈ c.inflight, q.id ≠ r.id) {s : Request} (hs : s.id = r.id)
    (endedAt : Int) (statusCode : Option Nat) (errorClass : Option HttpErrorClass)
    (result : HttpResult) :
    conclude s endedAt statusCode errorClass result (add r c) =
      { c with
        events := c.events ++ [.metrics
          { latencyMs := endedAt - s.startedAt
            statusCode := statusCode
            errorClass := errorClass
            retryCount := s.retryCount }]
        settled := c.settled ++ [(r.id, result)] } := by
  have hfilter : (c.inflight ++ [r]).filter (·.id ≠ r.id) = c.inflight := by
    rw [List.filter_append, List.filter_eq_self.2 fun q hq => decide_eq_true (hfresh q hq)]
    simp
  simp only [conclude, add, hs, hfilter]

end Script

theorem failureOf_attempt (o : FetchOutcome ε) :
    failureOf o.attempt =
      { kind := (lastFailureOf o).kind
        statusCode := (lastFailureOf o).statusCode
        err := (lastFailureOf o).err.plain } := by
  cases o <;> rfl

theorem performed_after (opts : HttpClientOptions) (clock : Clock) (id : Nat) (c : Client)
    {effects : List Effect} (h : ∀ e ∈ effects, e = .fetch ∨ e = .delay) (p : Performed ε) :
    performed opts clock id c (p.after effects) = performed opts clock id c p := by
  have hfold : effects.foldl (applyEffect opts clock) c = c := by
    induction effects with
    | nil => rfl
    | cons e effects ih =>
        have hstep : applyEffect opts clock c e = c := by
          rcases h e (by simp) with rfl | rfl <;> rfl
        rw [List.foldl_cons, hstep]
        exact ih fun e he => h e (by simp [he])
  simp only [performed, Performed.after, List.foldl_append, hfold]

/-- The machine's end of the retry loop, with the request alone. -/
theorem exhausted_add (opts : HttpClientOptions) (clock : Clock) {r s : Request} {c : Client}
    (hfresh : ∀ q ∈ c.inflight, q.id ≠ r.id) (hs : s.id = r.id)
    (hstart : s.startedAt = clock.startedAt) (o : FetchOutcome ε)
    (hlast : s.lastFailure = some (failureOf o.attempt)) :
    exhausted opts s clock (add r c) =
      performed opts clock r.id c
        (allExhausted clock s.retryCount (some (lastFailureOf o))) := by
  have hrecorded := (recorded_failure opts clock.recordedAt c).inflight
  unfold exhausted
  rw [recordFailure_add, conclude_add (hrecorded ▸ hfresh) hs, hlast, failureOf_attempt, hstart]
  rfl

theorem finish_add (opts : HttpClientOptions) (clock : Clock) {r : Request} {c : Client}
    (hfresh : ∀ q ∈ c.inflight, q.id ≠ r.id) (hstart : r.startedAt = clock.startedAt)
    {outcome : AttemptOutcome} {status : Nat} (h : finalStatus outcome = some status) :
    settleAttempt opts r outcome clock (add r c) =
      performed opts clock r.id c (finish clock r.retryCount status : Performed ε) := by
  unfold settleAttempt finish
  rw [h]
  dsimp only
  split
  · rw [recordSuccess_add,
      conclude_add ((recorded_success opts c).inflight ▸ hfresh) rfl, hstart]
    rfl
  · rw [recordFailure_add,
      conclude_add ((recorded_failure opts clock.recordedAt c).inflight ▸ hfresh) rfl, hstart]
    rfl

/-- From an attempt on, the machine does what the loop does. -/
theorem exec_script_loop (opts : HttpClientOptions) (clock : Clock)
    (outcomes : Nat → FetchOutcome ε) {c : Client} :
    ∀ (turns attempt : Nat) (r : Request) (lastFailure : Option (LastFailure ε)),
    (∀ q ∈ c.inflight, q.id ≠ r.id) → 0 < turns →
    (attempt : Int) + turns = opts.retry.attempts + 1 → r.attempt = attempt →
    r.phase = .fetching → r.startedAt = clock.startedAt →
    exec (step opts) (add r c) (script opts.retry.attempts r.id clock outcomes turns attempt) =
      some (performed opts clock r.id c
        (requestLoop opts.retry.attempts clock outcomes turns attempt r.retryCount
          lastFailure)) := by
  intro turns
  induction turns with
  | zero =>
      intro _ _ _ _ hturns
      omega
  | succ turns ih =>
      intro attempt r lastFailure hfresh _ hturns hattempt hphase hstart
      have hfind := findRequest_add hfresh
      rw [hphase] at hfind
      have hsettle : step opts (add r c) (.settle r.id (outcomes attempt).attempt clock) =
          some (settleAttempt opts r (outcomes attempt).attempt clock (add r c)) := by
        simp only [step, hfind, Option.map_some]
      unfold script requestLoop
      rw [exec_cons hsettle]
      cases hfinal : finalStatus (outcomes attempt).attempt with
      | some status =>
          dsimp only
          rw [finish_add (ε := ε) opts clock hfresh hstart hfinal,
            performed_after _ _ _ _ (by simp)]
          rfl
      | none =>
          dsimp only
          by_cases hlast : (attempt : Int) = opts.retry.attempts
          · let last : Request :=
              { r with lastFailure := some (failureOf (outcomes attempt).attempt) }
            have hexhausts : settleAttempt opts r (outcomes attempt).attempt clock (add r c) =
                exhausted opts last clock (add r c) := by
              simp only [settleAttempt, hfinal, hattempt, hlast, if_true]
              rfl
            rw [if_pos hlast, if_pos hlast, hexhausts,
              exhausted_add opts clock (s := last) hfresh rfl hstart (outcomes attempt) rfl,
              performed_after _ _ _ _ (by simp)]
            rfl
          · rw [if_neg hlast, if_neg hlast]
            let waiting : Request :=
              { r with
                lastFailure := some (failureOf (outcomes attempt).attempt)
                phase := .waiting }
            let next : Request :=
              { waiting with
                retryCount := r.attempt
                attempt := r.attempt + 1
                phase := .fetching }
            have hwaits : settleAttempt opts r (outcomes attempt).attempt clock (add r c) =
                add waiting c := by
              simp only [settleAttempt, hfinal, hattempt, hlast, if_false]
              exact updateRequest_add hfresh _
            have hdelay : step opts (add waiting c) (.delayElapsed r.id clock) =
                some (add next c) := by
              have hfind : findRequest r.id .waiting (add waiting c) = some waiting :=
                findRequest_add (r := waiting) hfresh
              have hmore : waiting.attempt + 1 ≤ opts.retry.attempts := by
                show r.attempt + 1 ≤ _
                omega
              simp only [step, hfind, Option.map_some, nextAttempt, hmore, if_true]
              exact congrArg some (updateRequest_add (r := waiting) hfresh _)
            have hloop := ih (attempt + 1) next (some (lastFailureOf (outcomes attempt))) hfresh
              (by omega) (by omega) (by show r.attempt + 1 = _; omega) rfl hstart
            have hcount : next.retryCount = attempt := hattempt
            rw [hwaits, exec_cons hdelay, performed_after _ _ _ _ (by simp)]
            rw [hcount] at hloop
            exact hloop

/-- Whatever else is in flight, the steps of one request change the client as `request` says. -/
theorem exec_script (opts : HttpClientOptions) (hattempts : 1 ≤ opts.retry.attempts)
    {c : Client} (hclosed : c.state = .closed) (id : Nat)
    (hfresh : ∀ q ∈ c.inflight, q.id ≠ id) (clock : Clock) (outcomes : Nat → FetchOutcome ε) :
    exec (step opts) c (.request id clock ::
        script opts.retry.attempts id clock outcomes opts.retry.attempts.toNat 1) =
      some (performed opts clock id c (request opts c clock outcomes)) := by
  have hallow : breakerPreCheck opts.circuitBreaker clock.checkedAt c = (.allow, c) := by
    unfold breakerPreCheck
    cases opts.circuitBreaker with
    | none => rfl
    | some policy => simp [hclosed]
  let r : Request := { id := id, probe := false, startedAt := clock.startedAt }
  have hstart : step opts c (.request id clock) = some (add r c) := by
    have hany : c.inflight.any (·.id = id) = false := by simpa using hfresh
    simp only [step, hany, startRequest, hallow, hclosed]
    simp [hattempts, add, r, hclosed]
  have hloop := exec_script_loop opts clock outcomes opts.retry.attempts.toNat 1 r none hfresh
    (by omega) (by omega) rfl rfl rfl
  rw [exec_cons hstart]
  simp only [request, hallow]
  exact hloop

/-- A timeout, a 429, a network error, and then the attempts are used up. -/
def mixedOutcomes : Nat → FetchOutcome String
  | 1 => .timeout
  | 2 => .response 429
  | 3 => .threw "ECONNRESET"
  | _ => .response 200

/-- Another request waits for its next attempt, and a third one is fetching. -/
def busy : Client :=
  { inflight :=
      [{ id := 0, probe := false, startedAt := 0, attempt := 2, phase := .waiting },
       { id := 1, probe := false, startedAt := 0 }] }

theorem exec_script_busy :
    exec (step { retry := { attempts := 3 } }) busy
        (.request 2 (.at 5) :: script 3 2 (.at 5) mixedOutcomes 3 1) =
      some (performed { retry := { attempts := 3 } } (.at 5) 2 busy
        (request { retry := { attempts := 3 } } busy (.at 5) mixedOutcomes)) :=
  exec_script { retry := { attempts := 3 } } (by decide) (c := busy) rfl 2 (by decide) (.at 5)
    mixedOutcomes

theorem request_accounted_mixed :
    Accounted 3 mixedOutcomes
      (request { retry := { attempts := 3 } } {} (.at 0) mixedOutcomes) :=
  request_accounted { retry := { attempts := 3 } } (by decide) rfl (.at 0) mixedOutcomes

end Ap3xSolana.Core.RequestRetries
