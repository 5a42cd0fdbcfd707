import Ap3xSolana.Core.HttpClient
import Mathlib.Data.List.Nodup

/-!
# Aborting a request

A caller may abort its signal at any time: before `request` is called, during a fetch or
during a backoff.  A fetch whose signal is aborted rejects, and `request` takes that for a
network error like any other.

`ClientStops` is what an abort should do, and `client_stops_iff` says of which runs it does.
-/

namespace Ap3xSolana.Core.RequestAborts

open Ap3xSolana.Lib.Run Ap3xSolana.Core.HttpClient

/-! ## Signals -/

/-- A machine and the signals that have been aborted. -/
structure Signalled (σ : Type*) where
  machine : σ
  aborted : List Nat := []
  deriving Repr

inductive SignalAction (α : Type*) where
  | abort (signal : Nat)
  | act (a : α)
  deriving DecidableEq, Repr

/-- `heeds` says which actions there are once signals are aborted. -/
def signalStep {σ α : Type*} (step : σ → α → Option σ) (heeds : List Nat → α → Bool)
    (s : Signalled σ) : SignalAction α → Option (Signalled σ)
  | .abort signal => some { s with aborted := signal :: s.aborted }
  | .act a =>
      if heeds s.aborted a then
        (step s.machine a).map fun machine => { s with machine := machine }
      else none

/-- A property of the steps that the machine takes itself. -/
def OnActs {σ α : Type*} (ok : List Nat → σ → α → σ → Prop) (s : Signalled σ) :
    SignalAction α → Signalled σ → Prop
  | .abort _, _ => True
  | .act a, s' => ok s.aborted s.machine a s'.machine

/-- Two step properties agree along the runs with aborts if they agree on the machine's
own steps. -/
theorem onActs_along_iff {σ α : Type*} {step : σ → α → Option σ} {heeds : List Nat → α → Bool}
    {ok ok' : List Nat → σ → α → σ → Prop} (Inv : σ → Prop)
    (hstep : ∀ aborted m a m', Inv m → heeds aborted a = true → step m a = some m' →
      (ok aborted m a m' ↔ ok' aborted m a m') ∧ Inv m')
    (acts : List (SignalAction α)) {s : Signalled σ} (hs : Inv s.machine) :
    Along (signalStep step heeds) (OnActs ok) s acts ↔
      Along (signalStep step heeds) (OnActs ok') s acts := by
  have hact : ∀ (s : Signalled σ) a s', signalStep step heeds s (.act a) = some s' →
      heeds s.aborted a = true ∧ step s.machine a = some s'.machine := by
    intro s a s' h
    simp only [signalStep] at h
    split at h
    · rename_i hheeds
      rw [Option.map_eq_some_iff] at h
      obtain ⟨m, hm, rfl⟩ := h
      exact ⟨hheeds, hm⟩
    · cases h
  refine along_iff_of_inv (fun s => Inv s.machine) ?_ ?_ acts s hs
  · intro s a s' hs h
    cases a with
    | abort signal => exact Iff.rfl
    | act a =>
        obtain ⟨hheeds, hm⟩ := hact s a s' h
        exact (hstep s.aborted s.machine a s'.machine hs hheeds hm).1
  · intro s a s' hs h _
    cases a with
    | abort signal =>
        cases h
        exact hs
    | act a =>
        obtain ⟨hheeds, hm⟩ := hact s a s' h
        exact (hstep s.aborted s.machine a s'.machine hs hheeds hm).2

/-! ## What an abort should do -/

/-- A fetch whose signal is aborted rejects. -/
def heeds (aborted : List Nat) : Action → Bool
  | .settle id outcome _ => !aborted.contains id || outcome = .network
  | _ => true

/-- The request fetches, and did not before. -/
def FetchStarted (c c' : Client) (id : Nat) : Prop :=
  ∃ r ∈ c'.inflight, r.id = id ∧ r.phase = .fetching ∧ r ∉ c.inflight

structure ClientStops (aborted : List Nat) (c : Client) (a : Action) (c' : Client) : Prop where
  noFetch : ∀ id ∈ aborted, ¬ FetchStarted c c' id
  rejects : ∀ id ∈ aborted, ∀ result, c'.settled = c.settled ++ [(id, result)] →
    ∃ e, result = .error e
  notCharged : ∀ id ∈ aborted, ∀ outcome clock, a = .settle id outcome clock →
    c'.state = c.state ∧ c'.consecutiveFailures = c.consecutiveFailures

/-- The request whose turn a step is. -/
def subject : Action → Nat
  | .request id _ => id
  | .settle id _ _ => id
  | .delayElapsed id _ => id
  | .delayRejects id => id

/-- The turn ends in a fetch. -/
def Fetches (opts : HttpClientOptions) (c : Client) : Action → Prop
  | .request _ clock =>
      (breakerPreCheck opts.circuitBreaker clock.checkedAt c).1 = .allow ∧
        1 ≤ opts.retry.attempts
  | .delayElapsed _ _ => True
  | _ => False

/-- The fetch was the last, and there is a breaker to hear of it. -/
def Charges (opts : HttpClientOptions) (c : Client) : Action → Prop
  | .settle id _ _ => opts.circuitBreaker ≠ none ∧
      ∃ r ∈ c.inflight, r.id = id ∧ r.attempt = opts.retry.attempts
  | _ => False

def ClientHarmless (opts : HttpClientOptions) (aborted : List Nat) (c : Client) (a : Action)
    (_ : Client) : Prop :=
  subject a ∈ aborted → ¬ Fetches opts c a ∧ ¬ Charges opts c a

/-! ## The steps -/

/-- A request that waits has attempts left. -/
structure InTime (opts : HttpClientOptions) (r : Request) : Prop where
  first : 1 ≤ r.attempt
  last : r.attempt ≤ opts.retry.attempts
  waiting : r.phase = .waiting → r.attempt + 1 ≤ opts.retry.attempts

/-- Requests in flight have names of their own. -/
structure Inv (opts : HttpClientOptions) (c : Client) : Prop where
  nodup : (c.inflight.map (·.id)).Nodup
  inTime : ∀ r ∈ c.inflight, InTime opts r

theorem inv_init (opts : HttpClientOptions) : Inv opts {} where
  nodup := List.nodup_nil
  inTime := fun _ hr => absurd hr List.not_mem_nil

theorem Inv.eq_of_id {opts : HttpClientOptions} {c : Client} (h : Inv opts c) {r q : Request}
    (hr : r ∈ c.inflight) (hq : q ∈ c.inflight) (hid : r.id = q.id) : r = q :=
  List.inj_on_of_nodup_map h.nodup hr hq hid

theorem findRequest_some {id : Nat} {phase : Phase} {c : Client} {r : Request}
    (h : findRequest id phase c = some r) : r ∈ c.inflight ∧ r.id = id ∧ r.phase = phase := by
  have hp := List.find?_some h
  simp only [decide_eq_true_eq] at hp
  exact ⟨findRequest_mem h, hp⟩

/-- The requests that leave do not matter. -/
theorem Inv.leaves {opts : HttpClientOptions} {c c' : Client} (h : Inv opts c)
    (hsub : c'.inflight.Sublist c.inflight) : Inv opts c' where
  nodup := h.nodup.sublist (hsub.map _)
  inTime := fun r hr => h.inTime r (hsub.subset hr)

theorem Inv.update {opts : HttpClientOptions} {c : Client} (h : Inv opts c) {id : Nat}
    {f : Request → Request} (hid : ∀ r, (f r).id = r.id)
    (hf : ∀ r ∈ c.inflight, r.id = id → InTime opts (f r)) :
    Inv opts (updateRequest id f c) where
  nodup := by
    have hids : (updateRequest id f c).inflight.map (·.id) = c.inflight.map (·.id) := by
      simp only [updateRequest, List.map_map]
      refine List.map_congr_left fun r _ => ?_
      simp only [Function.comp]
      split
      · exact hid r
      · rfl
    rw [hids]
    exact h.nodup
  inTime := by
    intro r hr
    obtain ⟨q, hq, rfl⟩ := List.mem_map.1 hr
    split
    · exact hf q hq ‹_›
    · exact h.inTime q hq

theorem conclude_sublist (r : Request) (endedAt : Int) (statusCode : Option Nat)
    (errorClass : Option HttpErrorClass) (result : HttpResult) (c : Client) :
    (conclude r endedAt statusCode errorClass result c).inflight.Sublist c.inflight :=
  List.filter_sublist

theorem exhausted_sublist (opts : HttpClientOptions) (r : Request) (clock : Clock) (c : Client) :
    (exhausted opts r clock c).inflight.Sublist c.inflight := by
  have hsub := conclude_sublist r clock.endedAt (r.lastFailure.bind Failure.statusCode)
    (some ((r.lastFailure.map Failure.kind).getD .network))
    (.error ((r.lastFailure.map Failure.err).getD (.rpc "http" "request failed")))
    (recordFailure opts.circuitBreaker clock.recordedAt c)
  rwa [(recorded_failure opts clock.recordedAt c).inflight] at hsub

/-- With a breaker, a recorded failure shows. -/
theorem recordFailure_changes {breaker : Option CircuitBreakerPolicy} {now : Int} {c : Client}
    (hsome : breaker ≠ none) : ¬ ((recordFailure breaker now c).state = c.state ∧
      (recordFailure breaker now c).consecutiveFailures = c.consecutiveFailures) := by
  rintro ⟨hstate, hcount⟩
  cases breaker with
  | none => exact hsome rfl
  | some policy =>
      by_cases hhalf : c.state = .halfOpen
      · simp [recordFailure, hhalf] at hstate
      · have hcount' : (recordFailure (some policy) now c).consecutiveFailures =
            c.consecutiveFailures + 1 := by
          by_cases hopens : c.state = .closed ∧
            c.consecutiveFailures + 1 ≥ policy.failureThreshold
          · simp [recordFailure, hopens, transitionTo]
          · simp [recordFailure, hhalf, hopens]
        omega

/-- What a step does to the request whose turn it is, and to no other. -/
structure Does (opts : HttpClientOptions) (aborted : List Nat) (c : Client) (a : Action)
    (c' : Client) : Prop where
  inv : Inv opts c'
  fetch : ∀ id, FetchStarted c c' id ↔ id = subject a ∧ Fetches opts c a
  settles : ∀ id result, c'.settled = c.settled ++ [(id, result)] →
    id = subject a ∧ (id ∈ aborted → ∃ e, result = .error e)
  charged : ∀ id outcome clock, a = .settle id outcome clock → id ∈ aborted →
    (c'.state = c.state ∧ c'.consecutiveFailures = c.consecutiveFailures ↔
      ¬ Charges opts c a)

theorem Does.stops_iff {opts : HttpClientOptions} {aborted : List Nat} {c c' : Client}
    {a : Action} (h : Does opts aborted c a c') :
    ClientStops aborted c a c' ↔ ClientHarmless opts aborted c a c' := by
  constructor
  · intro hstops hsubject
    constructor
    · intro hfetches
      exact hstops.noFetch _ hsubject ((h.fetch _).2 ⟨rfl, hfetches⟩)
    · intro hcharges
      cases a with
      | settle id outcome clock =>
          exact (h.charged id outcome clock rfl hsubject).1
            (hstops.notCharged id hsubject outcome clock rfl) hcharges
      | _ => exact hcharges
  · intro hharmless
    refine ⟨fun id hid hfetch => ?_, fun id hid result hresult => ?_,
      fun id hid outcome clock ha => ?_⟩
    · obtain ⟨rfl, hfetches⟩ := (h.fetch id).1 hfetch
      exact (hharmless hid).1 hfetches
    · exact (h.settles id result hresult).2 hid
    · subst ha
      exact (h.charged id outcome clock rfl hid).2 (hharmless hid).2

theorem not_fetchStarted {c c' : Client} (hsub : c'.inflight ⊆ c.inflight) (id : Nat) :
    ¬ FetchStarted c c' id := by
  rintro ⟨r, hr, -, -, hnew⟩
  exact hnew (hsub hr)

/-- A step that ends its request. -/
theorem does_ends {opts : HttpClientOptions} {aborted : List Nat} {c c' : Client} {a : Action}
    (hinv : Inv opts c) (hsub : c'.inflight.Sublist c.inflight) (hfetches : ¬ Fetches opts c a)
    {result : HttpResult} (hsettled : c'.settled = c.settled ++ [(subject a, result)])
    (hresult : subject a ∈ aborted → ∃ e, result = .error e)
    (hcharged : ∀ id outcome clock, a = .settle id outcome clock → id ∈ aborted →
      (c'.state = c.state ∧ c'.consecutiveFailures = c.consecutiveFailures ↔
        ¬ Charges opts c a)) : Does opts aborted c a c' where
  inv := hinv.leaves hsub
  fetch := fun id =>
    iff_of_false (not_fetchStarted hsub.subset id) fun h => hfetches h.2
  settles := by
    intro id result' h
    rw [hsettled] at h
    simp only [List.append_cancel_left_eq, List.cons.injEq, Prod.mk.injEq, and_true] at h
    obtain ⟨rfl, rfl⟩ := h
    exact ⟨rfl, hresult⟩
  charged := hcharged

/-- A step after which its request is still in flight. -/
theorem does_updates {opts : HttpClientOptions} {aborted : List Nat} {c : Client} {a : Action}
    {r : Request} {f : Request → Request} (hinv : Inv opts c) (hr : r ∈ c.inflight)
    (hid : r.id = subject a) (hf : ∀ r, (f r).id = r.id) (hphase : (f r).phase ≠ r.phase)
    (hattempts : InTime opts (f r))
    (hfetches : (f r).phase = .fetching ↔ Fetches opts c a) (hcharges : ¬ Charges opts c a) :
    Does opts aborted c a (updateRequest r.id f c) where
  inv := by
    refine hinv.update hf fun q hq hqid => ?_
    rw [hinv.eq_of_id hq hr hqid]
    exact hattempts
  fetch := by
    intro id
    constructor
    · rintro ⟨q', hq', rfl, hfetching, hnew⟩
      obtain ⟨q, hq, rfl⟩ := List.mem_map.1 hq'
      split at hfetching
      · rename_i hqid
        rw [hinv.eq_of_id hq hr hqid, if_pos rfl]
        rw [hinv.eq_of_id hq hr hqid] at hfetching
        exact ⟨(hf r).trans hid, hfetches.1 hfetching⟩
      · rename_i hqid
        rw [if_neg hqid] at hnew
        exact absurd hq hnew
    · rintro ⟨rfl, hfetch⟩
      refine ⟨f r, List.mem_map.2 ⟨r, hr, if_pos rfl⟩, (hf r).trans hid, hfetches.2 hfetch,
        fun hmem => hphase ?_⟩
      rw [hinv.eq_of_id hmem hr (hf r)]
  settles := by
    intro id result h
    exact absurd h (by simp [updateRequest])
  charged := fun _ _ _ _ _ => iff_of_true ⟨rfl, rfl⟩ hcharges

theorem recordFailure_settled (breaker : Option CircuitBreakerPolicy) (now : Int) (c : Client) :
    (recordFailure breaker now c).settled = c.settled := by
  unfold recordFailure transitionTo
  cases breaker with
  | none => rfl
  | some policy =>
      dsimp only
      split
      · split <;> rfl
      · split
        · split <;> rfl
        · rfl

theorem recordSuccess_settled (breaker : Option CircuitBreakerPolicy) (c : Client) :
    (recordSuccess breaker c).settled = c.settled := by
  unfold recordSuccess transitionTo
  cases breaker with
  | none => rfl
  | some policy =>
      dsimp only
      split
      · split <;> rfl
      · rfl

theorem exhausted_settled (opts : HttpClientOptions) (r : Request) (clock : Clock) (c : Client) :
    ∃ e, (exhausted opts r clock c).settled = c.settled ++ [(r.id, .error e)] := by
  unfold exhausted conclude
  rw [recordFailure_settled]
  exact ⟨_, rfl⟩

theorem breakerPreCheck_settled {breaker : Option CircuitBreakerPolicy} {now : Int}
    {c c' : Client} {d : BreakerDecision} (h : breakerPreCheck breaker now c = (d, c')) :
    c'.settled = c.settled := by
  unfold breakerPreCheck transitionTo at h
  repeat' split at h
  all_goals cases h; rfl

theorem request_does {opts : HttpClientOptions} {aborted : List Nat} {c c' : Client} {id : Nat}
    {clock : Clock} (hinv : Inv opts c) (h : step opts c (.request id clock) = some c') :
    Does opts aborted c (.request id clock) c' := by
  simp only [step] at h
  split at h
  · cases h
  rename_i hnew
  simp only [List.any_eq_true, decide_eq_true_eq, not_exists, not_and] at hnew
  cases h
  unfold startRequest
  rcases hpre : breakerPreCheck opts.circuitBreaker clock.checkedAt c with ⟨_ | _, c₁⟩
  · obtain ⟨hin, -⟩ := breakerPreCheck_allow hpre
    have hsettled : c₁.settled = c.settled := breakerPreCheck_settled hpre
    dsimp only
    by_cases hmore : 1 ≤ opts.retry.attempts
    · rw [if_pos hmore]
      have hfetches : Fetches opts c (.request id clock) := ⟨by rw [hpre], hmore⟩
      refine ⟨⟨?_, ?_⟩, fun id' => ⟨?_, ?_⟩, ?_, fun _ _ _ h => by cases h⟩
      · show ((c₁.inflight ++ [_]).map _).Nodup
        rw [hin, List.map_append, List.nodup_append]
        refine ⟨hinv.nodup, List.nodup_singleton _, fun a ha b hb => ?_⟩
        obtain ⟨r, hr, rfl⟩ := List.mem_map.1 ha
        rw [List.mem_singleton.1 hb]
        exact hnew r hr
      · intro r hr
        rcases List.mem_append.1 hr with hr | hr
        · exact hinv.inTime r (hin ▸ hr)
        · rw [List.mem_singleton.1 hr]
          exact ⟨Int.le_refl 1, hmore, fun h => by cases h⟩
      · rintro ⟨r, hr, rfl, -, hr'⟩
        rcases List.mem_append.1 hr with hr | hr
        · exact absurd (hin ▸ hr) hr'
        · rw [List.mem_singleton.1 hr]
          exact ⟨rfl, hfetches⟩
      · rintro ⟨rfl, -⟩
        exact ⟨_, List.mem_append_right _ (List.mem_singleton.2 rfl), rfl, rfl,
          fun hr => hnew _ hr rfl⟩
      · intro id' result hresult
        exact absurd (hsettled ▸ hresult) (by simp)
    · rw [if_neg hmore]
      have hsub := exhausted_sublist opts
        { id := id, probe := c₁.state = .halfOpen, startedAt := clock.startedAt } clock c₁
      obtain ⟨e, he⟩ := exhausted_settled opts
        { id := id, probe := c₁.state = .halfOpen, startedAt := clock.startedAt } clock c₁
      rw [hin] at hsub
      rw [hsettled] at he
      exact does_ends hinv hsub (fun h => hmore h.2) he (fun _ => ⟨e, rfl⟩)
        fun _ _ _ h => by cases h
  · obtain rfl := breakerPreCheck_reject hpre
    refine does_ends hinv (conclude_sublist _ _ _ _ _ _) (fun h => ?_) rfl (fun _ => ⟨_, rfl⟩)
      fun _ _ _ h => by cases h
    have hallow := h.1
    rw [hpre] at hallow
    cases hallow

theorem settle_does {opts : HttpClientOptions} {aborted : List Nat} {c c' : Client} {id : Nat}
    {outcome : AttemptOutcome} {clock : Clock} (hinv : Inv opts c)
    (hheeds : heeds aborted (.settle id outcome clock) = true)
    (h : step opts c (.settle id outcome clock) = some c') :
    Does opts aborted c (.settle id outcome clock) c' := by
  simp only [step, Option.map_eq_some_iff] at h
  obtain ⟨r, hfind, rfl⟩ := h
  obtain ⟨hr, rfl, hphase⟩ := findRequest_some hfind
  simp only [heeds, Bool.or_eq_true, Bool.not_eq_true', List.contains_eq_mem,
    decide_eq_false_iff_not, decide_eq_true_eq] at hheeds
  unfold settleAttempt
  cases hfinal : finalStatus outcome with
  | some status =>
      have hnot : r.id ∉ aborted := by
        refine hheeds.resolve_right fun hnetwork => ?_
        rw [hnetwork] at hfinal
        cases hfinal
      dsimp only
      have hcharged : ∀ {P : Prop} id outcome' clock',
          Action.settle r.id outcome clock = .settle id outcome' clock' → id ∈ aborted → P := by
        rintro P id outcome' clock' ⟨⟩ hid
        exact absurd hid hnot
      split
      · have hsub := conclude_sublist r clock.endedAt (some status) none (.ok status)
          (recordSuccess opts.circuitBreaker c)
        have hsettled := congrArg (· ++ [(r.id, (Except.ok status : HttpResult))])
          (recordSuccess_settled opts.circuitBreaker c)
        rw [(recorded_success opts c).inflight] at hsub
        exact does_ends hinv hsub (fun h => h) hsettled (fun hid => absurd hid hnot) hcharged
      · have hsub := conclude_sublist r clock.endedAt (some status) (some .http)
          (.error (.rpc "http" s!"HTTP {status}"))
          (recordFailure opts.circuitBreaker clock.recordedAt c)
        have hsettled := congrArg
          (· ++ [(r.id, (Except.error (.rpc "http" s!"HTTP {status}") : HttpResult))])
          (recordFailure_settled opts.circuitBreaker clock.recordedAt c)
        rw [(recorded_failure opts clock.recordedAt c).inflight] at hsub
        exact does_ends hinv hsub (fun h => h) hsettled (fun hid => absurd hid hnot) hcharged
  | none =>
      dsimp only
      by_cases hlast : r.attempt = opts.retry.attempts
      · rw [if_pos hlast]
        obtain ⟨e, he⟩ := exhausted_settled opts
          { r with lastFailure := some (failureOf outcome) } clock c
        refine does_ends hinv (exhausted_sublist _ _ _ _) (fun h => h) he (fun _ => ⟨e, rfl⟩)
          fun _ _ _ _ _ => ?_
        · show (recordFailure opts.circuitBreaker clock.recordedAt c).state = c.state ∧
            (recordFailure opts.circuitBreaker clock.recordedAt c).consecutiveFailures =
              c.consecutiveFailures ↔ _
          constructor
          · rintro hsame ⟨hbreaker, -⟩
            exact recordFailure_changes hbreaker hsame
          · intro hnot
            have hnone : opts.circuitBreaker = none := by
              by_contra hbreaker
              exact hnot ⟨hbreaker, r, hr, rfl, hlast⟩
            rw [hnone]
            exact ⟨rfl, rfl⟩
      · rw [if_neg hlast]
        have htime := hinv.inTime r hr
        have hlt := htime.last
        refine does_updates hinv hr rfl (fun _ => rfl) ?_ ⟨htime.first, hlt, fun _ => ?_⟩ ?_ ?_
        · rw [hphase]
          exact Phase.noConfusion
        · show r.attempt + 1 ≤ _
          omega
        · exact iff_of_false Phase.noConfusion id
        · rintro ⟨-, q, hq, hqid, hqlast⟩
          rw [hinv.eq_of_id hq hr hqid] at hqlast
          exact hlast hqlast

theorem step_does {opts : HttpClientOptions} {aborted : List Nat} {c c' : Client} {a : Action}
    (hinv : Inv opts c) (hheeds : heeds aborted a = true) (h : step opts c a = some c') :
    Does opts aborted c a c' := by
  cases a with
  | request id clock => exact request_does hinv h
  | settle id outcome clock => exact settle_does hinv hheeds h
  | delayElapsed id clock =>
      simp only [step, Option.map_eq_some_iff] at h
      obtain ⟨r, hfind, rfl⟩ := h
      obtain ⟨hr, rfl, hphase⟩ := findRequest_some hfind
      have hfirst := (hinv.inTime r hr).first
      have hmore := (hinv.inTime r hr).waiting hphase
      have hnext : 1 ≤ r.attempt + 1 := by omega
      unfold nextAttempt
      rw [if_pos hmore]
      refine does_updates hinv hr rfl (fun _ => rfl) ?_
        ⟨hnext, hmore, fun h => by cases h⟩
        ⟨fun _ => trivial, fun _ => rfl⟩ (fun h => h)
      rw [hphase]
      exact Phase.noConfusion
  | delayRejects id =>
      simp only [step, Option.map_eq_some_iff] at h
      obtain ⟨r, hfind, rfl⟩ := h
      obtain ⟨hr, rfl, hphase⟩ := findRequest_some hfind
      exact does_ends hinv List.filter_sublist (fun h => h) rfl (fun _ => ⟨_, rfl⟩)
        fun _ _ _ h => by cases h

/-- The aborts of a run stop their requests exactly if no turn of an aborted request ends in
a fetch or is charged to the breaker. -/
theorem client_stops_iff (opts : HttpClientOptions) (acts : List (SignalAction Action)) :
    Along (signalStep (step opts) heeds) (OnActs ClientStops) { machine := {} } acts ↔
      Along (signalStep (step opts) heeds) (OnActs (ClientHarmless opts)) { machine := {} }
        acts := by
  refine onActs_along_iff (Inv opts) ?_ acts (inv_init opts)
  intro aborted c a c' hinv hheeds h
  have hdoes := step_does hinv hheeds h
  exact ⟨hdoes.stops_iff, hdoes.inv⟩

end Ap3xSolana.Core.RequestAborts
