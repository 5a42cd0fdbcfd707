import Mathlib.Algebra.Ring.Nat
import Mathlib.Data.List.Induction
import Ap3xSolana.Connectivity.RpcPool
import Ap3xSolana.Lib.Run

/-!
# The cooldown of an endpoint that is down

`recordError` doubles the cooldown and restarts it for whatever call fails while the
endpoint is down, and `recordRateLimit` leaves both alone.  The cooldown counts the failed
probes as long as the calls whose failure `recordError` records there are the probes
(`cooldown_counts_probes`).
-/

namespace Ap3xSolana.Connectivity.ProbeCooldown

open Ap3xSolana.Lib.Run Ap3xSolana.Connectivity.HealthState

/-! ## The property -/

/-- The probes of the endpoint that failed since it became unhealthy. -/
def failedProbes (i : Nat) (events : List PoolEvent) : Nat :=
  events.foldl (fun n e => match e with
    | .becameUnhealthy j => if j = i then 0 else n
    | .failed j _ true => if j = i then n + 1 else n
    | _ => n) 0

/-- The probes that were granted since the endpoint became unhealthy: when, and with which
cooldown. -/
def grants (i : Nat) (events : List PoolEvent) : List (Nat × Nat) :=
  events.foldl (fun gs e => match e with
    | .becameUnhealthy j => if j = i then [] else gs
    | .granted j now cooldownMs => if j = i then gs ++ [(now, cooldownMs)] else gs
    | _ => gs) []

/-- The cooldown after `n` failed probes. -/
def cooldownAfter (n : Nat) : Nat := min MAX_PROBE_COOLDOWN_MS (PROBE_COOLDOWN_MS * 2 ^ n)

/-- A granted probe takes up the cooldown in force. -/
def Spaced (g g' : Nat × Nat) : Prop := g.1 + g.2 ≤ g'.1

instance decidableSpaced (g g' : Nat × Nat) : Decidable (Spaced g g') :=
  inferInstanceAs (Decidable (_ ≤ _))

/-- The cooldown of an endpoint that is down counts its failed probes, and each cooldown
sees one probe at most. -/
def CountsProbes (p : RpcPool) : Prop :=
  ∀ i < p.states.length,
    ((p.health i).state = .unhealthy →
      (p.health i).cooldownMs = cooldownAfter (failedProbes i p.events)) ∧
    (grants i p.events).Pairwise Spaced

/-- A transport failure that is recorded with an endpoint. -/
structure Failure where
  call : Nat
  endpoint : Nat
  probe : Bool
  errorClass : ErrorClass
  deriving DecidableEq, Repr

def sentTo (p : RpcPool) (c : Nat) : Option (Nat × Bool) :=
  (p.calls[c]?).bind fun call => match call.phase with
    | .sent i probe => some (i, probe)
    | _ => none

def failure (p : RpcPool) : PoolAction → Option Failure
  | .settle c (.threw errorClass) =>
      if errorClass = .rpcMethod then none
      else (sentTo p c).map fun s =>
        { call := c, endpoint := s.1, probe := s.2, errorClass := errorClass }
  | _ => none

/-- A call that was no probe neither doubles nor restarts the cooldown when it fails. -/
def LateIgnored (p : RpcPool) (a : PoolAction) (p' : RpcPool) : Prop :=
  ∀ f ∈ failure p a, f.probe = false → (p.health f.endpoint).state = .unhealthy →
    (p'.health f.endpoint).cooldownMs = (p.health f.endpoint).cooldownMs ∧
      (p'.health f.endpoint).probeAt = (p.health f.endpoint).probeAt

/-! ## The condition -/

/-- What fails while its endpoint is down goes to `recordError` exactly if it is a probe,
unless the cooldown is at its longest already, and begins at that very moment when the
failure is that of a call that was no probe. -/
def RecordsProbes (p : RpcPool) (a : PoolAction) : Prop :=
  ∀ f ∈ failure p a, (p.health f.endpoint).state = .unhealthy →
    if f.probe then
      f.errorClass ≠ .rateLimited ∨ (p.health f.endpoint).cooldownMs = MAX_PROBE_COOLDOWN_MS
    else
      f.errorClass = .rateLimited ∨
        (p.health f.endpoint).cooldownMs = MAX_PROBE_COOLDOWN_MS ∧
          (p.health f.endpoint).probeAt = p.clock + MAX_PROBE_COOLDOWN_MS

instance decidableCountsProbes (p : RpcPool) : Decidable (CountsProbes p) :=
  inferInstanceAs (Decidable (∀ i < p.states.length, (_ → _) ∧ _))

instance decidableLateIgnored (p : RpcPool) (a : PoolAction) (p' : RpcPool) :
    Decidable (LateIgnored p a p') :=
  inferInstanceAs (Decidable (∀ f ∈ failure p a, _ → _ → _ ∧ _))

instance decidableRecordsProbes (p : RpcPool) (a : PoolAction) :
    Decidable (RecordsProbes p a) :=
  inferInstanceAs (Decidable (∀ f ∈ failure p a, _ → ite _ _ _))

/-! ## What a step does -/

/-- The events that the property looks at. -/
def noted : PoolEvent → Bool
  | .granted _ _ _ => true
  | .failed _ _ _ => true
  | .becameUnhealthy _ => true
  | _ => false

/-- Calls change, and nothing is noted. -/
structure Quiet (p p' : RpcPool) : Prop where
  states : p'.states = p.states
  clock : p.clock ≤ p'.clock
  events : p'.events.filter noted = p.events.filter noted

/-- The health of one endpoint changes to `h`, with the noted events `es`. -/
structure Effect (p p' : RpcPool) (i : Nat) (h : HealthState) (es : List PoolEvent) : Prop where
  bound : i < p.states.length
  states : p'.states = p.states.set i h
  clock : p.clock ≤ p'.clock
  events : p'.events.filter noted = p.events.filter noted ++ es

theorem Quiet.refl (p : RpcPool) : Quiet p p := ⟨rfl, Nat.le_refl _, rfl⟩

theorem Quiet.trans {p₁ p₂ p₃ : RpcPool} (h₁ : Quiet p₁ p₂) (h₂ : Quiet p₂ p₃) : Quiet p₁ p₃ :=
  ⟨h₂.states.trans h₁.states, h₁.clock.trans h₂.clock, h₂.events.trans h₁.events⟩

theorem Effect.quiet {p₁ p₂ p₃ : RpcPool} {i : Nat} {h : HealthState} {es : List PoolEvent}
    (h₁ : Effect p₁ p₂ i h es) (h₂ : Quiet p₂ p₃) : Effect p₁ p₃ i h es :=
  ⟨h₁.bound, h₂.states.trans h₁.states, h₁.clock.trans h₂.clock, h₂.events.trans h₁.events⟩

theorem Quiet.effect {p₁ p₂ p₃ : RpcPool} {i : Nat} {h : HealthState} {es : List PoolEvent}
    (h₁ : Quiet p₁ p₂) (h₂ : Effect p₂ p₃ i h es) : Effect p₁ p₃ i h es where
  bound := h₁.states ▸ h₂.bound
  states := by rw [h₂.states, h₁.states]
  clock := h₁.clock.trans h₂.clock
  events := by rw [h₂.events, h₁.events]

theorem quiet_emit (p : RpcPool) {es : List PoolEvent} (hes : ∀ e ∈ es, noted e = false) :
    Quiet p (p.emit es) where
  states := rfl
  clock := Nat.le_refl _
  events := by
    show (p.events ++ es).filter noted = _
    have hnil : es.filter noted = [] :=
      List.filter_eq_nil_iff.2 fun e he hnoted => Bool.noConfusion ((hes e he).symm.trans hnoted)
    rw [List.filter_append, hnil, List.append_nil]

theorem quiet_setCall (p : RpcPool) (c : Nat) (call : RpcCall) : Quiet p (p.setCall c call) :=
  ⟨rfl, Nat.le_refl _, rfl⟩

theorem quiet_exhausted (p : RpcPool) (c : Nat) (call : RpcCall) (errorClass : ErrorClass) :
    Quiet p (p.exhausted c call errorClass) := by
  apply (quiet_setCall p c { call with phase := .rejected errorClass }).trans
  apply quiet_emit
  intro e he
  rw [List.mem_singleton.1 he]
  rfl

/-! ## Picking -/

/-- The endpoint after `takeProbe` granted a probe. -/
def probed (h : HealthState) (now : Nat) : HealthState := { h with probeAt := now + h.cooldownMs }

/-- A probe of the endpoint is granted. -/
def Granted (p p' : RpcPool) (i : Nat) : Prop :=
  (p.health i).due p.clock = true ∧
    Effect p p' i (probed (p.health i) p.clock) [.granted i p.clock (p.health i).cooldownMs]

theorem probeFirst_granted {p p' : RpcPool} {is : List Nat} {i : Nat}
    (h : p.probeFirst is = some (p', i)) (his : ∀ j ∈ is, j < p.states.length) :
    i < p.states.length ∧ p'.calls = p.calls ∧ Granted p p' i := by
  induction is with
  | nil => cases h
  | cons j is ih =>
      rw [RpcPool.probeFirst] at h
      unfold HealthState.takeProbe at h
      by_cases hdue : (p.health j).due p.clock = true
      · rw [if_pos hdue] at h
        cases h
        have hbound := his i List.mem_cons_self
        refine ⟨hbound, rfl, hdue, hbound, rfl, Nat.le_refl _, ?_⟩
        show (p.events ++ [_]).filter noted = _
        rw [List.filter_append]
        rfl
      · rw [if_neg hdue] at h
        exact ih h fun k hk => his k (List.mem_cons_of_mem _ hk)

theorem pickEndpoint_cases (p : RpcPool) :
    (∀ s ∈ p.pickEndpoint.2, s.1 < p.states.length) ∧
      p.pickEndpoint.1.calls = p.calls ∧
      (Quiet p p.pickEndpoint.1 ∨ ∃ i, Granted p p.pickEndpoint.1 i) := by
  have hadvance : ∀ (q : RpcPool) (i : Nat), Quiet q (q.advance i) :=
    fun q i => ⟨rfl, Nat.le_refl _, rfl⟩
  have hfirst : ∀ (name : HealthStateName) (i : Nat), p.firstIn name = some i →
      i < p.states.length := fun name i h => RpcPool.mem_order_iff.1 (List.mem_of_find?_eq_some h)
  unfold RpcPool.pickEndpoint
  split
  · rename_i i hi
    refine ⟨fun s hs => ?_, rfl, .inl (hadvance p i)⟩
    cases hs
    exact hfirst _ i hi
  · split
    · rename_i i hi
      refine ⟨fun s hs => ?_, rfl, .inl (hadvance p i)⟩
      cases hs
      exact hfirst _ i hi
    · split
      · rename_i p' i hi
        obtain ⟨hbound, hcalls, hdue, heffect⟩ :=
          probeFirst_granted hi fun j hj => RpcPool.mem_order_iff.1 hj
        refine ⟨fun s hs => ?_, hcalls, .inr ⟨i, hdue, heffect.quiet (hadvance p' i)⟩⟩
        cases hs
        exact hbound
      · refine ⟨fun s hs => ?_, rfl, .inl (.refl p)⟩
        cases hs

/-! ## The calls -/

/-- Every send went to an endpoint of the pool. -/
def Bounded (p : RpcPool) : Prop :=
  ∀ call ∈ p.calls, ∀ i probe, call.phase = .sent i probe → i < p.states.length

theorem Bounded.setCall {p : RpcPool} (h : Bounded p) (c : Nat) {call : RpcCall}
    (hcall : ∀ i probe, call.phase = .sent i probe → i < p.states.length) :
    Bounded (p.setCall c call) := by
  intro call' hmem
  rcases List.mem_or_eq_of_mem_set hmem with hmem | rfl
  · exact h call' hmem
  · exact hcall

theorem Bounded.of_eq {p p' : RpcPool} (h : Bounded p) (hcalls : p'.calls = p.calls)
    (hlen : p'.states.length = p.states.length) : Bounded p' := by
  unfold Bounded
  rw [hcalls, hlen]
  exact h

theorem Bounded.exhausted {p : RpcPool} (h : Bounded p) (c : Nat) (call : RpcCall)
    (errorClass : ErrorClass) : Bounded (p.exhausted c call errorClass) := by
  have hset : Bounded (p.setCall c { call with phase := .rejected errorClass }) :=
    h.setCall c fun _ _ hphase => CallPhase.noConfusion hphase
  exact hset.of_eq rfl rfl

/-- A step that sends, or gives up. -/
def Sends (p p' : RpcPool) : Prop :=
  Bounded p' ∧ (Quiet p p' ∨ ∃ i, Granted p p' i)

theorem attempt_sends {p : RpcPool} (h : Bounded p) (c : Nat) (call : RpcCall) :
    Sends p (p.attempt c call) := by
  obtain ⟨hbound, hcalls, heffect⟩ := pickEndpoint_cases p
  have hlen : p.pickEndpoint.1.states.length = p.states.length := by
    rcases heffect with hquiet | ⟨i, -, heffect⟩
    · rw [hquiet.states]
    · rw [heffect.states, List.length_set]
  have hpicked : Bounded p.pickEndpoint.1 := h.of_eq hcalls hlen
  have hthen : ∀ {p'}, Quiet p.pickEndpoint.1 p' → Quiet p p' ∨ ∃ i, Granted p p' i := by
    intro p' hquiet'
    rcases heffect with hquiet | ⟨i, hdue, heffect⟩
    · exact .inl (hquiet.trans hquiet')
    · exact .inr ⟨i, hdue, heffect.quiet hquiet'⟩
  unfold RpcPool.attempt
  split
  · rename_i p' hpick
    rw [hpick] at hpicked hthen
    exact ⟨hpicked.exhausted c call _, hthen (quiet_exhausted p' c call _)⟩
  · rename_i p' i probe hpick
    rw [hpick] at hpicked hthen hbound hlen
    have hi : i < p'.states.length := hlen ▸ hbound (i, probe) rfl
    have hset : Bounded (p'.setCall c { call with phase := .sent i probe }) := by
      apply Bounded.setCall hpicked
      intro j probe' hphase
      cases hphase
      exact hi
    refine ⟨hset.of_eq rfl rfl, hthen ?_⟩
    apply (quiet_setCall p' c { call with phase := .sent i probe }).trans
    apply quiet_emit
    intro e he
    rw [List.mem_singleton.1 he]
    rfl

theorem start_sends {p : RpcPool} (h : Bounded p) : Sends p p.start := by
  have hnew : Bounded { p with calls := p.calls ++ [{ phase := .rejected .network }] } := by
    intro call hmem i probe hphase
    rcases List.mem_append.1 hmem with hmem | hmem
    · exact h call hmem i probe hphase
    · rw [List.mem_singleton.1 hmem] at hphase
      cases hphase
  have hquiet : Quiet p { p with calls := p.calls ++ [{ phase := .rejected .network }] } :=
    ⟨rfl, Nat.le_refl _, rfl⟩
  unfold RpcPool.start
  dsimp only
  split
  · exact ⟨hnew.exhausted _ _ _, .inl (hquiet.trans (quiet_exhausted _ _ _ _))⟩
  · obtain ⟨hbounded, heffect⟩ :=
      attempt_sends hnew p.calls.length { phase := .rejected .network }
    refine ⟨hbounded, ?_⟩
    rcases heffect with hquiet' | ⟨i, hdue, heffect⟩
    · exact .inl (hquiet.trans hquiet')
    · exact .inr ⟨i, hdue, hquiet.effect heffect⟩

theorem succeeded_effect {p : RpcPool} (h : Bounded p) {c i : Nat} (hi : i < p.states.length)
    (call : RpcCall) {phase : CallPhase} (hphase : ∀ j probe, phase ≠ .sent j probe)
    (errorClass : Option ErrorClass) :
    Bounded (p.succeeded c call i phase errorClass) ∧
      Effect p (p.succeeded c call i phase errorClass) i (p.health i).recordSuccess [] := by
  refine ⟨?_, hi, rfl, Nat.le_refl _, ?_⟩
  · have hset : Bounded (p.setCall c { call with phase := phase }) :=
      h.setCall c fun j probe hsent => absurd hsent (hphase j probe)
    have hlen : (p.succeeded c call i phase errorClass).states.length = p.states.length :=
      List.length_set
    exact hset.of_eq rfl hlen
  · show (p.events ++ [_]).filter noted = _
    rw [List.filter_append]
    rfl

/-- The health of an endpoint after a failure. -/
def failedHealth (p : RpcPool) (f : Failure) : HealthState :=
  if f.errorClass = .rateLimited then (p.health f.endpoint).recordRateLimit
  else (p.health f.endpoint).recordError p.clock

def failedEvents (p : RpcPool) (f : Failure) : List PoolEvent :=
  .failed f.endpoint f.call f.probe ::
    if (p.health f.endpoint).state ≠ .unhealthy ∧ (failedHealth p f).state = .unhealthy then
      [.becameUnhealthy f.endpoint]
    else []

theorem failed_effect {p : RpcPool} (h : Bounded p) (f : Failure)
    (hi : f.endpoint < p.states.length) (call : RpcCall) :
    Bounded (p.failed f.call call f.endpoint f.probe f.errorClass) ∧
      Effect p (p.failed f.call call f.endpoint f.probe f.errorClass) f.endpoint
        (failedHealth p f) (failedEvents p f) := by
  have hrecord : Effect p (p.recordFailure f.call f.endpoint f.probe f.errorClass) f.endpoint
      (failedHealth p f) (failedEvents p f) := by
    refine ⟨hi, rfl, Nat.le_refl _, ?_⟩
    have hnoted : (failedEvents p f).filter noted = failedEvents p f := by
      unfold failedEvents
      split <;> rfl
    show (p.events ++ failedEvents p f).filter noted = _
    rw [List.filter_append, hnoted]
  have hbounded : Bounded (p.recordFailure f.call f.endpoint f.probe f.errorClass) :=
    h.of_eq rfl List.length_set
  unfold RpcPool.failed
  dsimp only
  split
  · exact ⟨hbounded.setCall _ fun _ _ hphase => CallPhase.noConfusion hphase,
      hrecord.quiet (quiet_setCall _ _ _)⟩
  · exact ⟨hbounded.exhausted _ _ _, hrecord.quiet (quiet_exhausted _ _ _ _)⟩

/-- What a step can do to the endpoints. -/
theorem step_cases {p p' : RpcPool} {a : PoolAction} (h : Bounded p)
    (hstep : p.step a = some p') :
    Bounded p' ∧
      (failure p a = none ∧ (Quiet p p' ∨ (∃ i, Granted p p' i) ∨
          ∃ i, Effect p p' i (p.health i).recordSuccess []) ∨
        ∃ f, failure p a = some f ∧
          Effect p p' f.endpoint (failedHealth p f) (failedEvents p f)) := by
  cases a with
  | elapse ms =>
      cases hstep
      exact ⟨h, .inl ⟨rfl, .inl ⟨rfl, Nat.le_add_right _ _, rfl⟩⟩⟩
  | call =>
      cases hstep
      obtain ⟨hbounded, heffect⟩ := start_sends h
      refine ⟨hbounded, .inl ⟨rfl, ?_⟩⟩
      exact heffect.imp_right .inl
  | settle c outcome =>
      simp only [RpcPool.step] at hstep
      split at hstep
      · cases hstep
      · rename_i call hcall
        have hmem := List.mem_of_getElem? hcall
        split at hstep
        · rename_i i probe hphase
          cases hstep
          obtain ⟨hbounded, heffect⟩ := succeeded_effect h (c := c) (h call hmem i probe hphase)
            call (fun _ _ => (CallPhase.noConfusion : CallPhase.resolved ≠ .sent _ _)) none
          exact ⟨hbounded, .inl ⟨rfl, .inr (.inr ⟨i, heffect⟩)⟩⟩
        · rename_i i probe hphase
          cases hstep
          obtain ⟨hbounded, heffect⟩ := succeeded_effect h (c := c) (h call hmem i probe hphase)
            call (fun _ _ => (CallPhase.noConfusion : CallPhase.rejected .rpcMethod ≠ .sent _ _))
            (some .rpcMethod)
          exact ⟨hbounded, .inl ⟨rfl, .inr (.inr ⟨i, heffect⟩)⟩⟩
        · rename_i i probe errorClass hmethod hphase
          cases hstep
          have hsent : sentTo p c = some (i, probe) := by
            unfold sentTo
            rw [hcall]
            show (match call.phase with
              | .sent i probe => some (i, probe)
              | _ => none) = _
            rw [hphase]
          have hfailure : failure p (.settle c (.threw errorClass)) = some
              { call := c, endpoint := i, probe := probe, errorClass := errorClass } := by
            show (if errorClass = .rpcMethod then none else (sentTo p c).map _) = _
            rw [if_neg hmethod, hsent]
            rfl
          obtain ⟨hbounded, heffect⟩ := failed_effect h
            { call := c, endpoint := i, probe := probe, errorClass := errorClass }
            (h call hmem i probe hphase) call
          exact ⟨hbounded, .inr ⟨_, hfailure, heffect⟩⟩
        · cases hstep
  | retry c =>
      simp only [RpcPool.step] at hstep
      split at hstep
      · cases hstep
      · rename_i call hcall
        split at hstep
        · cases hstep
          obtain ⟨hbounded, heffect⟩ := attempt_sends h c call
          refine ⟨hbounded, .inl ⟨rfl, ?_⟩⟩
          exact heffect.imp_right .inl
        · cases hstep

/-! ## One endpoint -/

theorem failedProbes_filter (i : Nat) (events : List PoolEvent) :
    failedProbes i (events.filter noted) = failedProbes i events := by
  unfold failedProbes
  induction events using List.reverseRecOn with
  | nil => rfl
  | append_singleton events e ih =>
      rw [List.filter_append, List.foldl_append, List.foldl_append, ih]
      cases e <;> rfl

theorem grants_filter (i : Nat) (events : List PoolEvent) :
    grants i (events.filter noted) = grants i events := by
  unfold grants
  induction events using List.reverseRecOn with
  | nil => rfl
  | append_singleton events e ih =>
      rw [List.filter_append, List.foldl_append, List.foldl_append, ih]
      cases e <;> rfl

/-- What holds of an endpoint with the history `events` at time `clock`. -/
structure Tracked (h : HealthState) (i clock : Nat) (events : List PoolEvent) : Prop where
  counted : Counted h
  base : h.state ≠ .unhealthy → h.cooldownMs = PROBE_COOLDOWN_MS
  cooldown : h.state = .unhealthy → h.cooldownMs = cooldownAfter (failedProbes i events)
  pending : h.state = .unhealthy → ∀ g ∈ grants i events, g.1 + g.2 ≤ h.probeAt
  ahead : h.state = .unhealthy → h.probeAt ≤ clock + h.cooldownMs
  spaced : (grants i events).Pairwise Spaced

/-- Only what was noted counts. -/
theorem Tracked.of_noted {h : HealthState} {i clock : Nat} {events events' : List PoolEvent}
    (ht : Tracked h i clock events) (hevents : events'.filter noted = events.filter noted) :
    Tracked h i clock events' := by
  have hprobes : failedProbes i events' = failedProbes i events := by
    rw [← failedProbes_filter, hevents, failedProbes_filter]
  have hgrants : grants i events' = grants i events := by
    rw [← grants_filter, hevents, grants_filter]
  exact ⟨ht.counted, ht.base, hprobes ▸ ht.cooldown, hgrants ▸ ht.pending, ht.ahead,
    hgrants ▸ ht.spaced⟩

theorem Tracked.later {h : HealthState} {i clock clock' : Nat} {events : List PoolEvent}
    (ht : Tracked h i clock events) (hle : clock ≤ clock') : Tracked h i clock' events :=
  { ht with ahead := fun hdown => (ht.ahead hdown).trans (Nat.add_le_add_right hle _) }

theorem cooldownAfter_succ (n : Nat) :
    cooldownAfter (n + 1) = min (cooldownAfter n * 2) MAX_PROBE_COOLDOWN_MS := by
  unfold cooldownAfter
  rw [Nat.pow_succ, ← Nat.mul_assoc]
  omega

theorem cooldownAfter_pos (n : Nat) : 0 < cooldownAfter n := by
  have hpow : 0 < 2 ^ n := Nat.two_pow_pos n
  unfold cooldownAfter MAX_PROBE_COOLDOWN_MS PROBE_COOLDOWN_MS
  omega

theorem cooldownAfter_le (n : Nat) : cooldownAfter n ≤ MAX_PROBE_COOLDOWN_MS := Nat.min_le_left _ _

theorem Tracked.recordSuccess {h : HealthState} {i clock : Nat} {events : List PoolEvent}
    (ht : Tracked h i clock events) : Tracked h.recordSuccess i clock events where
  counted := HealthStateName.noConfusion
  base _ := rfl
  cooldown := HealthStateName.noConfusion
  pending := HealthStateName.noConfusion
  ahead := HealthStateName.noConfusion
  spaced := ht.spaced

theorem grants_granted (i : Nat) (events : List PoolEvent) (now cooldownMs : Nat) :
    grants i (events ++ [.granted i now cooldownMs]) = grants i events ++ [(now, cooldownMs)] := by
  unfold grants
  rw [List.foldl_append]
  exact if_pos rfl

/-- A probe is granted after the cooldowns of those before it. -/
theorem Tracked.granted {h : HealthState} {i now : Nat} {events : List PoolEvent}
    (ht : Tracked h i now events) (hdue : h.due now = true) :
    Tracked (probed h now) i now (events ++ [.granted i now h.cooldownMs]) := by
  obtain ⟨hdown, hle⟩ := Bool.and_eq_true_iff.1 hdue
  have hdown : h.state = .unhealthy := of_decide_eq_true hdown
  have hle : h.probeAt ≤ now := of_decide_eq_true hle
  have hprobes : failedProbes i (events ++ [.granted i now h.cooldownMs]) =
      failedProbes i events := by
    unfold failedProbes
    rw [List.foldl_append]
    rfl
  refine ⟨ht.counted, ht.base, fun _ => ?_, fun _ g hg => ?_, fun _ => Nat.le_refl _, ?_⟩
  · rw [hprobes]
    exact ht.cooldown hdown
  · rw [grants_granted] at hg
    show g.1 + g.2 ≤ now + h.cooldownMs
    rcases List.mem_append.1 hg with hg | hg
    · have hpending := ht.pending hdown g hg
      omega
    · rw [List.mem_singleton.1 hg]
  · rw [grants_granted, List.pairwise_append]
    refine ⟨ht.spaced, List.pairwise_singleton _ _, fun g hg g' hg' => ?_⟩
    rw [List.mem_singleton.1 hg']
    exact (ht.pending hdown g hg).trans hle

/-- Another endpoint's events. -/
def elsewhere (i : Nat) : PoolEvent → Prop
  | .granted j _ _ => j ≠ i
  | .failed j _ _ => j ≠ i
  | .becameUnhealthy j => j ≠ i
  | _ => True

theorem Tracked.elsewhere {h : HealthState} {i clock : Nat} {events es : List PoolEvent}
    (ht : Tracked h i clock events) (hes : ∀ e ∈ es, elsewhere i e) :
    Tracked h i clock (events ++ es) := by
  have hboth : failedProbes i (events ++ es) = failedProbes i events ∧
      grants i (events ++ es) = grants i events := by
    unfold failedProbes grants
    rw [List.foldl_append, List.foldl_append]
    induction es using List.reverseRecOn with
    | nil => exact ⟨rfl, rfl⟩
    | append_singleton es e ih =>
        obtain ⟨hprobes, hgrants⟩ := ih fun e he => hes e (List.mem_append_left _ he)
        have he := hes e (List.mem_append_right _ List.mem_cons_self)
        rw [List.foldl_append, List.foldl_append, hprobes, hgrants]
        cases e with
        | granted j now cooldownMs => exact ⟨rfl, if_neg he⟩
        | failed j call probe => cases probe <;> exact ⟨by first | exact if_neg he | rfl, rfl⟩
        | becameUnhealthy j => exact ⟨if_neg he, if_neg he⟩
        | _ => exact ⟨rfl, rfl⟩
  exact ⟨ht.counted, ht.base, hboth.1 ▸ ht.cooldown, hboth.2 ▸ ht.pending, ht.ahead,
    hboth.2 ▸ ht.spaced⟩

/-! ## One failure -/

theorem grants_failed (i j call : Nat) (probe : Bool) (events : List PoolEvent) :
    grants i (events ++ [.failed j call probe]) = grants i events := by
  unfold grants
  rw [List.foldl_append]
  rfl

theorem failedProbes_failed (i call : Nat) (probe : Bool) (events : List PoolEvent) :
    failedProbes i (events ++ [.failed i call probe]) =
      if probe then failedProbes i events + 1 else failedProbes i events := by
  unfold failedProbes
  rw [List.foldl_append]
  cases probe
  · rfl
  · exact if_pos rfl

/-- What a failure makes of the health of its endpoint. -/
def recordFailed (h : HealthState) (now : Nat) (errorClass : ErrorClass) : HealthState :=
  if errorClass = .rateLimited then h.recordRateLimit else h.recordError now

/-- A failure of an endpoint that is up; it may go down. -/
theorem Tracked.failed_up {h : HealthState} {i now : Nat} {events : List PoolEvent}
    (ht : Tracked h i now events) (hup : h.state ≠ .unhealthy) (call : Nat) (probe : Bool)
    (errorClass : ErrorClass) :
    Tracked (recordFailed h now errorClass) i now (events ++ (.failed i call probe ::
      if h.state ≠ .unhealthy ∧ (recordFailed h now errorClass).state = .unhealthy then
        [.becameUnhealthy i]
      else [])) := by
  have hcounted : Counted (recordFailed h now errorClass) := by
    unfold recordFailed
    split
    · exact fun hdown => absurd (recordRateLimit_down.1.1 hdown) hup
    · exact ht.counted.recordError now
  -- the endpoint stays up, or goes down with the base cooldown
  have hcases : (recordFailed h now errorClass).state ≠ .unhealthy ∧
        (recordFailed h now errorClass).cooldownMs = h.cooldownMs ∨
      (recordFailed h now errorClass).state = .unhealthy ∧
        (recordFailed h now errorClass).cooldownMs = h.cooldownMs ∧
        (recordFailed h now errorClass).probeAt = now + h.cooldownMs := by
    unfold recordFailed
    split
    · exact .inl ⟨fun hdown => hup (recordRateLimit_down.1.1 hdown), recordRateLimit_down.2.1⟩
    · exact recordError_up hup now
  rcases hcases with ⟨hstays, hcooldown⟩ | ⟨hdown, hcooldown, hprobeAt⟩
  · rw [if_neg fun hboth => hstays hboth.2]
    refine ⟨hcounted, fun _ => hcooldown.trans (ht.base hup), fun hdown => absurd hdown hstays,
      fun hdown => absurd hdown hstays, fun hdown => absurd hdown hstays, ?_⟩
    rw [grants_failed]
    exact ht.spaced
  · rw [if_pos ⟨hup, hdown⟩]
    have hprobes : failedProbes i (events ++ [.failed i call probe, .becameUnhealthy i]) = 0 := by
      rw [List.append_cons]
      unfold failedProbes
      rw [List.foldl_append]
      exact if_pos rfl
    have hgrants : grants i (events ++ [.failed i call probe, .becameUnhealthy i]) = [] := by
      rw [List.append_cons]
      unfold grants
      rw [List.foldl_append]
      exact if_pos rfl
    refine ⟨hcounted, fun hnot => absurd hdown hnot, fun _ => ?_, fun _ => ?_, fun _ => ?_, ?_⟩
    · rw [hprobes, hcooldown, ht.base hup]
      rfl
    · rw [hgrants]
      exact List.forall_mem_nil _
    · rw [hprobeAt, hcooldown]
    · rw [hgrants]
      exact List.Pairwise.nil

/-- A failure of an endpoint that is down, apart from the cooldown. -/
theorem Tracked.failed_down {h : HealthState} {i now : Nat} {events : List PoolEvent}
    (ht : Tracked h i now events) (hdown : h.state = .unhealthy) (call : Nat) (probe : Bool)
    (errorClass : ErrorClass)
    (hcooldown : (recordFailed h now errorClass).cooldownMs =
      cooldownAfter (failedProbes i (events ++ [.failed i call probe]))) :
    Tracked (recordFailed h now errorClass) i now (events ++ [.failed i call probe]) := by
  have hahead := ht.ahead hdown
  have hle := cooldownAfter_le (failedProbes i events)
  rw [← ht.cooldown hdown] at hle
  have hfields : (recordFailed h now errorClass).state = .unhealthy ∧
      h.probeAt ≤ (recordFailed h now errorClass).probeAt ∧
      (recordFailed h now errorClass).probeAt ≤
        now + (recordFailed h now errorClass).cooldownMs ∧
      Counted (recordFailed h now errorClass) := by
    unfold recordFailed
    split
    · obtain ⟨hstate, hcooldown, hprobeAt, herrors⟩ := recordRateLimit_down (h := h)
      refine ⟨hstate.2 hdown, hprobeAt.ge, ?_, fun _ => (ht.counted hdown).trans herrors⟩
      rw [hprobeAt, hcooldown]
      exact hahead
    · have hcounted := ht.counted.recordError now
      rw [recordError_unhealthy ht.counted hdown] at hcounted ⊢
      refine ⟨rfl, ?_, Nat.le_refl _, hcounted⟩
      show h.probeAt ≤ now + min (h.cooldownMs * 2) MAX_PROBE_COOLDOWN_MS
      omega
  obtain ⟨hdown', hprobeAt, hahead', hcounted⟩ := hfields
  refine ⟨hcounted, fun hup => absurd hdown' hup, fun _ => hcooldown, fun _ g hg => ?_,
    fun _ => hahead', ?_⟩
  · rw [grants_failed] at hg
    exact (ht.pending hdown g hg).trans hprobeAt
  · rw [grants_failed]
    exact ht.spaced

/-- The cooldown counts the probes, and a late call leaves it alone, exactly under the
condition. -/
theorem failed_down_iff {h : HealthState} {i now : Nat} {events : List PoolEvent}
    (ht : Tracked h i now events) (hdown : h.state = .unhealthy) (call : Nat) (probe : Bool)
    (errorClass : ErrorClass) :
    ((recordFailed h now errorClass).cooldownMs =
          cooldownAfter (failedProbes i (events ++ [.failed i call probe])) ∧
        (probe = false → (recordFailed h now errorClass).cooldownMs = h.cooldownMs ∧
          (recordFailed h now errorClass).probeAt = h.probeAt)) ↔
      if probe then errorClass ≠ .rateLimited ∨ h.cooldownMs = MAX_PROBE_COOLDOWN_MS
      else errorClass = .rateLimited ∨ h.cooldownMs = MAX_PROBE_COOLDOWN_MS ∧
        h.probeAt = now + MAX_PROBE_COOLDOWN_MS := by
  have hcooldown := ht.cooldown hdown
  have hle := cooldownAfter_le (failedProbes i events)
  have hpos := cooldownAfter_pos (failedProbes i events)
  have hsucc := cooldownAfter_succ (failedProbes i events)
  rw [← hcooldown] at hle hpos hsucc
  rw [failedProbes_failed]
  by_cases hlimited : errorClass = .rateLimited
  · have hrecord : recordFailed h now errorClass = h.recordRateLimit := if_pos hlimited
    obtain ⟨-, hsame, hprobeAt, -⟩ := recordRateLimit_down (h := h)
    rw [hrecord, hsame, hprobeAt]
    cases probe with
    | true =>
        show h.cooldownMs = cooldownAfter (_ + 1) ∧ (true = false → _) ↔ _ ∨ _
        rw [hsucc]
        constructor
        · rintro ⟨hcount, -⟩
          right
          omega
        · rintro (hnot | hmax)
          · exact absurd hlimited hnot
          · exact ⟨by omega, fun hfalse => Bool.noConfusion hfalse⟩
    | false =>
        show h.cooldownMs = cooldownAfter _ ∧ (_ → _ ∧ _) ↔ _ ∨ _
        exact ⟨fun _ => .inl hlimited, fun _ => ⟨hcooldown, fun _ => ⟨rfl, rfl⟩⟩⟩
  · have hrecord : recordFailed h now errorClass = h.recordError now := if_neg hlimited
    rw [hrecord, recordError_unhealthy ht.counted hdown]
    cases probe with
    | true =>
        show min (h.cooldownMs * 2) _ = cooldownAfter (_ + 1) ∧ (true = false → _) ↔ _ ∨ _
        exact ⟨fun _ => .inl hlimited,
          fun _ => ⟨hsucc.symm, fun hfalse => Bool.noConfusion hfalse⟩⟩
    | false =>
        show min (h.cooldownMs * 2) MAX_PROBE_COOLDOWN_MS =
            cooldownAfter (failedProbes i events) ∧
          (_ → min (h.cooldownMs * 2) MAX_PROBE_COOLDOWN_MS = h.cooldownMs ∧
            now + min (h.cooldownMs * 2) MAX_PROBE_COOLDOWN_MS = h.probeAt) ↔ _ ∨ _ ∧ _
        rw [← hcooldown]
        constructor
        · rintro ⟨-, hlate⟩
          obtain ⟨hsame, hprobeAt⟩ := hlate rfl
          right
          omega
        · rintro (hyes | ⟨hmax, hprobeAt⟩)
          · exact absurd hyes hlimited
          · rw [hmax] at *
            exact ⟨by decide, fun _ => ⟨by decide, hprobeAt.symm⟩⟩

/-! ## One step -/

structure Inv (p : RpcPool) : Prop where
  bounded : Bounded p
  tracked : ∀ i < p.states.length, Tracked (p.health i) i p.clock p.events

theorem Inv.countsProbes {p : RpcPool} (h : Inv p) : CountsProbes p :=
  fun i hi => ⟨(h.tracked i hi).cooldown, (h.tracked i hi).spaced⟩

theorem Quiet.inv {p p' : RpcPool} (hquiet : Quiet p p') (hbounded : Bounded p')
    (h : Inv p) : Inv p' := by
  refine ⟨hbounded, fun i hi => ?_⟩
  have hhealth : p'.health i = p.health i := by
    unfold RpcPool.health
    rw [hquiet.states]
  rw [hquiet.states] at hi
  rw [hhealth]
  exact ((h.tracked i hi).of_noted hquiet.events).later hquiet.clock

theorem Effect.health_self {p p' : RpcPool} {i : Nat} {h : HealthState} {es : List PoolEvent}
    (heffect : Effect p p' i h es) : p'.health i = h := by
  unfold RpcPool.health
  rw [heffect.states, List.getElem?_set_self heffect.bound]
  rfl

theorem Effect.noted_events {p p' : RpcPool} {i : Nat} {h : HealthState} {es : List PoolEvent}
    (heffect : Effect p p' i h es) (hes : es.filter noted = es) :
    p'.events.filter noted = (p.events ++ es).filter noted := by
  rw [heffect.events, List.filter_append, hes]

/-- One endpoint changes; the others are as they were. -/
theorem Effect.inv {p p' : RpcPool} {i : Nat} {h : HealthState} {es : List PoolEvent}
    (heffect : Effect p p' i h es) (hbounded : Bounded p') (hinv : Inv p)
    (hnoted : es.filter noted = es) (helse : ∀ j, j ≠ i → ∀ e ∈ es, elsewhere j e)
    (htracked : Tracked h i p.clock (p.events ++ es)) : Inv p' := by
  refine ⟨hbounded, fun j hj => ?_⟩
  rw [heffect.states, List.length_set] at hj
  by_cases hij : j = i
  · subst hij
    rw [heffect.health_self]
    exact (htracked.of_noted (heffect.noted_events hnoted)).later heffect.clock
  · have hhealth : p'.health j = p.health j := by
      unfold RpcPool.health
      rw [heffect.states, List.getElem?_set_ne (Ne.symm hij)]
    rw [hhealth]
    exact (((hinv.tracked j hj).elsewhere (helse j hij)).of_noted
      (heffect.noted_events hnoted)).later heffect.clock

theorem failedEvents_noted (p : RpcPool) (f : Failure) :
    (failedEvents p f).filter noted = failedEvents p f ∧
      ∀ j, j ≠ f.endpoint → ∀ e ∈ failedEvents p f, elsewhere j e := by
  unfold failedEvents
  constructor
  · split <;> rfl
  · intro j hj e he
    rcases List.mem_cons.1 he with rfl | he
    · exact Ne.symm hj
    · split at he
      · rw [List.mem_singleton.1 he]
        exact Ne.symm hj
      · cases he

/-- A step is as it should be exactly under the condition. -/
theorem step_counts {p p' : RpcPool} {a : PoolAction} (h : Inv p) (hstep : p.step a = some p') :
    (CountsProbes p' ∧ LateIgnored p a p' ↔ RecordsProbes p a) ∧
      (RecordsProbes p a → Inv p') := by
  obtain ⟨hbounded, ⟨hnone, heffect⟩ | ⟨f, hf, heffect⟩⟩ := step_cases h.bounded hstep
  · -- nothing fails
    have hinv : Inv p' := by
      rcases heffect with hquiet | ⟨i, hdue, heffect⟩ | ⟨i, heffect⟩
      · exact hquiet.inv hbounded h
      · apply heffect.inv hbounded h rfl
        · intro j hj e he
          rw [List.mem_singleton.1 he]
          exact Ne.symm hj
        · exact (h.tracked i heffect.bound).granted hdue
      · apply heffect.inv hbounded h rfl
        · exact fun j hj e he => absurd he List.not_mem_nil
        · rw [List.append_nil]
          exact (h.tracked i heffect.bound).recordSuccess
    have hnothing : ∀ {Q : Failure → Prop}, ∀ f ∈ failure p a, Q f := by
      intro Q f hf
      rw [hnone] at hf
      cases hf
    exact ⟨⟨fun _ => hnothing, fun _ => ⟨hinv.countsProbes, hnothing⟩⟩, fun _ => hinv⟩
  · obtain ⟨hnoted, helse⟩ := failedEvents_noted p f
    have htracked := h.tracked f.endpoint heffect.bound
    have hall : ∀ {Q : Failure → Prop}, (∀ g ∈ failure p a, Q g) ↔ Q f := by
      intro Q
      rw [hf]
      exact ⟨fun hall => hall f rfl, fun hone g hg => by cases hg; exact hone⟩
    have hrecords := hall (Q := fun f => (p.health f.endpoint).state = .unhealthy →
      if f.probe then
        f.errorClass ≠ .rateLimited ∨ (p.health f.endpoint).cooldownMs = MAX_PROBE_COOLDOWN_MS
      else
        f.errorClass = .rateLimited ∨
          (p.health f.endpoint).cooldownMs = MAX_PROBE_COOLDOWN_MS ∧
            (p.health f.endpoint).probeAt = p.clock + MAX_PROBE_COOLDOWN_MS)
    have hlate := hall (Q := fun f => f.probe = false →
      (p.health f.endpoint).state = .unhealthy →
        (p'.health f.endpoint).cooldownMs = (p.health f.endpoint).cooldownMs ∧
          (p'.health f.endpoint).probeAt = (p.health f.endpoint).probeAt)
    have hown : p'.health f.endpoint =
        recordFailed (p.health f.endpoint) p.clock f.errorClass := heffect.health_self
    by_cases hdown : (p.health f.endpoint).state = .unhealthy
    · have hevents : failedEvents p f = [.failed f.endpoint f.call f.probe] := by
        unfold failedEvents
        rw [if_neg fun hboth => hboth.1 hdown]
      rw [hevents] at hnoted helse heffect
      have hiff := failed_down_iff htracked hdown f.call f.probe f.errorClass
      have hprobes : failedProbes f.endpoint p'.events =
          failedProbes f.endpoint (p.events ++ [.failed f.endpoint f.call f.probe]) := by
        rw [← failedProbes_filter, heffect.noted_events hnoted, failedProbes_filter]
      have hdown' : (p'.health f.endpoint).state = .unhealthy := by
        rw [hown]
        unfold recordFailed
        split
        · exact recordRateLimit_down.1.2 hdown
        · rw [recordError_unhealthy htracked.counted hdown]
      have hinv := fun hcondition => heffect.inv hbounded h hnoted helse
        (htracked.failed_down hdown f.call f.probe f.errorClass (hiff.2 hcondition).1)
      refine ⟨⟨fun hgood => hrecords.2 fun _ => hiff.1 ?_, fun hcondition => ?_⟩,
        fun hcondition => hinv (hrecords.1 hcondition hdown)⟩
      · have hbound : f.endpoint < p'.states.length := by
          rw [heffect.states, List.length_set]
          exact heffect.bound
        have hcooldown := (hgood.1 f.endpoint hbound).1 hdown'
        rw [hown, hprobes] at hcooldown
        refine ⟨hcooldown, fun hprobe => ?_⟩
        rw [← hown]
        exact hlate.1 hgood.2 hprobe hdown
      · refine ⟨(hinv (hrecords.1 hcondition hdown)).countsProbes, hlate.2 fun hprobe _ => ?_⟩
        rw [hown]
        exact (hiff.2 (hrecords.1 hcondition hdown)).2 hprobe
    · have hinv : Inv p' := by
        apply heffect.inv hbounded h hnoted helse
        exact htracked.failed_up hdown f.call f.probe f.errorClass
      have hcondition : RecordsProbes p a := hrecords.2 fun hyes => absurd hyes hdown
      exact ⟨⟨fun _ => hcondition,
        fun _ => ⟨hinv.countsProbes, hlate.2 fun _ hyes => absurd hyes hdown⟩⟩, fun _ => hinv⟩

/-- A pool in which nothing has happened. -/
def fresh (attempts endpoints : Nat) (clock : Nat) : RpcPool :=
  { attempts := attempts, states := List.replicate endpoints {}, clock := clock }

theorem inv_fresh (attempts endpoints clock : Nat) : Inv (fresh attempts endpoints clock) where
  bounded call hmem := absurd hmem List.not_mem_nil
  tracked i hi := by
    have hhealth : (fresh attempts endpoints clock).health i = {} := by
      unfold RpcPool.health fresh
      rw [List.getElem?_replicate]
      split <;> rfl
    rw [hhealth]
    exact ⟨HealthStateName.noConfusion, fun _ => rfl, HealthStateName.noConfusion,
      HealthStateName.noConfusion, HealthStateName.noConfusion, List.Pairwise.nil⟩

/-- The cooldown counts the failed probes along a run exactly if `recordError` records the
probes and no other call of an endpoint that is down. -/
theorem cooldown_counts_probes (attempts endpoints clock : Nat) (acts : List PoolAction) :
    Along RpcPool.step (fun p a p' => CountsProbes p' ∧ LateIgnored p a p')
        (fresh attempts endpoints clock) acts ↔
      Along RpcPool.step (fun p a _ => RecordsProbes p a) (fresh attempts endpoints clock)
        acts := by
  apply along_iff_of_inv Inv
  · exact fun p a p' hinv hstep => (step_counts hinv hstep).1
  · exact fun p a p' hinv hstep => (step_counts hinv hstep).2
  · exact inv_fresh attempts endpoints clock

/-! ## A late failure -/

/-- Eleven calls are sent to the one endpoint, and ten of them fail. -/
def lateBurst : List PoolAction :=
  List.replicate 11 .call ++
    (List.range 10).map fun c => .settle c (.threw .timeout)

/-- The eleventh was no probe, and doubles the cooldown. -/
theorem lateBurst_doubles :
    (∃ p, exec RpcPool.step (fresh 1 1 0) (lateBurst ++ [.settle 10 (.threw .timeout)]) = some p ∧
      ((p.health 0).state = .unhealthy ∧ (p.health 0).cooldownMs = 10000 ∧
        failedProbes 0 p.events = 0)) ∧
      ¬ Along RpcPool.step (fun p a p' => CountsProbes p' ∧ LateIgnored p a p') (fresh 1 1 0)
        (lateBurst ++ [.settle 10 (.threw .timeout)]) := by
  constructor <;> decide +kernel

end Ap3xSolana.Connectivity.ProbeCooldown
