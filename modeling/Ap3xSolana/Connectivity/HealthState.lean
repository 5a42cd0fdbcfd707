import Mathlib.Data.List.Induction
import Mathlib.Init

/-!
# The health of an endpoint

`HealthState` counts consecutive errors.  Five degrade the endpoint and ten take it down;
an endpoint that is down is probed by one call once a cooldown has passed.

Errors and rate limits share the counter, and `recordError` compares it with
`UNHEALTHY_THRESHOLD`: nine rate limits and a single error take an endpoint
down.  `throttled_iff` says when it takes ten errors, as it should.
-/

namespace Ap3xSolana.Connectivity

inductive HealthStateName where
  | healthy
  | degraded
  | unhealthy
  deriving DecidableEq, Repr

namespace HealthState

def DEGRADE_THRESHOLD : Nat := 5

def UNHEALTHY_THRESHOLD : Nat := 10

/-- The first wait before a probe; it doubles with each failed probe. -/
def PROBE_COOLDOWN_MS : Nat := 5000

def MAX_PROBE_COOLDOWN_MS : Nat := 60000

end HealthState

open HealthState

structure HealthState where
  consecutiveErrors : Nat := 0
  state : HealthStateName := .healthy
  cooldownMs : Nat := PROBE_COOLDOWN_MS
  probeAt : Nat := 0
  deriving DecidableEq, Repr

namespace HealthState

/-- Leaves `probeAt` alone. -/
def recordSuccess (h : HealthState) : HealthState :=
  { h with consecutiveErrors := 0, state := .healthy, cooldownMs := PROBE_COOLDOWN_MS }

/-- A failed call, at time `now`. -/
def recordError (h : HealthState) (now : Nat) : HealthState :=
  let h := { h with consecutiveErrors := h.consecutiveErrors + 1 }
  if h.consecutiveErrors ≥ UNHEALTHY_THRESHOLD then
    let cooldownMs :=
      if h.state = .unhealthy then min (h.cooldownMs * 2) MAX_PROBE_COOLDOWN_MS
      else h.cooldownMs
    { h with cooldownMs := cooldownMs, probeAt := now + cooldownMs, state := .unhealthy }
  else if h.consecutiveErrors ≥ DEGRADE_THRESHOLD then { h with state := .degraded }
  else h

/-- A rate limit degrades an endpoint and never takes it down. -/
def recordRateLimit (h : HealthState) : HealthState :=
  let h := { h with consecutiveErrors := h.consecutiveErrors + 1 }
  if h.state = .healthy ∧ h.consecutiveErrors ≥ DEGRADE_THRESHOLD then
    { h with state := .degraded }
  else h

/-- The endpoint is due a probe. -/
def due (h : HealthState) (now : Nat) : Bool := h.state = .unhealthy && h.probeAt ≤ now

/-- Claims the probe: the next one waits another cooldown. -/
def takeProbe (h : HealthState) (now : Nat) : HealthState × Bool :=
  if h.due now then ({ h with probeAt := now + h.cooldownMs }, true) else (h, false)

/-! ## What each call does to an endpoint that is down -/

/-- An endpoint that is down has had its ten errors. -/
def Counted (h : HealthState) : Prop :=
  h.state = .unhealthy → UNHEALTHY_THRESHOLD ≤ h.consecutiveErrors

theorem recordError_unhealthy {h : HealthState} (hcounted : Counted h)
    (hdown : h.state = .unhealthy) (now : Nat) :
    h.recordError now =
      { consecutiveErrors := h.consecutiveErrors + 1
        state := .unhealthy
        cooldownMs := min (h.cooldownMs * 2) MAX_PROBE_COOLDOWN_MS
        probeAt := now + min (h.cooldownMs * 2) MAX_PROBE_COOLDOWN_MS } := by
  have hten : h.consecutiveErrors + 1 ≥ UNHEALTHY_THRESHOLD :=
    Nat.le_succ_of_le (hcounted hdown)
  simp only [recordError, if_pos hten, hdown, if_true]

/-- An endpoint goes down with the base cooldown. -/
theorem recordError_up {h : HealthState} (hup : h.state ≠ .unhealthy) (now : Nat) :
    (h.recordError now).state ≠ .unhealthy ∧ (h.recordError now).cooldownMs = h.cooldownMs ∨
      (h.recordError now).state = .unhealthy ∧ (h.recordError now).cooldownMs = h.cooldownMs ∧
        (h.recordError now).probeAt = now + h.cooldownMs := by
  unfold recordError
  dsimp only
  split
  · exact .inr ⟨rfl, rfl, rfl⟩
  · split
    · exact .inl ⟨HealthStateName.noConfusion, rfl⟩
    · exact .inl ⟨hup, rfl⟩

theorem Counted.recordError {h : HealthState} (hcounted : Counted h) (now : Nat) :
    Counted (h.recordError now) := by
  unfold Counted HealthState.recordError
  dsimp only
  split
  · exact fun _ => ‹_›
  · split
    · exact HealthStateName.noConfusion
    · exact fun hdown => Nat.le_succ_of_le (hcounted hdown)

theorem recordRateLimit_down {h : HealthState} :
    ((h.recordRateLimit).state = .unhealthy ↔ h.state = .unhealthy) ∧
      (h.recordRateLimit).cooldownMs = h.cooldownMs ∧
      (h.recordRateLimit).probeAt = h.probeAt ∧
      h.consecutiveErrors ≤ (h.recordRateLimit).consecutiveErrors := by
  unfold recordRateLimit
  dsimp only
  split
  · rename_i hhealthy
    refine ⟨⟨HealthStateName.noConfusion, fun hdown => ?_⟩, rfl, rfl, Nat.le_succ _⟩
    rw [hhealthy.1] at hdown
    cases hdown
  · exact ⟨Iff.rfl, rfl, rfl, Nat.le_succ _⟩

end HealthState

end Ap3xSolana.Connectivity

namespace Ap3xSolana.Connectivity.Throttling

open Ap3xSolana.Connectivity.HealthState

inductive HealthCall where
  | recordSuccess
  | recordError (now : Nat)
  | recordRateLimit
  | takeProbe (now : Nat)
  deriving DecidableEq, Repr

def apply (h : HealthState) : HealthCall → HealthState
  | .recordSuccess => h.recordSuccess
  | .recordError now => h.recordError now
  | .recordRateLimit => h.recordRateLimit
  | .takeProbe now => (h.takeProbe now).1

/-- The state of a new endpoint after these calls. -/
def after (calls : List HealthCall) : HealthState := calls.foldl apply {}

/-! ## What was recorded since the last success -/

/-- Errors and rate limits. -/
structure Streak where
  errors : Nat := 0
  rateLimits : Nat := 0
  deriving DecidableEq, Repr

def Streak.record (s : Streak) : HealthCall → Streak
  | .recordSuccess => {}
  | .recordError _ => { s with errors := s.errors + 1 }
  | .recordRateLimit => { s with rateLimits := s.rateLimits + 1 }
  | .takeProbe _ => s

def streak (calls : List HealthCall) : Streak := calls.foldl Streak.record {}

/-- Only ten errors take the endpoint down, and five failures of either kind degrade it. -/
structure Throttled (calls : List HealthCall) : Prop where
  unhealthy : (after calls).state = .unhealthy → UNHEALTHY_THRESHOLD ≤ (streak calls).errors
  healthy : (after calls).state = .healthy →
    (streak calls).errors + (streak calls).rateLimits < DEGRADE_THRESHOLD

/-- An error with nine failures behind it has nine errors behind it. -/
def NoLateError (calls : List HealthCall) : Prop :=
  ∀ before now, before ++ [.recordError now] <+: calls →
    UNHEALTHY_THRESHOLD ≤ (streak before).errors + (streak before).rateLimits + 1 →
    UNHEALTHY_THRESHOLD ≤ (streak before).errors + 1

@[simp] theorem after_append (calls : List HealthCall) (c : HealthCall) :
    after (calls ++ [c]) = apply (after calls) c := by
  simp [after]

@[simp] theorem streak_append (calls : List HealthCall) (c : HealthCall) :
    streak (calls ++ [c]) = (streak calls).record c := by
  simp [streak]

/-! ## What one call does -/

theorem recordError_consecutiveErrors (h : HealthState) (now : Nat) :
    (h.recordError now).consecutiveErrors = h.consecutiveErrors + 1 := by
  unfold recordError
  dsimp only
  split
  · rfl
  · split <;> rfl

theorem recordError_state (h : HealthState) (now : Nat) :
    (h.recordError now).state =
      if UNHEALTHY_THRESHOLD ≤ h.consecutiveErrors + 1 then .unhealthy
      else if DEGRADE_THRESHOLD ≤ h.consecutiveErrors + 1 then .degraded
      else h.state := by
  unfold recordError
  dsimp only
  split
  · rfl
  · split <;> rfl

theorem recordRateLimit_consecutiveErrors (h : HealthState) :
    h.recordRateLimit.consecutiveErrors = h.consecutiveErrors + 1 := by
  unfold recordRateLimit
  dsimp only
  split <;> rfl

theorem recordRateLimit_state (h : HealthState) :
    h.recordRateLimit.state =
      if h.state = .healthy ∧ DEGRADE_THRESHOLD ≤ h.consecutiveErrors + 1 then .degraded
      else h.state := by
  unfold recordRateLimit
  dsimp only
  split <;> rfl

theorem takeProbe_same (h : HealthState) (now : Nat) :
    (h.takeProbe now).1.consecutiveErrors = h.consecutiveErrors ∧
      (h.takeProbe now).1.state = h.state := by
  unfold takeProbe
  split <;> exact ⟨rfl, rfl⟩

/-! ## Runs -/

/-- The counter has both kinds, and a healthy endpoint has had fewer than five. -/
theorem counter_eq (calls : List HealthCall) :
    (after calls).consecutiveErrors = (streak calls).errors + (streak calls).rateLimits ∧
      ((after calls).state = .healthy →
        (streak calls).errors + (streak calls).rateLimits < DEGRADE_THRESHOLD) := by
  induction calls using List.reverseRecOn with
  | nil => decide
  | append_singleton calls c ih =>
      obtain ⟨hcount, hhealthy⟩ := ih
      rw [after_append, streak_append]
      cases c with
      | recordSuccess => exact ⟨rfl, fun _ => Nat.zero_lt_succ 4⟩
      | recordError now =>
          simp only [apply, Streak.record, recordError_consecutiveErrors, recordError_state]
          refine ⟨by omega, fun hstate => ?_⟩
          split at hstate
          · cases hstate
          · split at hstate
            · cases hstate
            · omega
      | recordRateLimit =>
          simp only [apply, Streak.record, recordRateLimit_consecutiveErrors,
            recordRateLimit_state]
          refine ⟨by omega, fun hstate => ?_⟩
          split at hstate
          · cases hstate
          · rename_i hdegrade
            have hfew : ¬ DEGRADE_THRESHOLD ≤ (after calls).consecutiveErrors + 1 :=
              fun hmany => hdegrade ⟨hstate, hmany⟩
            omega
      | takeProbe now =>
          obtain ⟨herrors, hstate⟩ := takeProbe_same (after calls) now
          simp only [apply, Streak.record, herrors, hstate]
          exact ⟨hcount, hhealthy⟩

/-- One more call, with `NoLateError`. -/
theorem Throttled.append {calls : List HealthCall} {c : HealthCall} (h : Throttled calls)
    (hlate : NoLateError (calls ++ [c])) : Throttled (calls ++ [c]) := by
  refine ⟨fun hdown => ?_, (counter_eq (calls ++ [c])).2⟩
  have hcount := (counter_eq calls).1
  rw [after_append] at hdown
  rw [streak_append]
  cases c with
  | recordSuccess => cases hdown
  | recordError now =>
      simp only [apply, recordError_state] at hdown
      show UNHEALTHY_THRESHOLD ≤ (streak calls).errors + 1
      split at hdown
      · exact hlate calls now (List.prefix_refl _) (by omega)
      · split at hdown
        · cases hdown
        · exact Nat.le_succ_of_le (h.unhealthy hdown)
  | recordRateLimit =>
      exact h.unhealthy (recordRateLimit_down.1.1 hdown)
  | takeProbe now =>
      exact h.unhealthy ((takeProbe_same (after calls) now).2 ▸ hdown)

theorem throttled_of_noLateError {calls : List HealthCall} (h : NoLateError calls) :
    Throttled calls := by
  induction calls using List.reverseRecOn with
  | nil => exact { unhealthy := nofun, healthy := fun _ => Nat.zero_lt_succ 4 }
  | append_singleton calls c ih =>
      apply Throttled.append (ih ?_) h
      exact fun before now hpfx => h before now (hpfx.trans (List.prefix_append calls [c]))

theorem throttled_iff (calls : List HealthCall) :
    (∀ before, before <+: calls → Throttled before) ↔ NoLateError calls := by
  constructor
  · intro h before now hpfx hmany
    have hdown := (h _ hpfx).unhealthy
    rw [after_append, streak_append] at hdown
    apply hdown
    show ((after before).recordError now).state = _
    rw [recordError_state, (counter_eq before).1, if_pos hmany]
  · intro h before hpfx
    exact throttled_of_noLateError fun first now hfirst => h first now (hfirst.trans hpfx)

/-- Nine rate limits and one error take the endpoint down. -/
theorem rate_limits_take_down :
    ¬ ∀ calls, Throttled calls := by
  intro hall
  have hdown := (hall (List.replicate 9 .recordRateLimit ++ [.recordError 0])).unhealthy
    (by decide)
  exact absurd hdown (by decide)

end Ap3xSolana.Connectivity.Throttling
