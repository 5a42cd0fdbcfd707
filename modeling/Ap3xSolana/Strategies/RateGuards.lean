import Mathlib.Algebra.Order.Group.Int
import Ap3xSolana.Lib.SlidingWindow
import Ap3xSolana.Strategies.Guards

/-!
# Rate guards

The tracker only keeps the times that are recent to the latest call.  That is enough: a call sees
exactly the earlier calls of its kind in its window (`RateGuard.sees`), those that tripped
included, and so no window holds more calls that passed than the maximum.
-/

namespace Ap3xSolana.Strategies.Guards

open Ap3xSolana.Lib.SlidingWindow

/-! ## The property -/

/-- The calls of one kind. -/
def callsOf (recording : Recording) (log : List Recorded) : List Recorded :=
  log.filter fun e => e.call.recording = recording

/-- How many calls returned no trip at a time inside. -/
def passedIn (log : List Recorded) (inside : Int → Prop) [DecidablePred inside] : Nat :=
  (log.filter fun e => e.trip.isNone && decide (inside e.call.now)).length

/-- The calls that came before `e` and are in the window that ends at it. -/
def callsBefore (windowMs : Int) (before : List Recorded) (e : Recorded) : List Int :=
  recent windowMs e.call.now (before.map fun e => e.call.now)

structure RateBounded (windowMs max : Int) (log : List Recorded) : Prop where
  /-- `max.toNat` is none for a maximum below zero. -/
  closedLeft : ∀ start,
    passedIn log (fun t => start ≤ t ∧ t < start + windowMs) ≤ max.toNat
  closedRight : ∀ start,
    passedIn log (fun t => start < t ∧ t ≤ start + windowMs) ≤ max.toNat
  /-- A call that trips is itself one too many in its window. -/
  justified : ∀ before e after, log = before ++ e :: after → e.trip ≠ none →
    max < (callsBefore windowMs before e).length + 1

def maxDecisions (cfg : GuardConfig) : Int := cfg.maxDecisionsPerMin.getD 60

def errorWindowMs (cfg : GuardConfig) : Int := (cfg.errorThreshold.map (·.windowMs)).getD 60000

def maxErrors (cfg : GuardConfig) : Int := (cfg.errorThreshold.map (·.errors)).getD 5

/-! ## One guard -/

/-- `recordDecision` and `recordError` are the same on different times. -/
structure RateGuard where
  recording : Recording
  windowMs : Int
  max : Int
  times : GuardTracker → List Int

def decisionGuard (cfg : GuardConfig) : RateGuard :=
  { recording := .decision, windowMs := 60000, max := maxDecisions cfg
    times := (·.decisionTimes) }

def errorGuard (cfg : GuardConfig) : RateGuard :=
  { recording := .error, windowMs := errorWindowMs cfg, max := maxErrors cfg
    times := (·.errorTimes) }

/-- What a call does to the times of a guard. -/
structure RateGuard.Runs (r : RateGuard) (cfg : GuardConfig) : Prop where
  fresh : ∀ start, r.times (.new cfg start) = []
  slides : ∀ (g : GuardTracker) (c : GuardCall), g.cfg = cfg → c.recording = r.recording →
    r.times (g.call c).1 = recent r.windowMs c.now (r.times g) ++ [c.now]
  trips : ∀ (g : GuardTracker) (c : GuardCall), g.cfg = cfg → c.recording = r.recording →
    ((g.call c).2 ≠ none ↔ r.max < (recent r.windowMs c.now (r.times g)).length + 1)
  others : ∀ (g : GuardTracker) (c : GuardCall), c.recording ≠ r.recording →
    r.times (g.call c).1 = r.times g

theorem trip_ne_none {p : Prop} [Decidable p] (trip : GuardTrip) :
    (if p then some trip else none) ≠ none ↔ p := by
  by_cases hp : p
  · simp [hp]
  · simp [hp]

theorem recordRealized_times (g : GuardTracker) (now amount : Int) :
    (g.recordRealized now amount).1.decisionTimes = g.decisionTimes ∧
      (g.recordRealized now amount).1.errorTimes = g.errorTimes := by
  unfold GuardTracker.recordRealized
  dsimp only
  split <;> exact ⟨rfl, rfl⟩

theorem decisionGuard_runs (cfg : GuardConfig) : (decisionGuard cfg).Runs cfg where
  fresh _ := rfl
  slides g c _ hc := by
    obtain ⟨now, recording⟩ := c
    obtain rfl : recording = .decision := hc
    rfl
  trips g c hcfg hc := by
    obtain ⟨now, recording⟩ := c
    obtain rfl : recording = .decision := hc
    subst hcfg
    refine (trip_ne_none _).trans ?_
    rw [GuardTracker.slide, List.length_append]
    exact Iff.rfl
  others g c hc := by
    obtain ⟨now, recording⟩ := c
    cases recording with
    | decision => exact absurd rfl hc
    | error => rfl
    | realized amount => exact (recordRealized_times g now amount).1
    | openPositions openCount => rfl

theorem errorGuard_runs (cfg : GuardConfig) : (errorGuard cfg).Runs cfg where
  fresh _ := rfl
  slides g c hcfg hc := by
    obtain ⟨now, recording⟩ := c
    obtain rfl : recording = .error := hc
    subst hcfg
    rfl
  trips g c hcfg hc := by
    obtain ⟨now, recording⟩ := c
    obtain rfl : recording = .error := hc
    subst hcfg
    refine (trip_ne_none _).trans ?_
    rw [GuardTracker.slide, List.length_append]
    exact Iff.rfl
  others g c hc := by
    obtain ⟨now, recording⟩ := c
    cases recording with
    | decision => rfl
    | error => exact absurd rfl hc
    | realized amount => exact (recordRealized_times g now amount).2
    | openPositions openCount => rfl

/-! ## What a call sees -/

/-- The kept times, and what each call was told, by the calls before it. -/
structure RateGuard.Sees (r : RateGuard) (h : GuardHistory) : Prop where
  kept : ∀ now, (∀ e ∈ h.log, e.call.now ≤ now) →
    recent r.windowMs now (r.times h.tracker) =
      recent r.windowMs now ((callsOf r.recording h.log).map fun e => e.call.now)
  told : ∀ before e after, callsOf r.recording h.log = before ++ e :: after →
    (e.trip ≠ none ↔ r.max < (callsBefore r.windowMs before e).length + 1)

theorem callsOf_concat (recording : Recording) (log : List Recorded) (e : Recorded) :
    callsOf recording (log ++ [e]) =
      if e.call.recording = recording then callsOf recording log ++ [e]
      else callsOf recording log := by
  unfold callsOf
  rw [List.filter_append]
  by_cases he : e.call.recording = recording
  · rw [if_pos he]
    simp [he]
  · rw [if_neg he]
    simp [he]

theorem RateGuard.sees {r : RateGuard} {cfg : GuardConfig} (hr : r.Runs cfg) (start : Int)
    {calls : List GuardCall} (hclock : ClockNeverBack start calls) :
    r.Sees (history cfg start calls) := by
  induction calls using List.reverseRecOn with
  | nil =>
      refine ⟨fun now _ => ?_, fun before e after hlog => ?_⟩
      · show recent r.windowMs now (r.times (.new cfg start)) = _
        rw [hr.fresh]
        rfl
      · cases before <;> cases hlog
  | append_singleton calls c ih =>
      obtain ⟨hkept, htold⟩ := ih hclock.init
      have hcfg := history_cfg cfg start calls
      have hlast : ∀ e ∈ (history cfg start calls).log, e.call.now ≤ c.now := fun e he =>
        hclock.le_last.2 e.call (history_calls cfg start calls ▸ List.mem_map_of_mem he)
      rw [history_concat]
      by_cases hc : c.recording = r.recording
      · have hslides := hr.slides (history cfg start calls).tracker c hcfg hc
        have htrips := hr.trips (history cfg start calls).tracker c hcfg hc
        constructor
        · intro now hnow
          rw [GuardHistory.record_tracker, GuardHistory.record_log, callsOf_concat,
            if_pos hc, hslides, List.map_append, recent_append, recent_append]
          have hcnow : c.now ≤ now := hnow _ (List.mem_append_right _ (List.mem_singleton_self _))
          rw [recent_recent r.windowMs hcnow,
            hkept now fun e he => hnow e (List.mem_append_left _ he)]
          rfl
        · intro before e after hlog
          rw [GuardHistory.record_log, callsOf_concat, if_pos hc] at hlog
          rcases List.eq_nil_or_concat after with rfl | ⟨after', last, rfl⟩
          · obtain ⟨rfl, hlast'⟩ := List.append_inj' hlog rfl
            cases hlast'
            rw [htrips, hkept c.now hlast]
            rfl
          · refine htold before e after' ?_
            rw [List.concat_eq_append, ← List.cons_append, ← List.append_assoc] at hlog
            exact (List.append_inj' hlog rfl).1
      · have hsame : callsOf r.recording ((history cfg start calls).record c).log =
            callsOf r.recording (history cfg start calls).log := by
          rw [GuardHistory.record_log, callsOf_concat, if_neg hc]
        constructor
        · intro now hnow
          rw [hsame, GuardHistory.record_tracker, hr.others _ c hc]
          exact hkept now fun e he => hnow e (List.mem_append_left _ he)
        · rw [hsame]
          exact htold

/-- The log keeps the order of the calls. -/
theorem log_sorted {cfg : GuardConfig} {start : Int} {calls : List GuardCall}
    (hclock : ClockNeverBack start calls) (recording : Recording) :
    (callsOf recording (history cfg start calls).log).Pairwise
      fun e e' => e.call.now ≤ e'.call.now := by
  have hcalls : (calls.map (·.now)).Pairwise (· ≤ ·) := (List.pairwise_cons.1 hclock).2
  rw [← history_calls cfg start calls, List.map_map, List.pairwise_map] at hcalls
  exact hcalls.filter _

theorem RateGuard.bounds {r : RateGuard} {cfg : GuardConfig} (hr : r.Runs cfg) {start : Int}
    {calls : List GuardCall} (hclock : ClockNeverBack start calls) :
    RateBounded r.windowMs r.max (callsOf r.recording (history cfg start calls).log) := by
  have htold := (r.sees hr start hclock).told
  have hsorted : (callsOf r.recording (history cfg start calls).log).Pairwise
      fun e e' => e.call.now ≤ e'.call.now := log_sorted hclock r.recording
  have hfew : FewBefore r.windowMs r.max.toNat (fun e : Recorded => e.call.now)
      (fun e => e.trip.isNone) (callsOf r.recording (history cfg start calls).log) := by
    intro before e after hlog hpassed
    have hnone : ¬ e.trip ≠ none := fun h => h (Option.isNone_iff_eq_none.1 hpassed)
    rw [htold before e after hlog] at hnone
    show (callsBefore r.windowMs before e).length < r.max.toNat
    omega
  exact ⟨fun start => length_window_le hsorted hfew (within_Ico r.windowMs start),
    fun start => length_window_le hsorted hfew (within_Ioc r.windowMs start),
    fun before e after hlog htrip => (htold before e after hlog).1 htrip⟩

/-- Both rate guards, in every run of a tracker. -/
theorem rate_guards_bound (cfg : GuardConfig) (start : Int) (calls : List GuardCall)
    (hclock : ClockNeverBack start calls) :
    RateBounded 60000 (maxDecisions cfg) (callsOf .decision (history cfg start calls).log) ∧
      RateBounded (errorWindowMs cfg) (maxErrors cfg)
        (callsOf .error (history cfg start calls).log) :=
  ⟨RateGuard.bounds (decisionGuard_runs cfg) hclock,
    RateGuard.bounds (errorGuard_runs cfg) hclock⟩

/-- One decision a minute, and one error in ten milliseconds. -/
def oneEach : GuardConfig :=
  { maxDecisionsPerMin := some 1, errorThreshold := some { errors := 1, windowMs := 10 } }

def eachTwice : List GuardCall :=
  [⟨5, .decision⟩, ⟨6, .error⟩, ⟨60004, .decision⟩, ⟨60005, .error⟩, ⟨60014, .error⟩]

theorem rate_guards_bound_twice :
    RateBounded 60000 1 (callsOf .decision (history oneEach 0 eachTwice).log) ∧
      RateBounded 10 1 (callsOf .error (history oneEach 0 eachTwice).log) :=
  rate_guards_bound oneEach 0 eachTwice (by decide)

/-- No call at all is more than a maximum below zero. -/
theorem passed_exceed_negative :
    ¬ ∀ (cfg : GuardConfig) (start : Int) (calls : List GuardCall) (left : Int),
        ClockNeverBack start calls →
          (passedIn (callsOf .decision (history cfg start calls).log)
            (fun t => left ≤ t ∧ t < left + 60000) : Int) ≤ maxDecisions cfg := by
  intro h
  have hempty := h { maxDecisionsPerMin := some (-1) } 0 [] 0 (by decide)
  revert hempty
  decide

end Ap3xSolana.Strategies.Guards
