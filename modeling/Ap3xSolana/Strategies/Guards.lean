import Mathlib.Data.List.Induction

/-!
# Strategy guards

`GuardTracker` keeps the rolling windows and running totals that decide when an
instance must stop.  A recording returns the tracker after it and the trip it
causes, if any; the runtime acts on the trip.  A `GuardHistory` is a tracker and everything it
has been told, with what each call returned.  The clock is read once by the constructor and then
by every call, and never goes back.
-/

namespace Ap3xSolana.Strategies.Guards

structure ErrorThreshold where
  errors : Int
  windowMs : Int
  deriving DecidableEq, Repr

structure GuardConfig where
  maxDecisionsPerMin : Option Int := none
  maxOpenPositions : Option Int := none
  maxLossPerDayLamports : Option Int := none
  errorThreshold : Option ErrorThreshold := none
  drawdownThreshold : Option Int := none
  deriving DecidableEq, Repr

/-- `keyof GuardConfig`. -/
inductive Guard where
  | maxDecisionsPerMin
  | maxOpenPositions
  | maxLossPerDayLamports
  | errorThreshold
  | drawdownThreshold
  deriving DecidableEq, Repr

structure GuardTrip where
  guard : Guard
  value : Int
  deriving DecidableEq, Repr

/-- Midnight UTC of the day `ts` (milliseconds since the epoch) falls in. -/
def startOfDayUtc (ts : Int) : Int := ts - ts % 86400000

structure GuardTracker where
  cfg : GuardConfig
  decisionTimes : List Int := []
  errorTimes : List Int := []
  realizedToday : Int := 0
  dayStartTs : Int
  cumulative : Int := 0
  peak : Int := 0
  deriving DecidableEq, Repr

namespace GuardTracker

/-- The constructor reads the clock once, for the day. -/
def new (cfg : GuardConfig) (now : Int) : GuardTracker :=
  { cfg := cfg, dayStartTs := startOfDayUtc now }

/-- The times still inside the window, and the new one. -/
def slide (times : List Int) (windowMs now : Int) : List Int :=
  times.filter (fun t => now - t < windowMs) ++ [now]

def recordDecision (g : GuardTracker) (now : Int) : GuardTracker × Option GuardTrip :=
  let times := slide g.decisionTimes 60000 now
  let max := g.cfg.maxDecisionsPerMin.getD 60
  ({ g with decisionTimes := times },
    if (times.length : Int) > max then
      some { guard := .maxDecisionsPerMin, value := times.length }
    else none)

def recordError (g : GuardTracker) (now : Int) : GuardTracker × Option GuardTrip :=
  let windowMs := (g.cfg.errorThreshold.map (·.windowMs)).getD 60000
  let times := slide g.errorTimes windowMs now
  let max := (g.cfg.errorThreshold.map (·.errors)).getD 5
  ({ g with errorTimes := times },
    if (times.length : Int) > max then
      some { guard := .errorThreshold, value := times.length }
    else none)

/-- The daily loss of a tracker over its limit. -/
def lossTrip (g : GuardTracker) : Option GuardTrip :=
  match g.cfg.maxLossPerDayLamports with
  | some max =>
      if g.realizedToday < -max then
        some { guard := .maxLossPerDayLamports, value := g.realizedToday }
      else none
  | none => none

/-- How far the cumulative PnL is below its peak, when over the limit. -/
def drawdownTrip (g : GuardTracker) : Option GuardTrip :=
  let drawdown := g.peak - g.cumulative
  match g.cfg.drawdownThreshold with
  | some max =>
      if drawdown > max then some { guard := .drawdownThreshold, value := drawdown }
      else none
  | none => none

/-- `amount` is signed: a loss is negative. -/
def recordRealized (g : GuardTracker) (now amount : Int) :
    GuardTracker × Option GuardTrip :=
  let todayStart := startOfDayUtc now
  let g :=
    if todayStart ≠ g.dayStartTs then
      { g with dayStartTs := todayStart, realizedToday := 0 }
    else g
  let cumulative := g.cumulative + amount
  let g :=
    { g with
      realizedToday := g.realizedToday + amount
      cumulative := cumulative
      peak := if cumulative > g.peak then cumulative else g.peak }
  (g, g.lossTrip.or g.drawdownTrip)

def checkOpenPositions (g : GuardTracker) (openCount : Int) : Option GuardTrip :=
  match g.cfg.maxOpenPositions with
  | some max =>
      if openCount > max then some { guard := .maxOpenPositions, value := openCount }
      else none
  | none => none

end GuardTracker

inductive Recording where
  | decision
  | error
  | realized (amount : Int)
  | openPositions (openCount : Int)
  deriving DecidableEq, Repr

/-- A call, and what the clock reads. -/
structure GuardCall where
  now : Int
  recording : Recording
  deriving DecidableEq, Repr

structure Recorded where
  call : GuardCall
  trip : Option GuardTrip
  deriving DecidableEq, Repr

structure GuardHistory where
  tracker : GuardTracker
  log : List Recorded := []
  deriving DecidableEq, Repr

def GuardTracker.call (g : GuardTracker) (c : GuardCall) : GuardTracker × Option GuardTrip :=
  match c.recording with
  | .decision => g.recordDecision c.now
  | .error => g.recordError c.now
  | .realized amount => g.recordRealized c.now amount
  | .openPositions openCount => (g, g.checkOpenPositions openCount)

def GuardHistory.record (h : GuardHistory) (c : GuardCall) : GuardHistory :=
  let (tracker, trip) := h.tracker.call c
  { tracker := tracker, log := h.log ++ [{ call := c, trip := trip }] }

def history (cfg : GuardConfig) (start : Int) (calls : List GuardCall) : GuardHistory :=
  calls.foldl GuardHistory.record { tracker := .new cfg start }

/-- The clock at the construction and at the calls. -/
def ClockNeverBack (start : Int) (calls : List GuardCall) : Prop :=
  (start :: calls.map (·.now)).Pairwise (· ≤ ·)

instance (start : Int) (calls : List GuardCall) : Decidable (ClockNeverBack start calls) :=
  inferInstanceAs (Decidable ((start :: calls.map (·.now)).Pairwise (· ≤ ·)))

theorem history_concat (cfg : GuardConfig) (start : Int) (calls : List GuardCall)
    (c : GuardCall) :
    history cfg start (calls ++ [c]) = (history cfg start calls).record c := by
  unfold history
  rw [List.foldl_append]
  rfl

@[simp] theorem GuardHistory.record_tracker (h : GuardHistory) (c : GuardCall) :
    (h.record c).tracker = (h.tracker.call c).1 := rfl

@[simp] theorem GuardHistory.record_log (h : GuardHistory) (c : GuardCall) :
    (h.record c).log = h.log ++ [{ call := c, trip := (h.tracker.call c).2 }] := rfl

theorem ClockNeverBack.init {start : Int} {calls : List GuardCall} {c : GuardCall}
    (h : ClockNeverBack start (calls ++ [c])) : ClockNeverBack start calls := by
  unfold ClockNeverBack at h ⊢
  rw [List.map_append, ← List.cons_append] at h
  exact (List.pairwise_append.1 h).1

theorem ClockNeverBack.le_last {start : Int} {calls : List GuardCall} {c : GuardCall}
    (h : ClockNeverBack start (calls ++ [c])) :
    start ≤ c.now ∧ ∀ c' ∈ calls, c'.now ≤ c.now := by
  unfold ClockNeverBack at h
  rw [List.map_append, ← List.cons_append] at h
  have hall := (List.pairwise_append.1 h).2.2
  refine ⟨hall start List.mem_cons_self c.now (List.mem_singleton_self _), fun c' hc' => ?_⟩
  exact hall c'.now (List.mem_cons_of_mem _ (List.mem_map_of_mem hc')) c.now
    (List.mem_singleton_self _)

/-- The log lists the calls. -/
theorem history_calls (cfg : GuardConfig) (start : Int) (calls : List GuardCall) :
    (history cfg start calls).log.map (·.call) = calls := by
  induction calls using List.reverseRecOn with
  | nil => rfl
  | append_singleton calls c ih =>
      rw [history_concat, GuardHistory.record_log, List.map_append, ih]
      rfl

theorem call_cfg (g : GuardTracker) (c : GuardCall) : (g.call c).1.cfg = g.cfg := by
  unfold GuardTracker.call
  split
  · rfl
  · rfl
  · unfold GuardTracker.recordRealized
    dsimp only
    split <;> rfl
  · rfl

theorem history_cfg (cfg : GuardConfig) (start : Int) (calls : List GuardCall) :
    (history cfg start calls).tracker.cfg = cfg := by
  induction calls using List.reverseRecOn with
  | nil => rfl
  | append_singleton calls c ih =>
      rw [history_concat, GuardHistory.record_tracker, call_cfg, ih]

end Ap3xSolana.Strategies.Guards
