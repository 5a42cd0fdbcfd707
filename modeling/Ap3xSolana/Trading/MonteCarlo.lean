import Ap3xSolana.Lib.OrderedMap
import Ap3xSolana.Lib.Throwing
import Ap3xSolana.Trading.PortfolioReplay
import Mathlib.Algebra.BigOperators.Fin
import Mathlib.Algebra.Order.Floor.Ring
import Mathlib.Data.Int.ModEq
import Mathlib.Logic.Function.Iterate
import Mathlib.Tactic.NormNum

/-!
# Monte Carlo simulation

`runMonteCarlo` samples single trades and `runHistoricalMonteCarlo` whole days, both with the same
linear congruential generator.  It divides by `0xFFFFFFFF`, so that one state in `2 ^ 32` returns
one, and an index sampled with it lies behind the array.
-/

namespace Ap3xSolana.Trading.Backtester

open Ap3xSolana.Lib

/-! ## The generator -/

/-- `x | 0`. -/
def toInt32 (x : ℤ) : ℤ := x.bmod (2 ^ 32)

/-- `x >>> 0`. -/
def toUint32 (x : ℤ) : ℤ := x % 2 ^ 32

def nextState (rngState : ℤ) : ℤ := toInt32 (rngState * 1664525 + 1013904223)

def rngValue (rngState : ℤ) : ℚ := toUint32 rngState / 0xFFFFFFFF

/-- The values that `rng` returns, one call after the other. -/
def draws (seed : ℤ) (k : ℕ) : ℚ := rngValue (nextState^[k + 1] seed)

/-! ## Access by index -/

/-- An access to an element that an array does not have, after `drawn` calls of `rng`. -/
structure OutOfBounds where
  length : ℕ
  index : ℤ
  drawn : ℕ
  deriving DecidableEq, Repr

/-- `xs[index]!`.  Where the source goes on with `undefined`, the simulation stops. -/
def element {α : Type} (xs : List α) (index : ℤ) (drawn : ℕ) : Except OutOfBounds α :=
  match if 0 ≤ index then xs[index.toNat]? else none with
  | some x => .ok x
  | none => .error ⟨xs.length, index, drawn⟩

/-- `Math.floor(v * n)`. -/
def sampleIndex (v : ℚ) (n : ℕ) : ℤ := ⌊v * n⌋

/-! ## One run -/

structure MonteCarloConfig where
  runs : ℚ
  days : ℚ
  startCapital : ℚ
  tradeSize : ℚ
  maxConcurrent : ℕ
  seed : ℤ
  deriving DecidableEq, Repr

/-- A number of the source that may be no number. -/
abbrev Number := Option ℚ

structure Stake where
  amount : ℚ
  roi : ℚ
  deriving DecidableEq, Repr

inductive EventKind where
  | staked
  | paid
  deriving DecidableEq, Repr

/-- What a run does to the stake in a slot, and the bankroll after it. -/
structure Event (slots : ℕ) where
  kind : EventKind
  slot : Fin slots
  stake : Stake
  bankroll : ℚ
  deriving DecidableEq, Repr

/-- The variables of a run, with how often `rng` was called.  `events` is what happened so far;
the run does not read it. -/
structure RunState (slots : ℕ) where
  drawn : ℕ
  bankroll : ℚ
  busyUntil : Fin slots → ℚ
  pendingAmount : Fin slots → ℚ
  pendingRoi : Fin slots → ℚ
  peakEquity : ℚ
  maxDrawdown : Number
  taken : ℕ
  skipped : ℕ
  events : List (Event slots)

structure OneRun where
  final : ℚ
  taken : ℕ
  skipped : ℕ
  maxDrawdown : Number
  deriving DecidableEq, Repr

namespace RunState

variable {slots : ℕ}

def start (startCapital : ℚ) (slots drawn : ℕ) : RunState slots where
  drawn := drawn
  bankroll := startCapital
  busyUntil := fun _ => 0
  pendingAmount := fun _ => 0
  pendingRoi := fun _ => 1
  peakEquity := startCapital
  maxDrawdown := some 0
  taken := 0
  skipped := 0
  events := []

def equity (s : RunState slots) : ℚ := s.bankroll + ∑ i, s.pendingAmount i

/-- The drawdown is no number once the peak was zero. -/
def mark (s : RunState slots) : RunState slots :=
  let peakEquity := max s.peakEquity s.equity
  { s with
    peakEquity
    maxDrawdown :=
      if peakEquity = 0 then none
      else s.maxDrawdown.map fun d => max d ((peakEquity - s.equity) / peakEquity) }

def stake (s : RunState slots) (i : Fin slots) : Stake := ⟨s.pendingAmount i, s.pendingRoi i⟩

/-- The bankroll with what slot `i` pays. -/
def proceeds (s : RunState slots) (i : Fin slots) : ℚ :=
  s.bankroll + s.pendingAmount i * s.pendingRoi i

/-- The body of the loop that closes completed positions. -/
def close (t : ℚ) (s : RunState slots) (i : Fin slots) : RunState slots :=
  if 0 < s.busyUntil i ∧ s.busyUntil i ≤ t then
    mark
      { s with
        bankroll := s.proceeds i
        busyUntil := Function.update s.busyUntil i 0
        pendingAmount := Function.update s.pendingAmount i 0
        pendingRoi := Function.update s.pendingRoi i 1
        events := s.events ++ [⟨.paid, i, s.stake i, s.proceeds i⟩] }
  else s

def closeCompleted (t : ℚ) (s : RunState slots) : RunState slots :=
  (List.finRange slots).foldl (close t) s

/-- `busyUntil.findIndex(b => b === 0)`. -/
def freeSlot (s : RunState slots) : Option (Fin slots) :=
  Fin.find? fun i => decide (s.busyUntil i = 0)

def skip (s : RunState slots) : RunState slots := { s with skipped := s.skipped + 1 }

def take (tradeSize t : ℚ) (idx : Fin slots) (hold roi : ℚ) (s : RunState slots) :
    RunState slots :=
  mark
    { s with
      drawn := s.drawn + 1
      bankroll := s.bankroll - tradeSize
      busyUntil := Function.update s.busyUntil idx (t + hold)
      pendingAmount := Function.update s.pendingAmount idx tradeSize
      pendingRoi := Function.update s.pendingRoi idx roi
      taken := s.taken + 1
      events := s.events ++ [⟨.staked, idx, ⟨tradeSize, roi⟩, s.bankroll - tradeSize⟩] }

/-- The loop that closes what remains. -/
def closeRemaining (s : RunState slots) (i : Fin slots) : RunState slots :=
  if 0 < s.busyUntil i then
    mark
      { s with
        bankroll := s.proceeds i
        pendingAmount := Function.update s.pendingAmount i 0
        events := s.events ++ [⟨.paid, i, s.stake i, s.proceeds i⟩] }
  else s

def finish (s : RunState slots) : RunState slots := (List.finRange slots).foldl closeRemaining s

def result (s : RunState slots) : OneRun := ⟨s.bankroll, s.taken, s.skipped, s.maxDrawdown⟩

end RunState

/-- `Math.round(alertsPerDay * config.days)`, as the bound of a loop. -/
def nAlerts (alertsPerDay : ℚ) (config : MonteCarloConfig) : ℕ :=
  ⌊alertsPerDay * config.days + 1 / 2⌋.toNat

section Run

variable (rng : ℕ → ℚ) (roiPool holdHoursPool : List ℚ) (alertsPerDay : ℚ)
  (config : MonteCarloConfig)

/-- The times of the alerts, sorted; `rng` was called `drawn` times before. -/
def alertTimes (drawn : ℕ) : List ℚ :=
  ((List.range (nAlerts alertsPerDay config)).map fun i =>
    rng (drawn + i) * config.days * 24).mergeSort fun a b => decide (a ≤ b)

/-- The body of the loop over the alerts. -/
def visitAlert (s : RunState config.maxConcurrent) (t : ℚ) :
    Except OutOfBounds (RunState config.maxConcurrent) :=
  let s := s.closeCompleted t
  match s.freeSlot with
  | none => .ok s.skip
  | some idx =>
      if s.bankroll < config.tradeSize then .ok s.skip
      else do
        let tradeIdx := sampleIndex (rng s.drawn) roiPool.length
        let hold ← element holdHoursPool tradeIdx (s.drawn + 1)
        let roi ← element roiPool tradeIdx (s.drawn + 1)
        pure (s.take config.tradeSize t idx hold roi)

/-- The variables at the end of a run. -/
def simulated (drawn : ℕ) : Except OutOfBounds (RunState config.maxConcurrent) := do
  let s ← (alertTimes rng alertsPerDay config drawn).foldlM
    (visitAlert rng roiPool holdHoursPool config)
    (.start config.startCapital config.maxConcurrent (drawn + nAlerts alertsPerDay config))
  pure s.finish

/-- The result of a run, and how often `rng` was called. -/
def simulateOneRun (drawn : ℕ) : Except OutOfBounds (OneRun × ℕ) := do
  let s ← simulated rng roiPool holdHoursPool alertsPerDay config drawn
  pure (s.result, s.drawn)

end Run

/-! ## The simulations -/

structure MonteCarloResult where
  medianFinal : ℚ
  medianReturn : Number
  p10 : ℚ
  p25 : ℚ
  p75 : ℚ
  p90 : ℚ
  bustRate : ℚ
  avgTradesTaken : ℚ
  avgTradesSkipped : Option ℚ
  medianMaxDrawdown : Option Number
  p90MaxDrawdown : Option Number
  deriving DecidableEq, Repr

/-- The variables of a simulation. -/
structure Tally where
  finals : List ℚ
  drawdowns : List Number
  totalTrades : ℕ
  totalSkipped : ℕ
  drawn : ℕ
  deriving DecidableEq, Repr

namespace Tally

def start : Tally := ⟨[], [], 0, 0, 0⟩

def push (tally : Tally) (run : OneRun) (drawn : ℕ) : Tally where
  finals := tally.finals ++ [run.final]
  drawdowns := tally.drawdowns ++ [run.maxDrawdown]
  totalTrades := tally.totalTrades + run.taken
  totalSkipped := tally.totalSkipped + run.skipped
  drawn := drawn

end Tally

/-- `a - b <= 0` or no number, as a sort takes it. -/
def ascending : Number → Number → Bool
  | some a, some b => decide (a ≤ b)
  | _, _ => true

/-- `xs[Math.floor(pct / 100 * (xs.length - 1))]!`. -/
def percentile {α : Type} (xs : List α) (drawn : ℕ) (pct : ℚ) : Except OutOfBounds α :=
  element xs ⌊pct / 100 * (xs.length - 1)⌋ drawn

/-- What both simulations make of their runs. -/
def summarize (config : MonteCarloConfig) (tally : Tally) :
    Except OutOfBounds MonteCarloResult := do
  let finals := tally.finals.mergeSort fun a b => decide (a ≤ b)
  let p := percentile finals tally.drawn
  let dd := percentile (tally.drawdowns.mergeSort ascending) tally.drawn
  let median ← p 50
  let bust := (finals.filter fun v => decide (v < config.startCapital * (33 / 100))).length
  pure
    { medianFinal := median
      medianReturn :=
        if config.startCapital = 0 then none else some ((median / config.startCapital - 1) * 100)
      p10 := ← p 10
      p25 := ← p 25
      p75 := ← p 75
      p90 := ← p 90
      bustRate := bust / config.runs * 100
      avgTradesTaken := tally.totalTrades / config.runs
      avgTradesSkipped := some (tally.totalSkipped / config.runs)
      medianMaxDrawdown := some (← dd 50)
      p90MaxDrawdown := some (← dd 90) }

def noTrades (config : MonteCarloConfig) : MonteCarloResult where
  medianFinal := config.startCapital
  medianReturn := some 0
  p10 := config.startCapital
  p25 := config.startCapital
  p75 := config.startCapital
  p90 := config.startCapital
  bustRate := 0
  avgTradesTaken := 0
  avgTradesSkipped := none
  medianMaxDrawdown := none
  p90MaxDrawdown := none

/-- The loop of both simulations over the runs. -/
def tallyRuns (config : MonteCarloConfig) (run : ℕ → Except OutOfBounds (OneRun × ℕ)) :
    Except OutOfBounds Tally :=
  (List.range ⌈config.runs⌉₊).foldlM (fun tally _ => do
    let (result, drawn) ← run tally.drawn
    pure (tally.push result drawn)) .start

def runMonteCarlo (roiPool holdHoursPool : List ℚ) (alertsPerDay : ℚ)
    (config : MonteCarloConfig) : Except OutOfBounds MonteCarloResult :=
  if roiPool.length = 0 then .ok (noTrades config)
  else do
    let tally ← tallyRuns config
      (simulateOneRun (draws config.seed) roiPool holdHoursPool alertsPerDay config)
    summarize config tally

def dayMs : ℚ := 86400000

structure DayBlock where
  dayStartMs : ℚ
  trades : List BacktestTrade
  deriving DecidableEq, Repr

def dayStart (trade : BacktestTrade) : ℚ := ⌊tradeEntryTime trade / dayMs⌋ * dayMs

def pushDay (byDay : OrderedMap ℚ (List BacktestTrade)) (trade : BacktestTrade) :
    OrderedMap ℚ (List BacktestTrade) :=
  byDay.set (dayStart trade) ((byDay.get? (dayStart trade)).getD [] ++ [trade])

def buildDailyBlocks (trades : List BacktestTrade) : List DayBlock :=
  ((trades.foldl pushDay .empty).entries.mergeSort fun a b => decide (a.1 ≤ b.1)).map fun day =>
    ⟨day.1, sortTrades day.2⟩

/-- A trade of a block, moved to the day that it is sampled for. -/
def moveTo (day : ℕ) (block : DayBlock) (trade : BacktestTrade) : BacktestTrade :=
  let entryTimeMs := day * dayMs + (tradeEntryTime trade - block.dayStartMs)
  let durationMs :=
    match trade.exitTimeMs with
    | some exitTimeMs => max 0 (exitTimeMs - tradeEntryTime trade)
    | none => trade.holdMinutes * 60000
  { trade with
    entryTimeMs := some entryTimeMs
    exitTimeMs := some (entryTimeMs + durationMs) }

/-- The loop over the days of a run. -/
def sampleDays (rng : ℕ → ℚ) (blocks : List DayBlock) (config : MonteCarloConfig) (drawn : ℕ) :
    Except OutOfBounds (List BacktestTrade × ℕ) :=
  (List.range ⌈config.days⌉₊).foldlM (fun (sampled, drawn) day => do
    let block ← element blocks (sampleIndex (rng drawn) blocks.length) (drawn + 1)
    pure (sampled ++ block.trades.map (moveTo day block), drawn + 1)) ([], drawn)

/-- One run over sampled days. -/
def replayOneRun (rng : ℕ → ℚ) (blocks : List DayBlock) (config : MonteCarloConfig)
    (drawn : ℕ) : Except OutOfBounds (OneRun × ℕ) := do
  let (sampled, drawn) ← sampleDays rng blocks config drawn
  let replay := replayPortfolio sampled
    { startCapital := config.startCapital
      tradeSize := config.tradeSize
      maxConcurrent := some config.maxConcurrent }
  pure (⟨replay.finalEquity, replay.tradesTaken, replay.tradesSkipped, some replay.maxDrawdown⟩,
    drawn)

def runHistoricalMonteCarlo (trades : List BacktestTrade) (config : MonteCarloConfig) :
    Except OutOfBounds MonteCarloResult :=
  let timedTrades := trades.filter fun t => t.entryTimeMs.isSome
  if timedTrades.length = 0 then
    runMonteCarlo (trades.map (·.roi)) (trades.map (·.holdMinutes / 60))
      (trades.length / max config.days 1) config
  else do
    let tally ← tallyRuns config
      (replayOneRun (draws config.seed) (buildDailyBlocks timedTrades) config)
    summarize config tally

/-! ## Where the generator returns one -/

theorem toUint32_toInt32 (x : ℤ) : toUint32 (toInt32 x) = toUint32 x := Int.bmod_emod

theorem toUint32_nonneg (x : ℤ) : 0 ≤ toUint32 x := Int.emod_nonneg x (by decide)

theorem toUint32_lt (x : ℤ) : toUint32 x < 2 ^ 32 := Int.emod_lt_of_pos x (by decide)

/-- The inverse of `nextState`, on what `toUint32` gives. -/
def previousState (u : ℤ) : ℤ := toUint32 ((u - 1013904223) * 4276115653)

theorem toUint32_nextState_iff {x u : ℤ} (h0 : 0 ≤ u) (h1 : u < 2 ^ 32) :
    toUint32 (nextState x) = u ↔ toUint32 x = previousState u := by
  rw [nextState, toUint32_toInt32, previousState]
  unfold toUint32
  omega

/-- The one seed, of those modulo `2 ^ 32`, for which call `k` returns one. -/
def unluckySeed : ℕ → ℤ
  | 0 => previousState 0xFFFFFFFF
  | k + 1 => previousState (unluckySeed k)

theorem unluckySeed_nonneg (k : ℕ) : 0 ≤ unluckySeed k := by
  cases k <;> exact toUint32_nonneg _

theorem unluckySeed_lt (k : ℕ) : unluckySeed k < 2 ^ 32 := by
  cases k <;> exact toUint32_lt _

theorem iterate_nextState_iff (seed : ℤ) (k : ℕ) :
    toUint32 (nextState^[k + 1] seed) = 0xFFFFFFFF ↔ toUint32 seed = unluckySeed k := by
  induction k generalizing seed with
  | zero => exact toUint32_nextState_iff (by decide) (by decide)
  | succ k ih =>
      rw [Function.iterate_succ_apply, ih]
      exact toUint32_nextState_iff (unluckySeed_nonneg k) (unluckySeed_lt k)

theorem rngValue_nonneg (rngState : ℤ) : 0 ≤ rngValue rngState := by
  have h : (0 : ℚ) ≤ toUint32 rngState := by exact_mod_cast toUint32_nonneg rngState
  unfold rngValue
  positivity

theorem rngValue_lt_one_iff (rngState : ℤ) :
    rngValue rngState < 1 ↔ toUint32 rngState ≠ 0xFFFFFFFF := by
  have hlt := toUint32_lt rngState
  rw [rngValue, div_lt_one (by norm_num)]
  have hcast : (toUint32 rngState : ℚ) < 0xFFFFFFFF ↔ toUint32 rngState < 0xFFFFFFFF := by
    exact_mod_cast Iff.rfl
  rw [hcast]
  omega

theorem draws_nonneg (seed : ℤ) (k : ℕ) : 0 ≤ draws seed k := rngValue_nonneg _

theorem draws_lt_one_iff (seed : ℤ) (k : ℕ) :
    draws seed k < 1 ↔ toUint32 seed ≠ unluckySeed k := by
  rw [draws, rngValue_lt_one_iff, ne_eq, iterate_nextState_iff]

/-! ## Where the arrays are accessed -/

/-- A value that is sampled with. -/
def InUnit (v : ℚ) : Prop := 0 ≤ v ∧ v < 1

theorem sampleIndex_bounds {v : ℚ} (hv : InUnit v) {n : ℕ} (hn : 0 < n) :
    0 ≤ sampleIndex v n ∧ sampleIndex v n < n := by
  have hpos : (0 : ℚ) < n := by exact_mod_cast hn
  constructor
  · exact Int.floor_nonneg.2 (mul_nonneg hv.1 hpos.le)
  · refine Int.floor_lt.2 ?_
    have hlt := mul_lt_mul_of_pos_right hv.2 hpos
    rwa [one_mul] at hlt

theorem element_ok {α : Type} {xs : List α} {index : ℤ} (h0 : 0 ≤ index) (h1 : index < xs.length)
    (drawn : ℕ) : ∃ x ∈ xs, element xs index drawn = .ok x := by
  have hlt : index.toNat < xs.length := by omega
  refine ⟨xs[index.toNat], List.getElem_mem hlt, ?_⟩
  rw [element, if_pos h0, List.getElem?_eq_getElem hlt]

/-- What is missing is accessed after more than `k` calls of `rng` only. -/
abbrev Within (k : ℕ) {α : Type} (Q : α → Prop) (x : Except OutOfBounds α) : Prop :=
  Throwing.Ensures (fun e => k < e.drawn) Q x

section Within

variable {rng : ℕ → ℚ} {k : ℕ}

theorem within_element {α : Type} {xs : List α} {n : ℕ} (hrng : ∀ i < k, InUnit (rng i))
    (hn : 0 < n) (hlen : n ≤ xs.length) (drawn : ℕ) :
    Within k (· ∈ xs) (element xs (sampleIndex (rng drawn) n) (drawn + 1)) := by
  by_cases hlt : drawn < k
  · obtain ⟨h0, h1⟩ := sampleIndex_bounds (hrng drawn hlt) hn
    have hindex : sampleIndex (rng drawn) n < xs.length := by omega
    obtain ⟨x, hx, hok⟩ := element_ok h0 hindex (drawn + 1)
    rw [hok]
    exact hx
  · unfold element
    split
    · rename_i x hx
      split at hx
      · exact List.mem_of_getElem? hx
      · cases hx
    · exact Nat.lt_succ_of_le (Nat.le_of_not_lt hlt)

variable {roiPool holdHoursPool : List ℚ} {config : MonteCarloConfig}

theorem within_visitAlert (hrng : ∀ i < k, InUnit (rng i)) (hn : 0 < roiPool.length)
    (hlen : roiPool.length ≤ holdHoursPool.length) (s : RunState config.maxConcurrent) (t : ℚ) :
    Within k (fun _ => True) (visitAlert rng roiPool holdHoursPool config s t) := by
  unfold visitAlert
  dsimp only
  split
  · exact trivial
  · split
    · exact trivial
    · refine (within_element hrng hn hlen _).bind fun hold _ => ?_
      exact (within_element hrng hn le_rfl _).bind fun roi _ => trivial

theorem within_simulateOneRun (hrng : ∀ i < k, InUnit (rng i)) (hn : 0 < roiPool.length)
    (hlen : roiPool.length ≤ holdHoursPool.length) (alertsPerDay : ℚ) (drawn : ℕ) :
    Within k (fun _ => True)
      (simulateOneRun rng roiPool holdHoursPool alertsPerDay config drawn) := by
  have hvisits : Within k (fun _ => True)
      ((alertTimes rng alertsPerDay config drawn).foldlM
        (visitAlert rng roiPool holdHoursPool config)
        (.start config.startCapital config.maxConcurrent (drawn + nAlerts alertsPerDay config))) :=
    Throwing.Ensures.foldlM _ (fun s t _ _ => within_visitAlert hrng hn hlen s t) trivial
  exact (hvisits.bind fun s _ => trivial : Within k (fun _ => True) (simulated ..)).bind
    fun s _ => trivial

theorem within_replayOneRun (hrng : ∀ i < k, InUnit (rng i)) {blocks : List DayBlock}
    (hn : 0 < blocks.length) (drawn : ℕ) :
    Within k (fun _ => True) (replayOneRun rng blocks config drawn) := by
  have hdays : Within k (fun _ => True) (sampleDays rng blocks config drawn) := by
    refine Throwing.Ensures.foldlM _ (fun s day _ _ => ?_) trivial
    refine (within_element hrng hn le_rfl s.2).bind fun block _ => ?_
    trivial
  exact hdays.bind fun s _ => trivial

theorem push_lengths {tally : Tally} (h : tally.drawdowns.length = tally.finals.length)
    (run : OneRun) (drawn : ℕ) :
    (tally.push run drawn).drawdowns.length = (tally.push run drawn).finals.length := by
  simp [Tally.push, h]

/-- As many runs as there are results of them. -/
theorem within_tallyRuns {run : ℕ → Except OutOfBounds (OneRun × ℕ)}
    (hrun : ∀ drawn, Within k (fun _ => True) (run drawn)) (hruns : 1 ≤ config.runs) :
    Within k (fun tally => 0 < tally.finals.length ∧ tally.drawdowns.length = tally.finals.length)
      (tallyRuns config run) := by
  obtain ⟨n, hn⟩ : ∃ n, ⌈config.runs⌉₊ = n + 1 :=
    Nat.exists_eq_succ_of_ne_zero (Nat.pos_iff_ne_zero.1 (Nat.ceil_pos.2 (by linarith)))
  rw [tallyRuns, hn, List.range_succ, List.foldlM_append]
  refine Throwing.Ensures.bind (Q := fun tally => tally.drawdowns.length = tally.finals.length)
    ?_ fun tally htally => ?_
  · refine Throwing.Ensures.foldlM _ (fun tally _ _ htally => ?_) rfl
    refine (hrun tally.drawn).bind fun r _ => ?_
    exact push_lengths htally r.1 r.2
  · simp only [List.foldlM_cons, List.foldlM_nil, bind_pure]
    refine (hrun tally.drawn).bind fun r _ => ?_
    refine ⟨?_, push_lengths htally r.1 r.2⟩
    show 0 < (tally.finals ++ [r.1.final]).length
    simp

theorem percentile_ok {α : Type} {xs : List α} (h : 0 < xs.length) {pct : ℚ} (h0 : 0 ≤ pct)
    (h1 : pct ≤ 100) (drawn : ℕ) : ∃ x, percentile xs drawn pct = .ok x := by
  have hlen : (1 : ℚ) ≤ xs.length := by exact_mod_cast h
  have hle : pct / 100 * (xs.length - 1) ≤ xs.length - 1 := by
    have := mul_le_mul_of_nonneg_right ((div_le_one (by norm_num : (0 : ℚ) < 100)).2 h1)
      (sub_nonneg.2 hlen)
    rwa [one_mul] at this
  have hnonneg : 0 ≤ pct / 100 * (xs.length - 1) :=
    mul_nonneg (div_nonneg h0 (by norm_num)) (sub_nonneg.2 hlen)
  have hlt : pct / 100 * (xs.length - 1) < (xs.length : ℤ) := by
    push_cast
    linarith
  obtain ⟨x, -, hx⟩ := element_ok (Int.floor_nonneg.2 hnonneg) (Int.floor_lt.2 hlt) drawn
  exact ⟨x, hx⟩

variable (config) in
theorem summarize_ok {tally : Tally} (h : 0 < tally.finals.length)
    (hlen : tally.drawdowns.length = tally.finals.length) :
    ∃ result, summarize config tally = .ok result := by
  have hfinals : 0 < (tally.finals.mergeSort fun a b => decide (a ≤ b)).length := by
    rwa [List.length_mergeSort]
  have hdrawdowns : 0 < (tally.drawdowns.mergeSort ascending).length := by
    rwa [List.length_mergeSort, hlen]
  have hp (pct : ℚ) (h0 : 0 ≤ pct) (h1 : pct ≤ 100) :=
    percentile_ok hfinals h0 h1 tally.drawn
  have hdd (pct : ℚ) (h0 : 0 ≤ pct) (h1 : pct ≤ 100) :=
    percentile_ok hdrawdowns h0 h1 tally.drawn
  obtain ⟨median, hmedian⟩ := hp 50 (by norm_num) (by norm_num)
  obtain ⟨p10, hp10⟩ := hp 10 (by norm_num) (by norm_num)
  obtain ⟨p25, hp25⟩ := hp 25 (by norm_num) (by norm_num)
  obtain ⟨p75, hp75⟩ := hp 75 (by norm_num) (by norm_num)
  obtain ⟨p90, hp90⟩ := hp 90 (by norm_num) (by norm_num)
  obtain ⟨dd50, hdd50⟩ := hdd 50 (by norm_num) (by norm_num)
  obtain ⟨dd90, hdd90⟩ := hdd 90 (by norm_num) (by norm_num)
  unfold summarize
  dsimp only
  rw [hmedian, hp10, hp25, hp75, hp90, hdd50, hdd90]
  exact ⟨_, rfl⟩

end Within

theorem keys_pushDay_ne_nil (byDay : OrderedMap ℚ (List BacktestTrade)) (trade : BacktestTrade) :
    (pushDay byDay trade).keys ≠ [] := by
  rw [pushDay, OrderedMap.keys_set]
  split
  · rename_i hmem
    exact List.ne_nil_of_mem hmem
  · simp

/-- A trade is in some block. -/
theorem buildDailyBlocks_pos {trades : List BacktestTrade} (h : 0 < trades.length) :
    0 < (buildDailyBlocks trades).length := by
  obtain ⟨init, last, rfl⟩ := (List.eq_nil_or_concat' trades).resolve_left (List.length_pos_iff.1 h)
  rw [buildDailyBlocks, List.length_map, List.length_mergeSort, List.foldl_append]
  have hkeys := List.length_pos_iff.2 (keys_pushDay_ne_nil (init.foldl pushDay .empty) last)
  rwa [OrderedMap.keys, List.length_map] at hkeys

/-- What the sampling of `k` numbers from a seed has to satisfy. -/
structure SamplesInBounds (seed : ℤ) (k : ℕ) : Prop where
  value : ∀ i < k, 0 ≤ draws seed i ∧ draws seed i < 1
  index : ∀ i < k, ∀ n : ℕ, 1 ≤ n →
    0 ≤ sampleIndex (draws seed i) n ∧ sampleIndex (draws seed i) n < n
  runMonteCarlo : ∀ roiPool holdHoursPool alertsPerDay config, config.seed = seed →
    1 ≤ config.runs → 1 ≤ roiPool.length → holdHoursPool.length = roiPool.length →
      Within k (fun _ => True) (runMonteCarlo roiPool holdHoursPool alertsPerDay config)
  runHistoricalMonteCarlo : ∀ trades config, config.seed = seed → 1 ≤ config.runs →
    Within k (fun _ => True) (runHistoricalMonteCarlo trades config)

section Simulations

variable {k : ℕ} {config : MonteCarloConfig}

theorem within_simulation {run : ℕ → Except OutOfBounds (OneRun × ℕ)}
    (hrun : ∀ drawn, Within k (fun _ => True) (run drawn)) (hruns : 1 ≤ config.runs) :
    Within k (fun _ => True) (do
      let tally ← tallyRuns config run
      summarize config tally) := by
  refine (within_tallyRuns hrun hruns).bind fun tally htally => ?_
  obtain ⟨result, hresult⟩ := summarize_ok config htally.1 htally.2
  rw [hresult]
  trivial

theorem within_runMonteCarlo (hrng : ∀ i < k, InUnit (draws config.seed i))
    (hruns : 1 ≤ config.runs) {roiPool holdHoursPool : List ℚ}
    (hlen : holdHoursPool.length = roiPool.length) (alertsPerDay : ℚ) :
    Within k (fun _ => True) (runMonteCarlo roiPool holdHoursPool alertsPerDay config) := by
  unfold runMonteCarlo
  split
  · trivial
  · rename_i hne
    exact within_simulation (fun drawn => within_simulateOneRun hrng (Nat.pos_of_ne_zero hne)
      hlen.ge alertsPerDay drawn) hruns

theorem within_runHistoricalMonteCarlo (hrng : ∀ i < k, InUnit (draws config.seed i))
    (hruns : 1 ≤ config.runs) (trades : List BacktestTrade) :
    Within k (fun _ => True) (runHistoricalMonteCarlo trades config) := by
  unfold runHistoricalMonteCarlo
  dsimp only
  split
  · exact within_runMonteCarlo hrng hruns (by rw [List.length_map, List.length_map]) _
  · rename_i hne
    exact within_simulation (fun drawn => within_replayOneRun hrng
      (buildDailyBlocks_pos (Nat.pos_of_ne_zero hne)) drawn) hruns

end Simulations

/-- **Monte Carlo sampling stays in bounds** exactly for the seeds that no call turns into one. -/
theorem sampling_in_bounds_iff (seed : ℤ) (k : ℕ) :
    SamplesInBounds seed k ↔ ∀ i < k, toUint32 seed ≠ unluckySeed i := by
  constructor
  · intro h i hi
    exact (draws_lt_one_iff seed i).1 (h.value i hi).2
  · intro h
    have hunit : ∀ i < k, InUnit (draws seed i) := fun i hi =>
      ⟨draws_nonneg seed i, (draws_lt_one_iff seed i).2 (h i hi)⟩
    refine ⟨hunit, fun i hi n hn => sampleIndex_bounds (hunit i hi) hn, ?_, ?_⟩
    · rintro roiPool holdHoursPool alertsPerDay config rfl hruns - hlen
      exact within_runMonteCarlo hunit hruns hlen alertsPerDay
    · rintro trades config rfl hruns
      exact within_runHistoricalMonteCarlo hunit hruns trades

/-- With the seed 653637408 the first call returns one. -/
theorem first_call_returns_one :
    ¬ ∀ seed : ℤ, -2 ^ 31 ≤ seed → seed < 2 ^ 31 → ∀ k, SamplesInBounds seed k := by
  intro hall
  have hlt := ((hall 653637408 (by decide) (by decide) 1).value 0 (by decide)).2
  revert hlt
  decide +kernel

end Ap3xSolana.Trading.Backtester
