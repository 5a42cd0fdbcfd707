import Ap3xSolana.Trading.PortfolioReplay

/-!
# `walkForwardExit`

A walk through the prices after an entry leaves at the first point at which an exit rule holds.
Where more than one holds there, the time limit goes first, and not last as documented.
-/

namespace Ap3xSolana.Trading.Backtester

/-! ## The walk -/

structure PricePoint where
  ts : ℚ
  price : ℚ
  deriving DecidableEq, Repr

structure ExitRules where
  holdMinutes : ℚ
  hardStopPct : ℚ
  takeProfitMultiple : ℚ
  trailingStopPct : ℚ
  trailingActivationMultiple : ℚ
  deriving DecidableEq, Repr

inductive ExitReason where
  | time
  | hardStop
  | takeProfit
  | trailingStop
  | endOfData
  deriving DecidableEq, Repr

/-- The arguments of `walkForwardExit`. -/
structure WalkInput where
  points : List PricePoint
  entryIdx : ℕ
  entryPrice : ℚ
  rules : ExitRules
  entryTimeMs : ℚ
  exitSlippage : ℚ
  deriving DecidableEq, Repr

namespace WalkInput

def maxExitTime (w : WalkInput) : ℚ := w.entryTimeMs + w.rules.holdMinutes * 60000

def hardStop (w : WalkInput) : ℚ := w.entryPrice * (1 - w.rules.hardStopPct / 100)

def takeProfit (w : WalkInput) : ℚ := w.entryPrice * w.rules.takeProfitMultiple

def activation (w : WalkInput) : ℚ := w.entryPrice * w.rules.trailingActivationMultiple

def trailingStop (w : WalkInput) (peak : ℚ) : ℚ := peak * (1 - w.rules.trailingStopPct / 100)

/-- The loop over the points, from the one after which `peak` was the highest price. -/
def walk (w : WalkInput) : ℚ → List PricePoint → Option (PricePoint × ExitReason)
  | _, [] => none
  | peak, p :: ps =>
      if w.maxExitTime < p.ts then some (p, .time)
      else
        let peak := max peak p.price
        if p.price ≤ w.hardStop then some (p, .hardStop)
        else if w.takeProfit ≤ p.price then some (p, .takeProfit)
        else if w.activation ≤ peak ∧ p.price ≤ w.trailingStop peak then some (p, .trailingStop)
        else walk w peak ps

end WalkInput

namespace WalkInput

variable {w : WalkInput}

/-- The highest price from the entry to the point `i`. -/
def runningPeak (w : WalkInput) (i : ℕ) : Option ℚ :=
  (((w.points.take (i + 1)).drop w.entryIdx).map (·.price)).max?

/-- The rule behind a reason holds at the point `i`. -/
def Holds (w : WalkInput) (i : ℕ) : ExitReason → Prop
  | .time => ∃ p ∈ w.points[i]?, w.maxExitTime < p.ts
  | .hardStop => ∃ p ∈ w.points[i]?, p.price ≤ w.hardStop
  | .takeProfit => ∃ p ∈ w.points[i]?, w.takeProfit ≤ p.price
  | .trailingStop =>
      ∃ p ∈ w.points[i]?, ∃ peak ∈ w.runningPeak i,
        w.activation ≤ peak ∧ p.price ≤ w.trailingStop peak
  | .endOfData => False

end WalkInput

/-- `reason` is the first one of `order` with `P`. -/
def FirstIn (order : List ExitReason) (P : ExitReason → Prop) (reason : ExitReason) : Prop :=
  ∃ before after, order = before ++ reason :: after ∧ P reason ∧ ∀ r ∈ before, ¬ P r

theorem FirstIn.holds {order : List ExitReason} {P : ExitReason → Prop} {reason : ExitReason}
    (h : FirstIn order P reason) : P reason := by
  obtain ⟨_, _, _, hreason, _⟩ := h
  exact hreason

/-! ## What the walk finds -/

namespace WalkInput

variable {w : WalkInput}

end WalkInput

end Ap3xSolana.Trading.Backtester
