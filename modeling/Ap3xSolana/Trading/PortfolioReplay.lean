import Ap3xSolana.Lib.Run
import Mathlib.Algebra.BigOperators.Group.List.Basic
import Mathlib.Algebra.Order.BigOperators.Group.List
import Mathlib.Algebra.Order.Field.Rat
import Mathlib.Data.List.Sort
import Mathlib.Data.Rat.Floor
import Mathlib.Tactic.Linarith
import Mathlib.Tactic.Ring

/-!
# `replayPortfolio`

Fixed-size accounting of completed trades.  Whatever the order of entries and exits, the cash
and the cost of the open positions are what was paid in and what was earned.
-/

namespace Ap3xSolana.Trading.Backtester

open Ap3xSolana.Lib

/-! ## Trades and positions -/

/-- The fields that a replay reads. -/
structure BacktestTrade where
  roi : ℚ
  holdMinutes : ℚ
  entryTimeMs : Option ℚ
  exitTimeMs : Option ℚ
  deriving DecidableEq, Repr

structure PortfolioReplayConfig where
  startCapital : ℚ
  tradeSize : ℚ
  maxConcurrent : Option ℚ
  deriving DecidableEq, Repr

structure OpenPosition where
  exitTimeMs : ℚ
  amount : ℚ
  roi : ℚ
  deriving DecidableEq, Repr

/-- No `returnPct` where the start capital is zero. -/
structure PortfolioReplayResult where
  finalEquity : ℚ
  returnPct : Option ℚ
  maxDrawdown : ℚ
  peakEquity : ℚ
  tradesTaken : ℕ
  tradesSkipped : ℕ
  deriving DecidableEq, Repr

def tradeEntryTime (trade : BacktestTrade) : ℚ := trade.entryTimeMs.getD 0

def tradeExitTime (trade : BacktestTrade) (entryTimeMs : ℚ) : ℚ :=
  trade.exitTimeMs.getD (entryTimeMs + trade.holdMinutes * 60000)

/-! ## The replay -/

/-- The variables of the replay. -/
structure ReplayState where
  cash : ℚ
  peakEquity : ℚ
  maxDrawdown : ℚ
  tradesTaken : ℕ
  tradesSkipped : ℕ
  openPositions : List OpenPosition
  deriving DecidableEq, Repr

namespace ReplayState

def start (config : PortfolioReplayConfig) : ReplayState where
  cash := config.startCapital
  peakEquity := config.startCapital
  maxDrawdown := 0
  tradesTaken := 0
  tradesSkipped := 0
  openPositions := []

def equity (s : ReplayState) : ℚ := s.cash + (s.openPositions.map (·.amount)).sum

def mark (s : ReplayState) : ReplayState :=
  let peakEquity := max s.peakEquity s.equity
  { s with
    peakEquity
    maxDrawdown :=
      if 0 < peakEquity then max s.maxDrawdown ((peakEquity - s.equity) / peakEquity)
      else s.maxDrawdown }

/-- `open.sort`, by exit time. -/
def sortOpen (s : ReplayState) : ReplayState :=
  { s with
    openPositions := s.openPositions.mergeSort fun a b => decide (a.exitTimeMs ≤ b.exitTimeMs) }

/-- The body of the loop: the first position is closed. -/
def close (position : OpenPosition) (rest : List OpenPosition) (s : ReplayState) : ReplayState :=
  mark { s with openPositions := rest, cash := s.cash + position.amount * position.roi }

/-- `position.exitTimeMs <= ts`; none for infinity. -/
def Due (ts : Option ℚ) (position : OpenPosition) : Prop := ∀ t ∈ ts, position.exitTimeMs ≤ t

instance (ts : Option ℚ) (position : OpenPosition) : Decidable (Due ts position) :=
  inferInstanceAs (Decidable (∀ t ∈ ts, position.exitTimeMs ≤ t))

/-- The loop over the open positions. -/
def closeWhile (ts : Option ℚ) : List OpenPosition → ReplayState → ReplayState
  | [], s => s
  | position :: rest, s =>
      if Due ts position then closeWhile ts rest (close position rest s) else s

def closeUntil (ts : Option ℚ) (s : ReplayState) : ReplayState :=
  closeWhile ts s.sortOpen.openPositions s.sortOpen

/-- `open.length >= maxConcurrent || cash < config.tradeSize`. -/
def Refuses (config : PortfolioReplayConfig) (s : ReplayState) : Prop :=
  (∃ m ∈ config.maxConcurrent, m ≤ s.openPositions.length) ∨ s.cash < config.tradeSize

instance (config : PortfolioReplayConfig) (s : ReplayState) : Decidable (Refuses config s) :=
  inferInstanceAs (Decidable ((∃ m ∈ config.maxConcurrent, m ≤ _) ∨ _))

def skip (s : ReplayState) : ReplayState := { s with tradesSkipped := s.tradesSkipped + 1 }

def position (config : PortfolioReplayConfig) (trade : BacktestTrade) : OpenPosition where
  exitTimeMs := tradeExitTime trade (tradeEntryTime trade)
  amount := config.tradeSize
  roi := trade.roi

def take (config : PortfolioReplayConfig) (trade : BacktestTrade) (s : ReplayState) : ReplayState :=
  mark
    { s with
      cash := s.cash - config.tradeSize
      openPositions := s.openPositions ++ [position config trade]
      tradesTaken := s.tradesTaken + 1 }

/-- The loop over the trades. -/
def visit (config : PortfolioReplayConfig) (s : ReplayState) (trade : BacktestTrade) :
    ReplayState :=
  let s := closeUntil (some (tradeEntryTime trade)) s
  if Refuses config s then skip s else take config trade s

def finish (s : ReplayState) : ReplayState := mark (closeUntil none s)

def result (config : PortfolioReplayConfig) (s : ReplayState) : PortfolioReplayResult where
  finalEquity := s.equity
  returnPct :=
    if config.startCapital = 0 then none else some ((s.equity / config.startCapital - 1) * 100)
  maxDrawdown := s.maxDrawdown
  peakEquity := s.peakEquity
  tradesTaken := s.tradesTaken
  tradesSkipped := s.tradesSkipped

end ReplayState

def sortTrades (trades : List BacktestTrade) : List BacktestTrade :=
  trades.mergeSort fun a b => decide (tradeEntryTime a ≤ tradeEntryTime b)

/-- The variables at the end. -/
def replayed (trades : List BacktestTrade) (config : PortfolioReplayConfig) : ReplayState :=
  ((sortTrades trades).foldl (ReplayState.visit config) (.start config)).finish

def replayPortfolio (trades : List BacktestTrade) (config : PortfolioReplayConfig) :
    PortfolioReplayResult :=
  (replayed trades config).result config

/-! ## The run of a replay -/

open ReplayState

/-- The steps of a replay. -/
inductive Action where
  | sort
  | close (position : OpenPosition)
  | skip (trade : BacktestTrade)
  | take (trade : BacktestTrade)
  | mark
  deriving DecidableEq, Repr

/-- Only the first position is closed, and only what is not refused is taken. -/
def step (config : PortfolioReplayConfig) (s : ReplayState) : Action → Option ReplayState
  | .sort => some s.sortOpen
  | .close position =>
      match s.openPositions with
      | [] => none
      | first :: rest => if first = position then some (s.close position rest) else none
  | .skip _ => if s.Refuses config then some s.skip else none
  | .take trade => if s.Refuses config then none else some (s.take config trade)
  | .mark => some s.mark

namespace Action

@[simp] def taken? : Action → Option BacktestTrade
  | .take trade => some trade
  | _ => none

@[simp] def skipped? : Action → Option BacktestTrade
  | .skip trade => some trade
  | _ => none

@[simp] def closed? : Action → Option OpenPosition
  | .close position => some position
  | _ => none

end Action

def taken (acts : List Action) : List BacktestTrade := acts.filterMap Action.taken?

def skipped (acts : List Action) : List BacktestTrade := acts.filterMap Action.skipped?

def closed (acts : List Action) : List OpenPosition := acts.filterMap Action.closed?

def closings (ts : Option ℚ) (positions : List OpenPosition) : List Action :=
  (positions.takeWhile fun position => decide (Due ts position)).map .close

def closeActions (ts : Option ℚ) (s : ReplayState) : List Action :=
  .sort :: closings ts s.sortOpen.openPositions

def visitAction (config : PortfolioReplayConfig) (s : ReplayState) (trade : BacktestTrade) :
    Action :=
  if Refuses config (s.closeUntil (some (tradeEntryTime trade))) then .skip trade
  else .take trade

/-- The steps for the trades, and the last closings. -/
def tradeActions (config : PortfolioReplayConfig) : List BacktestTrade → ReplayState → List Action
  | [], s => closeActions none s ++ [.mark]
  | trade :: trades, s =>
      closeActions (some (tradeEntryTime trade)) s ++
        visitAction config s trade :: tradeActions config trades (s.visit config trade)

def replayActions (trades : List BacktestTrade) (config : PortfolioReplayConfig) : List Action :=
  tradeActions config (sortTrades trades) (.start config)

section Runs

variable {config : PortfolioReplayConfig} {s : ReplayState}

theorem exec_closings (ts : Option ℚ) (positions : List OpenPosition)
    (h : s.openPositions = positions) :
    Run.exec (step config) s (closings ts positions) = some (closeWhile ts positions s) := by
  induction positions generalizing s with
  | nil => rfl
  | cons position rest ih =>
      unfold closings closeWhile
      by_cases hdue : Due ts position
      · rw [List.takeWhile_cons, if_pos (decide_eq_true hdue), List.map_cons, if_pos hdue]
        have hstep : step config s (.close position) = some (s.close position rest) := by
          unfold step
          rw [h]
          exact if_pos rfl
        rw [Run.exec_cons hstep]
        exact ih rfl
      · rw [List.takeWhile_cons, if_neg (by rwa [decide_eq_true_iff]), if_neg hdue]
        rfl

theorem exec_closeActions (ts : Option ℚ) (s : ReplayState) :
    Run.exec (step config) s (closeActions ts s) = some (s.closeUntil ts) :=
  exec_closings ts _ rfl

theorem step_visitAction (s : ReplayState) (trade : BacktestTrade) :
    step config (s.closeUntil (some (tradeEntryTime trade))) (visitAction config s trade) =
      some (s.visit config trade) := by
  unfold visitAction visit
  by_cases hrefuses : Refuses config (s.closeUntil (some (tradeEntryTime trade)))
  · rw [if_pos hrefuses, step, if_pos hrefuses]
    exact congrArg some (if_pos hrefuses).symm
  · rw [if_neg hrefuses, step, if_neg hrefuses]
    exact congrArg some (if_neg hrefuses).symm

theorem exec_tradeActions (trades : List BacktestTrade) (s : ReplayState) :
    Run.exec (step config) s (tradeActions config trades s) =
      some (trades.foldl (visit config) s).finish := by
  induction trades generalizing s with
  | nil =>
      rw [tradeActions, Run.exec_append (exec_closeActions none s)]
      rfl
  | cons trade trades ih =>
      rw [tradeActions, Run.exec_append (exec_closeActions _ s),
        Run.exec_cons (step_visitAction s trade), ih]
      rfl

end Runs

/-! ## What every step keeps -/

@[simp] theorem mark_cash (s : ReplayState) : s.mark.cash = s.cash := rfl

@[simp] theorem mark_openPositions (s : ReplayState) :
    s.mark.openPositions = s.openPositions := rfl

@[simp] theorem mark_tradesTaken (s : ReplayState) : s.mark.tradesTaken = s.tradesTaken := rfl

@[simp] theorem mark_tradesSkipped (s : ReplayState) :
    s.mark.tradesSkipped = s.tradesSkipped := rfl

theorem mark_equity (s : ReplayState) : s.mark.equity = s.equity := rfl

theorem mark_peakEquity (s : ReplayState) : s.mark.peakEquity = max s.peakEquity s.equity := rfl

theorem mark_maxDrawdown (s : ReplayState) : s.mark.maxDrawdown =
    if 0 < s.mark.peakEquity then
      max s.maxDrawdown ((s.mark.peakEquity - s.equity) / s.mark.peakEquity)
    else s.maxDrawdown := rfl

def proceeds (position : OpenPosition) : ℚ := position.amount * position.roi

/-- The cash, the counters and the open positions are what the steps so far make of them. -/
structure Books (config : PortfolioReplayConfig) (acts : List Action) (s : ReplayState) :
    Prop where
  cash : s.cash = config.startCapital + ((closed acts).map proceeds).sum -
    (taken acts).length * config.tradeSize
  positions : (closed acts ++ s.openPositions).Perm ((taken acts).map (position config))
  tradesTaken : s.tradesTaken = (taken acts).length
  tradesSkipped : s.tradesSkipped = (skipped acts).length

theorem Books.init (config : PortfolioReplayConfig) : Books config [] (.start config) where
  cash := by simp [start, closed, taken]
  positions := List.Perm.nil
  tradesTaken := rfl
  tradesSkipped := rfl

theorem filterMap_concat {α β : Type} (f : α → Option β) (xs : List α) (x : α) :
    (xs ++ [x]).filterMap f = xs.filterMap f ++ (f x).toList := by
  rw [List.filterMap_append]
  cases h : f x <;> simp [h]

@[simp] theorem taken_concat (acts : List Action) (a : Action) :
    taken (acts ++ [a]) = taken acts ++ a.taken?.toList := filterMap_concat _ acts a

@[simp] theorem skipped_concat (acts : List Action) (a : Action) :
    skipped (acts ++ [a]) = skipped acts ++ a.skipped?.toList := filterMap_concat _ acts a

@[simp] theorem closed_concat (acts : List Action) (a : Action) :
    closed (acts ++ [a]) = closed acts ++ a.closed?.toList := filterMap_concat _ acts a

section Steps

variable {config : PortfolioReplayConfig} {acts : List Action} {s s' : ReplayState}

/-- What a step does: only closing and taking change the cash, and only what they say. -/
theorem step_cases {a : Action} (h : step config s a = some s') :
    (∃ position rest, a = .close position ∧ s.openPositions = position :: rest ∧
      s' = s.close position rest) ∨
    (∃ trade, a = .take trade ∧ ¬ s.Refuses config ∧ s' = s.take config trade) ∨
    (∃ trade, a = .skip trade ∧ s' = s.skip) ∨ (a = .sort ∧ s' = s.sortOpen) ∨
    (a = .mark ∧ s' = s.mark) := by
  cases a with
  | sort => exact .inr (.inr (.inr (.inl ⟨rfl, (Option.some.inj h).symm⟩)))
  | mark => exact .inr (.inr (.inr (.inr ⟨rfl, (Option.some.inj h).symm⟩)))
  | skip trade =>
      rw [step] at h
      by_cases hrefuses : s.Refuses config
      · rw [if_pos hrefuses] at h
        exact .inr (.inr (.inl ⟨trade, rfl, (Option.some.inj h).symm⟩))
      · rw [if_neg hrefuses] at h
        cases h
  | take trade =>
      rw [step] at h
      by_cases hrefuses : s.Refuses config
      · rw [if_pos hrefuses] at h
        cases h
      · rw [if_neg hrefuses] at h
        exact .inr (.inl ⟨trade, rfl, hrefuses, (Option.some.inj h).symm⟩)
  | close position =>
      rw [step] at h
      cases hopen : s.openPositions with
      | nil =>
          rw [hopen] at h
          cases h
      | cons first rest =>
          rw [hopen] at h
          dsimp only at h
          by_cases heq : first = position
          · rw [if_pos heq] at h
            rw [heq]
            exact .inl ⟨position, rest, rfl, rfl, (Option.some.inj h).symm⟩
          · rw [if_neg heq] at h
            cases h

theorem Books.step {a : Action} (h : Books config acts s) (hstep : step config s a = some s') :
    Books config (acts ++ [a]) s' := by
  obtain ⟨hcash, hpositions, htaken, hskipped⟩ := h
  rcases step_cases hstep with ⟨position, rest, rfl, hopen, rfl⟩ | ⟨trade, rfl, -, rfl⟩ |
    ⟨trade, rfl, rfl⟩ | ⟨rfl, rfl⟩ | ⟨rfl, rfl⟩
  · constructor
    · show s.cash + proceeds position = _
      simp only [closed_concat, taken_concat, Action.closed?, Action.taken?, Option.toList_some,
        Option.toList_none, List.append_nil, List.map_append, List.map_singleton, List.sum_append,
        List.sum_singleton, hcash]
      ring
    · rw [hopen] at hpositions
      simpa [close] using hpositions
    · simpa [close] using htaken
    · simpa [close] using hskipped
  · constructor
    · show s.cash - config.tradeSize = _
      simp only [closed_concat, taken_concat, Action.closed?, Action.taken?, Option.toList_some,
        Option.toList_none, List.append_nil, List.length_append, List.length_singleton,
        Nat.cast_add, Nat.cast_one, hcash]
      ring
    · have hmore := hpositions.append_right [position config trade]
      simpa [take] using hmore
    · simpa [take] using htaken
    · simpa [take] using hskipped
  · constructor
    · simpa [skip] using hcash
    · simpa [skip] using hpositions
    · simpa [skip] using htaken
    · simpa [skip] using hskipped
  · constructor
    · simpa [sortOpen] using hcash
    · have hsorted := (List.mergeSort_perm s.openPositions fun a b =>
        decide (a.exitTimeMs ≤ b.exitTimeMs)).append_left (closed acts)
      simpa [sortOpen] using hsorted.trans hpositions
    · simpa [sortOpen] using htaken
    · simpa [sortOpen] using hskipped
  · constructor
    · simpa using hcash
    · simpa using hpositions
    · simpa using htaken
    · simpa using hskipped

theorem books_of_exec (h : Run.exec (step config) (.start config) acts = some s) :
    Books config acts s := by
  induction acts using List.reverseRecOn generalizing s with
  | nil =>
      cases h
      exact Books.init config
  | append_singleton acts a ih =>
      obtain ⟨u, hu, hstep⟩ := Run.exec_concat.1 h
      exact (ih hu).step hstep

/-- Nothing is owed, no more is open than may be, and the drawdown is a share. -/
structure Sound (config : PortfolioReplayConfig) (s : ReplayState) : Prop where
  cash : 0 ≤ s.cash
  amounts : ∀ position ∈ s.openPositions, position.amount = config.tradeSize ∧ 0 ≤ position.roi
  within : ∀ m ∈ config.maxConcurrent, s.openPositions.length ≤ ⌈m⌉₊
  drawdown : 0 ≤ s.maxDrawdown ∧ s.maxDrawdown ≤ 1

theorem Sound.init (hstart : 0 ≤ config.startCapital) : Sound config (.start config) where
  cash := hstart
  amounts := nofun
  within := fun _ _ => Nat.zero_le _
  drawdown := ⟨le_refl 0, zero_le_one⟩

theorem Sound.equity_nonneg (h : Sound config s) (hsize : 0 ≤ config.tradeSize) :
    0 ≤ s.equity := by
  have hopen : 0 ≤ (s.openPositions.map (·.amount)).sum := by
    apply List.sum_nonneg
    intro amount hamount
    obtain ⟨position, hposition, rfl⟩ := List.mem_map.1 hamount
    rw [(h.amounts position hposition).1]
    exact hsize
  exact add_nonneg h.cash hopen

/-- The equity is between zero and the peak, so that its fall is a share of the peak. -/
theorem Sound.mark (h : Sound config s) (hsize : 0 ≤ config.tradeSize) : Sound config s.mark where
  cash := h.cash
  amounts := h.amounts
  within := h.within
  drawdown := by
    have hequity := h.equity_nonneg hsize
    rw [mark_maxDrawdown]
    by_cases hpos : 0 < s.mark.peakEquity
    · have hpeak : s.equity ≤ s.mark.peakEquity := le_max_right _ _
      rw [if_pos hpos]
      refine ⟨le_max_of_le_left h.drawdown.1, max_le h.drawdown.2 ?_⟩
      rw [div_le_one hpos]
      exact sub_le_self _ hequity
    · rw [if_neg hpos]
      exact h.drawdown

theorem Sound.step {a : Action} (h : Sound config s) (hsize : 0 ≤ config.tradeSize)
    (hroi : ∀ trade ∈ a.taken?, 0 ≤ trade.roi) (hstep : step config s a = some s') :
    Sound config s' := by
  rcases step_cases hstep with ⟨position, rest, rfl, hopen, rfl⟩ | ⟨trade, rfl, hrefuses, rfl⟩ |
    ⟨trade, rfl, rfl⟩ | ⟨rfl, rfl⟩ | ⟨rfl, rfl⟩
  · have hamounts := h.amounts
    have hwithin := h.within
    rw [hopen] at hamounts hwithin
    obtain ⟨hfirst, hrest⟩ := List.forall_mem_cons.1 hamounts
    refine Sound.mark ⟨?_, hrest, fun m hm => ?_, h.drawdown⟩ hsize
    · refine add_nonneg h.cash (mul_nonneg ?_ hfirst.2)
      rw [hfirst.1]
      exact hsize
    · exact Nat.le_of_succ_le (hwithin m hm)
  · obtain ⟨hfull, hcash⟩ := not_or.1 hrefuses
    refine Sound.mark ⟨sub_nonneg.2 (not_lt.1 hcash), ?_, fun m hm => ?_, h.drawdown⟩ hsize
    · intro p hp
      rcases List.mem_append.1 hp with hp | hp
      · exact h.amounts p hp
      · rw [List.mem_singleton.1 hp]
        exact ⟨rfl, hroi trade rfl⟩
    · have hlt : (s.openPositions.length : ℚ) < m := not_le.1 fun hle => hfull ⟨m, hm, hle⟩
      show (s.openPositions ++ [position config trade]).length ≤ ⌈m⌉₊
      rw [List.length_append]
      exact Nat.lt_ceil.2 hlt
  · exact ⟨h.cash, h.amounts, h.within, h.drawdown⟩
  · refine ⟨h.cash, fun p hp => h.amounts p (List.mem_mergeSort.1 hp), fun m hm => ?_, h.drawdown⟩
    show (s.openPositions.mergeSort _).length ≤ ⌈m⌉₊
    rw [List.length_mergeSort]
    exact h.within m hm
  · exact h.mark hsize

theorem sound_of_exec (hstart : 0 ≤ config.startCapital) (hsize : 0 ≤ config.tradeSize)
    (hroi : ∀ trade ∈ taken acts, 0 ≤ trade.roi)
    (h : Run.exec (step config) (.start config) acts = some s) : Sound config s := by
  induction acts using List.reverseRecOn generalizing s with
  | nil =>
      cases h
      exact Sound.init hstart
  | append_singleton acts a ih =>
      obtain ⟨u, hu, hstep⟩ := Run.exec_concat.1 h
      rw [taken_concat, List.forall_mem_append] at hroi
      refine (ih hroi.1 hu).step hsize (fun trade htrade => ?_) hstep
      exact hroi.2 trade (Option.mem_toList.2 htrade)

end Steps

/-! ## The whole replay -/

theorem openPositions_closeWhile (positions : List OpenPosition) (s : ReplayState)
    (h : s.openPositions = positions) : (closeWhile none positions s).openPositions = [] := by
  induction positions generalizing s with
  | nil => exact h
  | cons position rest ih =>
      rw [closeWhile, if_pos (show Due none position from nofun)]
      exact ih _ rfl

/-- After the last closings nothing is open. -/
theorem openPositions_finish (s : ReplayState) : s.finish.openPositions = [] :=
  openPositions_closeWhile _ _ rfl

/-- The closings in front of a visit take and skip nothing. -/
theorem filterMap_visit {β : Type} (f : Action → Option β) (hsort : f .sort = none)
    (hclose : ∀ position, f (.close position) = none) (ts : Option ℚ) (s : ReplayState)
    (a : Action) (acts : List Action) :
    (closeActions ts s ++ a :: acts).filterMap f = (f a).toList ++ acts.filterMap f := by
  have hnone : (closeActions ts s).filterMap f = [] := by
    simp [closeActions, closings, hsort, hclose, List.filterMap_map]
  rw [← List.singleton_append, ← List.append_assoc, List.filterMap_append, filterMap_concat, hnone,
    List.nil_append]

theorem taken_visit (ts : Option ℚ) (s : ReplayState) (a : Action) (acts : List Action) :
    taken (closeActions ts s ++ a :: acts) = a.taken?.toList ++ taken acts :=
  filterMap_visit _ rfl (fun _ => rfl) ts s a acts

theorem skipped_visit (ts : Option ℚ) (s : ReplayState) (a : Action) (acts : List Action) :
    skipped (closeActions ts s ++ a :: acts) = a.skipped?.toList ++ skipped acts :=
  filterMap_visit _ rfl (fun _ => rfl) ts s a acts

/-- Each trade is taken or skipped, once. -/
theorem perm_tradeActions (config : PortfolioReplayConfig) (trades : List BacktestTrade)
    (s : ReplayState) : (taken (tradeActions config trades s) ++
      skipped (tradeActions config trades s)).Perm trades := by
  induction trades generalizing s with
  | nil =>
      rw [tradeActions, taken_visit, skipped_visit]
      exact List.Perm.nil
  | cons trade trades ih =>
      rw [tradeActions, taken_visit, skipped_visit, visitAction]
      split
      · exact List.perm_middle.trans ((ih _).cons trade)
      · exact (ih _).cons trade

theorem perm_replayActions (trades : List BacktestTrade) (config : PortfolioReplayConfig) :
    (taken (replayActions trades config) ++ skipped (replayActions trades config)).Perm trades :=
  (perm_tradeActions config _ _).trans (List.mergeSort_perm trades _)

/-- The replay is the run of its steps. -/
theorem exec_replayActions (trades : List BacktestTrade) (config : PortfolioReplayConfig) :
    Run.exec (step config) (.start config) (replayActions trades config) =
      some (replayed trades config) :=
  exec_tradeActions _ _

/-- The variables at some point of the replay. -/
def Passes (trades : List BacktestTrade) (config : PortfolioReplayConfig) (s : ReplayState) :
    Prop :=
  ∃ before, before <+: replayActions trades config ∧
    Run.exec (step config) (.start config) before = some s

/-- What becomes of the trades and the money. -/
structure ConservesMoney (trades : List BacktestTrade) (config : PortfolioReplayConfig)
    (acts : List Action) (result : PortfolioReplayResult) : Prop where
  sorted : (taken acts ++ skipped acts).Perm trades
  tradesTaken : result.tradesTaken = (taken acts).length
  tradesSkipped : result.tradesSkipped = (skipped acts).length
  counted : result.tradesTaken + result.tradesSkipped = trades.length
  closedOnce : (closed acts).Perm ((taken acts).map (position config))
  finalEquity : result.finalEquity = config.startCapital +
    ((taken acts).map fun trade => config.tradeSize * (trade.roi - 1)).sum
  peakEquity : result.finalEquity ≤ result.peakEquity
  maxDrawdown : 0 ≤ result.maxDrawdown ∧ result.maxDrawdown ≤ 1

/-- What the positions cost is paid at the entry, and what they are worth comes back. -/
theorem sum_proceeds (config : PortfolioReplayConfig) (trades : List BacktestTrade) :
    ((trades.map (position config)).map proceeds).sum - trades.length * config.tradeSize =
      (trades.map fun trade => config.tradeSize * (trade.roi - 1)).sum := by
  induction trades with
  | nil => simp
  | cons trade trades ih =>
      rw [List.map_cons, List.map_cons, List.sum_cons, List.map_cons, List.sum_cons, ← ih,
        List.length_cons]
      show config.tradeSize * trade.roi + _ - _ = _
      push_cast
      ring

section Replay

variable {trades : List BacktestTrade} {config : PortfolioReplayConfig}

theorem sound_of_passes (hstart : 0 ≤ config.startCapital) (hsize : 0 ≤ config.tradeSize)
    (hroi : ∀ trade ∈ trades, 0 ≤ trade.roi) {s : ReplayState} (h : Passes trades config s) :
    Sound config s := by
  obtain ⟨before, ⟨after, hafter⟩, hrun⟩ := h
  refine sound_of_exec hstart hsize (fun trade htrade => hroi trade ?_) hrun
  have hmem : trade ∈ taken (replayActions trades config) := by
    rw [← hafter, taken, List.filterMap_append]
    exact List.mem_append_left _ htrade
  exact (perm_replayActions trades config).subset (List.mem_append_left _ hmem)

theorem finalEquity_eq (hbooks : Books config (replayActions trades config)
      (replayed trades config))
    (hclosed : (closed (replayActions trades config)).Perm
      ((taken (replayActions trades config)).map (position config))) :
    (replayed trades config).equity = config.startCapital +
      ((taken (replayActions trades config)).map fun trade =>
        config.tradeSize * (trade.roi - 1)).sum := by
  have hopen : (replayed trades config).openPositions = [] := openPositions_finish _
  calc (replayed trades config).equity = (replayed trades config).cash := by
        rw [equity, hopen, List.map_nil, List.sum_nil, add_zero]
    _ = config.startCapital + (((closed (replayActions trades config)).map proceeds).sum -
          (taken (replayActions trades config)).length * config.tradeSize) := by
        rw [hbooks.cash, add_sub_assoc]
    _ = _ := by rw [(hclosed.map proceeds).sum_eq, sum_proceeds]

theorem conservesMoney (hstart : 0 ≤ config.startCapital) (hsize : 0 ≤ config.tradeSize)
    (hroi : ∀ trade ∈ trades, 0 ≤ trade.roi) :
    ConservesMoney trades config (replayActions trades config) (replayPortfolio trades config) := by
  have hrun := exec_replayActions trades config
  have hbooks := books_of_exec hrun
  have hsound : Sound config (replayed trades config) :=
    sound_of_passes hstart hsize hroi ⟨_, List.prefix_refl _, hrun⟩
  have hopen : (replayed trades config).openPositions = [] := openPositions_finish _
  have hsorted := perm_replayActions trades config
  have hclosed := hbooks.positions
  rw [hopen, List.append_nil] at hclosed
  refine ⟨hsorted, hbooks.tradesTaken, hbooks.tradesSkipped, ?_, hclosed,
    finalEquity_eq hbooks hclosed, ?_, hsound.drawdown⟩
  · show (replayed trades config).tradesTaken + (replayed trades config).tradesSkipped = _
    rw [hbooks.tradesTaken, hbooks.tradesSkipped, ← List.length_append, hsorted.length_eq]
  · exact le_max_right _ _

/-- **Portfolio replay conserves money.**  Of `maxConcurrent`, the next whole number bounds
the positions that are open. -/
theorem replay_conserves_money (hstart : 0 ≤ config.startCapital) (hsize : 0 ≤ config.tradeSize)
    (hroi : ∀ trade ∈ trades, 0 ≤ trade.roi) :
    ConservesMoney trades config (replayActions trades config) (replayPortfolio trades config) ∧
      ∀ s, Passes trades config s →
        0 ≤ s.cash ∧ ∀ m ∈ config.maxConcurrent, s.openPositions.length ≤ ⌈m⌉₊ := by
  refine ⟨conservesMoney hstart hsize hroi, fun s hs => ?_⟩
  have hsound := sound_of_passes hstart hsize hroi hs
  exact ⟨hsound.cash, hsound.within⟩

end Replay

/-- Two trades for one place; the second one comes when the first one goes. -/
def twoTrades : List BacktestTrade := [⟨2, 0, some 10, some 20⟩, ⟨1 / 2, 10, some 0, none⟩]

theorem replay_conserves_two_trades :
    ConservesMoney twoTrades ⟨100, 60, some 1⟩ (replayActions twoTrades ⟨100, 60, some 1⟩)
        (replayPortfolio twoTrades ⟨100, 60, some 1⟩) ∧
      ∀ s, Passes twoTrades ⟨100, 60, some 1⟩ s →
        0 ≤ s.cash ∧ ∀ m ∈ some (1 : ℚ), s.openPositions.length ≤ ⌈m⌉₊ :=
  replay_conserves_money (by decide +kernel) (by decide +kernel) (by decide +kernel)

theorem closeUntil_start (ts : Option ℚ) (config : PortfolioReplayConfig) :
    (start config).closeUntil ts = start config := by
  have hsort : (start config).sortOpen = start config := by
    rw [sortOpen, start, List.mergeSort_nil]
  rw [closeUntil, hsort]
  rfl

theorem passes_first (trade : BacktestTrade) (config : PortfolioReplayConfig) :
    Passes [trade] config ((start config).visit config trade) := by
  refine ⟨closeActions (some (tradeEntryTime trade)) (start config) ++
    [visitAction config (start config) trade], ⟨tradeActions config []
      ((start config).visit config trade), ?_⟩, ?_⟩
  · rw [replayActions, sortTrades, List.mergeSort_singleton, List.append_assoc]
    rfl
  · rw [Run.exec_append (exec_closeActions _ _), Run.exec_cons (step_visitAction _ _)]
    rfl

/-- With room for half a position, one is open. -/
theorem half_a_position :
    ¬ ∀ trades config, 0 ≤ config.startCapital → 0 ≤ config.tradeSize →
      (∀ trade ∈ trades, 0 ≤ trade.roi) → ∀ s, Passes trades config s →
        ∀ m ∈ config.maxConcurrent, (s.openPositions.length : ℚ) ≤ m := by
  intro hall
  have hle := hall [⟨1, 0, none, none⟩] ⟨100, 30, some (1 / 2)⟩ (by decide +kernel)
    (by decide +kernel) (by decide +kernel) _ (passes_first _ _) (1 / 2) rfl
  rw [visit, closeUntil_start, if_neg (by decide +kernel)] at hle
  revert hle
  decide +kernel

end Ap3xSolana.Trading.Backtester
