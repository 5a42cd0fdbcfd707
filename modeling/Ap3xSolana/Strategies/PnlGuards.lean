import Mathlib.Algebra.Order.Ring.Int
import Ap3xSolana.Lib.Drawdown
import Ap3xSolana.Strategies.Guards

/-!
# PnL guards

Three accumulators: the sum of a UTC day, the sum of everything, and its peak.  After every call
they are what the amounts recorded so far say (`PnlTracked`), and so the tracker trips where a
replay of the amounts passes a bound, with the drawdown as the backtest computes it.
-/

namespace Ap3xSolana.Strategies.Guards

open Ap3xSolana.Lib.Drawdown

/-! ## The backtest -/

/-- One round of the loop of `maxDrawdown`: the peak and the worst fall. -/
def drawdownRound (s : Int × Int) (v : Int) : Int × Int :=
  let peak := if v > s.1 then v else s.1
  let worst := if peak - v > s.2 then peak - v else s.2
  (peak, worst)

/-- Largest fall from a running peak (starting at 0) of a cumulative series. -/
def maxDrawdown (cumulative : List Int) : Int := (cumulative.foldl drawdownRound (0, 0)).2

theorem maxDrawdown_eq (cumulative : List Int) : maxDrawdown cumulative = worstFall cumulative := by
  have hround : drawdownRound = fun s v => (max s.1 v, max s.2 (max s.1 v - v)) := by
    funext s v
    have hmax : ∀ x y : Int, (if y > x then y else x) = max x y := fun x y => by omega
    simp only [drawdownRound, hmax]
  unfold maxDrawdown worstFall
  rw [hround]

/-! ## The property -/

/-- The amounts recorded, with the clock readings. -/
def amountsOf (log : List Recorded) : List (Int × Int) :=
  log.filterMap fun e =>
    match e.call.recording with
    | .realized amount => some (e.call.now, amount)
    | _ => none

/-- What was recorded on a UTC day. -/
def dailySum (amounts : List (Int × Int)) (day : Int) : Int :=
  ((amounts.filter fun a => startOfDayUtc a.1 = day).map (·.2)).sum

/-- The sums of the prefixes, which is what the backtest calls cumulative. -/
def cumulatives (amounts : List (Int × Int)) : List Int := prefixSums (amounts.map (·.2))

/-- The last clock reading at an amount, or at the construction. -/
def lastReading (start : Int) (amounts : List (Int × Int)) : Int :=
  (amounts.getLast?.map (·.1)).getD start

structure PnlTracked (start : Int) (amounts : List (Int × Int)) (g : GuardTracker) : Prop where
  day : g.dayStartTs = startOfDayUtc (lastReading start amounts)
  today : g.realizedToday = dailySum amounts g.dayStartTs
  cumulative : g.cumulative = (amounts.map (·.2)).sum
  peak : IsGreatest {x | ∃ before, before <+: amounts.map (·.2) ∧ before.sum = x} g.peak

/-- A tracker that is past one of its bounds. -/
def PastBound (g : GuardTracker) : Prop :=
  (∃ m, g.cfg.maxLossPerDayLamports = some m ∧ g.realizedToday < -m) ∨
    ∃ m, g.cfg.drawdownThreshold = some m ∧ m < g.peak - g.cumulative

/-- Some call on an amount has tripped. -/
def EverTripped (log : List Recorded) : Prop :=
  ∃ e ∈ log, (∃ amount, e.call.recording = .realized amount) ∧ e.trip ≠ none

/-- A daily sum of the replay falls below the limit. -/
def LossPassed (cfg : GuardConfig) (amounts : List (Int × Int)) : Prop :=
  ∃ m, cfg.maxLossPerDayLamports = some m ∧ ∃ before t amount,
    before ++ [(t, amount)] <+: amounts ∧
      dailySum (before ++ [(t, amount)]) (startOfDayUtc t) < -m

/-- The `maxDrawdown` of the replay is above the threshold. -/
def DrawdownPassed (cfg : GuardConfig) (amounts : List (Int × Int)) : Prop :=
  ∃ m, cfg.drawdownThreshold = some m ∧ m < maxDrawdown (cumulatives amounts)

/-! ## One call -/

theorem startOfDayUtc_mono {t t' : Int} (h : t ≤ t') : startOfDayUtc t ≤ startOfDayUtc t' := by
  unfold startOfDayUtc
  omega

theorem recordRealized_tracker (g : GuardTracker) (now amount : Int) :
    (g.recordRealized now amount).1 =
      { g with
        dayStartTs := startOfDayUtc now
        realizedToday :=
          (if startOfDayUtc now = g.dayStartTs then g.realizedToday else 0) + amount
        cumulative := g.cumulative + amount
        peak := max g.peak (g.cumulative + amount) } := by
  have hmax : ∀ x y : Int, (if y > x then y else x) = max x y := fun x y => by omega
  unfold GuardTracker.recordRealized
  dsimp only
  rw [ite_not]
  split
  · next hday => rw [hmax, ← hday]
  · rw [hmax]

theorem lossTrip_ne_none (g : GuardTracker) :
    g.lossTrip ≠ none ↔ ∃ m, g.cfg.maxLossPerDayLamports = some m ∧ g.realizedToday < -m := by
  unfold GuardTracker.lossTrip
  cases g.cfg.maxLossPerDayLamports with
  | none => simp
  | some m => by_cases hm : g.realizedToday < -m <;> simp [hm]

theorem drawdownTrip_ne_none (g : GuardTracker) :
    g.drawdownTrip ≠ none ↔ ∃ m, g.cfg.drawdownThreshold = some m ∧ m < g.peak - g.cumulative := by
  unfold GuardTracker.drawdownTrip
  cases g.cfg.drawdownThreshold with
  | none => simp
  | some m => by_cases hm : m < g.peak - g.cumulative <;> simp [hm]

theorem recordRealized_trip (g : GuardTracker) (now amount : Int) :
    (g.recordRealized now amount).2 ≠ none ↔ PastBound (g.recordRealized now amount).1 := by
  have hor : ∀ x y : Option GuardTrip, x.or y ≠ none ↔ x ≠ none ∨ y ≠ none := by
    intro x y
    cases x <;> simp
  have htrip : (g.recordRealized now amount).2 =
      (g.recordRealized now amount).1.lossTrip.or
        (g.recordRealized now amount).1.drawdownTrip := rfl
  rw [htrip, hor, lossTrip_ne_none, drawdownTrip_ne_none]
  rfl

/-- The accumulators. -/
theorem call_totals (g : GuardTracker) (c : GuardCall)
    (hc : ∀ amount, c.recording ≠ .realized amount) :
    (g.call c).1.dayStartTs = g.dayStartTs ∧ (g.call c).1.realizedToday = g.realizedToday ∧
      (g.call c).1.cumulative = g.cumulative ∧ (g.call c).1.peak = g.peak := by
  obtain ⟨now, recording⟩ := c
  cases recording with
  | realized amount => exact absurd rfl (hc amount)
  | _ => exact ⟨rfl, rfl, rfl, rfl⟩

/-! ## A run -/

theorem amountsOf_concat (log : List Recorded) (e : Recorded) :
    amountsOf (log ++ [e]) =
      amountsOf log ++
        match e.call.recording with
        | .realized amount => [(e.call.now, amount)]
        | _ => [] := by
  unfold amountsOf
  rw [List.filterMap_append]
  congr 1
  obtain ⟨⟨now, recording⟩, trip⟩ := e
  cases recording <;> rfl

theorem amountsOf_realized {h : GuardHistory} {now amount : Int} :
    amountsOf (h.record ⟨now, .realized amount⟩).log = amountsOf h.log ++ [(now, amount)] :=
  amountsOf_concat _ _

theorem amountsOf_other {h : GuardHistory} {c : GuardCall}
    (hc : ∀ amount, c.recording ≠ .realized amount) :
    amountsOf (h.record c).log = amountsOf h.log := by
  rw [GuardHistory.record_log, amountsOf_concat]
  obtain ⟨now, recording⟩ := c
  cases recording with
  | realized amount => exact absurd rfl (hc amount)
  | _ => exact List.append_nil _

theorem amountsOf_times {cfg : GuardConfig} {start : Int} {calls : List GuardCall} :
    ∀ a ∈ amountsOf (history cfg start calls).log, ∃ c ∈ calls, c.now = a.1 := by
  intro a ha
  obtain ⟨e, he, heq⟩ := List.mem_filterMap.1 ha
  refine ⟨e.call, history_calls cfg start calls ▸ List.mem_map_of_mem he, ?_⟩
  split at heq
  · cases heq
    rfl
  · cases heq

theorem dailySum_concat (amounts : List (Int × Int)) (t amount day : Int) :
    dailySum (amounts ++ [(t, amount)]) day =
      dailySum amounts day + if startOfDayUtc t = day then amount else 0 := by
  unfold dailySum
  rw [List.filter_append, List.map_append, List.sum_append]
  congr 1
  by_cases hday : startOfDayUtc t = day <;> simp [hday]

/-- Nothing was recorded on a day that is still to come. -/
theorem dailySum_later {amounts : List (Int × Int)} {day : Int}
    (h : ∀ a ∈ amounts, startOfDayUtc a.1 < day) : dailySum amounts day = 0 := by
  have hnone : amounts.filter (fun a => startOfDayUtc a.1 = day) = [] :=
    List.filter_eq_nil_iff.2 fun a ha hday => by
      have := h a ha
      have := of_decide_eq_true hday
      omega
  unfold dailySum
  rw [hnone]
  rfl

theorem lastReading_concat (start : Int) (amounts : List (Int × Int)) (t amount : Int) :
    lastReading start (amounts ++ [(t, amount)]) = t := by
  unfold lastReading
  rw [List.getLast?_concat]
  rfl

theorem realized_or (c : GuardCall) :
    (∃ now amount, c = ⟨now, .realized amount⟩) ∨ ∀ amount, c.recording ≠ .realized amount := by
  obtain ⟨now, recording⟩ := c
  cases recording with
  | realized amount => exact .inl ⟨now, amount, rfl⟩
  | _ => exact .inr fun _ h => by cases h

/-- The readings so far are not after the day of the tracker. -/
theorem readings_le {start : Int} {calls : List GuardCall} (cfg : GuardConfig)
    (hclock : ClockNeverBack start calls) :
    ∀ a ∈ amountsOf (history cfg start calls).log,
      a.1 ≤ lastReading start (amountsOf (history cfg start calls).log) := by
  induction calls using List.reverseRecOn with
  | nil =>
      intro a ha
      cases ha
  | append_singleton calls c ih =>
      rw [history_concat]
      rcases realized_or c with ⟨now, amount, rfl⟩ | hc
      · rw [amountsOf_realized, lastReading_concat]
        intro a ha
        rcases List.mem_append.1 ha with hold | hnew
        · obtain ⟨c', hc', htime⟩ := amountsOf_times a hold
          rw [← htime]
          exact hclock.le_last.2 c' hc'
        · rw [List.mem_singleton.1 hnew]
      · rw [amountsOf_other hc]
        exact ih hclock.init

theorem pnlTracked (cfg : GuardConfig) {start : Int} {calls : List GuardCall}
    (hclock : ClockNeverBack start calls) :
    PnlTracked start (amountsOf (history cfg start calls).log)
      (history cfg start calls).tracker := by
  induction calls using List.reverseRecOn with
  | nil => exact ⟨rfl, rfl, rfl, isGreatest_peak []⟩
  | append_singleton calls c ih =>
      obtain ⟨hday, htoday, hcumulative, hpeak⟩ := ih hclock.init
      rw [history_concat]
      rcases realized_or c with ⟨now, amount, rfl⟩ | hc
      · have hreadings := readings_le cfg hclock.init
        rw [amountsOf_realized, GuardHistory.record_tracker]
        show PnlTracked start _ ((history cfg start calls).tracker.recordRealized now amount).1
        rw [recordRealized_tracker]
        refine ⟨?_, ?_, ?_, ?_⟩
        · rw [lastReading_concat]
        · show _ + amount = dailySum _ (startOfDayUtc now)
          rw [dailySum_concat, if_pos rfl]
          congr 1
          split
          · next hsame => rw [htoday, hsame]
          · next hother =>
              -- the day has changed, and all earlier readings are on earlier days
              refine (dailySum_later fun a ha => ?_).symm
              have hle : startOfDayUtc a.1 ≤ (history cfg start calls).tracker.dayStartTs := by
                rw [hday]
                exact startOfDayUtc_mono (hreadings a ha)
              have hnext : (history cfg start calls).tracker.dayStartTs ≤ startOfDayUtc now := by
                rw [hday]
                refine startOfDayUtc_mono ?_
                unfold lastReading
                cases hlast : (amountsOf (history cfg start calls).log).getLast? with
                | none => exact hclock.le_last.1
                | some a =>
                    obtain ⟨c', hc', htime⟩ := amountsOf_times a (List.mem_of_getLast? hlast)
                    show a.1 ≤ now
                    rw [← htime]
                    exact hclock.le_last.2 c' hc'
              omega
        · show _ + amount = _
          rw [List.map_append, List.sum_append, hcumulative]
          simp
        · show IsGreatest _ (max _ _)
          have hpeak' := isGreatest_peak ((amountsOf (history cfg start calls).log).map (·.2))
          rw [hpeak.unique hpeak', hcumulative, List.map_append]
          have hnext := isGreatest_peak
            ((amountsOf (history cfg start calls).log).map (·.2) ++ [amount])
          rw [prefixSums_concat, peak_concat] at hnext
          exact hnext
      · obtain ⟨hday', htoday', hcumulative', hpeak'⟩ :=
          call_totals (history cfg start calls).tracker c hc
        rw [amountsOf_other hc, GuardHistory.record_tracker]
        refine ⟨?_, ?_, ?_, ?_⟩
        · rw [hday', hday]
        · rw [hday', htoday', htoday]
        · rw [hcumulative', hcumulative]
        · rw [hpeak']
          exact hpeak

/-! ## The replay -/

theorem pastBound_iff {cfg : GuardConfig} {start : Int} {calls : List GuardCall}
    (hclock : ClockNeverBack start calls) :
    PastBound (history cfg start calls).tracker ↔
      (∃ m, cfg.maxLossPerDayLamports = some m ∧
        dailySum (amountsOf (history cfg start calls).log)
          (history cfg start calls).tracker.dayStartTs < -m) ∨
      ∃ m, cfg.drawdownThreshold = some m ∧
        m < peak (cumulatives (amountsOf (history cfg start calls).log)) -
          ((amountsOf (history cfg start calls).log).map (·.2)).sum := by
  obtain ⟨-, htoday, hcumulative, hpeak⟩ := pnlTracked cfg hclock
  unfold PastBound cumulatives
  rw [history_cfg, htoday, hcumulative, hpeak.unique (isGreatest_peak _)]

theorem lossPassed_concat (cfg : GuardConfig) (amounts : List (Int × Int)) (t amount : Int) :
    LossPassed cfg (amounts ++ [(t, amount)]) ↔
      LossPassed cfg amounts ∨ ∃ m, cfg.maxLossPerDayLamports = some m ∧
        dailySum (amounts ++ [(t, amount)]) (startOfDayUtc t) < -m := by
  constructor
  · rintro ⟨m, hm, before, t', amount', hbefore, hloss⟩
    rcases List.prefix_concat_iff.1 hbefore with heq | hbefore'
    · obtain ⟨rfl, hlast⟩ := List.append_inj' heq rfl
      cases hlast
      exact .inr ⟨m, hm, hloss⟩
    · exact .inl ⟨m, hm, before, t', amount', hbefore', hloss⟩
  · rintro (⟨m, hm, before, t', amount', hbefore, hloss⟩ | ⟨m, hm, hloss⟩)
    · exact ⟨m, hm, before, t', amount', hbefore.trans (List.prefix_append _ _), hloss⟩
    · exact ⟨m, hm, amounts, t, amount, List.prefix_refl _, hloss⟩

theorem cumulatives_concat (amounts : List (Int × Int)) (t amount : Int) :
    cumulatives (amounts ++ [(t, amount)]) =
      cumulatives amounts ++ [((amounts ++ [(t, amount)]).map (·.2)).sum] := by
  unfold cumulatives
  rw [List.map_append, List.sum_append]
  show prefixSums (_ ++ [amount]) = _
  rw [prefixSums_concat]
  simp

theorem everTripped_concat (log : List Recorded) (e : Recorded) :
    EverTripped (log ++ [e]) ↔
      EverTripped log ∨ (∃ amount, e.call.recording = .realized amount) ∧ e.trip ≠ none := by
  unfold EverTripped
  simp only [List.mem_append, List.mem_singleton, or_and_right, exists_or, exists_eq_left]

/-- A call has tripped where the replay passes a bound. -/
theorem everTripped_iff (cfg : GuardConfig) {start : Int} {calls : List GuardCall}
    (hclock : ClockNeverBack start calls) :
    EverTripped (history cfg start calls).log ↔
      LossPassed cfg (amountsOf (history cfg start calls).log) ∨
        ∃ m, cfg.drawdownThreshold = some m ∧
          FallsBy m (cumulatives (amountsOf (history cfg start calls).log)) := by
  induction calls using List.reverseRecOn with
  | nil =>
      constructor
      · rintro ⟨e, he, -⟩
        cases he
      · rintro (⟨m, -, before, t, amount, hbefore, -⟩ | ⟨m, -, before, v, after, heq, -⟩)
        · exact absurd (List.prefix_nil.1 hbefore) (by simp)
        · cases before <;> cases heq
  | append_singleton calls c ih =>
      have hpast : PastBound (history cfg start (calls ++ [c])).tracker ↔ _ := pastBound_iff hclock
      rw [history_concat] at hpast ⊢
      rcases realized_or c with ⟨now, amount, rfl⟩ | hc
      · have htrip := recordRealized_trip (history cfg start calls).tracker now amount
        have hday : ((history cfg start calls).record ⟨now, .realized amount⟩).tracker.dayStartTs =
            startOfDayUtc now := by
          show ((history cfg start calls).tracker.recordRealized now amount).1.dayStartTs = _
          rw [recordRealized_tracker]
        have hfalls : ∀ m, FallsBy m (cumulatives (amountsOf (history cfg start calls).log ++
              [(now, amount)])) ↔
            FallsBy m (cumulatives (amountsOf (history cfg start calls).log)) ∨
              m < peak (cumulatives (amountsOf (history cfg start calls).log ++
                [(now, amount)])) -
                ((amountsOf (history cfg start calls).log ++ [(now, amount)]).map (·.2)).sum := by
          intro m
          rw [cumulatives_concat, fallsBy_concat]
        rw [hday, amountsOf_realized] at hpast
        rw [amountsOf_realized, lossPassed_concat, GuardHistory.record_log, everTripped_concat,
          ih hclock.init]
        have hnew : ((∃ amount', (Recording.realized amount : Recording) = .realized amount') ∧
              ((history cfg start calls).tracker.recordRealized now amount).2 ≠ none) ↔
            PastBound ((history cfg start calls).record ⟨now, .realized amount⟩).tracker :=
          ⟨fun h => htrip.1 h.2, fun h => ⟨⟨amount, rfl⟩, htrip.2 h⟩⟩
        refine (or_congr_right (hnew.trans hpast)).trans ?_
        rw [or_or_or_comm]
        refine or_congr_right (exists_or.symm.trans (exists_congr fun m => ?_))
        rw [hfalls, and_or_left]
      · rw [amountsOf_other hc, ← ih hclock.init, GuardHistory.record_log, everTripped_concat]
        refine or_iff_left fun h => ?_
        obtain ⟨⟨amount, hamount⟩, -⟩ := h
        exact hc amount hamount

/-- A threshold below zero is passed by every amount, and by no amount only in the backtest. -/
def Replayable (cfg : GuardConfig) (amounts : List (Int × Int)) : Prop :=
  amounts ≠ [] ∨ ∀ m, cfg.drawdownThreshold = some m → 0 ≤ m

theorem drawdownPassed_iff {cfg : GuardConfig} {amounts : List (Int × Int)}
    (h : Replayable cfg amounts) :
    DrawdownPassed cfg amounts ↔
      ∃ m, cfg.drawdownThreshold = some m ∧ FallsBy m (cumulatives amounts) := by
  unfold DrawdownPassed
  refine exists_congr fun m => and_congr_right fun hm => ?_
  rw [maxDrawdown_eq, lt_worstFall_iff]
  refine or_iff_right_of_imp fun hneg => ?_
  refine fallsBy_of_neg hneg fun hnil => ?_
  rcases h with hne | hthreshold
  · rcases List.eq_nil_or_concat amounts with rfl | ⟨init, ⟨t, amount⟩, rfl⟩
    · exact hne rfl
    · rw [List.concat_eq_append, cumulatives_concat] at hnil
      exact absurd hnil (by simp)
  · have := hthreshold m hm
    omega

structure PnlGuarded (cfg : GuardConfig) (start : Int) (calls : List GuardCall) : Prop where
  tracked : PnlTracked start (amountsOf (history cfg start calls).log)
    (history cfg start calls).tracker
  /-- The last call, if it is on an amount. -/
  trips : ∀ before now amount, calls = before ++ [⟨now, .realized amount⟩] →
    (((history cfg start before).tracker.recordRealized now amount).2 ≠ none ↔
      PastBound (history cfg start calls).tracker)
  replay : Replayable cfg (amountsOf (history cfg start calls).log) →
    (EverTripped (history cfg start calls).log ↔
      LossPassed cfg (amountsOf (history cfg start calls).log) ∨
        DrawdownPassed cfg (amountsOf (history cfg start calls).log))

/-- In every run the guards trip where a bound is passed, and only there. -/
theorem pnl_guards_exact (cfg : GuardConfig) (start : Int) (calls : List GuardCall)
    (hclock : ClockNeverBack start calls) : PnlGuarded cfg start calls where
  tracked := pnlTracked cfg hclock
  trips before now amount hcalls := by
    rw [hcalls, history_concat]
    exact recordRealized_trip _ now amount
  replay hreplay := by
    rw [drawdownPassed_iff hreplay]
    exact everTripped_iff cfg hclock

/-- A profit, a loss on the next day, and a loss that passes the threshold. -/
theorem pnl_guards_exact_days :
    PnlGuarded { maxLossPerDayLamports := some 50, drawdownThreshold := some 60 } 86399000
      [⟨86399999, .realized 100⟩, ⟨86400000, .realized (-45)⟩, ⟨86400001, .decision⟩,
        ⟨172800000, .realized (-20)⟩] :=
  pnl_guards_exact _ _ _ (by decide)

/-- No amount trips the tracker, and the fall of no amount is above a threshold below zero. -/
theorem replay_passes_alone :
    ¬ ∀ (cfg : GuardConfig) (start : Int) (calls : List GuardCall),
        ClockNeverBack start calls →
          (EverTripped (history cfg start calls).log ↔
            LossPassed cfg (amountsOf (history cfg start calls).log) ∨
              DrawdownPassed cfg (amountsOf (history cfg start calls).log)) := by
  intro h
  obtain ⟨e, he, -⟩ := (h { drawdownThreshold := some (-1) } 0 [] (by decide)).2
    (.inr ⟨-1, rfl, by decide⟩)
  cases he

end Ap3xSolana.Strategies.Guards
