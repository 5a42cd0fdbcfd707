import Ap3xSolana.Strategies.RuntimeSteps

/-!
# Trades that never reach the portfolio

The loop over the trades of a transaction returns when the loss that one of them realises
trips a guard, and rejects when a call of the portfolio does.  The trades behind that one are
not applied (`trades_applied`).
-/

namespace Ap3xSolana.Strategies.TradesApplied

open Ap3xSolana.Core Ap3xSolana.Executor Ap3xSolana.Lib Ap3xSolana.Lib.Run
open Ap3xSolana.Portfolio Ap3xSolana.Strategies.Guards Ap3xSolana.Strategies.Runtime
open Ap3xSolana.Strategies.LandedTradeAdapter

/-! ## The property -/

/-- The trades that a task has yet to apply. -/
def pendingTrades : Option Running → List LandedTrade
  | some (.realizedBefore trade rest _) => trade :: rest
  | some (.apply _ rest _ _) => rest
  | some (.realizedAfter rest _ _) => rest
  | _ => []

/-- The trades that the adapter returns when the awaited promise settles with `reply`. -/
def adaptedTrades (rec : InstanceRecord) (reply : Reply) : List LandedTrade :=
  match rec.queue.running, reply with
  | some (.adapt result wallet), .transaction raw =>
      match adaptToLandedTrades result wallet raw with
      | .error _ => []
      | .ok trades => trades
  | _, _ => []

def tradeOf : Output → Option LandedTrade
  | .applyLandedTrade trade => some trade
  | _ => none

/-- What the adapter returns to the instance in a step. -/
def adapted (rt : StrategyRuntime) (a : Action) (ref : Nat) : List LandedTrade :=
  match a, rt.records[ref]? with
  | .settle ref' reply _, some rec => if ref' = ref then adaptedTrades rec reply else []
  | _, _ => []

/-- The calls of `applyLandedTrade` so far, of the instance. -/
def applied (rt : StrategyRuntime) (ref : Nat) : List LandedTrade :=
  rt.events.filterMap fun e => if e.ref = ref then tradeOf e.output else none

/-- What the instance is still to apply. -/
def pending (rt : StrategyRuntime) (ref : Nat) : List LandedTrade :=
  ((rt.records[ref]?).map fun rec => pendingTrades rec.queue.running).getD []

/-- All along the run, what the adapter returned to an instance was applied in order, up to
what the running task still has to apply. -/
def AllApplied (opts : StrategyRuntimeOpts) (acts : List Action) : Prop :=
  ∀ before, before <+: acts → ∀ rt, exec (step opts) {} before = some rt →
    ∀ ref, gains (step opts) adapted {} before ref = applied rt ref ++ pending rt ref

/-! ## The condition -/

/-- The guard lets the loop go on, and the call of the portfolio does not reject. -/
def goesOn (rec : InstanceRecord) (reply : Reply) (now : Int) : Bool :=
  match rec.queue.running, reply with
  | _, .threw => false
  | some (.realizedAfter _ _ before), .realized after =>
      (rec.guards.recordRealized now (after - before)).2.isNone
  | _, _ => true

/-- The loop goes on while trades are left. -/
def Undisturbed (rt : StrategyRuntime) (a : Action) : Prop :=
  match a with
  | .settle ref reply now =>
      ∀ rec ∈ rt.records[ref]?, pendingTrades rec.queue.running ≠ [] →
        goesOn rec reply now = true
  | _ => True

instance decidableUndisturbed (rt : StrategyRuntime) (a : Action) :
    Decidable (Undisturbed rt a) :=
  match a with
  | .settle ref reply now =>
      inferInstanceAs (Decidable (∀ rec ∈ rt.records[ref]?,
        pendingTrades rec.queue.running ≠ [] → goesOn rec reply now = true))
  | .register .. | .deregister .. | .deregisterNext .. | .start | .stop | .pause .. |
      .resume .. | .signal .. | .executionResult .. | .positionChange .. | .tick .. |
      .startTask .. => inferInstanceAs (Decidable True)

/-! ## One record -/

theorem tradeOf_tripGuard (rec : InstanceRecord) (trip : GuardTrip) :
    (rec.tripGuard trip).2.filterMap tradeOf = [] ∧
      (rec.tripGuard trip).1.queue = rec.queue := by
  unfold InstanceRecord.tripGuard
  split
  · exact ⟨rfl, rfl⟩
  · refine ⟨?_, rfl⟩
    split <;> rfl

theorem tradeOf_tripIf (rec : InstanceRecord) (trip : Option GuardTrip) :
    (rec.tripIf trip).2.filterMap tradeOf = [] := by
  cases trip with
  | none => rfl
  | some trip => exact (tradeOf_tripGuard rec trip).1

theorem pending_nextTrade (rec : InstanceRecord) (wallet : PublicKey)
    (trades : List LandedTrade) :
    pendingTrades (rec.nextTrade wallet trades).queue.running = trades := by
  cases trades <;> rfl

theorem startTask_idle {rec : InstanceRecord} {r : InstanceRecord × List Output}
    (h : rec.startTask = some r) :
    pendingTrades rec.queue.running = [] ∧ pendingTrades r.1.queue.running = [] ∧
      r.2.filterMap tradeOf = [] := by
  unfold InstanceRecord.startTask at h
  split at h
  · cases h
  · rename_i task waiting hnext
    have hidle := InstanceQueue.next_idle hnext
    cases h
    refine ⟨?_, ?_⟩
    · rw [hidle]
      rfl
    · cases task <;> exact ⟨rfl, rfl⟩

theorem hookThrew_account (rec : InstanceRecord) (phase : HookPhase) (now : Int) :
    (rec.hookThrew phase now).2.filterMap tradeOf = [] ∧
      pendingTrades (rec.hookThrew phase now).1.queue.running = [] := by
  have htrip := tradeOf_tripIf { rec with guards := (rec.guards.recordError now).1 }
    (rec.guards.recordError now).2
  refine ⟨?_, rfl⟩
  show (_ ++ [Output.strategyError phase]).filterMap tradeOf = []
  rw [List.filterMap_append]
  exact List.append_eq_nil_iff.2 ⟨htrip, rfl⟩

theorem decided_account {sha256 : List UInt8 → List UInt8} (rec : InstanceRecord)
    (sig : Signal) (decision : TradeIntent) (now : Int) :
    (rec.decided sha256 sig decision now).2.filterMap tradeOf = [] ∧
      pendingTrades (rec.decided sha256 sig decision now).1.queue.running = [] := by
  cases htrip : (rec.guards.recordDecision now).2 with
  | some trip =>
      simp only [InstanceRecord.decided, htrip]
      have hguard := tradeOf_tripGuard
        { rec with guards := (rec.guards.recordDecision now).1 } trip
      exact ⟨hguard.1, rfl⟩
  | none =>
      simp only [InstanceRecord.decided, htrip]
      split <;> exact ⟨rfl, rfl⟩

theorem checkPositions_account (rec : InstanceRecord) (ps : List Position) :
    (rec.checkPositions ps).2.filterMap tradeOf = [] ∧
      pendingTrades (rec.checkPositions ps).1.queue.running = [] :=
  ⟨tradeOf_tripIf rec _, rfl⟩

/-- The trades that are left when the loss of one is recorded. -/
theorem realized_account (rec : InstanceRecord) (rest : List LandedTrade) (wallet : PublicKey)
    (amount now : Int) :
    (rec.realized rest wallet amount now).2.filterMap tradeOf = [] ∧
      pendingTrades (rec.realized rest wallet amount now).1.queue.running =
        if (rec.guards.recordRealized now amount).2.isNone then rest else [] := by
  cases htrip : (rec.guards.recordRealized now amount).2 with
  | none =>
      simp only [InstanceRecord.realized, htrip]
      exact ⟨rfl, pending_nextTrade _ wallet rest⟩
  | some trip =>
      simp only [InstanceRecord.realized, htrip]
      have hguard := tradeOf_tripGuard
        { rec with guards := (rec.guards.recordRealized now amount).1 } trip
      exact ⟨hguard.1, rfl⟩

/-- What was left and what the adapter returns is applied or left. -/
def Accounted (rec : InstanceRecord) (reply : Reply) (r : InstanceRecord × List Output) : Prop :=
  pendingTrades rec.queue.running ++ adaptedTrades rec reply =
    r.2.filterMap tradeOf ++ pendingTrades r.1.queue.running

/-- Outside the loop there is nothing to account for. -/
theorem accounted_quiet {rec : InstanceRecord} {reply : Reply} {now : Int}
    {r : InstanceRecord × List Output} (hpending : pendingTrades rec.queue.running = [])
    (hadapted : adaptedTrades rec reply = [])
    (hr : r.2.filterMap tradeOf = [] ∧ pendingTrades r.1.queue.running = []) :
    Accounted rec reply r ↔
      (pendingTrades rec.queue.running ≠ [] → goesOn rec reply now = true) := by
  refine ⟨fun _ hne => absurd hpending hne, fun _ => ?_⟩
  show _ ++ _ = _ ++ _
  rw [hpending, hadapted, hr.1, hr.2]

/-- The account is kept exactly if the loop goes on while trades are left. -/
theorem settle_account {sha256 : List UInt8 → List UInt8} {rec : InstanceRecord}
    {reply : Reply} {now : Int} {r : InstanceRecord × List Output}
    (h : rec.settle sha256 reply now = some r) :
    Accounted rec reply r ↔
      (pendingTrades rec.queue.running ≠ [] → goesOn rec reply now = true) := by
  have hquiet : ∀ {running : Running}, rec.queue.running = some running →
      pendingTrades (some running) = [] → adaptedTrades rec reply = [] →
      r.2.filterMap tradeOf = [] ∧ pendingTrades r.1.queue.running = [] →
      (Accounted rec reply r ↔
        (pendingTrades rec.queue.running ≠ [] → goesOn rec reply now = true)) :=
    fun hrun hpending => accounted_quiet (hrun ▸ hpending)
  unfold InstanceRecord.settle at h
  split at h <;> rename_i hrun
  case h_2 => cases h
  case h_11 result wallet raw =>
    have hadapted : adaptedTrades rec (.transaction raw) =
        match adaptToLandedTrades result wallet raw with
        | .error _ => []
        | .ok trades => trades := by
      unfold adaptedTrades
      rw [hrun]
    have hpending : pendingTrades rec.queue.running = [] := by
      rw [hrun]
      rfl
    refine ⟨fun _ hne => absurd hpending hne, fun _ => ?_⟩
    show _ ++ _ = _ ++ _
    rw [hpending, hadapted]
    cases hresult : adaptToLandedTrades result wallet raw with
    | error e =>
        simp only [hresult] at h
        cases h
        rfl
    | ok trades =>
        simp only [hresult] at h
        cases h
        cases trades <;> rfl
  case h_12 trade rest wallet before =>
    cases h
    have hgoes : goesOn rec (.realized before) now = true := by
      unfold goesOn
      rw [hrun]
    have hadapted : adaptedTrades rec (.realized before) = [] := by
      unfold adaptedTrades
      rw [hrun]
    refine ⟨fun _ _ => hgoes, fun _ => ?_⟩
    show _ ++ _ = _ ++ _
    rw [hrun, hadapted, List.append_nil]
    rfl
  case h_13 trade rest wallet before =>
    cases h
    have hgoes : goesOn rec .done now = true := by
      unfold goesOn
      rw [hrun]
    have hadapted : adaptedTrades rec .done = [] := by
      unfold adaptedTrades
      rw [hrun]
    refine ⟨fun _ _ => hgoes, fun _ => ?_⟩
    show _ ++ _ = _ ++ _
    rw [hrun, hadapted, List.append_nil]
    rfl
  case h_14 rest wallet before after =>
    cases h
    have hgoes : goesOn rec (.realized after) now =
        (rec.guards.recordRealized now (after - before)).2.isNone := by
      unfold goesOn
      rw [hrun]
    have hadapted : adaptedTrades rec (.realized after) = [] := by
      unfold adaptedTrades
      rw [hrun]
    have hrealized := realized_account rec rest wallet (after - before) now
    show _ ++ _ = _ ++ _ ↔ _
    rw [hgoes, hadapted, hrealized.1, hrealized.2, hrun, List.append_nil, List.nil_append]
    show rest = _ ↔ (rest ≠ [] → _)
    split
    · rename_i htrip
      exact ⟨fun _ _ => htrip, fun _ => rfl⟩
    · rename_i htrip
      exact ⟨fun hrest hne => absurd hrest hne,
        fun hgo => Decidable.by_contra fun hne => htrip (hgo hne)⟩
  case h_17 running hbarrier =>
    have hgoes : goesOn rec .threw now = false := by
      unfold goesOn
      split <;> first | rfl | contradiction
    have hadapted : adaptedTrades rec .threw = [] := by
      unfold adaptedTrades
      split <;> first | rfl | contradiction
    cases h
    show _ ++ _ = [] ++ [] ↔ _
    rw [hgoes, hadapted, List.append_nil]
    exact ⟨fun hnil hne => absurd hnil hne,
      fun hgo => Decidable.by_contra fun hne => Bool.noConfusion (hgo hne)⟩
  case h_18 => cases h
  case h_16 => cases h
  all_goals
    cases h
    apply hquiet hrun rfl
    · unfold adaptedTrades
      rw [hrun]
    · first
        | exact ⟨rfl, rfl⟩
        | exact hookThrew_account rec _ now
        | exact decided_account rec _ _ now
        | exact checkPositions_account rec _

/-! ## One step -/

/-- What the instance has applied, and what it is still to apply. -/
def total (rt : StrategyRuntime) (ref : Nat) : List LandedTrade :=
  applied rt ref ++ pending rt ref

theorem pending_of_record {rt : StrategyRuntime} {ref : Nat} {rec : InstanceRecord}
    (h : rt.records[ref]? = some rec) : pending rt ref = pendingTrades rec.queue.running := by
  unfold pending
  rw [h]
  rfl

theorem applied_append {rt rt' : StrategyRuntime} {es : List Event}
    (h : rt'.events = rt.events ++ es) (ref : Nat) :
    applied rt' ref =
      applied rt ref ++ es.filterMap fun e => if e.ref = ref then tradeOf e.output else none := by
  unfold applied
  rw [h, List.filterMap_append]

theorem background_total {rt rt' : StrategyRuntime} (h : Background rt rt') (ref : Nat) :
    total rt' ref = total rt ref := by
  have happlied : applied rt' ref = applied rt ref := by
    obtain ⟨es, hes, hquiet⟩ := h.events
    have hnone : (es.filterMap fun e =>
        if e.ref = ref then tradeOf e.output else none) = [] := by
      rw [List.filterMap_eq_nil_iff]
      intro e he
      rw [hquiet e he]
      split <;> rfl
    rw [applied_append hes, hnone, List.append_nil]
  have hpending : pending rt' ref = pending rt ref := by
    cases hrec : rt.records[ref]? with
    | some rec =>
        obtain ⟨rec', hrec', henq⟩ := h.records ref rec hrec
        rw [pending_of_record hrec, pending_of_record hrec', henq.running]
    | none =>
        cases hrec' : rt'.records[ref]? with
        | none => simp only [pending, hrec, hrec']
        | some rec' =>
            rw [pending_of_record hrec', h.fresh ref rec' hrec' hrec]
            simp only [pending, hrec]
            rfl
  unfold total
  rw [happlied, hpending]

theorem taskStep_total_other {rt rt' : StrategyRuntime} {ref ref' : Nat}
    {rec : InstanceRecord} {r : InstanceRecord × List Output}
    (h : TaskStep rt rt' ref rec r) (hne : ref' ≠ ref) : total rt' ref' = total rt ref' := by
  have hnone : ((r.2.map (Event.mk ref)).filterMap fun e =>
      if e.ref = ref' then tradeOf e.output else none) = [] := by
    rw [List.filterMap_eq_nil_iff]
    intro e he
    obtain ⟨out, -, rfl⟩ := List.mem_map.1 he
    exact if_neg hne.symm
  unfold total pending
  rw [applied_append h.events, hnone, List.append_nil, h.other hne]

theorem taskStep_total_own {rt rt' : StrategyRuntime} {ref : Nat}
    {rec : InstanceRecord} {r : InstanceRecord × List Output}
    (h : TaskStep rt rt' ref rec r) :
    total rt' ref =
      applied rt ref ++ (r.2.filterMap tradeOf ++ pendingTrades r.1.queue.running) := by
  have hown : ((r.2.map (Event.mk ref)).filterMap fun e =>
      if e.ref = ref then tradeOf e.output else none) = r.2.filterMap tradeOf := by
    rw [List.filterMap_map]
    exact List.filterMap_congr fun out _ => if_pos rfl
  unfold total
  rw [applied_append h.events, hown, pending_of_record h.own, List.append_assoc]

/-- A step keeps the accounts exactly if it does not disturb the loop. -/
theorem step_total {opts : StrategyRuntimeOpts} {rt rt' : StrategyRuntime} {a : Action}
    (h : step opts rt a = some rt') :
    (∀ ref, total rt ref ++ adapted rt a ref = total rt' ref) ↔ Undisturbed rt a := by
  rcases step_cases h with ⟨howner, hback⟩ | ⟨ref, rec, r, howner, hadvance, htask⟩
  · have hnothing : ∀ ref, adapted rt a ref = [] := by
      intro ref
      cases a <;> first | rfl | cases howner
    have hundisturbed : Undisturbed rt a := by
      cases a with
      | settle ref reply now => cases howner
      | _ => trivial
    refine ⟨fun _ => hundisturbed, fun _ ref => ?_⟩
    rw [hnothing, List.append_nil, background_total hback]
  · -- the other instances have the same total and are given nothing
    have hothers : ∀ ref', ref' ≠ ref → total rt ref' ++ adapted rt a ref' = total rt' ref' := by
      intro ref' hne
      have hnothing : adapted rt a ref' = [] := by
        unfold adapted
        split
        · cases howner
          exact if_neg hne.symm
        · rfl
      rw [hnothing, List.append_nil, taskStep_total_other htask hne]
    have hown : (∀ ref, total rt ref ++ adapted rt a ref = total rt' ref) ↔
        pendingTrades rec.queue.running ++ adapted rt a ref =
          r.2.filterMap tradeOf ++ pendingTrades r.1.queue.running := by
      have hsplit : total rt ref ++ adapted rt a ref = total rt' ref ↔
          pendingTrades rec.queue.running ++ adapted rt a ref =
            r.2.filterMap tradeOf ++ pendingTrades r.1.queue.running := by
        rw [taskStep_total_own htask]
        unfold total
        rw [pending_of_record htask.found, List.append_assoc]
        exact List.append_right_inj _
      refine ⟨fun hall => hsplit.1 (hall ref), fun hone ref' => ?_⟩
      by_cases hne : ref' = ref
      · rw [hne]
        exact hsplit.2 hone
      · exact hothers ref' hne
    rw [hown]
    cases a with
    | startTask ref' =>
        obtain ⟨hbefore, hafter, hout⟩ := startTask_idle hadvance
        refine ⟨fun _ => trivial, fun _ => ?_⟩
        rw [hbefore, hafter, hout]
        rfl
    | settle ref' reply now =>
        cases howner
        have hadapted : adapted rt (.settle ref reply now) ref = adaptedTrades rec reply := by
          unfold adapted
          rw [htask.found]
          exact if_pos rfl
        have hcondition : Undisturbed rt (.settle ref reply now) ↔
            (pendingTrades rec.queue.running ≠ [] → goesOn rec reply now = true) := by
          show (∀ rec' ∈ rt.records[ref]?, _) ↔ _
          rw [htask.found]
          exact ⟨fun hall => hall rec rfl, fun hone rec' hrec' => by cases hrec'; exact hone⟩
        rw [hadapted, hcondition]
        exact settle_account hadvance
    | _ => cases howner

/-- Every trade that the adapter returns is applied, in order, exactly in the runs where the
loop goes on while trades are left. -/
theorem trades_applied (opts : StrategyRuntimeOpts) (acts : List Action)
    (rt : StrategyRuntime) (hrun : exec (step opts) {} acts = some rt) :
    AllApplied opts acts ↔
      Along (step opts) (fun rt a _ => Undisturbed rt a) {} acts := by
  have htotal : (∀ before, before <+: acts → ∀ u, exec (step opts) {} before = some u →
        ∀ ref, total {} ref ++ gains (step opts) adapted {} before ref = total u ref) ↔
      Along (step opts)
        (fun rt a rt' => ∀ ref, total rt ref ++ adapted rt a ref = total rt' ref) {} acts :=
    total_iff_along hrun
  refine Iff.trans htotal ?_
  apply along_iff_of_inv (fun _ => True)
  · exact fun rt a rt' _ h => step_total h
  · exact fun _ _ _ _ _ _ => trivial
  · trivial

/-! ## A swap that loses -/

section Swap

def lossOpts (limit : Int) : StrategyRuntimeOpts :=
  { guards := { maxLossPerDayLamports := some limit }, sha256 := fun _ => [] }

def swapper : Strategy := { name := "swapper", filters := [{}] }

def poolCreated : Signal :=
  { signalId := "sig-1", programId := .ofByte 9, kind := "pool-created" }

def swapIntent : TradeIntent :=
  { intentId := "", wallet := "hot", instructions := [], feeTier := .med, deadline := 60000 }

/-- Ten tokens of one mint go, five of another come. -/
def swapTransaction : SolanaTransactionResponse :=
  { accountKeys := [(PublicKey.ofByte 7).toBase58]
    txMeta := some
      { fee := some 5000
        preBalances := [100000]
        postBalances := [90000]
        preTokenBalances := some
          [{ mint := (PublicKey.ofByte 1).toBase58
             owner := (PublicKey.ofByte 7).toBase58
             amount := some 10 }]
        postTokenBalances := some
          [{ mint := (PublicKey.ofByte 1).toBase58
             owner := (PublicKey.ofByte 7).toBase58
             amount := some 0 },
           { mint := (PublicKey.ofByte 2).toBase58
             owner := (PublicKey.ofByte 7).toBase58
             amount := some 5 }] } }

/-- What the swap comes to. -/
def swapTrade (mint : UInt8) (amountDelta : Int) : LandedTrade :=
  { signature := "tx-1", slot := 40, wallet := .ofByte 7, mint := .ofByte mint,
    amountDelta := amountDelta, solFlowLamports := -10000, feeLamports := 5000,
    source := .executor }

/-- The first trade realises a loss of 600 lamports. -/
def swapActs : List Action :=
  [.start, .register swapper none 0, .signal poolCreated, .startTask 0,
    .settle 0 (.decided (some swapIntent)) 1, .settle 0 (.address (.ofByte 7)) 2,
    .settle 0 (.executed (.landed "" "tx-1" 40 "jito" 3)) 3,
    .settle 0 (.transaction (some swapTransaction)) 4,
    .settle 0 (.realized 0) 5, .settle 0 .done 6, .settle 0 (.realized (-600)) 7]

theorem trades_applied_swap :
    AllApplied (lossOpts 1000) swapActs ∧
      ∃ rt, exec (step (lossOpts 1000)) {} swapActs = some rt ∧
        applied rt 0 ++ pending rt 0 = [swapTrade 1 (-10), swapTrade 2 5] := by
  have hruns : ∃ rt, exec (step (lossOpts 1000)) {} swapActs = some rt ∧
      applied rt 0 ++ pending rt 0 = [swapTrade 1 (-10), swapTrade 2 5] := by decide +kernel
  obtain ⟨rt, hrun, htrades⟩ := hruns
  exact ⟨(trades_applied _ _ rt hrun).2 (by decide +kernel), rt, hrun, htrades⟩

/-- The loss trips the guard, and the five tokens are never applied. -/
theorem lostSwap_not_applied :
    (∃ rt, exec (step (lossOpts 500)) {} swapActs = some rt ∧
      applied rt 0 = [swapTrade 1 (-10)] ∧
      (rt.records.map fun rec => (rec.queue.running, rec.queue.waiting)) = [(none, [])]) ∧
      ¬ AllApplied (lossOpts 500) swapActs := by
  have hruns : ∃ rt, exec (step (lossOpts 500)) {} swapActs = some rt ∧
      (applied rt 0 = [swapTrade 1 (-10)] ∧
        (rt.records.map fun rec => (rec.queue.running, rec.queue.waiting)) = [(none, [])]) ∧
      gains (step (lossOpts 500)) adapted {} swapActs 0 ≠ applied rt 0 ++ pending rt 0 := by
    decide +kernel
  obtain ⟨rt, hrun, hevents, hne⟩ := hruns
  exact ⟨⟨rt, hrun, hevents⟩, fun hall => hne (hall swapActs (List.prefix_refl _) rt hrun 0)⟩

end Swap

end Ap3xSolana.Strategies.TradesApplied
