import Mathlib.Data.Prod.Lex
import Ap3xSolana.Strategies.RuntimeSteps

/-!
# What becomes of a failure

Whoever dispatches a task drops its promise, so a rejection of it is not handled.
`callHook` catches what a hook throws; the other promises that the task of a signal
awaits are caught by nobody (`tasks_contain_failures`).  The queue goes on either way.
-/

namespace Ap3xSolana.Strategies.Containment

open Ap3xSolana.Core Ap3xSolana.Executor Ap3xSolana.Lib Ap3xSolana.Lib.Run
open Ap3xSolana.Portfolio Ap3xSolana.Strategies.Guards Ap3xSolana.Strategies.Runtime
open Ap3xSolana.Strategies.LandedTradeAdapter

/-! ## The property -/

/-- The awaited promise rejects, or the adapter throws on what it resolves to. -/
def fails (rec : InstanceRecord) (reply : Reply) : Bool :=
  match rec.queue.running, reply with
  | _, .threw => true
  | some (.adapt result wallet), .transaction raw =>
      match adaptToLandedTrades result wallet raw with
      | .error _ => true
      | .ok _ => false
  | _, _ => false

/-- The hook that runs. -/
def hookPhase (rec : InstanceRecord) : Option HookPhase :=
  match rec.queue.running with
  | some (.hook call) => some call.phase
  | some (.shutdown _) => some .onShutdown
  | _ => none

/-- The failure counts for the instance and for no other, and the queue goes on. -/
structure Recorded (rt rt' : StrategyRuntime) (ref : Nat) (rec : InstanceRecord)
    (now : Int) : Prop where
  own : ∃ rec', rt'.records[ref]? = some rec' ∧
    rec'.guards = (rec.guards.recordError now).1 ∧
    rec'.queue = { waiting := rec.queue.waiting, running := none }
  event : ∃ phase, hookPhase rec = some phase ∧
    { ref := ref, output := .strategyError phase } ∈ newEvents rt rt'
  others : ∀ ref', ref' ≠ ref → rt'.records[ref']? = rt.records[ref']?
  only : ∀ e ∈ newEvents rt rt', e.ref = ref

/-- No task rejects, and a failure is recorded. -/
def Contains (rt : StrategyRuntime) (a : Action) (rt' : StrategyRuntime) : Prop :=
  (∀ e ∈ newEvents rt rt', e.output ≠ .rejected) ∧
    match a with
    | .settle ref reply now =>
        ∀ rec ∈ rt.records[ref]?, fails rec reply = true → Recorded rt rt' ref rec now
    | _ => True

/-- What fails is a hook. -/
def Caught (rt : StrategyRuntime) (a : Action) : Prop :=
  match a with
  | .settle ref reply _ =>
      ∀ rec ∈ rt.records[ref]?, fails rec reply = true → (hookPhase rec).isSome = true
  | _ => True

instance decidableCaught (rt : StrategyRuntime) (a : Action) : Decidable (Caught rt a) :=
  match a with
  | .settle ref reply _ =>
      inferInstanceAs (Decidable (∀ rec ∈ rt.records[ref]?,
        fails rec reply = true → (hookPhase rec).isSome = true))
  | .register .. | .deregister .. | .deregisterNext .. | .start | .stop | .pause .. |
      .resume .. | .signal .. | .executionResult .. | .positionChange .. | .tick .. |
      .startTask .. => inferInstanceAs (Decidable True)

/-- Whatever the instance awaits settles at some time, and its queue has its turns. -/
def Served (f : ℕ → StrategyRuntime) (a : ℕ → Action) (ref : Nat) : Prop :=
  ∀ n rec, (f n).records[ref]? = some rec →
    rec.queue.running ≠ none ∨ rec.queue.waiting ≠ [] →
      ∃ m, n ≤ m ∧ (a m).owner = some ref

/-- The task that was number `k` of the tasks `tasks` that waited is started. -/
def Starts (ref k : Nat) (tasks : List Task) (rt : StrategyRuntime) (a : Action) : Prop :=
  a = .startTask ref ∧ ∃ rec later, rt.records[ref]? = some rec ∧
    rec.queue.waiting = tasks.drop k ++ later

/-! ## One failure -/

theorem tripGuard_spec (r : InstanceRecord) (trip : GuardTrip) :
    (r.tripGuard trip).1.guards = r.guards ∧ (r.tripGuard trip).1.queue = r.queue ∧
      .rejected ∉ (r.tripGuard trip).2 := by
  unfold InstanceRecord.tripGuard
  split
  · exact ⟨rfl, rfl, List.not_mem_nil⟩
  · refine ⟨rfl, rfl, fun hmem => ?_⟩
    have hmem := (List.mem_cons.1 hmem).resolve_left Output.noConfusion
    split at hmem
    · cases List.mem_singleton.1 hmem
    · cases hmem

theorem tripIf_spec (r : InstanceRecord) (trip : Option GuardTrip) :
    (r.tripIf trip).1.guards = r.guards ∧ (r.tripIf trip).1.queue = r.queue ∧
      .rejected ∉ (r.tripIf trip).2 := by
  cases trip with
  | none => exact ⟨rfl, rfl, List.not_mem_nil⟩
  | some trip => exact tripGuard_spec r trip

theorem hookThrew_spec (r : InstanceRecord) (phase : HookPhase) (now : Int) :
    (r.hookThrew phase now).1.guards = (r.guards.recordError now).1 ∧
      (r.hookThrew phase now).1.queue = { waiting := r.queue.waiting, running := none } ∧
      .strategyError phase ∈ (r.hookThrew phase now).2 ∧
      .rejected ∉ (r.hookThrew phase now).2 := by
  obtain ⟨hguards, hqueue, hout⟩ := tripIf_spec
    { r with guards := (r.guards.recordError now).1 } (r.guards.recordError now).2
  refine ⟨hguards, congrArg InstanceQueue.done hqueue,
    List.mem_append_right _ List.mem_cons_self, fun hmem => ?_⟩
  · rcases List.mem_append.1 hmem with hmem | hmem
    · exact hout hmem
    · cases List.mem_singleton.1 hmem

/-- `callHook` catches what a hook throws. -/
theorem settle_hook {sha256 : List UInt8 → List UInt8} {r : InstanceRecord} {reply : Reply}
    {now : Int} {r' : InstanceRecord × List Output} {phase : HookPhase}
    (h : r.settle sha256 reply now = some r') (hfails : fails r reply = true)
    (hphase : hookPhase r = some phase) : r' = r.hookThrew phase now := by
  unfold hookPhase at hphase
  unfold fails at hfails
  unfold InstanceRecord.settle at h
  split at hphase
  · rename_i call hrun
    rw [hrun] at h hfails
    cases hphase
    cases reply with
    | threw => cases call <;> exact (Option.some.inj h).symm
    | _ => cases hfails
  · rename_i waiter hrun
    rw [hrun] at h hfails
    cases hphase
    cases reply with
    | threw => exact (Option.some.inj h).symm
    | _ => cases hfails
  · cases hphase

/-- Nobody catches the other failures. -/
theorem settle_rejects {sha256 : List UInt8 → List UInt8} {r : InstanceRecord}
    {reply : Reply} {now : Int} {r' : InstanceRecord × List Output}
    (h : r.settle sha256 reply now = some r') (hfails : fails r reply = true)
    (hphase : hookPhase r = none) : r' = r.fail := by
  unfold hookPhase at hphase
  unfold fails at hfails
  unfold InstanceRecord.settle at h
  cases hrun : r.queue.running with
  | none =>
      rw [hrun] at h
      cases reply <;> cases h
  | some running =>
      rw [hrun] at h hfails hphase
      cases running with
      | hook call => cases hphase
      | shutdown waiter => cases hphase
      | adapt result wallet =>
          cases reply with
          | threw => exact (Option.some.inj h).symm
          | transaction raw =>
              dsimp only at h hfails
              split at hfails
              · rename_i e hadapt
                rw [hadapt] at h
                exact (Option.some.inj h).symm
              · cases hfails
          | _ => cases hfails
      | barrier waiter =>
          cases reply with
          | threw => cases h
          | _ => cases hfails
      | _ =>
          cases reply with
          | threw => exact (Option.some.inj h).symm
          | _ => cases hfails

theorem decided_quiet (sha256 : List UInt8 → List UInt8) (r : InstanceRecord)
    (sig : Signal) (decision : TradeIntent) (now : Int) :
    .rejected ∉ (r.decided sha256 sig decision now).2 := by
  unfold InstanceRecord.decided
  obtain ⟨guards, trip⟩ := r.guards.recordDecision now
  cases trip with
  | some trip => exact (tripGuard_spec { r with guards := guards } trip).2.2
  | none =>
      dsimp only
      split
      · intro hmem
        cases List.mem_singleton.1 hmem
      · exact List.not_mem_nil

theorem realized_quiet (r : InstanceRecord) (rest : List LandedTrade) (wallet : PublicKey)
    (amount now : Int) : .rejected ∉ (r.realized rest wallet amount now).2 := by
  unfold InstanceRecord.realized
  obtain ⟨guards, trip⟩ := r.guards.recordRealized now amount
  cases trip with
  | some trip =>
      intro hmem
      rcases List.mem_cons.1 hmem with heq | hmem
      · cases heq
      · exact (tripGuard_spec { r with guards := guards } trip).2.2 hmem
  | none =>
      intro hmem
      cases List.mem_singleton.1 hmem

/-- Without a failure no task rejects. -/
theorem settle_quiet {sha256 : List UInt8 → List UInt8} {r : InstanceRecord}
    {reply : Reply} {now : Int} {r' : InstanceRecord × List Output}
    (h : r.settle sha256 reply now = some r') (hfails : fails r reply = false) :
    .rejected ∉ r'.2 := by
  have hthrew : reply ≠ .threw := by
    rintro rfl
    simp [fails] at hfails
  unfold InstanceRecord.settle at h
  split at h
  all_goals first | cases h; done | exact absurd rfl hthrew | skip
  · cases h
    exact List.not_mem_nil
  · cases h
    exact List.not_mem_nil
  · cases h
    exact decided_quiet _ _ _ _ _
  · cases h
    exact List.not_mem_nil
  · cases h
    exact List.not_mem_nil
  · cases h
    intro hmem
    cases List.mem_singleton.1 hmem
  · cases h
    exact List.not_mem_nil
  · rename_i result wallet raw hrun
    split at h
    · rename_i e hadapt
      simp [fails, hrun, hadapt] at hfails
    · cases h
      exact List.not_mem_nil
  · cases h
    intro hmem
    cases List.mem_singleton.1 hmem
  · cases h
    exact List.not_mem_nil
  · cases h
    exact realized_quiet _ _ _ _ _
  · cases h
    exact (tripIf_spec _ _).2.2

/-! ## One step -/

theorem startTask_quiet {r : InstanceRecord} {r' : InstanceRecord × List Output}
    (h : r.startTask = some r') : .rejected ∉ r'.2 := by
  unfold InstanceRecord.startTask at h
  split at h
  · cases h
  · rename_i task waiting _
    cases h
    cases task with
    | barrier waiter => exact List.not_mem_nil
    | _ =>
        intro hmem
        cases List.mem_singleton.1 hmem

theorem rejects_iff {rt rt' : StrategyRuntime} {ref : Nat} {rec : InstanceRecord}
    {r : InstanceRecord × List Output} (h : TaskStep rt rt' ref rec r) :
    (∀ e ∈ newEvents rt rt', e.output ≠ .rejected) ↔ .rejected ∉ r.2 := by
  rw [h.newEvents]
  constructor
  · intro hquiet hmem
    exact hquiet _ (List.mem_map_of_mem hmem) rfl
  · intro hquiet e he heq
    obtain ⟨o, ho, rfl⟩ := List.mem_map.1 he
    exact hquiet (heq ▸ ho)

/-- What a caught failure leaves. -/
theorem recorded_hookThrew {rt rt' : StrategyRuntime} {ref : Nat} {rec : InstanceRecord}
    {phase : HookPhase} {now : Int} (hphase : hookPhase rec = some phase)
    (h : TaskStep rt rt' ref rec (rec.hookThrew phase now)) :
    Recorded rt rt' ref rec now := by
  obtain ⟨hguards, hqueue, herror, -⟩ := hookThrew_spec rec phase now
  refine ⟨⟨_, h.own, hguards, hqueue⟩, ⟨phase, hphase, ?_⟩, fun ref' hne => h.other hne, ?_⟩
  · rw [h.newEvents]
    exact List.mem_map_of_mem herror
  · intro e he
    rw [h.newEvents] at he
    obtain ⟨o, -, rfl⟩ := List.mem_map.1 he
    rfl

theorem background_quiet {rt rt' : StrategyRuntime} (h : Background rt rt') :
    ∀ e ∈ newEvents rt rt', e.output ≠ .rejected := by
  obtain ⟨es, hes, hquiet⟩ := h.events
  rw [newEvents_of_eq hes]
  intro e he heq
  rw [hquiet e he] at heq
  cases heq

/-- A step contains its failure exactly if what fails is a hook. -/
theorem step_contains_iff {opts : StrategyRuntimeOpts} {rt rt' : StrategyRuntime}
    {a : Action} (h : step opts rt a = some rt') : Contains rt a rt' ↔ Caught rt a := by
  rcases step_cases h with ⟨howner, hback⟩ | ⟨ref, rec, r, howner, hr, hstep⟩
  · cases a with
    | startTask ref => cases howner
    | settle ref reply now => cases howner
    | _ => exact ⟨fun _ => trivial, fun _ => ⟨background_quiet hback, trivial⟩⟩
  · cases a with
    | startTask ref' =>
        refine ⟨fun _ => trivial, fun _ => ⟨?_, trivial⟩⟩
        exact (rejects_iff hstep).2 (startTask_quiet hr)
    | settle ref' reply now =>
        cases howner
        have hfound : rt.records[ref]? = some rec := hstep.found
        constructor
        · rintro ⟨hquiet, -⟩ rec' hrec' hfails
          rw [hfound] at hrec'
          cases hrec'
          cases hphase : hookPhase rec with
          | some phase => rfl
          | none =>
              have hfail := settle_rejects hr hfails hphase
              rw [rejects_iff hstep, hfail] at hquiet
              exact absurd List.mem_cons_self hquiet
        · intro hcaught
          cases hfails : fails rec reply with
          | false =>
              refine ⟨(rejects_iff hstep).2 (settle_quiet hr hfails), fun rec' hrec' hfails' => ?_⟩
              rw [hfound] at hrec'
              cases hrec'
              rw [hfails] at hfails'
              cases hfails'
          | true =>
              obtain ⟨phase, hphase⟩ := Option.isSome_iff_exists.1 (hcaught rec hfound hfails)
              have hthrew := settle_hook hr hfails hphase
              subst hthrew
              refine ⟨(rejects_iff hstep).2 (hookThrew_spec rec phase now).2.2.2,
                fun rec' hrec' _ => ?_⟩
              rw [hfound] at hrec'
              cases hrec'
              exact recorded_hookThrew hphase hstep
    | _ => cases howner

/-! ## The queue goes on -/

/-- How far a task still has to go.  The trades of a transaction come one by one. -/
def rank : Option Running → ℕ ×ₗ ℕ
  | none => toLex (0, 0)
  | some (.barrier _) => toLex (1, 0)
  | some (.shutdown _) => toLex (1, 0)
  | some (.positions _) => toLex (1, 0)
  | some (.realizedAfter rest _ _) => toLex (2, 3 * rest.length)
  | some (.apply _ rest _ _) => toLex (2, 3 * rest.length + 1)
  | some (.realizedBefore _ rest _) => toLex (2, 3 * rest.length + 2)
  | some (.adapt _ _) => toLex (3, 0)
  | some (.submit _ _) => toLex (4, 0)
  | some (.address _) => toLex (5, 0)
  | some (.hook _) => toLex (6, 0)

/-- A settled promise takes the task closer to its end and the queue nothing away. -/
def Advances (r r' : InstanceRecord) : Prop :=
  rank r'.queue.running < rank r.queue.running ∧ r'.queue.waiting = r.queue.waiting

theorem rank_fst_lt {m n k l : ℕ} (h : m < n) : toLex (m, k) < toLex (n, l) :=
  Prod.Lex.toLex_lt_toLex.2 (.inl h)

theorem rank_snd_lt {n k l : ℕ} (h : k < l) : toLex (n, k) < toLex (n, l) :=
  Prod.Lex.toLex_lt_toLex.2 (.inr ⟨rfl, h⟩)

theorem rank_none_lt (running : Running) : rank none < rank (some running) := by
  cases running <;> exact rank_fst_lt (by decide)

/-- A task that ends. -/
theorem advances_done {r r' : InstanceRecord} {running : Running}
    (hrun : r.queue.running = some running) (hqueue : r'.queue = r.queue.done) :
    Advances r r' := by
  unfold Advances
  rw [hqueue, hrun]
  exact ⟨rank_none_lt running, rfl⟩

theorem advances_decided (sha256 : List UInt8 → List UInt8) {r : InstanceRecord}
    {sig : Signal} (decision : TradeIntent) (now : Int)
    (hrun : r.queue.running = some (.hook (.onSignal sig))) :
    Advances r (r.decided sha256 sig decision now).1 := by
  unfold InstanceRecord.decided
  obtain ⟨guards, trip⟩ := r.guards.recordDecision now
  cases trip with
  | some trip =>
      exact advances_done hrun
        (congrArg InstanceQueue.done (tripGuard_spec { r with guards := guards } trip).2.1)
  | none =>
      unfold Advances
      dsimp only
      rw [hrun]
      split
      · exact ⟨rank_fst_lt (by decide), rfl⟩
      · exact ⟨rank_fst_lt (by decide), rfl⟩

theorem advances_nextTrade {r : InstanceRecord} {rest : List LandedTrade}
    (wallet : PublicKey) (hrank : toLex (2, 3 * rest.length) ≤ rank r.queue.running) :
    Advances r (r.nextTrade wallet rest) := by
  cases rest with
  | nil => exact ⟨(rank_fst_lt (by decide)).trans_le hrank, rfl⟩
  | cons trade rest =>
      refine ⟨(rank_snd_lt ?_).trans_le hrank, rfl⟩
      rw [List.length_cons]
      omega

theorem advances_realized {r : InstanceRecord} {rest : List LandedTrade}
    {wallet : PublicKey} {before : Int} (amount now : Int)
    (hrun : r.queue.running = some (.realizedAfter rest wallet before)) :
    Advances r (r.realized rest wallet amount now).1 := by
  unfold InstanceRecord.realized
  obtain ⟨guards, trip⟩ := r.guards.recordRealized now amount
  cases trip with
  | some trip =>
      exact advances_done hrun
        (congrArg InstanceQueue.done (tripGuard_spec { r with guards := guards } trip).2.1)
  | none =>
      have hrank : toLex (2, 3 * rest.length) ≤
          rank ({ r with guards := guards } : InstanceRecord).queue.running := by
        show _ ≤ rank r.queue.running
        rw [hrun]
        exact le_refl _
      exact advances_nextTrade wallet hrank

/-- One case for each promise a task may wait for. -/
theorem settle_advances {sha256 : List UInt8 → List UInt8} {r : InstanceRecord}
    {reply : Reply} {now : Int} {r' : InstanceRecord × List Output}
    (h : r.settle sha256 reply now = some r') : Advances r r'.1 := by
  have hthrew : ∀ {running : Running} (phase : HookPhase),
      r.queue.running = some running → Advances r (r.hookThrew phase now).1 :=
    fun phase hrun => advances_done hrun (hookThrew_spec r phase now).2.1
  unfold InstanceRecord.settle at h
  split at h
  all_goals first | cases h; done | skip
  · rename_i hrun
    cases h
    exact advances_done hrun rfl
  · rename_i hrun
    cases h
    exact advances_done hrun rfl
  · rename_i hrun
    cases h
    exact advances_decided sha256 _ now hrun
  · rename_i hrun
    cases h
    exact advances_done hrun rfl
  · rename_i hrun
    cases h
    exact hthrew _ hrun
  · rename_i hrun
    cases h
    exact advances_done hrun rfl
  · rename_i hrun
    cases h
    exact hthrew _ hrun
  · rename_i hrun
    cases h
    unfold Advances
    rw [hrun]
    exact ⟨rank_fst_lt (by decide), rfl⟩
  · rename_i hrun
    cases h
    unfold Advances
    rw [hrun]
    exact ⟨rank_fst_lt (by decide), rfl⟩
  · rename_i hrun
    split at h
    · cases h
      exact advances_done hrun rfl
    · rename_i trades _
      cases h
      cases trades with
      | nil => exact advances_done hrun rfl
      | cons trade rest =>
          unfold Advances
          rw [hrun]
          exact ⟨rank_fst_lt (by decide), rfl⟩
  · rename_i hrun
    cases h
    unfold Advances
    rw [hrun]
    exact ⟨rank_snd_lt (Nat.lt_succ_self _), rfl⟩
  · rename_i hrun
    cases h
    unfold Advances
    rw [hrun]
    exact ⟨rank_snd_lt (Nat.lt_succ_self _), rfl⟩
  · rename_i hrun
    cases h
    exact advances_realized _ now hrun
  · rename_i hrun
    cases h
    exact advances_done hrun (congrArg InstanceQueue.done (tripIf_spec r _).2.1)
  · rename_i hrun
    cases h
    exact advances_done hrun rfl

/-- Of the tasks that waited, `j` have been started, not more than `k`. -/
def StillWaits (ref k : Nat) (tasks : List Task) (left : ℕ ×ₗ ℕ ×ₗ ℕ)
    (rt : StrategyRuntime) : Prop :=
  ∃ rec j later, rt.records[ref]? = some rec ∧ j ≤ k ∧
    rec.queue.waiting = tasks.drop j ++ later ∧
    left = toLex (k - j, rank rec.queue.running)

/-- A step of the instance starts the task, or brings it closer. -/
theorem stillWaits_served {opts : StrategyRuntimeOpts} {rt rt' : StrategyRuntime}
    {a : Action} {ref k : Nat} {tasks : List Task} {left : ℕ ×ₗ ℕ ×ₗ ℕ}
    (hk : k < tasks.length) (h : StillWaits ref k tasks left rt)
    (hstep : step opts rt a = some rt') (howner : a.owner = some ref) :
    Starts ref k tasks rt a ∨ ∃ left' < left, StillWaits ref k tasks left' rt' := by
  obtain ⟨rec, j, later, hrec, hj, hwaiting, rfl⟩ := h
  rcases step_cases hstep with ⟨hnone, -⟩ | ⟨ref', rec', r, howner', hr, htask⟩
  · rw [howner] at hnone
    cases hnone
  rw [howner] at howner'
  cases howner'
  rw [htask.found] at hrec
  cases hrec
  cases a with
  | startTask ref' =>
      cases howner
      by_cases hjk : j = k
      · subst hjk
        exact .inl ⟨rfl, rec, later, htask.found, hwaiting⟩
      · -- the tasks before it are started one after the other
        right
        refine ⟨toLex (k - (j + 1), rank r.1.queue.running),
          Prod.Lex.toLex_lt_toLex.2 (.inl (by omega)),
          r.1, j + 1, later, htask.own, by omega, ?_, rfl⟩
        have hdrop := List.drop_eq_getElem_cons (show j < tasks.length by omega)
        have hstart : rec.startTask = some r := hr
        unfold InstanceRecord.startTask InstanceQueue.next at hstart
        rw [hwaiting, hdrop, List.cons_append] at hstart
        cases hrun : rec.queue.running with
        | some running =>
            rw [hrun] at hstart
            cases hstart
        | none =>
            rw [hrun] at hstart
            cases hstart
            cases tasks[j] <;> rfl
  | settle ref' reply now =>
      cases howner
      obtain ⟨hrank, hsame⟩ := settle_advances hr
      right
      exact ⟨toLex (k - j, rank r.1.queue.running),
        Prod.Lex.toLex_lt_toLex.2 (.inr ⟨rfl, hrank⟩),
        r.1, j, later, htask.own, hj, hsame.trans hwaiting, rfl⟩
  | _ => cases howner

/-- The other steps leave it where it is. -/
theorem stillWaits_other {opts : StrategyRuntimeOpts} {rt rt' : StrategyRuntime}
    {a : Action} {ref k : Nat} {tasks : List Task} {left : ℕ ×ₗ ℕ ×ₗ ℕ}
    (h : StillWaits ref k tasks left rt) (hstep : step opts rt a = some rt')
    (howner : a.owner ≠ some ref) :
    StillWaits ref k tasks left rt' := by
  obtain ⟨rec, j, later, hrec, hj, hwaiting, rfl⟩ := h
  rcases step_cases hstep with ⟨-, hback⟩ | ⟨ref', rec', r, howner', -, htask⟩
  · obtain ⟨rec', hrec', henq⟩ := hback.records ref rec hrec
    obtain ⟨more, hmore⟩ := henq.waiting
    refine ⟨rec', j, later ++ more, hrec', hj, ?_, ?_⟩
    · rw [hmore, hwaiting, List.append_assoc]
    · rw [henq.running]
  · have hne : ref ≠ ref' := fun heq => howner (heq ▸ howner')
    exact ⟨rec, j, later, (htask.other hne).trans hrec, hj, hwaiting, rfl⟩

/-- Whatever fails, a task that waits is started at some time. -/
theorem eventually_starts {opts : StrategyRuntimeOpts} {f : ℕ → StrategyRuntime}
    {a : ℕ → Action} (hrun : Endless (step opts) f a) {ref : Nat} (hserved : Served f a ref)
    {n k : Nat} {rec : InstanceRecord} (hrec : (f n).records[ref]? = some rec)
    (hk : k < rec.queue.waiting.length) :
    ∃ m, n ≤ m ∧ Starts ref k rec.queue.waiting (f m) (a m) := by
  apply hrun.response (StillWaits ref k rec.queue.waiting) (fun b => b.owner = some ref)
    (Starts ref k rec.queue.waiting)
  · exact fun _ _ _ _ hwaits hstep howner => stillWaits_served hk hwaits hstep howner
  · exact fun _ _ _ _ hwaits hstep howner => stillWaits_other hwaits hstep howner
  · rintro left i ⟨rec', j, later, hrec', hj, hwaiting, -⟩
    have hsome : rec'.queue.waiting ≠ [] := by
      rw [hwaiting, ← List.length_pos_iff, List.length_append, List.length_drop]
      omega
    obtain ⟨m, hm, howner⟩ := hserved i rec' hrec' (.inr hsome)
    exact ⟨m, hm, .inl howner⟩
  · exact ⟨rec, 0, [], hrec, Nat.zero_le k, (List.append_nil _).symm, rfl⟩

/-! ## Runs -/

theorem contains_iff_caught (opts : StrategyRuntimeOpts) (acts : List Action) :
    Along (step opts) Contains {} acts ↔
      Along (step opts) (fun rt a _ => Caught rt a) {} acts := by
  apply along_iff_of_inv fun _ => True
  · exact fun _ _ _ _ hstep => step_contains_iff hstep
  · exact fun _ _ _ _ _ _ => trivial
  · trivial

/-- Every failure of a run is recorded with its instance and none rejects a task exactly
if only hooks fail.  Whatever fails, the tasks that wait are started one after the
other, of every instance whose promises settle. -/
theorem tasks_contain_failures (opts : StrategyRuntimeOpts) :
    (∀ acts : List Action, Along (step opts) Contains {} acts ↔
      Along (step opts) (fun rt a _ => Caught rt a) {} acts) ∧
    ∀ (f : ℕ → StrategyRuntime) (a : ℕ → Action), Endless (step opts) f a →
      ∀ ref, Served f a ref → ∀ (n k : Nat) (rec : InstanceRecord),
        (f n).records[ref]? = some rec → k < rec.queue.waiting.length →
          ∃ m, n ≤ m ∧ Starts ref k rec.queue.waiting (f m) (a m) := by
  constructor
  · exact contains_iff_caught opts
  · intro f a hrun ref hserved n k rec hrec hk
    exact eventually_starts hrun hserved hrec hk

/-! ## Two failures -/

section Failures

def lenientOpts : StrategyRuntimeOpts := { sha256 := fun _ => [] }

def sniper : Strategy := { name := "sniper", filters := [{}] }

def launch (signalId : String) : Signal :=
  { signalId := signalId, programId := .ofByte 9, kind := "pool-created" }

/-- The first of two hooks throws. -/
def hookThrows : List Action :=
  [.start, .register sniper none 0, .signal (launch "sig-1"), .signal (launch "sig-2"),
    .startTask 0, .settle 0 .threw 1, .startTask 0, .settle 0 (.decided none) 2]

/-- Nothing happens after it. -/
def hookThrowsActs (n : ℕ) : Action := (hookThrows[n]?).getD (.pause "nobody")

def hookThrowsRun : ℕ → StrategyRuntime
  | 0 => {}
  | n + 1 => (step lenientOpts (hookThrowsRun n) (hookThrowsActs n)).getD (hookThrowsRun n)

theorem hookThrowsActs_after {n : ℕ} (h : 8 ≤ n) : hookThrowsActs n = .pause "nobody" := by
  unfold hookThrowsActs
  rw [List.getElem?_eq_none h]
  rfl

theorem endless_hookThrowsRun : Endless (step lenientOpts) hookThrowsRun hookThrowsActs := by
  intro n
  have hsome : (step lenientOpts (hookThrowsRun n) (hookThrowsActs n)).isSome = true := by
    by_cases hn : n < 8
    · interval_cases n <;> decide +kernel
    · rw [hookThrowsActs_after (by omega)]
      rfl
  obtain ⟨rt, hrt⟩ := Option.isSome_iff_exists.1 hsome
  rw [hookThrowsRun, hrt]
  rfl

/-- The queue is empty in the end. -/
theorem hookThrowsRun_after {n : ℕ} (h : 8 ≤ n) : hookThrowsRun n = hookThrowsRun 8 := by
  induction n, h using Nat.le_induction with
  | base => rfl
  | succ n hn ih =>
      have hnobody : (hookThrowsRun 8).instances.get? "nobody" = none := by decide +kernel
      rw [hookThrowsRun, hookThrowsActs_after hn, ih]
      show pause (hookThrowsRun 8) "nobody" = _
      unfold pause setQuarantined
      rw [hnobody]

theorem served_hookThrowsRun : Served hookThrowsRun hookThrowsActs 0 := by
  intro n rec hrec hbusy
  by_cases hn : n < 8
  · exact ⟨7, Nat.le_of_lt_succ hn, rfl⟩
  · rw [hookThrowsRun_after (Nat.le_of_not_lt hn)] at hrec
    have hidle : ∀ rec ∈ (hookThrowsRun 8).records[0]?,
        rec.queue.running = none ∧ rec.queue.waiting = [] := by decide +kernel
    obtain ⟨hrun, hwaiting⟩ := hidle rec hrec
    exact (hbusy.elim (· hrun) (· hwaiting)).elim

/-- The failure of the first hook is contained, and the second task is started. -/
theorem tasks_contain_hookThrows :
    Along (step lenientOpts) Contains {} hookThrows ∧
      ∃ rec m, (hookThrowsRun 4).records[0]? = some rec ∧
        Starts 0 1 rec.queue.waiting (hookThrowsRun m) (hookThrowsActs m) := by
  obtain ⟨hfinite, hendless⟩ := tasks_contain_failures lenientOpts
  constructor
  · exact (hfinite hookThrows).2 (by decide +kernel)
  · have hwaits : ∃ rec, (hookThrowsRun 4).records[0]? = some rec ∧
        1 < rec.queue.waiting.length := by decide +kernel
    obtain ⟨rec, hrec, hk⟩ := hwaits
    obtain ⟨m, -, hstarts⟩ := hendless hookThrowsRun hookThrowsActs endless_hookThrowsRun 0
      served_hookThrowsRun 4 1 rec hrec hk
    exact ⟨rec, m, hrec, hstarts⟩

def snipe : TradeIntent :=
  { intentId := "", wallet := "hot", instructions := [], feeTier := .med, deadline := 60000 }

/-- The hook decides, the wallet is known, and `executor.submit` rejects. -/
def submitThrows : List Action :=
  [.start, .register sniper none 0, .signal (launch "sig-1"), .startTask 0,
    .settle 0 (.decided (some snipe)) 1, .settle 0 (.address (.ofByte 7)) 2,
    .settle 0 .threw 3]

/-- The task rejects, and nothing is recorded. -/
theorem submitThrows_rejects :
    (∃ rt, exec (step lenientOpts) {} submitThrows = some rt ∧
      rt.events =
        [.hook (.onSignal (launch "sig-1")), .submit snipe, .rejected].map (Event.mk 0)) ∧
      ¬ Along (step lenientOpts) Contains {} submitThrows := by
  constructor
  · decide +kernel
  · rw [contains_iff_caught]
    decide +kernel

end Failures

end Ap3xSolana.Strategies.Containment
