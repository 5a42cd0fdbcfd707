import Ap3xSolana.Lib.Run
import Ap3xSolana.Strategies.RuntimeSteps

/-!
# After `onShutdown` and `deregister`

An instance is closed once its `onShutdown` has started or a `deregister` of it has
resolved.  A closed instance stays silent as long as its queue holds nothing but drain
barriers when it is closed, and nothing is enqueued for it afterwards (`Calm`).
-/

namespace Ap3xSolana.Strategies.Shutdown

open Ap3xSolana.Core Ap3xSolana.Executor Ap3xSolana.Lib Ap3xSolana.Lib.Run
open Ap3xSolana.Portfolio Ap3xSolana.Strategies.Guards Ap3xSolana.Strategies.Runtime

/-! ## The property -/

/-- A hook is invoked or a submission is started. -/
def runs : Output → Bool
  | .hook _ => true
  | .submit _ => true
  | _ => false

/-- `onShutdown` of the instance has started, or a `deregister` of it has resolved. -/
def Closed (rt : StrategyRuntime) (ref : Nat) : Prop :=
  { ref := ref, output := .hook .onShutdown } ∈ rt.events ∨
    ∃ d ∈ rt.deregistrations, d.ref = ref ∧ d.stage = .removed

instance decidableClosed (rt : StrategyRuntime) (ref : Nat) : Decidable (Closed rt ref) :=
  inferInstanceAs (Decidable (_ ∨ _))

/-- The step runs nothing of a closed instance, and nothing after the `onShutdown` that
closes it. -/
def NothingRuns (rt rt' : StrategyRuntime) : Prop :=
  (∀ e ∈ newEvents rt rt', Closed rt e.ref → runs e.output = false) ∧
    (newEvents rt rt').Pairwise fun x y =>
      x.output = .hook .onShutdown → x.ref = y.ref → runs y.output = false

instance decidableNothingRuns (rt rt' : StrategyRuntime) : Decidable (NothingRuns rt rt') :=
  inferInstanceAs (Decidable (_ ∧ _))

/-! ## The condition -/

def isBarrier : Task → Bool
  | .barrier _ => true
  | _ => false

/-- Only drain barriers wait in the queue. -/
def Drained (rec : InstanceRecord) : Prop := ∀ task ∈ rec.queue.waiting, isBarrier task = true

/-- A promise whose task has nothing left to run. -/
def isOver : Running → Bool
  | .barrier _ => true
  | .shutdown _ => true
  | _ => false

/-- Nothing but drain barriers and an `onShutdown` that has started is left. -/
def Rests (rec : InstanceRecord) : Prop :=
  Drained rec ∧ ∀ running ∈ rec.queue.running, isOver running = true

instance decidableDrained (rec : InstanceRecord) : Decidable (Drained rec) :=
  inferInstanceAs (Decidable (∀ task ∈ rec.queue.waiting, isBarrier task = true))

instance decidableRests (rec : InstanceRecord) : Decidable (Rests rec) :=
  inferInstanceAs (Decidable (_ ∧ _))

/-- The guard that trips when the running task goes on. -/
def guardTrip (rec : InstanceRecord) (reply : Reply) (now : Int) : Option GuardTrip :=
  match rec.queue.running, reply with
  | some (.hook (.onSignal _)), .decided (some _) => (rec.guards.recordDecision now).2
  | some (.hook _), .threw => (rec.guards.recordError now).2
  | some (.shutdown _), .threw => (rec.guards.recordError now).2
  | some (.realizedAfter _ _ before), .realized after =>
      (rec.guards.recordRealized now (after - before)).2
  | some (.positions _), .positions ps =>
      rec.guards.checkOpenPositions (ps.filter (·.isOpen)).length
  | _, _ => none

/-- The trip calls `onShutdown` beside the queue. -/
def tripsShutdown (rec : InstanceRecord) (reply : Reply) (now : Int) : Bool :=
  (guardTrip rec reply now).isSome && !rec.quarantined && rec.strategy.hasOnShutdown

/-- The hook tasks that an event means for an instance. -/
def hookTasks (rt : StrategyRuntime) (a : Action) (rec : InstanceRecord) : List Task :=
  match a with
  | .signal sig => if matchesAny rec.strategy.filters sig then [.hook (.onSignal sig)] else []
  | .executionResult result =>
      if 0 < rt.resultListeners ∧ rec.strategy.hasOnExecutionResult then
        [.hook (.onExecutionResult result)]
      else []
  | .positionChange change =>
      if 0 < rt.changeListeners then
        (if rec.strategy.hasOnPositionChange then [.hook (.onPositionChange change)] else []) ++
          balanceTasks change ((change.before.map fun p => Accounting.totalAmount p.lots).getD 0)
            (Accounting.totalAmount change.after.lots) rec
      else []
  | .tick _ now => if rec.strategy.hasOnTick then [.hook (.onTick now)] else []
  | _ => []

/-- Nothing but drain barriers waits behind an `onShutdown` that starts next. -/
def ShutdownLast (rec : InstanceRecord) : Prop :=
  match rec.queue.waiting with
  | .shutdown _ :: waiting => ∀ task ∈ waiting, isBarrier task = true
  | _ => True

instance decidableShutdownLast (rec : InstanceRecord) : Decidable (ShutdownLast rec) := by
  unfold ShutdownLast
  split <;> infer_instance

/-- The condition on a step of the `deregister` call `d`: no second `onShutdown` is
enqueued, and nothing is left to run when the call resolves. -/
def CalmDeregister (rt : StrategyRuntime) (d : Deregistration) (rec : InstanceRecord) : Prop :=
  if d.stage = .drained ∧ rec.strategy.hasOnShutdown then ¬ Closed rt d.ref else Rests rec

instance decidableCalmDeregister (rt : StrategyRuntime) (d : Deregistration)
    (rec : InstanceRecord) : Decidable (CalmDeregister rt d rec) := by
  unfold CalmDeregister
  split <;> infer_instance

/-- Nothing but drain barriers waits behind what closes an instance, and a closed
instance is sent nothing. -/
def Calm (rt : StrategyRuntime) (a : Action) : Prop :=
  match a with
  | .startTask ref => ∀ rec ∈ rt.records[ref]?, ShutdownLast rec
  | .settle ref reply now =>
      ∀ rec ∈ rt.records[ref]?, tripsShutdown rec reply now = true →
        Drained rec ∧ ¬ Closed rt ref
  | .deregisterNext call =>
      ∀ d ∈ rt.deregistrations[call]?, ∀ rec ∈ rt.records[d.ref]?, CalmDeregister rt d rec
  | _ =>
      ∀ ref ∈ rt.instances.values, Closed rt ref → ∀ rec ∈ rt.records[ref]?,
        rec.quarantined = true ∨ hookTasks rt a rec = []

instance decidableCalm (rt : StrategyRuntime) (a : Action) : Decidable (Calm rt a) :=
  match a with
  | .startTask ref =>
      inferInstanceAs (Decidable (∀ rec ∈ rt.records[ref]?, ShutdownLast rec))
  | .settle ref reply now =>
      inferInstanceAs (Decidable (∀ rec ∈ rt.records[ref]?,
        tripsShutdown rec reply now = true → Drained rec ∧ ¬ Closed rt ref))
  | .deregisterNext call =>
      inferInstanceAs (Decidable (∀ d ∈ rt.deregistrations[call]?,
        ∀ rec ∈ rt.records[d.ref]?, CalmDeregister rt d rec))
  | .register .. | .deregister .. | .start | .stop | .pause .. | .resume .. | .signal .. |
      .executionResult .. | .positionChange .. | .tick .. =>
      inferInstanceAs (Decidable (∀ ref ∈ rt.instances.values, Closed rt ref →
        ∀ rec ∈ rt.records[ref]?, rec.quarantined = true ∨ hookTasks rt _ rec = []))

/-! ## What one step of a task does -/

/-- What a settled promise may do to its instance.  `onShutdown` is called only by a
trip, which ends the task, and nothing runs after it. -/
structure SettleSpec (r : InstanceRecord) (trips : Bool)
    (r' : InstanceRecord × List Output) : Prop where
  waiting : r'.1.queue.waiting = r.queue.waiting
  ordered : r'.2.Pairwise fun o o' => o = .hook .onShutdown → runs o' = false
  closes : .hook .onShutdown ∈ r'.2 → trips = true ∧ r'.1.queue.running = none

theorem settleSpec_quiet {r r' : InstanceRecord} {trips : Bool} {out : List Output}
    (hwaiting : r'.queue.waiting = r.queue.waiting)
    (hout : Output.hook .onShutdown ∉ out) : SettleSpec r trips (r', out) where
  waiting := hwaiting
  ordered := List.pairwise_of_forall_mem_list fun _ ho _ _ heq =>
    absurd (heq ▸ ho) hout
  closes hmem := absurd hmem hout

/-- A task that a trip ends. -/
theorem settleSpec_tripGuard (r r' : InstanceRecord) {trips : Bool} (trip : GuardTrip)
    (before after : List Output) (hwaiting : r'.queue.waiting = r.queue.waiting)
    (htrips : r'.quarantined = false → r'.strategy.hasOnShutdown = true → trips = true)
    (hbefore : Output.hook .onShutdown ∉ before)
    (hafter : ∀ o ∈ after, runs o = false) :
    SettleSpec r trips ((r'.tripGuard trip).1.done,
      before ++ ((r'.tripGuard trip).2 ++ after)) := by
  have hquiet : Output.hook .onShutdown ∉ after := fun hmem => by
    have hruns := hafter _ hmem
    cases hruns
  unfold InstanceRecord.tripGuard
  cases hq : r'.quarantined with
  | true =>
      apply settleSpec_quiet
      · exact hwaiting
      · rw [List.mem_append, List.mem_append]
        rintro (hmem | hmem | hmem)
        · exact hbefore hmem
        · cases hmem
        · exact hquiet hmem
  | false =>
      cases hhook : r'.strategy.hasOnShutdown with
      | false =>
          apply settleSpec_quiet
          · exact hwaiting
          · rw [List.mem_append, List.mem_append]
            rintro (hmem | hmem | hmem)
            · exact hbefore hmem
            · cases List.mem_singleton.1 hmem
            · exact hquiet hmem
      | true =>
          refine ⟨hwaiting, ?_, fun _ => ⟨htrips hq hhook, rfl⟩⟩
          rw [List.pairwise_append, List.pairwise_append]
          refine ⟨?_, ⟨?_, ?_, fun _ _ o' ho' _ => hafter o' ho'⟩, fun o ho _ _ heq => ?_⟩
          · exact List.pairwise_of_forall_mem_list fun _ ho _ _ heq =>
              absurd (heq ▸ ho) hbefore
          · apply List.Pairwise.cons
            · intro _ _ heq
              cases heq
            · exact List.pairwise_singleton _ _
          · exact List.pairwise_of_forall_mem_list fun _ _ o' ho' _ => hafter o' ho'
          · exact absurd (heq ▸ ho) hbefore

/-- A task that ends with a check of the guards. -/
theorem settleSpec_tripIf (r r' : InstanceRecord) {trips : Bool} (trip : Option GuardTrip)
    (after : List Output) (hwaiting : r'.queue.waiting = r.queue.waiting)
    (htrips : trip.isSome = true → r'.quarantined = false →
      r'.strategy.hasOnShutdown = true → trips = true)
    (hafter : ∀ o ∈ after, runs o = false) :
    SettleSpec r trips ((r'.tripIf trip).1.done, (r'.tripIf trip).2 ++ after) := by
  cases trip with
  | none =>
      apply settleSpec_quiet
      · exact hwaiting
      · intro hmem
        have hruns := hafter _ hmem
        cases hruns
  | some trip =>
      exact settleSpec_tripGuard r r' trip [] after hwaiting (htrips rfl)
        List.not_mem_nil hafter

theorem settleSpec_hookThrew {r : InstanceRecord} {trips : Bool} (phase : HookPhase)
    {now : Int} (htrips : (r.guards.recordError now).2.isSome = true →
      r.quarantined = false → r.strategy.hasOnShutdown = true → trips = true) :
    SettleSpec r trips (r.hookThrew phase now) := by
  have hafter : ∀ o ∈ [Output.strategyError phase], runs o = false := by
    intro o ho
    rw [List.mem_singleton.1 ho]
    rfl
  exact settleSpec_tripIf r { r with guards := (r.guards.recordError now).1 }
    (r.guards.recordError now).2 _ rfl htrips hafter

/-- One case for each promise a task may wait for. -/
theorem settle_spec {sha256 : List UInt8 → List UInt8} {r : InstanceRecord} {reply : Reply}
    {now : Int} {r' : InstanceRecord × List Output}
    (h : r.settle sha256 reply now = some r') :
    SettleSpec r (tripsShutdown r reply now) r' := by
  have hmem : Output.hook .onShutdown ∉ ([] : List Output) := List.not_mem_nil
  have hfail : SettleSpec r (tripsShutdown r reply now) r.fail :=
    settleSpec_quiet rfl (by simp)
  have htrips : (guardTrip r reply now).isSome = true → r.quarantined = false →
      r.strategy.hasOnShutdown = true → tripsShutdown r reply now = true := by
    intro htrip hq hhook
    unfold tripsShutdown
    rw [htrip, hq, hhook]
    rfl
  unfold InstanceRecord.settle at h
  split at h
  all_goals first | cases h | skip
  · exact settleSpec_quiet rfl hmem
  · exact settleSpec_quiet rfl hmem
  · rename_i sig decision hrun
    simp only [guardTrip, hrun] at htrips
    unfold InstanceRecord.decided
    generalize hrecorded : r.guards.recordDecision now = recorded at htrips ⊢
    obtain ⟨guards, _ | trip⟩ := recorded
    · dsimp only
      split
      · exact settleSpec_quiet rfl (by simp)
      · exact settleSpec_quiet rfl hmem
    · have hspec := settleSpec_tripGuard r { r with guards := guards } trip [] [] rfl
        (htrips rfl) hmem (List.forall_mem_nil _)
      rw [List.append_nil] at hspec
      exact hspec
  · exact settleSpec_quiet rfl hmem
  · rename_i call hrun
    apply settleSpec_hookThrew
    simp only [guardTrip, hrun] at htrips
    exact htrips
  · exact settleSpec_quiet rfl hmem
  · rename_i waiter hrun
    apply settleSpec_hookThrew
    simp only [guardTrip, hrun] at htrips
    exact htrips
  · exact settleSpec_quiet rfl (by simp)
  · exact settleSpec_quiet rfl hmem
  · split at h
    · cases h
      exact hfail
    · rename_i trades _
      cases h
      cases trades with
      | nil => exact settleSpec_quiet rfl hmem
      | cons trade trades => exact settleSpec_quiet rfl hmem
  · exact settleSpec_quiet rfl (by simp)
  · exact settleSpec_quiet rfl hmem
  · rename_i rest wallet before after hrun
    simp only [guardTrip, hrun] at htrips
    unfold InstanceRecord.realized
    generalize r.guards.recordRealized now (after - before) = recorded at htrips ⊢
    obtain ⟨guards, _ | trip⟩ := recorded
    · cases rest with
      | nil => exact settleSpec_quiet rfl (by simp)
      | cons trade rest => exact settleSpec_quiet rfl (by simp)
    · have hspec := settleSpec_tripGuard r { r with guards := guards } trip
        [.recordRealized (after - before)] [] rfl (htrips rfl) (by simp)
        (List.forall_mem_nil _)
      rw [List.append_nil] at hspec
      exact hspec
  · rename_i wallet ps hrun
    simp only [guardTrip, hrun] at htrips
    have hspec := settleSpec_tripIf r r
      (r.guards.checkOpenPositions (ps.filter (·.isOpen)).length) [] rfl htrips
      (List.forall_mem_nil _)
    rw [List.append_nil] at hspec
    exact hspec
  · exact hfail

/-- What is left of a closed instance runs nothing when it goes on. -/
theorem settle_rests {sha256 : List UInt8 → List UInt8} {r : InstanceRecord}
    {reply : Reply} {now : Int} {r' : InstanceRecord × List Output}
    (h : r.settle sha256 reply now = some r')
    (hover : ∀ running ∈ r.queue.running, isOver running = true)
    (htrips : tripsShutdown r reply now = false) :
    r'.1.queue.running = none ∧ ∀ o ∈ r'.2, runs o = false := by
  cases hrun : r.queue.running with
  | none =>
      unfold InstanceRecord.settle at h
      rw [hrun] at h
      cases reply <;> cases h
  | some running =>
      have hisOver := hover running hrun
      cases running with
      | barrier waiter =>
          unfold InstanceRecord.settle at h
          rw [hrun] at h
          cases reply <;> cases h
          exact ⟨rfl, List.forall_mem_nil _⟩
      | shutdown waiter =>
          unfold InstanceRecord.settle at h
          rw [hrun] at h
          cases reply <;> cases h
          · unfold tripsShutdown guardTrip at htrips
            rw [hrun] at htrips
            unfold InstanceRecord.hookThrew
            dsimp only at htrips ⊢
            generalize r.guards.recordError now = recorded at htrips ⊢
            obtain ⟨guards, _ | trip⟩ := recorded
            · exact ⟨rfl, by simp [InstanceRecord.tripIf, runs]⟩
            · refine ⟨rfl, ?_⟩
              simp only [InstanceRecord.tripIf, InstanceRecord.tripGuard]
              cases hq : r.quarantined with
              | true => simp [runs]
              | false =>
                  cases hhook : r.strategy.hasOnShutdown with
                  | true => simp [hq, hhook] at htrips
                  | false => simp [runs]
          · exact ⟨rfl, List.forall_mem_nil _⟩
      | _ => cases hisOver

/-! ## The invariant -/

structure Inv (rt : StrategyRuntime) : Prop where
  /-- A closed instance has nothing left to run. -/
  rests : ∀ ref, Closed rt ref → ∃ rec, rt.records[ref]? = some rec ∧ Rests rec
  /-- `onShutdown` is enqueued by `deregister` only. -/
  plain : ∀ (ref : Nat) (rec : InstanceRecord), rt.records[ref]? = some rec →
    Task.hook .onShutdown ∉ rec.queue.waiting
  instances : ∀ ref ∈ rt.instances.values, ref < rt.records.length
  deregistrations : ∀ d ∈ rt.deregistrations, d.ref < rt.records.length

theorem inv_init : Inv {} where
  rests ref h := by
    rcases h with h | ⟨d, hd, -⟩
    · cases h
    · cases hd
  plain ref rec h := by simp at h
  instances ref h := by cases h
  deregistrations d h := by cases h

/-- Steps outside the tasks put out nothing that counts. -/
theorem nothingRuns_of_quiet {rt rt' : StrategyRuntime}
    (h : ∀ e ∈ newEvents rt rt', runs e.output = false) : NothingRuns rt rt' :=
  ⟨fun e he _ => h e he, List.pairwise_of_forall_mem_list fun _ _ y hy _ _ => h y hy⟩

theorem nothingRuns_of_events {rt rt' : StrategyRuntime} (h : rt'.events = rt.events) :
    NothingRuns rt rt' := by
  apply nothingRuns_of_quiet
  rw [newEvents_of_eq (h.trans (List.append_nil _).symm)]
  exact List.forall_mem_nil _

/-- Records are only sent tasks: the closed ones drain barriers, nobody `onShutdown`. -/
structure Sends (rt rt' : StrategyRuntime) : Prop where
  events : rt'.events = rt.events
  closed : ∀ ref, Closed rt' ref → Closed rt ref
  length : rt.records.length ≤ rt'.records.length
  rests : ∀ (ref : Nat) (rec : InstanceRecord), Closed rt ref →
    rt.records[ref]? = some rec → Rests rec →
      ∃ rec', rt'.records[ref]? = some rec' ∧ Rests rec'
  plain : ∀ (ref : Nat) (rec : InstanceRecord), rt'.records[ref]? = some rec →
    Task.hook .onShutdown ∈ rec.queue.waiting →
      ∃ rec₀ : InstanceRecord, rt.records[ref]? = some rec₀ ∧
        Task.hook .onShutdown ∈ rec₀.queue.waiting

theorem Inv.sends {rt rt' : StrategyRuntime} (h : Inv rt) (hsends : Sends rt rt')
    (hinstances : ∀ ref ∈ rt'.instances.values, ref < rt'.records.length)
    (hderegistrations : ∀ d ∈ rt'.deregistrations, d.ref < rt'.records.length) :
    Inv rt' where
  rests ref hclosed := by
    have hclosed := hsends.closed ref hclosed
    obtain ⟨rec, hrec, hrests⟩ := h.rests ref hclosed
    exact hsends.rests ref rec hclosed hrec hrests
  plain ref rec hrec hmem := by
    obtain ⟨rec₀, hrec₀, hmem₀⟩ := hsends.plain ref rec hrec hmem
    exact h.plain ref rec₀ hrec₀ hmem₀
  instances := hinstances
  deregistrations := hderegistrations

/-! ## Dispatch -/

theorem enqueueAll_waiting (tasks : List Task) (rec : InstanceRecord) :
    (tasks.foldl (·.enqueue ·) rec).queue.waiting = rec.queue.waiting ++ tasks := by
  induction tasks generalizing rec with
  | nil => exact (List.append_nil _).symm
  | cons task tasks ih =>
      rw [List.foldl_cons, ih]
      show rec.queue.waiting ++ [task] ++ tasks = _
      rw [List.append_assoc]
      rfl

/-- What a dispatch does to the record of one instance. -/
def sent (tasks : InstanceRecord → List Task) (rec : InstanceRecord) : InstanceRecord :=
  if rec.quarantined then rec else (tasks rec).foldl (·.enqueue ·) rec

theorem dispatch_eq (rt : StrategyRuntime) (tasks : InstanceRecord → List Task) :
    dispatch rt tasks = rt.instances.values.foldl
      (fun rt ref => modifyRecord rt ref (sent tasks)) rt := rfl

/-- `events` and the like do not change, and every record is sent its tasks some number
of times. -/
theorem foldl_sent (tasks : InstanceRecord → List Task) (refs : List Nat)
    (rt : StrategyRuntime) :
    ∃ records : List InstanceRecord,
      refs.foldl (fun rt ref => modifyRecord rt ref (sent tasks)) rt =
        { rt with records := records } ∧
      records.length = rt.records.length ∧
      (∀ (ref : Nat) (rec : InstanceRecord), rt.records[ref]? = some rec →
        (ref ∈ refs → sent tasks rec = rec) → records[ref]? = some rec) ∧
      ∀ (ref : Nat) (rec : InstanceRecord), records[ref]? = some rec →
        ∃ n rec₀, rt.records[ref]? = some rec₀ ∧ rec = (sent tasks)^[n] rec₀ := by
  induction refs generalizing rt with
  | nil => exact ⟨rt.records, rfl, rfl, fun _ _ h _ => h, fun ref rec h => ⟨0, rec, h, rfl⟩⟩
  | cons r refs ih =>
      obtain ⟨records, heq, hlen, hkept, hfrom⟩ := ih (modifyRecord rt r (sent tasks))
      refine ⟨records, heq, hlen.trans (List.length_modify _ _ _), fun ref rec hrec hsame => ?_,
        fun ref rec hrec => ?_⟩
      · apply hkept
        · show (rt.records.modify r (sent tasks))[ref]? = some rec
          rw [List.getElem?_modify, hrec]
          show some (if r = ref then sent tasks rec else rec) = some rec
          by_cases hr : r = ref
          · rw [if_pos hr, hsame (hr ▸ List.mem_cons_self)]
          · rw [if_neg hr]
        · exact fun hmem => hsame (List.mem_cons_of_mem _ hmem)
      · obtain ⟨n, rec₁, hrec₁, rfl⟩ := hfrom ref rec hrec
        have hmod : (rt.records.modify r (sent tasks))[ref]? = some rec₁ := hrec₁
        rw [List.getElem?_modify] at hmod
        obtain ⟨rec₀, hrec₀, hrec₁⟩ := Option.map_eq_some_iff.1 hmod
        by_cases hr : r = ref
        · rw [if_pos hr] at hrec₁
          subst hrec₁
          exact ⟨n + 1, rec₀, hrec₀, rfl⟩
        · rw [if_neg hr] at hrec₁
          subst hrec₁
          exact ⟨n, rec₀, hrec₀, rfl⟩

/-- The tasks of a dispatch reach no closed instance, and none is `onShutdown`. -/
structure Reaches (rt : StrategyRuntime) (tasks : InstanceRecord → List Task) : Prop where
  closed : ∀ ref ∈ rt.instances.values, Closed rt ref → ∀ rec ∈ rt.records[ref]?,
    rec.quarantined = true ∨ tasks rec = []
  plain : ∀ rec, Task.hook .onShutdown ∉ tasks rec

theorem sent_eq_self {tasks : InstanceRecord → List Task} {rec : InstanceRecord}
    (h : rec.quarantined = true ∨ tasks rec = []) : sent tasks rec = rec := by
  unfold sent
  rcases h with hq | hnil
  · rw [if_pos hq]
  · rw [hnil]
    split <;> rfl

theorem sent_plain {tasks : InstanceRecord → List Task}
    (hplain : ∀ rec, Task.hook .onShutdown ∉ tasks rec) {rec : InstanceRecord} {n : ℕ}
    (h : Task.hook .onShutdown ∈ ((sent tasks)^[n] rec).queue.waiting) :
    Task.hook .onShutdown ∈ rec.queue.waiting := by
  induction n generalizing rec with
  | zero => exact h
  | succ n ih =>
      have hsent := ih h
      unfold sent at hsent
      split at hsent
      · exact hsent
      · rw [enqueueAll_waiting] at hsent
        exact (List.mem_append.1 hsent).resolve_right (hplain rec)

theorem closed_of_eq {rt rt' : StrategyRuntime} (he : rt'.events = rt.events)
    (hd : rt'.deregistrations = rt.deregistrations) (ref : Nat) :
    Closed rt' ref ↔ Closed rt ref := by
  unfold Closed
  rw [he, hd]

/-- A dispatch keeps the invariant, and can be repeated. -/
theorem Inv.dispatch {rt : StrategyRuntime} (h : Inv rt)
    {tasks : InstanceRecord → List Task} (hreaches : Reaches rt tasks) :
    Inv (dispatch rt tasks) ∧ Reaches (dispatch rt tasks) tasks ∧
      (dispatch rt tasks).events = rt.events := by
  rw [dispatch_eq]
  obtain ⟨records, heq, hlen, hkept, hfrom⟩ := foldl_sent tasks rt.instances.values rt
  rw [heq]
  have hclosed : ∀ ref, Closed { rt with records := records } ref ↔ Closed rt ref :=
    closed_of_eq rfl rfl
  have hsame : ∀ (ref : Nat) (rec : InstanceRecord), Closed rt ref →
      rt.records[ref]? = some rec → records[ref]? = some rec :=
    fun ref rec hc hrec => hkept ref rec hrec fun hmem =>
      sent_eq_self (hreaches.closed ref hmem hc rec hrec)
  have hsends : Sends rt { rt with records := records } :=
    { events := rfl
      closed := fun ref => (hclosed ref).1
      length := hlen.ge
      rests := fun ref rec hc hrec hrests => ⟨rec, hsame ref rec hc hrec, hrests⟩
      plain := fun ref rec hrec hmem => by
        obtain ⟨n, rec₀, hrec₀, rfl⟩ := hfrom ref rec hrec
        exact ⟨rec₀, hrec₀, sent_plain hreaches.plain hmem⟩ }
  refine ⟨h.sends hsends ?_ ?_, ⟨?_, hreaches.plain⟩, rfl⟩
  · intro ref hmem
    exact (h.instances ref hmem).trans_le hlen.ge
  · intro d hd
    exact (h.deregistrations d hd).trans_le hlen.ge
  · intro ref hmem hc rec hrec
    rw [hclosed] at hc
    obtain ⟨rec₀, hrec₀, -⟩ := h.rests ref hc
    have hrec' : records[ref]? = some rec := hrec
    rw [hsame ref rec₀ hc hrec₀] at hrec'
    cases hrec'
    exact hreaches.closed ref hmem hc rec hrec₀

theorem Inv.dispatches {rt : StrategyRuntime} (h : Inv rt)
    {tasks : InstanceRecord → List Task} (hreaches : Reaches rt tasks) (n : ℕ) :
    Inv ((fun rt => Runtime.dispatch rt tasks)^[n] rt) ∧
      ((fun rt => Runtime.dispatch rt tasks)^[n] rt).events = rt.events := by
  induction n generalizing rt with
  | zero => exact ⟨h, rfl⟩
  | succ n ih =>
      obtain ⟨hinv, hagain, hevents⟩ := h.dispatch hreaches
      obtain ⟨hinv', hevents'⟩ := ih hinv hagain
      exact ⟨hinv', hevents'.trans hevents⟩

/-! ## The public methods -/

/-- Enqueuing a drain barrier, or `onShutdown` for an instance that is not closed. -/
theorem Inv.enqueued {rt : StrategyRuntime} (h : Inv rt) {ref : Nat} {task : Task}
    (hplain : task ≠ .hook .onShutdown)
    (htask : isBarrier task = true ∨ ¬ Closed rt ref)
    {deregistrations : List Deregistration}
    (hstages : ∀ r, (∃ d ∈ deregistrations, d.ref = r ∧ d.stage = .removed) → Closed rt r)
    (hrefs : ∀ d ∈ deregistrations, d.ref < rt.records.length) :
    Inv { modifyRecord rt ref (·.enqueue task) with deregistrations := deregistrations } := by
  have hlen : (rt.records.modify ref (·.enqueue task)).length = rt.records.length :=
    List.length_modify _ _ _
  have hclosed : ∀ r, Closed { modifyRecord rt ref (·.enqueue task) with
      deregistrations := deregistrations } r → Closed rt r := by
    intro r hr
    rcases hr with hr | hr
    · exact .inl hr
    · exact hstages r hr
  refine ⟨fun r hr => ?_, fun r rec hrec hmem => ?_, fun r hr => ?_, fun d hd => ?_⟩
  · obtain ⟨rec, hrec, hrests⟩ := h.rests r (hclosed r hr)
    by_cases hself : ref = r
    · refine ⟨rec.enqueue task, ?_, fun t ht => ?_, hrests.2⟩
      · show (rt.records.modify ref (·.enqueue task))[r]? = _
        rw [hself, List.getElem?_modify_eq, hrec]
        rfl
      · rcases List.mem_append.1 ht with ht | ht
        · exact hrests.1 t ht
        · rw [List.mem_singleton.1 ht]
          exact htask.resolve_right fun hopen => hopen (hself ▸ hclosed r hr)
    · refine ⟨rec, ?_, hrests⟩
      show (rt.records.modify ref (·.enqueue task))[r]? = _
      rw [List.getElem?_modify_ne _ _ hself]
      exact hrec
  · have hmod : (rt.records.modify ref (·.enqueue task))[r]? = some rec := hrec
    rw [List.getElem?_modify] at hmod
    obtain ⟨rec₀, hrec₀, rfl⟩ := Option.map_eq_some_iff.1 hmod
    apply h.plain r rec₀ hrec₀
    split at hmem
    · rcases List.mem_append.1 hmem with hmem | hmem
      · exact hmem
      · exact absurd (List.mem_singleton.1 hmem).symm hplain
    · exact hmem
  · show r < (rt.records.modify ref (·.enqueue task)).length
    rw [hlen]
    exact h.instances r hr
  · show d.ref < (rt.records.modify ref (·.enqueue task)).length
    rw [hlen]
    exact hrefs d hd

theorem Inv.register {opts : StrategyRuntimeOpts} {rt : StrategyRuntime} (h : Inv rt)
    (strategy : Strategy) (instanceId : Option String) (now : Int) :
    Inv (register opts rt strategy instanceId now) := by
  unfold Runtime.register
  dsimp only
  split
  · exact h
  · generalize hrecord : (if strategy.hasOnStart = true then
      ({ strategy := strategy, instanceId := instanceId.getD strategy.name,
         guards := .new opts.guards now } : InstanceRecord).enqueue (.hook .onStart)
      else { strategy := strategy, instanceId := instanceId.getD strategy.name,
             guards := .new opts.guards now }) = record
    have hold : ∀ (r : Nat) (rec : InstanceRecord), rt.records[r]? = some rec →
        (rt.records ++ [record])[r]? = some rec := by
      intro r rec hrec
      rw [List.getElem?_append_left (List.getElem?_eq_some_iff.1 hrec).1]
      exact hrec
    refine ⟨fun r hr => ?_, fun r rec hrec hmem => ?_, fun r hr => ?_, fun d hd => ?_⟩
    · obtain ⟨rec, hrec, hrests⟩ := h.rests r hr
      exact ⟨rec, hold r rec hrec, hrests⟩
    · rcases Nat.lt_trichotomy r rt.records.length with hlt | heq | hgt
      · rw [List.getElem?_append_left hlt] at hrec
        exact h.plain r rec hrec hmem
      · subst heq
        rw [List.getElem?_concat_length] at hrec
        cases hrec
        rw [← hrecord] at hmem
        split at hmem
        · cases List.mem_singleton.1 hmem
        · cases hmem
      · rw [List.getElem?_eq_none (by simpa using hgt)] at hrec
        cases hrec
    · rw [List.length_append, List.length_singleton]
      obtain ⟨k, hk⟩ := OrderedMap.exists_get?_of_mem_values hr
      rw [OrderedMap.get?_set] at hk
      split at hk
      · cases hk
        exact Nat.lt_succ_self _
      · exact Nat.lt_succ_of_lt (h.instances r (OrderedMap.mem_values_of_get? hk))
    · rw [List.length_append, List.length_singleton]
      exact Nat.lt_succ_of_lt (h.deregistrations d hd)

theorem Inv.deregister {rt : StrategyRuntime} (h : Inv rt) (instanceId : String) :
    Inv (deregister rt instanceId) := by
  unfold Runtime.deregister
  split
  · exact h
  · rename_i ref href
    apply h.enqueued Task.noConfusion (.inl rfl)
    · rintro r ⟨d, hd, hdref, hremoved⟩
      rcases List.mem_append.1 hd with hd | hd
      · exact .inr ⟨d, hd, hdref, hremoved⟩
      · rw [List.mem_singleton.1 hd] at hremoved
        cases hremoved
    · intro d hd
      rcases List.mem_append.1 hd with hd | hd
      · exact h.deregistrations d hd
      · rw [List.mem_singleton.1 hd]
        exact h.instances ref (OrderedMap.mem_values_of_get? href)

/-- What setting the stage of a call closes. -/
theorem closed_setStage {rt : StrategyRuntime} {call : Nat} {stage : DeregisterStage}
    {ref : Nat} (h : Closed (setStage rt call stage) ref) :
    Closed rt ref ∨
      stage = .removed ∧ ∃ d, rt.deregistrations[call]? = some d ∧ d.ref = ref := by
  rcases h with hevent | ⟨d, hd, hdref, hremoved⟩
  · exact .inl (.inl hevent)
  · obtain ⟨k, hk⟩ := List.mem_iff_getElem?.1 hd
    have hmod : (rt.deregistrations.modify call ({ · with stage := stage }))[k]? = some d := hk
    rw [List.getElem?_modify] at hmod
    obtain ⟨d₀, hd₀, rfl⟩ := Option.map_eq_some_iff.1 hmod
    by_cases hself : call = k
    · rw [if_pos hself] at hremoved hdref
      exact .inr ⟨hremoved, d₀, hself ▸ hd₀, hdref⟩
    · rw [if_neg hself] at hremoved hdref
      exact .inl (.inr ⟨d₀, List.mem_of_getElem? hd₀, hdref, hremoved⟩)

theorem refs_setStage {rt : StrategyRuntime} (h : Inv rt) (call : Nat)
    (stage : DeregisterStage) :
    ∀ d ∈ (setStage rt call stage).deregistrations, d.ref < rt.records.length := by
  intro d hd
  obtain ⟨k, hk⟩ := List.mem_iff_getElem?.1 hd
  have hmod : (rt.deregistrations.modify call ({ · with stage := stage }))[k]? = some d := hk
  rw [List.getElem?_modify] at hmod
  obtain ⟨d₀, hd₀, rfl⟩ := Option.map_eq_some_iff.1 hmod
  have hlt := h.deregistrations d₀ (List.mem_of_getElem? hd₀)
  split <;> exact hlt

theorem Inv.setStage {rt : StrategyRuntime} (h : Inv rt) {call : Nat}
    {stage : DeregisterStage} (hstage : stage ≠ .removed) :
    Inv (setStage rt call stage) where
  rests ref hclosed := h.rests ref <| (closed_setStage hclosed).resolve_right
    fun hnew => hstage hnew.1
  plain := h.plain
  instances := h.instances
  deregistrations := refs_setStage h call stage

/-- A `deregister` call that resolves leaves nothing to run. -/
theorem Inv.removed {rt : StrategyRuntime} (h : Inv rt) {call : Nat} {d : Deregistration}
    (hd : rt.deregistrations[call]? = some d)
    (hrests : ∀ rec ∈ rt.records[d.ref]?, Rests rec) :
    Inv { Runtime.setStage rt call .removed with
      instances := rt.instances.erase d.instanceId } := by
  refine ⟨fun ref hclosed => ?_, h.plain, fun ref href => ?_, refs_setStage h call .removed⟩
  · have hset : Closed (Runtime.setStage rt call .removed) ref := hclosed
    rcases closed_setStage hset with hclosed | ⟨-, d', hd', rfl⟩
    · exact h.rests ref hclosed
    · rw [hd] at hd'
      cases hd'
      have hlt := h.deregistrations d (List.mem_of_getElem? hd)
      exact ⟨_, List.getElem?_eq_getElem hlt, hrests _ (List.getElem?_eq_getElem hlt)⟩
  · obtain ⟨k, hk⟩ := OrderedMap.exists_get?_of_mem_values href
    rw [OrderedMap.get?_erase] at hk
    split at hk
    · cases hk
    · exact h.instances ref (OrderedMap.mem_values_of_get? hk)

theorem Inv.deregisterNext {rt rt' : StrategyRuntime} (h : Inv rt) {call : Nat}
    (hnext : deregisterNext rt call = some rt')
    (hcalm : ∀ d ∈ rt.deregistrations[call]?, ∀ rec ∈ rt.records[d.ref]?,
      CalmDeregister rt d rec) : Inv rt' ∧ rt'.events = rt.events := by
  unfold Runtime.deregisterNext at hnext
  split at hnext
  · cases hnext
  · rename_i d hd
    dsimp only at hnext
    split at hnext
    · rename_i rec hstage hrec
      have hcalm := hcalm d hd rec hrec
      unfold CalmDeregister at hcalm
      split at hnext
      · rename_i hhook
        rw [if_pos ⟨hstage, hhook⟩] at hcalm
        cases hnext
        refine ⟨?_, rfl⟩
        apply h.enqueued Task.noConfusion (.inr hcalm)
        · intro r hr
          have hset : Closed (Runtime.setStage rt call .shuttingDown) r := .inr hr
          exact (closed_setStage hset).resolve_right
            fun hnew => DeregisterStage.noConfusion hnew.1
        · exact refs_setStage h call .shuttingDown
      · rename_i hhook
        rw [if_neg fun hh => hhook hh.2] at hcalm
        cases hnext
        refine ⟨h.removed hd fun rec' hrec' => ?_, rfl⟩
        have heq : rec' = rec := Option.some.inj (hrec'.symm.trans hrec)
        exact heq ▸ hcalm
    · rename_i hstage
      cases hnext
      refine ⟨h.removed hd fun rec hrec => ?_, rfl⟩
      have hcalm := hcalm d hd rec hrec
      unfold CalmDeregister at hcalm
      rw [if_neg fun hh => by rw [hstage] at hh; cases hh.1] at hcalm
      exact hcalm
    · cases hnext

theorem Inv.setQuarantined {rt : StrategyRuntime} (h : Inv rt) (instanceId : String)
    (value : Bool) : Inv (setQuarantined rt instanceId value) := by
  unfold Runtime.setQuarantined
  split
  · exact h
  · rename_i ref _
    have hfrom : ∀ (r : Nat) (rec : InstanceRecord),
        (rt.records.modify ref ({ · with quarantined := value }))[r]? = some rec →
          ∃ rec₀ : InstanceRecord, rt.records[r]? = some rec₀ ∧ rec.queue = rec₀.queue := by
      intro r rec hrec
      rw [List.getElem?_modify] at hrec
      obtain ⟨rec₀, hrec₀, rfl⟩ := Option.map_eq_some_iff.1 hrec
      refine ⟨rec₀, hrec₀, ?_⟩
      split <;> rfl
    have hlen : (rt.records.modify ref ({ · with quarantined := value })).length =
        rt.records.length := List.length_modify _ _ _
    refine ⟨fun r hr => ?_, fun r rec hrec => ?_, fun r hr => ?_, fun d hd => ?_⟩
    · obtain ⟨rec, hrec, hrests⟩ := h.rests r hr
      have hlt : r < (rt.records.modify ref ({ · with quarantined := value })).length :=
        hlen ▸ (List.getElem?_eq_some_iff.1 hrec).1
      refine ⟨_, List.getElem?_eq_getElem hlt, ?_⟩
      obtain ⟨rec₀, hrec₀, hqueue⟩ := hfrom r _ (List.getElem?_eq_getElem hlt)
      rw [hrec] at hrec₀
      cases hrec₀
      unfold Rests Drained
      rw [hqueue]
      exact hrests
    · obtain ⟨rec₀, hrec₀, hqueue⟩ := hfrom r rec hrec
      rw [hqueue]
      exact h.plain r rec₀ hrec₀
    · exact (h.instances r hr).trans_le hlen.ge
    · exact (h.deregistrations d hd).trans_le hlen.ge

/-! ## Tasks -/

theorem closed_putRecord {rt : StrategyRuntime} {ref : Nat}
    {r : InstanceRecord × List Output} {ref' : Nat} (h : Closed (putRecord rt ref r) ref') :
    Closed rt ref' ∨ ref' = ref ∧ .hook .onShutdown ∈ r.2 := by
  rcases h with hevent | hremoved
  · rcases List.mem_append.1 hevent with hold | hnew
    · exact .inl (.inl hold)
    · obtain ⟨o, ho, heq⟩ := List.mem_map.1 hnew
      cases heq
      exact .inr ⟨rfl, ho⟩
  · exact .inl (.inr hremoved)

/-- A step of a task: what it closes is left at rest, and what is closed stays so. -/
theorem Inv.putRecord {rt : StrategyRuntime} (h : Inv rt) {ref : Nat}
    {rec : InstanceRecord} (hrec : rt.records[ref]? = some rec)
    {r : InstanceRecord × List Output}
    (hplain : Task.hook .onShutdown ∉ r.1.queue.waiting)
    (hrests : Closed rt ref ∨ .hook .onShutdown ∈ r.2 → Rests r.1) :
    Inv (putRecord rt ref r) := by
  have hlt := (List.getElem?_eq_some_iff.1 hrec).1
  refine ⟨fun ref' hclosed => ?_, fun ref' rec' hrec' => ?_, fun ref' href' => ?_,
    fun d hd => ?_⟩
  · by_cases hself : ref = ref'
    · subst hself
      refine ⟨r.1, List.getElem?_set_self hlt, hrests ?_⟩
      exact (closed_putRecord hclosed).imp_right And.right
    · have hother : Closed rt ref' := (closed_putRecord hclosed).resolve_right
        fun hh => hself hh.1.symm
      obtain ⟨rec', hrec', hrests'⟩ := h.rests ref' hother
      exact ⟨rec', (List.getElem?_set_ne hself).trans hrec', hrests'⟩
  · have hset : (rt.records.set ref r.1)[ref']? = some rec' := hrec'
    by_cases hself : ref = ref'
    · subst hself
      rw [List.getElem?_set_self hlt] at hset
      cases hset
      exact hplain
    · rw [List.getElem?_set_ne hself] at hset
      exact h.plain ref' rec' hset
  · show ref' < (rt.records.set ref r.1).length
    rw [List.length_set]
    exact h.instances ref' href'
  · show d.ref < (rt.records.set ref r.1).length
    rw [List.length_set]
    exact h.deregistrations d hd

theorem nothingRuns_putRecord {rt rt' : StrategyRuntime} {ref : Nat}
    {r : InstanceRecord × List Output} (hevents : rt'.events = (putRecord rt ref r).events)
    (hquiet : Closed rt ref → ∀ o ∈ r.2, runs o = false)
    (hordered : r.2.Pairwise fun o o' => o = .hook .onShutdown → runs o' = false) :
    NothingRuns rt rt' := by
  have hnew : newEvents rt rt' = r.2.map (Event.mk ref) := newEvents_of_eq hevents
  unfold NothingRuns
  rw [hnew]
  constructor
  · intro e he hclosed
    obtain ⟨o, ho, rfl⟩ := List.mem_map.1 he
    exact hquiet hclosed o ho
  · rw [List.pairwise_map]
    exact hordered.imp fun hoo' heq _ => hoo' heq

theorem Inv.startTask {rt rt' : StrategyRuntime} (h : Inv rt) {ref : Nat}
    (hstart : startTask rt ref = some rt') (hcalm : Calm rt (.startTask ref)) :
    Inv rt' ∧ NothingRuns rt rt' := by
  unfold Runtime.startTask at hstart
  split at hstart
  · cases hstart
  rename_i rec hrec
  obtain ⟨r, hr, rfl⟩ := Option.map_eq_some_iff.1 hstart
  unfold InstanceRecord.startTask InstanceQueue.next at hr
  cases hrunning : rec.queue.running with
  | some running =>
      rw [hrunning] at hr
      cases hr
  | none =>
      cases hwaiting : rec.queue.waiting with
      | nil =>
          rw [hrunning, hwaiting] at hr
          cases hr
      | cons task waiting =>
          rw [hrunning, hwaiting] at hr
          have hplain := h.plain ref rec hrec
          rw [hwaiting, List.mem_cons, not_or] at hplain
          have hclosed : Closed rt ref →
              isBarrier task = true ∧ ∀ t ∈ waiting, isBarrier t = true := by
            intro hclosed
            obtain ⟨rec', hrec', hdrained, -⟩ := h.rests ref hclosed
            rw [hrec] at hrec'
            cases hrec'
            unfold Drained at hdrained
            rw [hwaiting] at hdrained
            exact List.forall_mem_cons.1 hdrained
          cases task with
          | hook call =>
              cases hr
              have hopen : ¬ Closed rt ref := fun hc => by cases (hclosed hc).1
              have hcall : Output.hook .onShutdown ∉ [Output.hook call] := by
                intro hmem
                cases List.mem_singleton.1 hmem
                exact hplain.1 rfl
              refine ⟨h.putRecord hrec hplain.2 ?_, nothingRuns_putRecord rfl ?_ ?_⟩
              · exact fun hh => (hh.elim hopen hcall).elim
              · exact fun hc => (hopen hc).elim
              · exact List.pairwise_singleton _ _
          | barrier waiter =>
              cases hr
              refine ⟨h.putRecord hrec hplain.2 ?_, nothingRuns_putRecord rfl ?_ ?_⟩
              · intro hh
                refine ⟨(hclosed (hh.resolve_right List.not_mem_nil)).2, ?_⟩
                intro running hrun
                cases hrun
                rfl
              · exact fun _ => List.forall_mem_nil _
              · exact List.Pairwise.nil
          | shutdown waiter =>
              cases hr
              have hopen : ¬ Closed rt ref := fun hc => by cases (hclosed hc).1
              have hlast := hcalm rec hrec
              unfold ShutdownLast at hlast
              rw [hwaiting] at hlast
              refine ⟨h.putRecord hrec hplain.2 ?_, nothingRuns_putRecord rfl ?_ ?_⟩
              · intro _
                refine ⟨hlast, ?_⟩
                intro running hrun
                cases hrun
                rfl
              · exact fun hc => (hopen hc).elim
              · exact List.pairwise_singleton _ _

theorem awaited_ne_removed {rec : InstanceRecord} {call : Nat} {stage : DeregisterStage}
    (h : awaited rec = some (call, stage)) : stage ≠ .removed := by
  unfold awaited at h
  split at h
  · cases h
    exact DeregisterStage.noConfusion
  · cases h
    exact DeregisterStage.noConfusion
  · cases h

theorem Inv.settle {opts : StrategyRuntimeOpts} {rt rt' : StrategyRuntime} (h : Inv rt)
    {ref : Nat} {reply : Reply} {now : Int}
    (hsettle : settle opts rt ref reply now = some rt')
    (hcalm : Calm rt (.settle ref reply now)) : Inv rt' ∧ NothingRuns rt rt' := by
  unfold Runtime.settle at hsettle
  split at hsettle
  · cases hsettle
  rename_i rec hrec
  split at hsettle
  · cases hsettle
  rename_i r hr
  have hspec := settle_spec hr
  have hplain : Task.hook .onShutdown ∉ r.1.queue.waiting := by
    rw [hspec.waiting]
    exact h.plain ref rec hrec
  have hdrained : Drained rec → Drained r.1 := by
    intro hdrained
    unfold Drained
    rw [hspec.waiting]
    exact hdrained
  have hquiet : Closed rt ref →
      r.1.queue.running = none ∧ Drained r.1 ∧ ∀ o ∈ r.2, runs o = false := by
    intro hclosed
    obtain ⟨rec', hrec', hrests, hover⟩ := h.rests ref hclosed
    rw [hrec] at hrec'
    cases hrec'
    have htrips : tripsShutdown rec reply now = false := by
      rw [← Bool.not_eq_true]
      exact fun htrips => (hcalm rec hrec htrips).2 hclosed
    obtain ⟨hnone, hout⟩ := settle_rests hr hover htrips
    exact ⟨hnone, hdrained hrests, hout⟩
  have hinv : Inv (Runtime.putRecord rt ref r) := by
    apply h.putRecord hrec hplain
    rintro (hclosed | hshutdown)
    · obtain ⟨hnone, hrests, -⟩ := hquiet hclosed
      exact ⟨hrests, by rw [hnone]; intro running hrun; cases hrun⟩
    · obtain ⟨htrips, hnone⟩ := hspec.closes hshutdown
      exact ⟨hdrained (hcalm rec hrec htrips).1,
        by rw [hnone]; intro running hrun; cases hrun⟩
  have hruns : ∀ rt' : StrategyRuntime, rt'.events = (Runtime.putRecord rt ref r).events →
      NothingRuns rt rt' :=
    fun rt' hevents =>
      nothingRuns_putRecord hevents (fun hc => (hquiet hc).2.2) hspec.ordered
  dsimp only at hsettle
  split at hsettle
  · cases hsettle
    exact ⟨hinv, hruns _ rfl⟩
  · rename_i call stage hawaited
    cases hsettle
    exact ⟨hinv.setStage (awaited_ne_removed hawaited), hruns _ rfl⟩

/-! ## Runs -/

theorem dispatchExecutionResult_eq (rt : StrategyRuntime) (result : ExecutionResult) :
    (List.replicate rt.resultListeners result).foldl dispatchExecutionResult rt =
      (fun rt => dispatch rt fun rec =>
        if rec.strategy.hasOnExecutionResult then [.hook (.onExecutionResult result)]
        else [])^[rt.resultListeners] rt := by
  generalize rt.resultListeners = n
  induction n generalizing rt with
  | zero => rfl
  | succ n ih => exact ih (dispatchExecutionResult rt result)

theorem dispatchPositionChange_eq (rt : StrategyRuntime) (change : PositionChange) :
    (List.replicate rt.changeListeners change).foldl dispatchPositionChange rt =
      (fun rt => dispatch rt fun rec =>
        (if rec.strategy.hasOnPositionChange then [.hook (.onPositionChange change)]
          else []) ++
        balanceTasks change
          ((change.before.map fun p => Accounting.totalAmount p.lots).getD 0)
          (Accounting.totalAmount change.after.lots) rec)^[rt.changeListeners] rt := by
  generalize rt.changeListeners = n
  induction n generalizing rt with
  | zero => rfl
  | succ n ih => exact ih (dispatchPositionChange rt change)

theorem balanceTasks_plain (change : PositionChange) (preAmount postAmount : Int)
    (rec : InstanceRecord) :
    Task.hook .onShutdown ∉ balanceTasks change preAmount postAmount rec := by
  unfold balanceTasks
  split
  · exact List.not_mem_nil
  · split
    · exact List.not_mem_nil
    · intro hmem
      cases List.mem_singleton.1 hmem

/-- A dispatch of what `hookTasks` says. -/
theorem Inv.dispatchHooks {rt : StrategyRuntime} (h : Inv rt) {a : Action}
    (hreached : ∀ ref ∈ rt.instances.values, Closed rt ref → ∀ rec ∈ rt.records[ref]?,
      rec.quarantined = true ∨ hookTasks rt a rec = [])
    (tasks : InstanceRecord → List Task) (htasks : ∀ rec, hookTasks rt a rec = tasks rec)
    (hplain : ∀ rec, Task.hook .onShutdown ∉ tasks rec) (n : ℕ) :
    Inv ((fun rt => Runtime.dispatch rt tasks)^[n] rt) ∧
      NothingRuns rt ((fun rt => Runtime.dispatch rt tasks)^[n] rt) := by
  have hreaches : Reaches rt tasks :=
    ⟨fun ref href hc rec hrec => htasks rec ▸ hreached ref href hc rec hrec, hplain⟩
  obtain ⟨hinv, hevents⟩ := h.dispatches hreaches n
  exact ⟨hinv, nothingRuns_of_events hevents⟩

theorem hook_plain (p : Prop) [Decidable p] {call : HookCall} (hcall : call ≠ .onShutdown) :
    Task.hook .onShutdown ∉ if p then [Task.hook call] else [] := by
  split
  · intro hmem
    exact hcall (Task.hook.inj (List.mem_singleton.1 hmem)).symm
  · exact List.not_mem_nil

theorem step_calm {opts : StrategyRuntimeOpts} {rt rt' : StrategyRuntime} {a : Action}
    (h : Inv rt) (hstep : step opts rt a = some rt') (hcalm : Calm rt a) :
    NothingRuns rt rt' ∧ Inv rt' := by
  cases a with
  | register strategy instanceId now =>
      cases hstep
      refine ⟨nothingRuns_of_events ?_, h.register strategy instanceId now⟩
      unfold register
      dsimp only
      split <;> rfl
  | deregister instanceId =>
      cases hstep
      refine ⟨nothingRuns_of_events ?_, h.deregister instanceId⟩
      unfold deregister
      split <;> rfl
  | deregisterNext call =>
      obtain ⟨hinv, hevents⟩ := h.deregisterNext hstep hcalm
      exact ⟨nothingRuns_of_events hevents, hinv⟩
  | start =>
      cases hstep
      exact ⟨nothingRuns_of_events rfl, h.rests, h.plain, h.instances, h.deregistrations⟩
  | stop =>
      cases hstep
      exact ⟨nothingRuns_of_events rfl, h.rests, h.plain, h.instances, h.deregistrations⟩
  | pause instanceId =>
      cases hstep
      refine ⟨nothingRuns_of_events ?_, h.setQuarantined instanceId true⟩
      unfold pause setQuarantined
      split <;> rfl
  | resume instanceId =>
      cases hstep
      have hinv := h.setQuarantined instanceId false
      unfold resume
      dsimp only
      split
      · refine ⟨nothingRuns_of_events ?_, hinv⟩
        unfold setQuarantined
        split <;> rfl
      · rename_i ref href
        have hnew : newEvents rt { setQuarantined rt instanceId false with
            events := rt.events ++ [{ ref := ref, output := .resumed }] } =
              [{ ref := ref, output := .resumed }] := newEvents_of_eq rfl
        constructor
        · apply nothingRuns_of_quiet
          rw [hnew]
          intro e he
          rw [List.mem_singleton.1 he]
          rfl
        · refine ⟨fun r hr => hinv.rests r ?_, hinv.plain, hinv.instances,
            hinv.deregistrations⟩
          rcases hr with hevent | hremoved
          · rcases List.mem_append.1 hevent with hold | hnew
            · left
              unfold setQuarantined
              split <;> exact hold
            · cases List.mem_singleton.1 hnew
          · exact .inr hremoved
  | signal sig =>
      simp only [step] at hstep
      split at hstep
      · cases hstep
        obtain ⟨hinv, hruns⟩ := h.dispatchHooks hcalm
          (fun rec =>
            if matchesAny rec.strategy.filters sig then [.hook (.onSignal sig)] else [])
          (fun _ => rfl) (fun rec => hook_plain _ HookCall.noConfusion) 1
        exact ⟨hruns, hinv⟩
      · cases hstep
  | executionResult result =>
      cases hstep
      rw [dispatchExecutionResult_eq]
      by_cases hlisteners : 0 < rt.resultListeners
      · obtain ⟨hinv, hruns⟩ := h.dispatchHooks hcalm
          (fun rec =>
            if rec.strategy.hasOnExecutionResult then [.hook (.onExecutionResult result)]
            else [])
          (fun rec => by simp only [hookTasks, hlisteners, true_and])
          (fun rec => hook_plain _ HookCall.noConfusion) rt.resultListeners
        exact ⟨hruns, hinv⟩
      · rw [Nat.eq_zero_of_not_pos hlisteners]
        exact ⟨nothingRuns_of_events rfl, h⟩
  | positionChange change =>
      cases hstep
      rw [dispatchPositionChange_eq]
      by_cases hlisteners : 0 < rt.changeListeners
      · obtain ⟨hinv, hruns⟩ := h.dispatchHooks hcalm
          (fun rec =>
            (if rec.strategy.hasOnPositionChange then [.hook (.onPositionChange change)]
              else []) ++
            balanceTasks change
              ((change.before.map fun p => Accounting.totalAmount p.lots).getD 0)
              (Accounting.totalAmount change.after.lots) rec)
          (fun rec => by simp only [hookTasks, hlisteners, if_true])
          (fun rec hmem => (List.mem_append.1 hmem).elim
            (hook_plain _ HookCall.noConfusion) (balanceTasks_plain change _ _ rec))
          rt.changeListeners
        exact ⟨hruns, hinv⟩
      · rw [Nat.eq_zero_of_not_pos hlisteners]
        exact ⟨nothingRuns_of_events rfl, h⟩
  | tick interval now =>
      simp only [step] at hstep
      split at hstep
      · cases hstep
        obtain ⟨hinv, hruns⟩ := h.dispatchHooks hcalm
          (fun rec => if rec.strategy.hasOnTick then [.hook (.onTick now)] else [])
          (fun _ => rfl) (fun rec => hook_plain _ HookCall.noConfusion) 1
        exact ⟨hruns, hinv⟩
      · cases hstep
  | startTask ref =>
      obtain ⟨hinv, hruns⟩ := h.startTask hstep hcalm
      exact ⟨hruns, hinv⟩
  | settle ref reply now =>
      obtain ⟨hinv, hruns⟩ := h.settle hstep hcalm
      exact ⟨hruns, hinv⟩

/-- Where nothing is left behind what closes an instance and nothing is sent to a closed
one, no step of the run invokes a hook or starts a submission of a closed instance. -/
theorem nothing_runs_after_shutdown (opts : StrategyRuntimeOpts) (acts : List Action)
    (hcalm : Along (step opts) (fun rt a _ => Calm rt a) {} acts) :
    Along (step opts) (fun rt _ rt' => NothingRuns rt rt') {} acts :=
  along_of_inv Inv (fun _ _ _ h hstep hcalm => step_calm h hstep hcalm) acts {} inv_init
    hcalm

/-! ## Two shutdowns -/

def unguardedOpts : StrategyRuntimeOpts := { sha256 := fun _ => [] }

def closing : Strategy := { name := "breakout", filters := [{}], hasOnShutdown := true }

def newPool : Signal :=
  { signalId := "sig-1", programId := .ofByte 9, kind := "pool-created" }

/-- The signal has been handled when `onShutdown` starts. -/
def drainedShutdown : List Action :=
  [.start, .register closing none 0, .signal newPool, .deregister "breakout",
    .startTask 0, .settle 0 (.decided none) 1, .startTask 0, .settle 0 .done 2,
    .deregisterNext 0, .startTask 0, .settle 0 .done 3, .deregisterNext 0,
    .signal newPool]

/-- The signal comes while `onShutdown` waits in the queue. -/
def overtakenShutdown : List Action :=
  [.start, .register closing none 0, .deregister "breakout", .startTask 0,
    .settle 0 .done 1, .deregisterNext 0, .signal newPool, .startTask 0,
    .settle 0 .done 2, .deregisterNext 0, .startTask 0]

theorem nothing_runs_after_drained :
    Along (step unguardedOpts) (fun rt _ rt' => NothingRuns rt rt') {} drainedShutdown :=
  nothing_runs_after_shutdown unguardedOpts drainedShutdown (by decide +kernel)

/-- `onSignal` is called after `deregister` has resolved. -/
theorem onSignal_runs_after_shutdown :
    ∃ rt, exec (step unguardedOpts) {} overtakenShutdown = some rt ∧
      rt.events = [.hook .onShutdown, .hook (.onSignal newPool)].map (Event.mk 0) ∧
      ¬ Along (step unguardedOpts) (fun rt _ rt' => NothingRuns rt rt') {} overtakenShutdown := by
  have hevents : (exec (step unguardedOpts) {} overtakenShutdown).map (·.events) =
      some ([.hook .onShutdown, .hook (.onSignal newPool)].map (Event.mk 0)) := by
    decide +kernel
  obtain ⟨rt, hrt, heq⟩ := Option.map_eq_some_iff.1 hevents
  exact ⟨rt, hrt, heq, by decide +kernel⟩

end Ap3xSolana.Strategies.Shutdown
