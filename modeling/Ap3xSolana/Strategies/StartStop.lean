import Ap3xSolana.Strategies.Shutdown

/-!
# Between `start` and `stop`

`stop` clears the interval of the last `start` and the subscription of the signal queue.
The listeners that `start` adds to the executor and the portfolio stay, one more with each
cycle, so events reach the instances while the runtime is stopped and several times after
it is started again (`start_stop_control`).
-/

namespace Ap3xSolana.Strategies.StartStop

open Ap3xSolana.Executor Ap3xSolana.Lib Ap3xSolana.Lib.Run Ap3xSolana.Portfolio
open Ap3xSolana.Strategies.Guards Ap3xSolana.Strategies.Runtime
open Ap3xSolana.Strategies.Shutdown

/-! ## The property -/

/-- The last of the `start` and `stop` calls was a `start`. -/
def started (acts : List Action) : Bool :=
  acts.foldl (fun on a => match a with
    | .start => true
    | .stop => false
    | _ => on) false

/-- The tasks that an event means for an instance, when the action is an event. -/
def eventTasks : Action → Option (InstanceRecord → List Task)
  | .signal sig => some fun rec =>
      if matchesAny rec.strategy.filters sig then [.hook (.onSignal sig)] else []
  | .executionResult result => some fun rec =>
      if rec.strategy.hasOnExecutionResult then [.hook (.onExecutionResult result)] else []
  | .positionChange change => some fun rec =>
      (if rec.strategy.hasOnPositionChange then [.hook (.onPositionChange change)] else []) ++
        balanceTasks change ((change.before.map fun p => Accounting.totalAmount p.lots).getD 0)
          (Accounting.totalAmount change.after.lots) rec
  | .tick _ now => some fun rec => if rec.strategy.hasOnTick then [.hook (.onTick now)] else []
  | _ => none

/-- What one dispatch puts into the queue of an instance. -/
def delivery (rt : StrategyRuntime) (tasks : InstanceRecord → List Task) (ref : Nat)
    (rec : InstanceRecord) : List Task :=
  if ref ∈ rt.instances.values ∧ rec.quarantined = false then tasks rec else []

def enqueueAll (rec : InstanceRecord) (tasks : List Task) : InstanceRecord :=
  tasks.foldl (·.enqueue ·) rec

/-- An event is dispatched to each instance at most once, and not at all while the runtime
is stopped. -/
def Controlled (on : Bool) (rt : StrategyRuntime) (a : Action) (rt' : StrategyRuntime) : Prop :=
  ∀ tasks ∈ eventTasks a, ∀ (ref : Nat) (rec : InstanceRecord), rt.records[ref]? = some rec →
    ∃ n, n ≤ (if on then 1 else 0) ∧
      rt'.records[ref]? =
        some (enqueueAll rec (List.replicate n (delivery rt tasks ref rec)).flatten)

/-- `start` and `stop` control every event of the run. -/
def AllControlled (opts : StrategyRuntimeOpts) (acts : List Action) : Prop :=
  ∀ before a, before ++ [a] <+: acts → ∀ rt rt', exec (step opts) {} before = some rt →
    step opts rt a = some rt' → Controlled (started before) rt a rt'

/-! ## The condition -/

/-- The subscriptions through which the event comes in. -/
def listeners (rt : StrategyRuntime) : Action → Nat
  | .signal _ => if rt.signalSubscribed then 1 else 0
  | .executionResult _ => rt.resultListeners
  | .positionChange _ => rt.changeListeners
  | .tick interval _ => if interval ∈ rt.intervals then 1 else 0
  | _ => 0

/-- The event comes in once while the runtime is started and not at all while it is stopped,
or no instance has a hook for it. -/
def Undoubled (rt : StrategyRuntime) (a : Action) : Prop :=
  ∀ tasks ∈ eventTasks a, listeners rt a ≤ (if rt.signalSubscribed then 1 else 0) ∨
    ∀ ref ∈ rt.instances.values, ∀ rec ∈ rt.records[ref]?,
      rec.quarantined = true ∨ tasks rec = []

instance decidableUndoubled (rt : StrategyRuntime) (a : Action) :
    Decidable (Undoubled rt a) :=
  inferInstanceAs (Decidable (∀ tasks ∈ eventTasks a, _))

/-! ## Started -/

theorem started_concat (acts : List Action) (a : Action) :
    started (acts ++ [a]) = match a with
      | .start => true
      | .stop => false
      | _ => started acts := by
  unfold started
  rw [List.foldl_append]
  rfl

/-! ## Repeated dispatches -/

theorem enqueueAll_append (rec : InstanceRecord) (tasks tasks' : List Task) :
    enqueueAll rec (tasks ++ tasks') = enqueueAll (enqueueAll rec tasks) tasks' :=
  List.foldl_append

theorem enqueueAll_waiting_eq (rec : InstanceRecord) (tasks : List Task) :
    (enqueueAll rec tasks).queue.waiting = rec.queue.waiting ++ tasks :=
  enqueueAll_waiting tasks rec

theorem sent_eq_enqueueAll {rt : StrategyRuntime} {tasks : InstanceRecord → List Task}
    {ref : Nat} (hmem : ref ∈ rt.instances.values) (rec : InstanceRecord) :
    sent tasks rec = enqueueAll rec (delivery rt tasks ref rec) := by
  unfold sent delivery
  by_cases hq : rec.quarantined = true
  · rw [if_pos hq, if_neg (fun h => Bool.noConfusion (hq.symm.trans h.2))]
    rfl
  · rw [if_neg hq, if_pos ⟨hmem, Bool.eq_false_iff.2 hq⟩]
    rfl

theorem delivery_of_not_mem {rt : StrategyRuntime} {ref : Nat}
    (hmem : ref ∉ rt.instances.values) (tasks : InstanceRecord → List Task)
    (rec : InstanceRecord) : delivery rt tasks ref rec = [] :=
  if_neg fun h => hmem h.1

theorem foldl_sent_records (tasks : InstanceRecord → List Task) {refs : List Nat}
    (hnodup : refs.Nodup) (rt : StrategyRuntime) (ref : Nat) :
    (refs.foldl (fun rt ref => modifyRecord rt ref (sent tasks)) rt).records[ref]? =
      (rt.records[ref]?).map fun rec => if ref ∈ refs then sent tasks rec else rec := by
  induction refs generalizing rt with
  | nil =>
      show rt.records[ref]? = _
      cases rt.records[ref]? <;> rfl
  | cons r refs ih =>
      obtain ⟨hr, hrest⟩ := List.nodup_cons.1 hnodup
      rw [List.foldl_cons, ih hrest]
      show ((rt.records.modify r (sent tasks))[ref]?).map _ = _
      rw [List.getElem?_modify]
      cases rt.records[ref]? with
      | none => rfl
      | some rec =>
          show some (if ref ∈ refs then sent tasks (if r = ref then sent tasks rec else rec)
            else if r = ref then sent tasks rec else rec) =
            some (if ref ∈ r :: refs then sent tasks rec else rec)
          by_cases href : r = ref
          · subst href
            rw [if_neg hr, if_pos rfl, if_pos List.mem_cons_self]
          · have hmem : ref ∈ r :: refs ↔ ref ∈ refs :=
              List.mem_cons.trans (or_iff_right (Ne.symm href))
            simp only [if_neg href, hmem]

theorem dispatch_instances (rt : StrategyRuntime) (tasks : InstanceRecord → List Task) :
    (dispatch rt tasks).instances = rt.instances ∧
      (dispatch rt tasks).records.length = rt.records.length ∧
      (dispatch rt tasks).signalSubscribed = rt.signalSubscribed := by
  rw [dispatch_eq]
  obtain ⟨records, heq, hlen, -⟩ := foldl_sent tasks rt.instances.values rt
  rw [heq]
  exact ⟨rfl, hlen, rfl⟩

theorem dispatch_records {rt : StrategyRuntime} (hnodup : rt.instances.values.Nodup)
    (tasks : InstanceRecord → List Task) (ref : Nat) :
    (dispatch rt tasks).records[ref]? =
      (rt.records[ref]?).map fun rec => enqueueAll rec (delivery rt tasks ref rec) := by
  rw [dispatch_eq, foldl_sent_records tasks hnodup]
  apply Option.map_congr
  intro rec _
  split
  · rename_i hmem
    exact sent_eq_enqueueAll hmem rec
  · rename_i hmem
    rw [delivery_of_not_mem hmem]
    rfl

/-- The tasks of an event do not depend on the queue. -/
def QueueFree (tasks : InstanceRecord → List Task) : Prop :=
  ∀ (rec : InstanceRecord) (task : Task), tasks (rec.enqueue task) = tasks rec

theorem queueFree_event {a : Action} {tasks : InstanceRecord → List Task}
    (h : tasks ∈ eventTasks a) : QueueFree tasks := by
  intro rec task
  cases a with
  | signal sig =>
      cases h
      rfl
  | executionResult result =>
      cases h
      rfl
  | positionChange change =>
      cases h
      rfl
  | tick interval now =>
      cases h
      rfl
  | _ => cases h

theorem delivery_enqueueAll {tasks : InstanceRecord → List Task} (hfree : QueueFree tasks)
    {rt rt' : StrategyRuntime} (hinstances : rt'.instances = rt.instances) (ref : Nat)
    (rec : InstanceRecord) (ts : List Task) :
    delivery rt' tasks ref (enqueueAll rec ts) = delivery rt tasks ref rec := by
  induction ts generalizing rec with
  | nil =>
      unfold delivery
      rw [hinstances]
      rfl
  | cons t ts ih =>
      show delivery rt' tasks ref (enqueueAll (rec.enqueue t) ts) = _
      rw [ih]
      unfold delivery
      rw [hfree]
      rfl

/-- What comes in several times is enqueued as often. -/
theorem iterate_dispatch_records {tasks : InstanceRecord → List Task}
    (hfree : QueueFree tasks) (n : ℕ) {rt : StrategyRuntime}
    (hnodup : rt.instances.values.Nodup) (ref : Nat) :
    ((dispatch · tasks)^[n] rt).records[ref]? =
      (rt.records[ref]?).map fun rec =>
        enqueueAll rec (List.replicate n (delivery rt tasks ref rec)).flatten := by
  induction n generalizing rt with
  | zero =>
      show rt.records[ref]? = _
      cases rt.records[ref]? <;> rfl
  | succ n ih =>
      have hinstances := (dispatch_instances rt tasks).1
      show ((dispatch · tasks)^[n] (dispatch rt tasks)).records[ref]? = _
      rw [ih (hinstances ▸ hnodup), dispatch_records hnodup, Option.map_map]
      apply Option.map_congr
      intro rec _
      show enqueueAll (enqueueAll rec _) _ = _
      rw [delivery_enqueueAll hfree hinstances, ← enqueueAll_append]
      rfl

/-! ## Registered instances -/

/-- Every registered instance has a record of its own. -/
structure Registered (rt : StrategyRuntime) : Prop where
  nodup : rt.instances.values.Nodup
  bound : ∀ ref ∈ rt.instances.values, ref < rt.records.length

theorem Registered.of_eq {rt rt' : StrategyRuntime} (h : Registered rt)
    (hinstances : rt'.instances = rt.instances)
    (hlen : rt'.records.length = rt.records.length) : Registered rt' where
  nodup := hinstances ▸ h.nodup
  bound := by
    rw [hinstances, hlen]
    exact h.bound

theorem Registered.modifyRecord {rt : StrategyRuntime} (h : Registered rt) (ref : Nat)
    (f : InstanceRecord → InstanceRecord) : Registered (modifyRecord rt ref f) :=
  h.of_eq rfl (List.length_modify _ _ _)

theorem Registered.register {rt : StrategyRuntime} (h : Registered rt)
    (opts : StrategyRuntimeOpts) (strategy : Strategy) (instanceId : Option String)
    (now : Int) : Registered (register opts rt strategy instanceId now) := by
  unfold Runtime.register
  dsimp only
  split
  · exact h
  · rename_i hnew
    have hkey := OrderedMap.get?_eq_none.1 hnew
    have hvalues : (rt.instances.set (instanceId.getD strategy.name)
        rt.records.length).values = rt.instances.values ++ [rt.records.length] := by
      unfold OrderedMap.values
      rw [OrderedMap.entries_set_of_not_mem hkey, List.map_append]
      rfl
    refine ⟨?_, fun ref hmem => ?_⟩
    · show (OrderedMap.values _).Nodup
      rw [hvalues, ← List.concat_eq_append]
      exact h.nodup.concat fun hmem => Nat.lt_irrefl _ (h.bound _ hmem)
    · show ref < (rt.records ++ [_]).length
      rw [List.length_append]
      rcases List.mem_append.1 (hvalues ▸ hmem) with hmem | hmem
      · exact Nat.lt_succ_of_lt (h.bound ref hmem)
      · rw [List.mem_singleton.1 hmem]
        exact Nat.lt_succ_self _

theorem Registered.deregisterNext {rt rt' : StrategyRuntime} (h : Registered rt) {call : Nat}
    (hstep : deregisterNext rt call = some rt') : Registered rt' := by
  have herase : ∀ id, ((rt.instances.erase id).values).Sublist rt.instances.values :=
    fun id => List.filter_sublist.map Prod.snd
  unfold Runtime.deregisterNext at hstep
  split at hstep
  · cases hstep
  · dsimp only at hstep
    split at hstep
    · split at hstep
      · cases hstep
        exact h.of_eq rfl (List.length_modify _ _ _)
      · cases hstep
        exact ⟨h.nodup.sublist (herase _), fun ref hmem => h.bound ref ((herase _).subset hmem)⟩
    · cases hstep
      exact ⟨h.nodup.sublist (herase _), fun ref hmem => h.bound ref ((herase _).subset hmem)⟩
    · cases hstep

/-! ## One step -/

/-- What a step may leave alone. -/
structure Unmoved (rt rt' : StrategyRuntime) : Prop where
  instances : rt'.instances = rt.instances
  length : rt'.records.length = rt.records.length
  subscribed : rt'.signalSubscribed = rt.signalSubscribed

theorem Unmoved.refl (rt : StrategyRuntime) : Unmoved rt rt := ⟨rfl, rfl, rfl⟩

theorem Unmoved.trans {rt₁ rt₂ rt₃ : StrategyRuntime} (h₁ : Unmoved rt₁ rt₂)
    (h₂ : Unmoved rt₂ rt₃) : Unmoved rt₁ rt₃ :=
  ⟨h₂.instances.trans h₁.instances, h₂.length.trans h₁.length,
    h₂.subscribed.trans h₁.subscribed⟩

theorem unmoved_modifyRecord (rt : StrategyRuntime) (ref : Nat)
    (f : InstanceRecord → InstanceRecord) : Unmoved rt (modifyRecord rt ref f) :=
  ⟨rfl, List.length_modify _ _ _, rfl⟩

theorem unmoved_setQuarantined (rt : StrategyRuntime) (instanceId : String) (value : Bool) :
    Unmoved rt (setQuarantined rt instanceId value) := by
  unfold setQuarantined
  split
  · exact .refl rt
  · exact unmoved_modifyRecord rt _ _

theorem unmoved_resume (rt : StrategyRuntime) (instanceId : String) :
    Unmoved rt (resume rt instanceId) := by
  have h := unmoved_setQuarantined rt instanceId false
  unfold resume
  dsimp only
  split
  · exact h
  · exact ⟨h.instances, h.length, h.subscribed⟩

theorem unmoved_deregister (rt : StrategyRuntime) (instanceId : String) :
    Unmoved rt (deregister rt instanceId) := by
  unfold deregister
  split
  · exact .refl rt
  · exact ⟨rfl, List.length_modify _ _ _, rfl⟩

theorem unmoved_iterate (tasks : InstanceRecord → List Task) (n : ℕ) (rt : StrategyRuntime) :
    Unmoved rt ((dispatch · tasks)^[n] rt) := by
  induction n generalizing rt with
  | zero => exact .refl rt
  | succ n ih =>
      obtain ⟨hinstances, hlen, hsubscribed⟩ := dispatch_instances rt tasks
      exact Unmoved.trans ⟨hinstances, hlen, hsubscribed⟩ (ih (dispatch rt tasks))

theorem unmoved_startTask {rt rt' : StrategyRuntime} {ref : Nat}
    (h : startTask rt ref = some rt') : Unmoved rt rt' := by
  unfold startTask at h
  split at h
  · cases h
  · obtain ⟨r, -, rfl⟩ := Option.map_eq_some_iff.1 h
    exact ⟨rfl, List.length_set, rfl⟩

theorem unmoved_settle {opts : StrategyRuntimeOpts} {rt rt' : StrategyRuntime} {ref : Nat}
    {reply : Reply} {now : Int} (h : settle opts rt ref reply now = some rt') :
    Unmoved rt rt' := by
  unfold settle at h
  split at h
  · cases h
  · split at h
    · cases h
    · dsimp only at h
      split at h
      · cases h
        exact ⟨rfl, List.length_set, rfl⟩
      · cases h
        exact ⟨rfl, List.length_set, rfl⟩

theorem foldl_replicate_dispatch {α : Type} (event : α) (tasks : InstanceRecord → List Task)
    {f : StrategyRuntime → α → StrategyRuntime} (hf : ∀ rt, f rt event = dispatch rt tasks)
    (n : ℕ) (rt : StrategyRuntime) :
    (List.replicate n event).foldl f rt = (dispatch · tasks)^[n] rt := by
  induction n generalizing rt with
  | zero => rfl
  | succ n ih =>
      show (List.replicate n event).foldl f (f rt event) = _
      rw [hf, ih]
      rfl

/-- An event is dispatched once for each subscription it comes in through. -/
theorem step_event {opts : StrategyRuntimeOpts} {rt rt' : StrategyRuntime} {a : Action}
    {tasks : InstanceRecord → List Task} (h : step opts rt a = some rt')
    (htasks : tasks ∈ eventTasks a) : rt' = (dispatch · tasks)^[listeners rt a] rt := by
  cases a with
  | signal sig =>
      cases htasks
      simp only [step] at h
      split at h
      · rename_i hsubscribed
        cases h
        simp only [listeners, hsubscribed, if_true]
        rfl
      · cases h
  | executionResult result =>
      cases htasks
      cases h
      exact foldl_replicate_dispatch (f := dispatchExecutionResult) result _ (fun _ => rfl) _ rt
  | positionChange change =>
      cases htasks
      cases h
      exact foldl_replicate_dispatch (f := dispatchPositionChange) change _ (fun _ => rfl) _ rt
  | tick interval now =>
      cases htasks
      simp only [step] at h
      split at h
      · rename_i hfires
        cases h
        simp only [listeners, hfires, if_true]
        rfl
      · cases h
  | _ => cases htasks

theorem step_event_unmoved {opts : StrategyRuntimeOpts} {rt rt' : StrategyRuntime} {a : Action}
    {tasks : InstanceRecord → List Task} (h : step opts rt a = some rt')
    (htasks : tasks ∈ eventTasks a) : Unmoved rt rt' := by
  rw [step_event h htasks]
  exact unmoved_iterate tasks _ rt

/-- The instances stay registered, and the signal queue is subscribed to exactly while the
runtime is started. -/
theorem step_registered {opts : StrategyRuntimeOpts} {rt rt' : StrategyRuntime} {a : Action}
    {acts : List Action} (h : Registered rt) (hstarted : rt.signalSubscribed = started acts)
    (hstep : step opts rt a = some rt') :
    Registered rt' ∧ rt'.signalSubscribed = started (acts ++ [a]) := by
  have hunmoved : Unmoved rt rt' → Registered rt' ∧ rt'.signalSubscribed = started acts :=
    fun hu => ⟨h.of_eq hu.instances hu.length, hu.subscribed.trans hstarted⟩
  rw [started_concat]
  cases a with
  | register strategy instanceId now =>
      cases hstep
      refine ⟨h.register opts strategy instanceId now, ?_⟩
      show (register opts rt strategy instanceId now).signalSubscribed = started acts
      rw [← hstarted]
      unfold Runtime.register
      dsimp only
      split <;> rfl
  | deregister instanceId =>
      cases hstep
      exact hunmoved (unmoved_deregister rt instanceId)
  | deregisterNext call =>
      refine ⟨h.deregisterNext hstep, ?_⟩
      show rt'.signalSubscribed = started acts
      rw [← hstarted]
      simp only [step, Runtime.deregisterNext] at hstep
      split at hstep
      · cases hstep
      · split at hstep
        · split at hstep <;> cases hstep <;> rfl
        · cases hstep
          rfl
        · cases hstep
  | start =>
      cases hstep
      exact ⟨h.of_eq rfl rfl, rfl⟩
  | stop =>
      cases hstep
      exact ⟨h.of_eq rfl rfl, rfl⟩
  | pause instanceId =>
      cases hstep
      exact hunmoved (unmoved_setQuarantined rt instanceId true)
  | resume instanceId =>
      cases hstep
      exact hunmoved (unmoved_resume rt instanceId)
  | signal sig => exact hunmoved (step_event_unmoved hstep rfl)
  | executionResult result => exact hunmoved (step_event_unmoved hstep rfl)
  | positionChange change => exact hunmoved (step_event_unmoved hstep rfl)
  | tick interval now => exact hunmoved (step_event_unmoved hstep rfl)
  | startTask ref => exact hunmoved (unmoved_startTask hstep)
  | settle ref reply now => exact hunmoved (unmoved_settle hstep)

/-- How often something was enqueued shows, unless it is nothing. -/
theorem enqueueAll_replicate_inj {rec : InstanceRecord} {d : List Task} {n k : ℕ}
    (h : enqueueAll rec (List.replicate n d).flatten =
      enqueueAll rec (List.replicate k d).flatten) : n = k ∨ d = [] := by
  have hwaiting : rec.queue.waiting ++ (List.replicate n d).flatten =
      rec.queue.waiting ++ (List.replicate k d).flatten := by
    rw [← enqueueAll_waiting_eq, ← enqueueAll_waiting_eq, h]
  have hlen : n * d.length = k * d.length := by
    have hflat := congrArg List.length (List.append_cancel_left hwaiting)
    simpa only [List.length_flatten, List.map_replicate, List.sum_replicate_nat]
      using hflat
  by_cases hd : d = []
  · exact .inr hd
  · exact .inl (Nat.eq_of_mul_eq_mul_right (List.length_pos_iff.2 hd) hlen)

theorem delivery_eq_nil {rt : StrategyRuntime} {tasks : InstanceRecord → List Task} {ref : Nat}
    {rec : InstanceRecord} :
    delivery rt tasks ref rec = [] ↔
      (ref ∈ rt.instances.values → rec.quarantined = true ∨ tasks rec = []) := by
  unfold delivery
  split
  · rename_i h
    constructor
    · exact fun hnil _ => .inr hnil
    · intro hidle
      exact (hidle h.1).resolve_left fun hq => Bool.noConfusion (hq.symm.trans h.2)
  · rename_i h
    refine ⟨fun _ hmem => .inl ?_, fun _ => rfl⟩
    exact Bool.of_not_eq_false fun hq => h ⟨hmem, hq⟩

/-- A step is controlled exactly if its event comes in through no subscription too many. -/
theorem step_controlled {opts : StrategyRuntimeOpts} {rt rt' : StrategyRuntime} {a : Action}
    (h : Registered rt) (hstep : step opts rt a = some rt') :
    Controlled rt.signalSubscribed rt a rt' ↔ Undoubled rt a := by
  unfold Controlled Undoubled
  refine forall_congr' fun tasks => forall_congr' fun htasks => ?_
  have hrecords : ∀ ref, rt'.records[ref]? = (rt.records[ref]?).map fun rec =>
      enqueueAll rec (List.replicate (listeners rt a) (delivery rt tasks ref rec)).flatten := by
    intro ref
    rw [step_event hstep htasks]
    exact iterate_dispatch_records (queueFree_event htasks) _ h.nodup ref
  constructor
  · intro hcontrolled
    by_cases hfew : listeners rt a ≤ if rt.signalSubscribed then 1 else 0
    · exact .inl hfew
    · refine .inr fun ref hmem rec hrec => ?_
      obtain ⟨n, hn, hrec'⟩ := hcontrolled ref rec hrec
      rw [hrecords ref, hrec] at hrec'
      have hnil := (enqueueAll_replicate_inj (Option.some.inj hrec')).resolve_left
        fun heq => hfew (heq.le.trans hn)
      exact delivery_eq_nil.1 hnil hmem
  · intro hcondition ref rec hrec
    rw [hrecords ref, hrec]
    rcases hcondition with hfew | hidle
    · exact ⟨listeners rt a, hfew, rfl⟩
    · have hnil : delivery rt tasks ref rec = [] :=
        delivery_eq_nil.2 fun hmem => hidle ref hmem rec hrec
      refine ⟨0, Nat.zero_le _, ?_⟩
      show some (enqueueAll rec
        (List.replicate (listeners rt a) (delivery rt tasks ref rec)).flatten) = some rec
      rw [hnil, List.flatten_replicate_nil]
      rfl

/-- `start` and `stop` control the dispatch exactly in the runs where events come in through
no subscription too many. -/
theorem start_stop_control (opts : StrategyRuntimeOpts) (acts : List Action)
    (rt : StrategyRuntime) (hrun : exec (step opts) {} acts = some rt) :
    AllControlled opts acts ↔
      Along (step opts) (fun rt a _ => Undoubled rt a) {} acts := by
  apply steps_iff_along
    (fun before rt => Registered rt ∧ rt.signalSubscribed = started before)
  · rintro before rt a rt' ⟨hregistered, hstarted⟩ hstep
    refine ⟨?_, step_registered hregistered hstarted hstep⟩
    rw [← hstarted]
    exact step_controlled hregistered hstep
  · exact ⟨⟨List.nodup_nil, List.forall_mem_nil _⟩, rfl⟩
  · exact hrun

/-! ## A restart -/

section Restart

def restartOpts : StrategyRuntimeOpts := { sha256 := fun _ => [] }

def watcher : Strategy := { name := "watcher", filters := [], hasOnExecutionResult := true }

def landedResult : ExecutionResult := .landed "intent-1" "tx-1" 40 "jito" 3

/-- One cycle, with a result while the runtime is started. -/
def oneCycle : List Action :=
  [.start, .register watcher none 0, .executionResult landedResult, .stop]

theorem start_stop_control_oneCycle : AllControlled restartOpts oneCycle := by
  have hruns : ∃ rt, exec (step restartOpts) {} oneCycle = some rt ∧ True := by decide +kernel
  obtain ⟨rt, hrun, -⟩ := hruns
  exact (start_stop_control restartOpts oneCycle rt hrun).2 (by decide +kernel)

theorem not_allControlled {opts : StrategyRuntimeOpts} {before : List Action} {a : Action}
    (h : ∃ rt, exec (step opts) {} before = some rt ∧
      (rt.instances.values.Nodup ∧ (∀ ref ∈ rt.instances.values, ref < rt.records.length) ∧
        rt.signalSubscribed = started before ∧ (step opts rt a).isSome = true ∧
        ¬ Undoubled rt a)) :
    ¬ AllControlled opts (before ++ [a]) := by
  intro hall
  obtain ⟨rt, hrun, hnodup, hbound, hstarted, hsome, hdoubled⟩ := h
  obtain ⟨rt', hstep⟩ := Option.isSome_iff_exists.1 hsome
  have hcontrolled := hall before a (List.prefix_refl _) rt rt' hrun hstep
  rw [← hstarted] at hcontrolled
  exact hdoubled ((step_controlled ⟨hnodup, hbound⟩ hstep).1 hcontrolled)

/-- What waits in the queues after a run. -/
def queued (acts : List Action) : Option (List (List Task)) :=
  (exec (step restartOpts) {} acts).map fun rt => rt.records.map (·.queue.waiting)

/-- A result that comes in after `stop` is dispatched, and one that comes in after the next
`start` is dispatched twice. -/
theorem leftListener_dispatches :
    (queued (oneCycle ++ [.executionResult landedResult]) =
        some [List.replicate 2 (.hook (.onExecutionResult landedResult))] ∧
      ¬ AllControlled restartOpts (oneCycle ++ [.executionResult landedResult])) ∧
    (queued ((oneCycle ++ [.start]) ++ [.executionResult landedResult]) =
        some [List.replicate 3 (.hook (.onExecutionResult landedResult))] ∧
      ¬ AllControlled restartOpts ((oneCycle ++ [.start]) ++ [.executionResult landedResult])) :=
  ⟨⟨by decide +kernel, not_allControlled (by decide +kernel)⟩,
    by decide +kernel, not_allControlled (by decide +kernel)⟩

end Restart

end Ap3xSolana.Strategies.StartStop
