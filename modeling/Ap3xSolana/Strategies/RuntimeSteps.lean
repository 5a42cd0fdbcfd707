import Ap3xSolana.Lib.Run
import Ap3xSolana.Strategies.Runtime

/-!
# What a step of the runtime does

Only `startTask` and `settle` take a task further, and they touch one instance
(`TaskStep`).  Every other step may put tasks at the end of the queues and no more
(`Background`).
-/

namespace Ap3xSolana.Strategies.Runtime

open Ap3xSolana.Core Ap3xSolana.Executor Ap3xSolana.Lib Ap3xSolana.Portfolio
open Ap3xSolana.Strategies.Guards

/-- What a step adds to the events. -/
def newEvents (rt rt' : StrategyRuntime) : List Event :=
  rt'.events.drop rt.events.length

theorem newEvents_of_eq {rt rt' : StrategyRuntime} {es : List Event}
    (h : rt'.events = rt.events ++ es) : newEvents rt rt' = es := by
  unfold newEvents
  rw [h]
  exact List.drop_left

/-! ## Steps outside the tasks -/

/-- Tasks may have been put at the end of the queue. -/
structure Enqueued (rec rec' : InstanceRecord) : Prop where
  running : rec'.queue.running = rec.queue.running
  guards : rec'.guards = rec.guards
  waiting : ∃ later, rec'.queue.waiting = rec.queue.waiting ++ later

theorem Enqueued.refl (rec : InstanceRecord) : Enqueued rec rec :=
  ⟨rfl, rfl, [], (List.append_nil _).symm⟩

theorem Enqueued.trans {r₁ r₂ r₃ : InstanceRecord} (h₁ : Enqueued r₁ r₂)
    (h₂ : Enqueued r₂ r₃) : Enqueued r₁ r₃ := by
  obtain ⟨later₁, hlater₁⟩ := h₁.waiting
  obtain ⟨later₂, hlater₂⟩ := h₂.waiting
  refine ⟨h₂.running.trans h₁.running, h₂.guards.trans h₁.guards, later₁ ++ later₂, ?_⟩
  rw [hlater₂, hlater₁, List.append_assoc]

theorem enqueued_enqueue (rec : InstanceRecord) (task : Task) :
    Enqueued rec (rec.enqueue task) := ⟨rfl, rfl, [task], rfl⟩

theorem enqueued_all (tasks : List Task) (rec : InstanceRecord) :
    Enqueued rec (tasks.foldl (·.enqueue ·) rec) := by
  induction tasks generalizing rec with
  | nil => exact .refl rec
  | cons task tasks ih => exact (enqueued_enqueue rec task).trans (ih (rec.enqueue task))

/-- Nothing runs: every task that is under way or waits is still there, in order. -/
structure Background (rt rt' : StrategyRuntime) : Prop where
  events : ∃ es, rt'.events = rt.events ++ es ∧ ∀ e ∈ es, e.output = .resumed
  records : ∀ (ref : Nat) (rec : InstanceRecord), rt.records[ref]? = some rec →
    ∃ rec', rt'.records[ref]? = some rec' ∧ Enqueued rec rec'
  fresh : ∀ (ref : Nat) (rec : InstanceRecord), rt'.records[ref]? = some rec →
    rt.records[ref]? = none → rec.queue.running = none

theorem Background.of_eq {rt rt' : StrategyRuntime} (he : rt'.events = rt.events)
    (hr : rt'.records = rt.records) : Background rt rt' where
  events := ⟨[], by rw [he, List.append_nil], List.forall_mem_nil _⟩
  records _ rec h := ⟨rec, hr ▸ h, .refl rec⟩
  fresh ref rec h hnone := by
    rw [hr, hnone] at h
    cases h

theorem Background.refl (rt : StrategyRuntime) : Background rt rt := .of_eq rfl rfl

theorem Background.trans {rt₁ rt₂ rt₃ : StrategyRuntime} (h₁ : Background rt₁ rt₂)
    (h₂ : Background rt₂ rt₃) : Background rt₁ rt₃ := by
  obtain ⟨es₁, hes₁, hquiet₁⟩ := h₁.events
  obtain ⟨es₂, hes₂, hquiet₂⟩ := h₂.events
  refine ⟨⟨es₁ ++ es₂, ?_, List.forall_mem_append.2 ⟨hquiet₁, hquiet₂⟩⟩, ?_, ?_⟩
  · rw [hes₂, hes₁, List.append_assoc]
  · intro ref rec hrec
    obtain ⟨rec₂, hrec₂, henq₂⟩ := h₁.records ref rec hrec
    obtain ⟨rec₃, hrec₃, henq₃⟩ := h₂.records ref rec₂ hrec₂
    exact ⟨rec₃, hrec₃, henq₂.trans henq₃⟩
  · intro ref rec hrec hnone
    cases hmid : rt₂.records[ref]? with
    | none => exact h₂.fresh ref rec hrec hmid
    | some rec₂ =>
        obtain ⟨rec₃, hrec₃, henq⟩ := h₂.records ref rec₂ hmid
        rw [hrec] at hrec₃
        cases hrec₃
        exact henq.running.trans (h₁.fresh ref rec₂ hmid hnone)

theorem background_foldl {β : Type} {f : StrategyRuntime → β → StrategyRuntime}
    (hf : ∀ rt b, Background rt (f rt b)) (bs : List β) (rt : StrategyRuntime) :
    Background rt (bs.foldl f rt) :=
  List.foldlRecOn bs f (.refl rt) fun rt' hrt' b _ => hrt'.trans (hf rt' b)

theorem background_modifyRecord (rt : StrategyRuntime) (ref : Nat)
    {f : InstanceRecord → InstanceRecord} (hf : ∀ rec, Enqueued rec (f rec)) :
    Background rt (modifyRecord rt ref f) where
  events := ⟨[], (List.append_nil _).symm, List.forall_mem_nil _⟩
  records ref' rec hrec := by
    show ∃ rec', (rt.records.modify ref f)[ref']? = some rec' ∧ _
    rw [List.getElem?_modify, hrec]
    refine ⟨_, rfl, ?_⟩
    split
    · exact hf rec
    · exact .refl rec
  fresh ref' rec hrec hnone := by
    have hmod : (rt.records.modify ref f)[ref']? = some rec := hrec
    rw [List.getElem?_modify, hnone] at hmod
    cases hmod

theorem background_dispatch (rt : StrategyRuntime) (tasks : InstanceRecord → List Task) :
    Background rt (dispatch rt tasks) := by
  apply background_foldl
  intro rt ref
  apply background_modifyRecord
  intro rec
  split
  · exact .refl rec
  · exact enqueued_all (tasks rec) rec

theorem background_register (opts : StrategyRuntimeOpts) (rt : StrategyRuntime)
    (strategy : Strategy) (instanceId : Option String) (now : Int) :
    Background rt (register opts rt strategy instanceId now) := by
  unfold register
  dsimp only
  split
  · exact .refl rt
  · refine ⟨⟨[], (List.append_nil _).symm, List.forall_mem_nil _⟩, ?_, ?_⟩
    · intro ref rec hrec
      refine ⟨rec, ?_, .refl rec⟩
      rw [List.getElem?_append_left (List.getElem?_eq_some_iff.1 hrec).1]
      exact hrec
    · intro ref rec hrec hnone
      rw [List.getElem?_append_right (List.getElem?_eq_none_iff.1 hnone)] at hrec
      rw [List.mem_singleton.1 (List.mem_of_getElem? hrec)]
      split <;> rfl

theorem background_deregister (rt : StrategyRuntime) (instanceId : String) :
    Background rt (deregister rt instanceId) := by
  unfold deregister
  split
  · exact .refl rt
  · rename_i ref _
    have h := background_modifyRecord rt ref
      (enqueued_enqueue · (.barrier rt.deregistrations.length))
    exact ⟨h.events, h.records, h.fresh⟩

theorem background_deregisterNext {rt rt' : StrategyRuntime} {call : Nat}
    (h : deregisterNext rt call = some rt') : Background rt rt' := by
  unfold deregisterNext at h
  split at h
  · cases h
  · rename_i d _
    dsimp only at h
    split at h
    · split at h
      · cases h
        have hb := background_modifyRecord (setStage rt call .shuttingDown) d.ref
          (enqueued_enqueue · (.shutdown call))
        exact ⟨hb.events, hb.records, hb.fresh⟩
      · cases h
        exact .of_eq rfl rfl
    · cases h
      exact .of_eq rfl rfl
    · cases h

theorem background_setQuarantined (rt : StrategyRuntime) (instanceId : String)
    (value : Bool) : Background rt (setQuarantined rt instanceId value) := by
  unfold setQuarantined
  split
  · exact .refl rt
  · apply background_modifyRecord
    exact fun rec => ⟨rfl, rfl, [], (List.append_nil _).symm⟩

theorem background_resume (rt : StrategyRuntime) (instanceId : String) :
    Background rt (resume rt instanceId) := by
  have h := background_setQuarantined rt instanceId false
  unfold resume
  dsimp only
  split
  · exact h
  · refine ⟨⟨_, rfl, ?_⟩, h.records, h.fresh⟩
    intro e he
    rw [List.mem_singleton.1 he]

/-! ## Steps of a task -/

/-- The instance whose task the action takes further. -/
def Action.owner : Action → Option Nat
  | .startTask ref => some ref
  | .settle ref _ _ => some ref
  | _ => none

/-- What the action makes of the record of its instance. -/
def Action.advance (opts : StrategyRuntimeOpts) (rec : InstanceRecord) :
    Action → Option (InstanceRecord × List Output)
  | .startTask _ => rec.startTask
  | .settle _ reply now => rec.settle opts.sha256 reply now
  | _ => none

/-- The record of one instance is replaced, and what that instance put out is added. -/
structure TaskStep (rt rt' : StrategyRuntime) (ref : Nat) (rec : InstanceRecord)
    (r : InstanceRecord × List Output) : Prop where
  found : rt.records[ref]? = some rec
  records : rt'.records = rt.records.set ref r.1
  events : rt'.events = rt.events ++ r.2.map (Event.mk ref)

theorem TaskStep.own {rt rt' : StrategyRuntime} {ref : Nat} {rec : InstanceRecord}
    {r : InstanceRecord × List Output} (h : TaskStep rt rt' ref rec r) :
    rt'.records[ref]? = some r.1 := by
  rw [h.records]
  exact List.getElem?_set_self (List.getElem?_eq_some_iff.1 h.found).1

theorem TaskStep.other {rt rt' : StrategyRuntime} {ref ref' : Nat} {rec : InstanceRecord}
    {r : InstanceRecord × List Output} (h : TaskStep rt rt' ref rec r) (hne : ref' ≠ ref) :
    rt'.records[ref']? = rt.records[ref']? := by
  rw [h.records]
  exact List.getElem?_set_ne hne.symm

theorem TaskStep.newEvents {rt rt' : StrategyRuntime} {ref : Nat} {rec : InstanceRecord}
    {r : InstanceRecord × List Output} (h : TaskStep rt rt' ref rec r) :
    newEvents rt rt' = r.2.map (Event.mk ref) :=
  newEvents_of_eq h.events

theorem startTask_taskStep {rt rt' : StrategyRuntime} {ref : Nat}
    (h : startTask rt ref = some rt') :
    ∃ rec r, rec.startTask = some r ∧ TaskStep rt rt' ref rec r := by
  unfold startTask at h
  split at h
  · cases h
  · rename_i rec hrec
    obtain ⟨r, hr, rfl⟩ := Option.map_eq_some_iff.1 h
    exact ⟨rec, r, hr, hrec, rfl, rfl⟩

theorem settle_taskStep {opts : StrategyRuntimeOpts} {rt rt' : StrategyRuntime} {ref : Nat}
    {reply : Reply} {now : Int} (h : settle opts rt ref reply now = some rt') :
    ∃ rec r, rec.settle opts.sha256 reply now = some r ∧ TaskStep rt rt' ref rec r := by
  unfold settle at h
  split at h
  · cases h
  · rename_i rec hrec
    split at h
    · cases h
    · rename_i r hr
      dsimp only at h
      refine ⟨rec, r, hr, ?_⟩
      split at h
      · cases h
        exact ⟨hrec, rfl, rfl⟩
      · cases h
        exact ⟨hrec, rfl, rfl⟩

/-- Either a step is one of a task, or no task goes on. -/
theorem step_cases {opts : StrategyRuntimeOpts} {rt rt' : StrategyRuntime} {a : Action}
    (h : step opts rt a = some rt') :
    (a.owner = none ∧ Background rt rt') ∨
      ∃ ref rec r, a.owner = some ref ∧ a.advance opts rec = some r ∧
        TaskStep rt rt' ref rec r := by
  cases a with
  | register strategy instanceId now =>
      cases h
      exact .inl ⟨rfl, background_register opts rt strategy instanceId now⟩
  | deregister instanceId =>
      cases h
      exact .inl ⟨rfl, background_deregister rt instanceId⟩
  | deregisterNext call => exact .inl ⟨rfl, background_deregisterNext h⟩
  | start =>
      cases h
      exact .inl ⟨rfl, .of_eq rfl rfl⟩
  | stop =>
      cases h
      exact .inl ⟨rfl, .of_eq rfl rfl⟩
  | pause instanceId =>
      cases h
      exact .inl ⟨rfl, background_setQuarantined rt instanceId true⟩
  | resume instanceId =>
      cases h
      exact .inl ⟨rfl, background_resume rt instanceId⟩
  | signal sig =>
      simp only [step] at h
      split at h
      · cases h
        exact .inl ⟨rfl, background_dispatch rt _⟩
      · cases h
  | executionResult result =>
      cases h
      exact .inl ⟨rfl, background_foldl (fun rt _ => background_dispatch rt _) _ rt⟩
  | positionChange change =>
      cases h
      exact .inl ⟨rfl, background_foldl (fun rt _ => background_dispatch rt _) _ rt⟩
  | tick interval now =>
      simp only [step] at h
      split at h
      · cases h
        exact .inl ⟨rfl, background_dispatch rt _⟩
      · cases h
  | startTask ref =>
      obtain ⟨rec, r, hr, hstep⟩ := startTask_taskStep h
      exact .inr ⟨ref, rec, r, rfl, hr, hstep⟩
  | settle ref reply now =>
      obtain ⟨rec, r, hr, hstep⟩ := settle_taskStep h
      exact .inr ⟨ref, rec, r, rfl, hr, hstep⟩

end Ap3xSolana.Strategies.Runtime
