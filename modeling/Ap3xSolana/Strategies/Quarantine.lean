import Ap3xSolana.Lib.Run
import Ap3xSolana.Strategies.Runtime

/-!
# Quarantine

A guard trip ends the task it happens in, and only the running task of an
instance can trip its guards.  So the one way to submit from quarantine is a task
that was queued behind the trip: nothing looks at `quarantined` between the
dispatch of a signal and the submission (`submits_respect_quarantine`).
-/

namespace Ap3xSolana.Strategies.Quarantine

open Ap3xSolana.Core Ap3xSolana.Executor Ap3xSolana.Lib Ap3xSolana.Lib.Run
open Ap3xSolana.Portfolio Ap3xSolana.Strategies.Guards Ap3xSolana.Strategies.Runtime

/-! ## The property -/

/-- What one event does to the quarantine of instance `ref`. -/
def tripStep (ref : Nat) (tripped : Bool) (e : Event) : Bool :=
  if e.ref = ref then
    match e.output with
    | .tripped _ => true
    | .resumed => false
    | _ => tripped
  else tripped

/-- A guard of the instance has tripped and it was not resumed since. -/
def isTripped (events : List Event) (ref : Nat) : Bool :=
  events.foldl (tripStep ref) false

/-- No submission of a quarantined instance. -/
def SubmitsRespectQuarantine (events : List Event) : Prop :=
  ∀ before after ref intent,
    events = before ++ { ref := ref, output := .submit intent } :: after →
      isTripped before ref = false

/-- The settled promise is the one of an `onSignal` hook, with a decision that the
rate guard accepts. -/
def Accepts (r : InstanceRecord) (reply : Reply) (now : Int) : Prop :=
  match r.queue.running, reply with
  | some (.hook (.onSignal _)), .decided (some _) =>
      (r.guards.recordDecision now).2 = none
  | _, _ => False

instance (r : InstanceRecord) (reply : Reply) (now : Int) :
    Decidable (Accepts r reply now) := by
  unfold Accepts
  split <;> infer_instance

/-- No quarantined instance gets a decision accepted: whatever signals were queued
behind the trip, their hooks decide nothing or exceed the decision rate. -/
def NoStaleDecision (rt : StrategyRuntime) (a : Action) (_ : StrategyRuntime) : Prop :=
  match a with
  | .settle ref reply now =>
      isTripped rt.events ref = true →
        ∀ rec ∈ rt.records[ref]?, ¬ Accepts rec reply now
  | _ => True

instance (rt : StrategyRuntime) (a : Action) (rt' : StrategyRuntime) :
    Decidable (NoStaleDecision rt a rt') := by
  unfold NoStaleDecision
  split <;> infer_instance

/-! ## Events -/

theorem isTripped_append_single (events : List Event) (e : Event) (ref : Nat) :
    isTripped (events ++ [e]) ref = tripStep ref (isTripped events ref) e := by
  rw [isTripped, List.foldl_append]
  rfl

/-- Neither a trip, nor a resumption, nor a submission. -/
def Quiet (o : Output) : Prop :=
  (∀ trip, o ≠ .tripped trip) ∧ o ≠ .resumed ∧ ∀ intent, o ≠ .submit intent

theorem tripStep_quiet {ref : Nat} {b : Bool} {e : Event} (h : Quiet e.output) :
    tripStep ref b e = b := by
  obtain ⟨htrip, hresume, -⟩ := h
  unfold tripStep
  split
  · split
    · rename_i trip heq
      exact absurd heq (htrip trip)
    · rename_i heq
      exact absurd heq hresume
    · rfl
  · rfl

theorem foldl_tripStep_quiet {ref : Nat} {es : List Event}
    (h : ∀ e ∈ es, Quiet e.output) (b : Bool) : es.foldl (tripStep ref) b = b := by
  induction es generalizing b with
  | nil => rfl
  | cons e es ih =>
      rw [List.foldl_cons, tripStep_quiet (h e List.mem_cons_self)]
      exact ih (fun e he => h e (List.mem_cons_of_mem _ he)) b

theorem foldl_tripStep_other {ref : Nat} {es : List Event}
    (h : ∀ e ∈ es, e.ref ≠ ref) (b : Bool) : es.foldl (tripStep ref) b = b := by
  induction es generalizing b with
  | nil => rfl
  | cons e es ih =>
      rw [List.foldl_cons, tripStep, if_neg (h e List.mem_cons_self)]
      exact ih (fun e he => h e (List.mem_cons_of_mem _ he)) b

theorem SubmitsRespectQuarantine.append {events es : List Event}
    (h : SubmitsRespectQuarantine events)
    (hes : ∀ before after ref intent,
      es = before ++ { ref := ref, output := .submit intent } :: after →
        isTripped (events ++ before) ref = false) :
    SubmitsRespectQuarantine (events ++ es) := by
  intro before after ref intent heq
  rcases List.append_eq_append_iff.1 heq with ⟨mid, rfl, hmid⟩ | ⟨mid, hmid, hrest⟩
  · exact hes mid after ref intent hmid
  · cases mid with
    | nil =>
        rw [List.append_nil] at hmid
        subst hmid
        have := hes [] after ref intent hrest.symm
        rwa [List.append_nil] at this
    | cons e mid =>
        rw [List.cons_append, List.cons.injEq] at hrest
        obtain ⟨rfl, -⟩ := hrest
        exact h before mid ref intent hmid

theorem SubmitsRespectQuarantine.append_of_none {events es : List Event}
    (h : SubmitsRespectQuarantine events)
    (hes : ∀ e ∈ es, ∀ intent, e.output ≠ .submit intent) :
    SubmitsRespectQuarantine (events ++ es) := by
  refine h.append fun before after ref intent heq => ?_
  exact absurd rfl (hes { ref := ref, output := .submit intent } (by simp [heq]) intent)

/-! ## What one step of a task does -/

/-- What a task step may do to its instance; `accepted` says that it accepts a
decision. -/
inductive TaskStep (r : InstanceRecord) (accepted : Prop) :
    InstanceRecord × List Output → Prop where
  | quiet (r' : InstanceRecord) (out : List Output)
      (hq : r'.quarantined = r.quarantined)
      (hrun : ∀ intent, r'.queue.running ≠ some (.address intent))
      (hout : ∀ o ∈ out, Quiet o) : TaskStep r accepted (r', out)
  | lookup (r' : InstanceRecord) (hacc : accepted)
      (hq : r'.quarantined = r.quarantined) : TaskStep r accepted (r', [])
  | submit (r' : InstanceRecord) (intent : TradeIntent)
      (hfrom : accepted ∨ ∃ intent, r.queue.running = some (.address intent))
      (hq : r'.quarantined = r.quarantined)
      (hrun : ∀ intent, r'.queue.running ≠ some (.address intent)) :
      TaskStep r accepted (r', [.submit intent])
  | trip (r' : InstanceRecord) (out : List Output) (hq : r'.quarantined = true)
      (hrun : r'.queue.running = none) (hout : ∀ o ∈ out, ∀ intent, o ≠ .submit intent) :
      TaskStep r accepted (r', out)

/-- A trip quarantines; the rest of the record stays. -/
theorem tripGuard_spec (r : InstanceRecord) (trip : GuardTrip) :
    (r.tripGuard trip).1.quarantined = true ∧
      ∀ o ∈ (r.tripGuard trip).2, ∀ intent, o ≠ .submit intent := by
  unfold InstanceRecord.tripGuard
  split
  · rename_i hq
    exact ⟨hq, by simp⟩
  · refine ⟨rfl, fun o ho intent => ?_⟩
    rcases List.mem_cons.1 ho with rfl | ho
    · simp
    · split at ho
      · rw [List.mem_singleton.1 ho]
        simp
      · cases ho

/-- A task that a trip ends. -/
theorem taskStep_tripGuard (r r' : InstanceRecord) (accepted : Prop) (trip : GuardTrip)
    {before after : List Output} (hbefore : ∀ o ∈ before, Quiet o)
    (hafter : ∀ o ∈ after, Quiet o) :
    TaskStep r accepted
      ((r'.tripGuard trip).1.done, before ++ ((r'.tripGuard trip).2 ++ after)) := by
  obtain ⟨hquar, hout⟩ := tripGuard_spec r' trip
  refine .trip _ _ hquar rfl fun o ho intent => ?_
  rw [List.mem_append, List.mem_append] at ho
  rcases ho with ho | ho | ho
  · exact (hbefore o ho).2.2 intent
  · exact hout o ho intent
  · exact (hafter o ho).2.2 intent

/-- A task that ends with a check of the guards. -/
theorem taskStep_tripIf (r r' : InstanceRecord) (accepted : Prop)
    (hq : r'.quarantined = r.quarantined) (trip : Option GuardTrip)
    {after : List Output} (hafter : ∀ o ∈ after, Quiet o) :
    TaskStep r accepted ((r'.tripIf trip).1.done, (r'.tripIf trip).2 ++ after) := by
  cases trip with
  | none => exact .quiet _ _ hq (by simp [InstanceRecord.done]) hafter
  | some trip => exact taskStep_tripGuard r r' accepted trip (List.forall_mem_nil Quiet) hafter

theorem taskStep_hookThrew (r : InstanceRecord) (accepted : Prop) (phase : HookPhase)
    (now : Int) : TaskStep r accepted (r.hookThrew phase now) := by
  have hquiet : ∀ o ∈ [Output.strategyError phase], Quiet o := by simp [Quiet]
  exact taskStep_tripIf r { r with guards := (r.guards.recordError now).1 } accepted rfl
    (r.guards.recordError now).2 hquiet

theorem taskStep_checkPositions (r : InstanceRecord) (accepted : Prop)
    (ps : List Position) : TaskStep r accepted (r.checkPositions ps) := by
  have hstep := taskStep_tripIf r r accepted rfl
    (r.guards.checkOpenPositions (ps.filter (·.isOpen)).length) (List.forall_mem_nil Quiet)
  rw [List.append_nil] at hstep
  exact hstep

theorem taskStep_realized (r : InstanceRecord) (accepted : Prop)
    (rest : List LandedTrade) (wallet : PublicKey) (amount now : Int) :
    TaskStep r accepted (r.realized rest wallet amount now) := by
  have hquiet : ∀ o ∈ [Output.recordRealized amount], Quiet o := by simp [Quiet]
  unfold InstanceRecord.realized
  cases r.guards.recordRealized now amount with
  | mk guards trip =>
      cases trip with
      | some trip =>
          have hstep := taskStep_tripGuard r { r with guards := guards } accepted trip
            hquiet (List.forall_mem_nil Quiet)
          rw [List.append_nil] at hstep
          exact hstep
      | none =>
          refine .quiet _ _ ?_ ?_ hquiet
          · cases rest <;> rfl
          · cases rest <;> simp [InstanceRecord.nextTrade, InstanceRecord.await]

theorem taskStep_decided (sha256 : List UInt8 → List UInt8) (r : InstanceRecord)
    (sig : Signal) (decision : TradeIntent) (now : Int) :
    TaskStep r ((r.guards.recordDecision now).2 = none)
      (r.decided sha256 sig decision now) := by
  unfold InstanceRecord.decided
  generalize r.guards.recordDecision now = recorded
  obtain ⟨guards, _ | trip⟩ := recorded
  · simp only
    split
    · exact .submit _ _ (.inl trivial) rfl (by simp [InstanceRecord.await])
    · exact .lookup _ trivial rfl
  · have hstep := taskStep_tripGuard r { r with guards := guards } (some trip = none) trip
      (List.forall_mem_nil Quiet) (List.forall_mem_nil Quiet)
    rw [List.append_nil] at hstep
    exact hstep

/-- One case for each promise a task may wait for. -/
theorem settle_taskStep {sha256 : List UInt8 → List UInt8} {r : InstanceRecord}
    {reply : Reply} {now : Int} {r' : InstanceRecord × List Output}
    (h : r.settle sha256 reply now = some r') : TaskStep r (Accepts r reply now) r' := by
  have hdone : TaskStep r (Accepts r reply now) (r.done, []) :=
    .quiet _ _ rfl (by simp [InstanceRecord.done]) (by simp)
  have hfail : TaskStep r (Accepts r reply now) r.fail :=
    .quiet _ _ rfl (by simp [InstanceRecord.done]) (by simp [Quiet])
  unfold InstanceRecord.settle at h
  split at h
  all_goals first | cases h | skip
  · exact hdone
  · exact hdone
  · rename_i sig decision hrun
    have hstep := taskStep_decided sha256 r sig decision now
    have haccepts : (r.guards.recordDecision now).2 = none →
        Accepts r (.decided (some decision)) now := fun h => by
      simpa only [Accepts, hrun] using h
    generalize r.decided sha256 sig decision now = res at hstep ⊢
    cases hstep with
    | quiet r' out hq hr hout => exact .quiet _ _ hq hr hout
    | lookup r' hacc hq => exact .lookup _ (haccepts hacc) hq
    | submit r' intent hfrom hq hr => exact .submit _ _ (hfrom.imp_left haccepts) hq hr
    | trip r' out hq hr hout => exact .trip _ _ hq hr hout
  · exact hdone
  · exact taskStep_hookThrew _ _ _ _
  · exact hdone
  · exact taskStep_hookThrew _ _ _ _
  · rename_i intent wallet hrun
    exact .submit _ _ (.inr ⟨intent, hrun⟩) rfl (by simp [InstanceRecord.await])
  · exact .quiet _ _ rfl (by simp [InstanceRecord.await]) (by simp)
  · split at h
    · cases h
      exact hfail
    · cases h
      rename_i trades _
      refine .quiet _ _ ?_ ?_ (by simp)
      · rcases trades with _ | ⟨t, ts⟩ <;> rfl
      · rcases trades with _ | ⟨t, ts⟩ <;>
          simp [InstanceRecord.adapted, InstanceRecord.nextTrade, InstanceRecord.await,
            InstanceRecord.done]
  · exact .quiet _ _ rfl (by simp [InstanceRecord.await]) (by simp [Quiet])
  · exact .quiet _ _ rfl (by simp [InstanceRecord.await]) (by simp)
  · exact taskStep_realized _ _ _ _ _ _
  · exact taskStep_checkPositions _ _ _
  · exact hfail

/-! ## What a step outside the tasks does -/

/-- Every record keeps its running task and does not leave quarantine; nothing is
put out. -/
structure Background (rt rt' : StrategyRuntime) : Prop where
  events : rt'.events = rt.events
  records : ∀ (ref : Nat) (rec : InstanceRecord), rt.records[ref]? = some rec →
    ∃ rec' : InstanceRecord, rt'.records[ref]? = some rec' ∧
      rec'.queue.running = rec.queue.running ∧
      (rec.quarantined = true → rec'.quarantined = true)

theorem Background.refl (rt : StrategyRuntime) : Background rt rt :=
  ⟨rfl, fun _ rec h => ⟨rec, h, rfl, id⟩⟩

theorem Background.of_eq {rt rt' : StrategyRuntime} (he : rt'.events = rt.events)
    (hr : rt'.records = rt.records) : Background rt rt' :=
  ⟨he, fun _ rec h => ⟨rec, by rw [hr]; exact h, rfl, id⟩⟩

theorem Background.trans {rt₁ rt₂ rt₃ : StrategyRuntime} (h₁ : Background rt₁ rt₂)
    (h₂ : Background rt₂ rt₃) : Background rt₁ rt₃ := by
  refine ⟨h₂.events.trans h₁.events, fun ref rec hrec => ?_⟩
  obtain ⟨rec₂, hrec₂, hrun₂, hq₂⟩ := h₁.records ref rec hrec
  obtain ⟨rec₃, hrec₃, hrun₃, hq₃⟩ := h₂.records ref rec₂ hrec₂
  exact ⟨rec₃, hrec₃, hrun₃.trans hrun₂, fun hq => hq₃ (hq₂ hq)⟩

theorem background_foldl {β : Type} {f : StrategyRuntime → β → StrategyRuntime}
    (hf : ∀ rt b, Background rt (f rt b)) (bs : List β) (rt : StrategyRuntime) :
    Background rt (bs.foldl f rt) :=
  List.foldlRecOn bs f (.refl rt) fun rt' hrt' b _ => hrt'.trans (hf rt' b)

theorem background_modifyRecord (rt : StrategyRuntime) (ref : Nat)
    {f : InstanceRecord → InstanceRecord}
    (hrun : ∀ rec, (f rec).queue.running = rec.queue.running)
    (hq : ∀ rec, rec.quarantined = true → (f rec).quarantined = true) :
    Background rt (modifyRecord rt ref f) := by
  refine ⟨rfl, fun ref' rec hrec => ?_⟩
  simp only [modifyRecord, List.getElem?_modify, hrec]
  by_cases hr : ref = ref'
  · exact ⟨f rec, by simp [hr], hrun rec, hq rec⟩
  · exact ⟨rec, by simp [hr], rfl, id⟩

theorem background_enqueue (rt : StrategyRuntime) (ref : Nat) (task : Task) :
    Background rt (modifyRecord rt ref (·.enqueue task)) :=
  background_modifyRecord rt ref (fun _ => rfl) (fun _ h => h)

theorem enqueueAll_running (tasks : List Task) (rec : InstanceRecord) :
    (tasks.foldl (·.enqueue ·) rec).queue.running = rec.queue.running ∧
      (tasks.foldl (·.enqueue ·) rec).quarantined = rec.quarantined := by
  induction tasks generalizing rec with
  | nil => exact ⟨rfl, rfl⟩
  | cons task tasks ih => exact ih (rec.enqueue task)

theorem background_dispatch (rt : StrategyRuntime)
    (tasks : InstanceRecord → List Task) : Background rt (dispatch rt tasks) := by
  refine background_foldl (fun rt ref => background_modifyRecord rt ref ?_ ?_) _ rt
  · intro rec
    split
    · rfl
    · exact (enqueueAll_running _ rec).1
  · intro rec hq
    simp [hq]

theorem background_register (opts : StrategyRuntimeOpts) (rt : StrategyRuntime)
    (strategy : Strategy) (instanceId : Option String) (now : Int) :
    Background rt (register opts rt strategy instanceId now) := by
  unfold register
  dsimp only
  split
  · exact .refl rt
  · refine ⟨rfl, fun ref rec hrec => ⟨rec, ?_, rfl, id⟩⟩
    rw [List.getElem?_append_left (List.getElem?_eq_some_iff.1 hrec).1]
    exact hrec

theorem background_deregister (rt : StrategyRuntime) (instanceId : String) :
    Background rt (deregister rt instanceId) := by
  unfold deregister
  split
  · exact .refl rt
  · rename_i ref _
    have h := background_enqueue rt ref (.barrier rt.deregistrations.length)
    exact ⟨h.events, h.records⟩

theorem background_deregisterNext {rt rt' : StrategyRuntime} {call : Nat}
    (h : deregisterNext rt call = some rt') : Background rt rt' := by
  unfold deregisterNext at h
  split at h
  · cases h
  · rename_i d _
    dsimp only at h
    split at h
    · split at h
      · cases h
        have hb := background_enqueue (setStage rt call .shuttingDown) d.ref (.shutdown call)
        exact ⟨hb.events, hb.records⟩
      · cases h
        exact .of_eq rfl rfl
    · cases h
      exact .of_eq rfl rfl
    · cases h

theorem background_pause (rt : StrategyRuntime) (instanceId : String) :
    Background rt (pause rt instanceId) := by
  unfold pause setQuarantined
  split
  · exact .refl rt
  · exact background_modifyRecord rt _ (fun _ => rfl) (fun _ _ => rfl)

/-! ## The invariant -/

/-- A tripped instance is quarantined and its running task is not on its way to a
submission. -/
structure Inv (rt : StrategyRuntime) : Prop where
  quarantined : ∀ ref, isTripped rt.events ref = true →
    ∃ rec : InstanceRecord, rt.records[ref]? = some rec ∧ rec.quarantined = true ∧
      ∀ intent, rec.queue.running ≠ some (.address intent)
  respects : SubmitsRespectQuarantine rt.events

theorem inv_init : Inv {} where
  quarantined _ h := by cases h
  respects before after ref intent h := by
    cases before <;> cases h

theorem Inv.background {rt rt' : StrategyRuntime} (hrt : Inv rt) (h : Background rt rt') :
    Inv rt' := by
  refine ⟨fun ref htrip => ?_, by rw [h.events]; exact hrt.respects⟩
  rw [h.events] at htrip
  obtain ⟨rec, hrec, hq, hrun⟩ := hrt.quarantined ref htrip
  obtain ⟨rec', hrec', hrun', hq'⟩ := h.records ref rec hrec
  exact ⟨rec', hrec', hq' hq, by rwa [hrun']⟩

theorem isTripped_append_other (events : List Event) (out : List Output) {ref ref' : Nat}
    (h : ref ≠ ref') :
    isTripped (events ++ out.map (Event.mk ref)) ref' =
      isTripped events ref' := by
  rw [isTripped, List.foldl_append]
  refine foldl_tripStep_other (fun e he => ?_) _
  obtain ⟨o, -, rfl⟩ := List.mem_map.1 he
  exact h

/-- Putting back the record of a task step. -/
theorem Inv.putRecord {rt : StrategyRuntime} (hrt : Inv rt) {ref : Nat}
    {rec : InstanceRecord} (hrec : rt.records[ref]? = some rec)
    {r : InstanceRecord × List Output}
    (hown : isTripped (Runtime.putRecord rt ref r).events ref = true →
      r.1.quarantined = true ∧ ∀ intent, r.1.queue.running ≠ some (.address intent))
    (hresp : SubmitsRespectQuarantine (Runtime.putRecord rt ref r).events) :
    Inv (Runtime.putRecord rt ref r) := by
  have hlt := (List.getElem?_eq_some_iff.1 hrec).1
  refine ⟨fun ref' htrip => ?_, hresp⟩
  by_cases hr : ref = ref'
  · subst hr
    obtain ⟨hq, hrun⟩ := hown htrip
    exact ⟨r.1, by simp [Runtime.putRecord, hlt], hq, hrun⟩
  · simp only [Runtime.putRecord, isTripped_append_other _ _ hr] at htrip
    obtain ⟨rec', hrec', hq, hrun⟩ := hrt.quarantined ref' htrip
    exact ⟨rec', by simp [Runtime.putRecord, hr, hrec'], hq, hrun⟩

/-- One case for each thing a task step may do. -/
theorem Inv.taskStep {rt : StrategyRuntime} (hrt : Inv rt) {ref : Nat}
    {rec : InstanceRecord} (hrec : rt.records[ref]? = some rec) {accepted : Prop}
    {r : InstanceRecord × List Output} (hstep : TaskStep rec accepted r)
    (hstale : isTripped rt.events ref = true → ¬ accepted) :
    Inv (Runtime.putRecord rt ref r) := by
  have hquar : isTripped rt.events ref = true → rec.quarantined = true ∧
      ∀ intent, rec.queue.running ≠ some (.address intent) := by
    intro htrip
    obtain ⟨rec', hrec', hq⟩ := hrt.quarantined ref htrip
    rw [hrec] at hrec'
    cases hrec'
    exact hq
  cases hstep with
  | quiet r' out hq hrun hout =>
      have hev : ∀ e ∈ out.map (Event.mk ref),
          Quiet e.output := by
        intro e he
        obtain ⟨o, ho, rfl⟩ := List.mem_map.1 he
        exact hout o ho
      refine hrt.putRecord hrec (fun htrip => ⟨?_, hrun⟩)
        (hrt.respects.append_of_none fun e he => (hev e he).2.2)
      rw [Runtime.putRecord, isTripped, List.foldl_append, foldl_tripStep_quiet hev] at htrip
      rw [hq]
      exact (hquar htrip).1
  | lookup r' hacc hq =>
      refine hrt.putRecord hrec (fun htrip => ?_) ?_
      · rw [Runtime.putRecord, List.map_nil, List.append_nil] at htrip
        exact absurd hacc (hstale htrip)
      · rw [Runtime.putRecord, List.map_nil, List.append_nil]
        exact hrt.respects
  | submit r' intent hfrom hq hrun =>
      -- an accepted decision is not stale, and a lookup began before any trip
      have hfree : isTripped rt.events ref = false := by
        by_contra htrip
        rw [Bool.not_eq_false] at htrip
        rcases hfrom with hacc | ⟨intent', hrun'⟩
        · exact hstale htrip hacc
        · exact (hquar htrip).2 intent' hrun'
      refine hrt.putRecord hrec (fun htrip => ?_) (hrt.respects.append ?_)
      · rw [Runtime.putRecord, List.map_singleton, isTripped_append_single, tripStep,
          if_pos rfl] at htrip
        rw [hfree] at htrip
        cases htrip
      · intro before after ref' intent' heq
        cases before with
        | nil =>
            simp only [List.map_cons, List.map_nil, List.nil_append, List.cons.injEq,
              Event.mk.injEq] at heq
            rw [List.append_nil, ← heq.1.1]
            exact hfree
        | cons e before => simp at heq
  | trip r' out hq hrun hout =>
      refine hrt.putRecord hrec (fun _ => ⟨hq, by simp [hrun]⟩)
        (hrt.respects.append_of_none fun e he => ?_)
      obtain ⟨o, ho, rfl⟩ := List.mem_map.1 he
      exact hout o ho

theorem Inv.startTask {rt rt' : StrategyRuntime} (hrt : Inv rt) {ref : Nat}
    (h : Runtime.startTask rt ref = some rt') : Inv rt' := by
  unfold Runtime.startTask at h
  split at h
  · cases h
  · rename_i rec hrec
    obtain ⟨r, hr, rfl⟩ := Option.map_eq_some_iff.1 h
    unfold InstanceRecord.startTask at hr
    split at hr
    · cases hr
    · rename_i task waiting _
      cases hr
      refine hrt.taskStep hrec ?_ (fun _ (hfalse : False) => hfalse)
      cases task <;>
        exact .quiet _ _ rfl (by simp [InstanceRecord.await]) (by simp [Quiet])

theorem Inv.settle {opts : StrategyRuntimeOpts} {rt rt' : StrategyRuntime} (hrt : Inv rt)
    {ref : Nat} {reply : Reply} {now : Int}
    (h : Runtime.settle opts rt ref reply now = some rt')
    (hstale : NoStaleDecision rt (.settle ref reply now) rt') : Inv rt' := by
  unfold Runtime.settle at h
  split at h
  · cases h
  · rename_i rec hrec
    split at h
    · cases h
    · rename_i r hr
      have hput := hrt.taskStep hrec (settle_taskStep hr) (fun htrip => hstale htrip rec hrec)
      dsimp only at h
      split at h
      · cases h
        exact hput
      · cases h
        exact hput.background (.of_eq rfl rfl)

theorem Inv.resume {rt : StrategyRuntime} (hrt : Inv rt) (instanceId : String) :
    Inv (Runtime.resume rt instanceId) := by
  unfold Runtime.resume setQuarantined
  cases hget : rt.instances.get? instanceId with
  | none => exact hrt
  | some ref =>
      refine ⟨fun ref' htrip => ?_, hrt.respects.append_of_none (by simp)⟩
      simp only [isTripped_append_single, tripStep] at htrip
      by_cases hr : ref = ref'
      · simp [hr] at htrip
      · rw [if_neg hr] at htrip
        obtain ⟨rec, hrec, hq, hrun⟩ := hrt.quarantined ref' htrip
        exact ⟨rec, by simp [modifyRecord, hr, hrec], hq, hrun⟩

theorem step_inv {opts : StrategyRuntimeOpts} {rt rt' : StrategyRuntime} {a : Action}
    (hrt : Inv rt) (h : step opts rt a = some rt') (hstale : NoStaleDecision rt a rt') :
    Inv rt' := by
  cases a with
  | register strategy instanceId now =>
      cases h
      exact hrt.background (background_register opts rt strategy instanceId now)
  | deregister instanceId =>
      cases h
      exact hrt.background (background_deregister rt instanceId)
  | deregisterNext call => exact hrt.background (background_deregisterNext h)
  | start =>
      cases h
      exact hrt.background (.of_eq rfl rfl)
  | stop =>
      cases h
      exact hrt.background (.of_eq rfl rfl)
  | pause instanceId =>
      cases h
      exact hrt.background (background_pause rt instanceId)
  | resume instanceId =>
      cases h
      exact hrt.resume instanceId
  | signal sig =>
      simp only [step] at h
      split at h
      · cases h
        exact hrt.background (background_dispatch rt _)
      · cases h
  | executionResult result =>
      cases h
      exact hrt.background (background_foldl (fun rt _ => background_dispatch rt _) _ rt)
  | positionChange change =>
      cases h
      exact hrt.background (background_foldl (fun rt _ => background_dispatch rt _) _ rt)
  | tick interval now =>
      simp only [step] at h
      split at h
      · cases h
        exact hrt.background (background_dispatch rt _)
      · cases h
  | startTask ref => exact hrt.startTask h
  | settle ref reply now => exact hrt.settle h hstale

/-! ## Runs -/

/-- No quarantined instance submits, in any run in which no quarantined instance
gets a decision accepted. -/
theorem submits_respect_quarantine (opts : StrategyRuntimeOpts) (acts : List Action)
    (hstale : Along (step opts) NoStaleDecision {} acts) :
    Along (step opts) (fun _ _ rt => SubmitsRespectQuarantine rt.events) {} acts := by
  refine along_of_inv Inv (fun rt a rt' hrt h hok => ?_) acts {} inv_init hstale
  have hrt' := step_inv hrt h hok
  exact ⟨hrt'.respects, hrt'⟩

/-- A runtime whose error guard trips on the first error. -/
def strictOpts : StrategyRuntimeOpts :=
  { guards := { errorThreshold := some { errors := 0, windowMs := 60000 } }
    sha256 := fun _ =>
      [0xf8, 0xbb, 0xb4, 0x7e, 0x27, 0xac, 0x3d, 0xb9, 0x4e, 0x78, 0x73, 0x5c,
      0xf2, 0x4b, 0x26, 0xbf, 0x17, 0x09, 0x19, 0x1c, 0xc3, 0x0b, 0xbf, 0x3c,
      0xf7, 0xff, 0xcf, 0x41, 0xc4, 0xcc, 0xd9, 0xed] }

def hotWallet : PublicKey := .ofByte 7

def breakout : Strategy := { name := "breakout", filters := [{}] }

def poolSignal (signalId : String) : Signal :=
  { signalId := signalId, programId := .ofByte 9,
    kind := "pool-created" }

def buy (intentId : String) : TradeIntent :=
  { intentId := intentId, wallet := "hot", instructions := [], feeTier := .med,
    deadline := 60000 }

/-- Two signals are queued; the first hook throws, the second decides `decision`. -/
def queuedBehindTrip (decision : Option TradeIntent) : List Action :=
  [.start, .register breakout none 0, .signal (poolSignal "sig-1"),
    .signal (poolSignal "sig-2"), .startTask 0, .settle 0 .threw 1, .startTask 0,
    .settle 0 (.decided decision) 2]

theorem submits_respect_quarantine_no_decision :
    Along (step strictOpts) (fun _ _ rt => SubmitsRespectQuarantine rt.events) {}
      (queuedBehindTrip none) :=
  submits_respect_quarantine strictOpts (queuedBehindTrip none) (by decide +kernel)

theorem queuedSignal_submits_after_trip :
    ∃ rt, exec (step strictOpts) {}
        (queuedBehindTrip (some (buy "")) ++ [.settle 0 (.address hotWallet) 3]) = some rt ∧
      ¬ SubmitsRespectQuarantine rt.events := by
  have hevents : (exec (step strictOpts) {} (queuedBehindTrip (some (buy "")) ++
        [.settle 0 (.address hotWallet) 3])).map (·.events) =
      some ([.hook (.onSignal (poolSignal "sig-1")),
          .tripped { guard := .errorThreshold, value := 1 },
          .strategyError .onSignal,
          .hook (.onSignal (poolSignal "sig-2"))].map (Event.mk 0) ++
        [⟨0, .submit (buy "Hjx7kNpp1Ccqg7gDWfJGvw2wssqhcxagPoMB6YunBvs6")⟩]) := by
    decide +kernel
  obtain ⟨rt, hrt, heq⟩ := Option.map_eq_some_iff.1 hevents
  refine ⟨rt, hrt, fun h => ?_⟩
  have hfree := h _ [] 0 _ heq
  revert hfree
  decide

end Ap3xSolana.Strategies.Quarantine
