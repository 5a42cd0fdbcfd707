import Ap3xSolana.Executor.Executor
import Ap3xSolana.Executor.Progress
import Ap3xSolana.Lib.Throwing
import Mathlib.Data.List.Forall2

/-!
# What a step does to the executions

A step begins an execution, moves the one it is about, or only delivers the outcome
of a bundle to executions that wait for one (`Delivered`).  `step_changes` says this
once for the whole machine.
-/

namespace Ap3xSolana.Executor

open Ap3xSolana.Core Ap3xSolana.Lib

/-! ## Delivery -/

/-- The outcome of a bundle reached the execution, or nothing happened to it. -/
inductive Delivered (x : Execution) : Execution → Prop where
  | same : Delivered x x
  | outcome {signedTx : List UInt8} {name : String} (o : Except ThrownError String) :
      x.running = .bundle signedTx name →
      Delivered x { x with running := .bundled signedTx name o }

theorem Delivered.trans {x y z : Execution} (h : Delivered x y) (h' : Delivered y z) :
    Delivered x z := by
  cases h with
  | same => exact h'
  | outcome o hx =>
      cases h' with
      | same => exact .outcome o hx
      | outcome o' hy => cases hy

theorem Delivered.intent {x y : Execution} (h : Delivered x y) : y.intent = x.intent := by
  cases h <;> rfl

theorem Delivered.rejects {x y : Execution} (h : Delivered x y) :
    y.running.rejects = x.running.rejects := by
  cases h with
  | same => rfl
  | outcome o hx =>
      rw [hx]
      rfl

/-- Nothing is delivered to an execution that is over. -/
theorem Delivered.settled {x y : Execution} (h : Delivered x y)
    {r : Except String ExecutionResult} (hy : y.running = .settled r) :
    x.running = .settled r := by
  cases h with
  | same => exact hy
  | outcome o hx => cases hy

theorem Delivered.rank {x y : Execution} (h : Delivered x y) : y.rank ≤ x.rank := by
  cases h with
  | same => exact le_refl _
  | outcome o hx =>
      have hphase : x.running.phase = 3 := by
        rw [hx]
        rfl
      refine le_of_lt (Execution.rank_lt_of_phase ?_ ?_)
      · rfl
      · rw [hphase]
        exact Nat.lt_succ_self 2

abbrev AllDelivered (xs ys : List Execution) : Prop := List.Forall₂ Delivered xs ys

theorem allDelivered_refl (xs : List Execution) : AllDelivered xs xs :=
  List.forall₂_same.2 fun _ _ => .same

theorem AllDelivered.trans {xs ys zs : List Execution} (h : AllDelivered xs ys)
    (h' : AllDelivered ys zs) : AllDelivered xs zs := by
  induction h generalizing zs with
  | nil => exact h'
  | cons hxy _ ih =>
      cases h' with
      | cons hyz hrest => exact .cons (hxy.trans hyz) (ih hrest)

theorem AllDelivered.getElem? {xs ys : List Execution} (h : AllDelivered xs ys) {i : Nat}
    {x : Execution} (hx : xs[i]? = some x) : ∃ y, ys[i]? = some y ∧ Delivered x y := by
  induction h generalizing i with
  | nil => simp at hx
  | cons hxy _ ih =>
      cases i with
      | zero =>
          simp only [List.getElem?_cons_zero, Option.some.injEq] at hx
          subst hx
          exact ⟨_, rfl, hxy⟩
      | succ i =>
          rw [List.getElem?_cons_succ] at hx
          exact ih hx

theorem AllDelivered.of_mem {xs ys : List Execution} (h : AllDelivered xs ys)
    {y : Execution} (hy : y ∈ ys) : ∃ x ∈ xs, Delivered x y := by
  induction h with
  | nil => cases hy
  | cons hxy _ ih =>
      rcases List.mem_cons.1 hy with rfl | hy
      · exact ⟨_, List.mem_cons_self, hxy⟩
      · obtain ⟨x, hx, hdel⟩ := ih hy
        exact ⟨x, List.mem_cons_of_mem _ hx, hdel⟩

theorem AllDelivered.exists_mem {xs ys : List Execution} (h : AllDelivered xs ys)
    {x : Execution} (hx : x ∈ xs) : ∃ y ∈ ys, Delivered x y := by
  obtain ⟨i, hi⟩ := List.mem_iff_getElem?.1 hx
  obtain ⟨y, hy, hdel⟩ := h.getElem? hi
  exact ⟨y, List.mem_of_getElem? hy, hdel⟩

theorem allDelivered_modify (xs : List Execution) (i : Nat) (f : Execution → Execution)
    (hf : ∀ x, Delivered x (f x)) : AllDelivered xs (xs.modify i f) := by
  induction xs generalizing i with
  | nil => rw [List.modify_nil]; exact .nil
  | cons x xs ih =>
      cases i with
      | zero => exact .cons (hf x) (allDelivered_refl xs)
      | succ i => exact .cons .same (ih i)

theorem deliver_delivers (st : State)
    (entries : List (PendingEntry × Except ThrownError String)) :
    AllDelivered st.executions (deliver st entries).executions := by
  unfold deliver
  show AllDelivered st.executions (entries.foldl _ st.executions)
  generalize st.executions = xs
  induction entries generalizing xs with
  | nil => exact allDelivered_refl xs
  | cons e entries ih =>
      rw [List.foldl_cons]
      refine AllDelivered.trans (allDelivered_modify xs _ _ fun x => ?_) (ih _)
      split
      · rename_i hrun
        exact .outcome _ hrun
      · exact .same

theorem startFlush_delivers (opts : ExecutorOpts) (st : State) (unhealthy : List Nat)
    (entries : List PendingEntry) :
    AllDelivered st.executions (startFlush opts st unhealthy entries).executions := by
  unfold startFlush
  split
  · exact deliver_delivers st _
  · split
    · exact deliver_delivers st _
    · exact allDelivered_refl _

theorem startFlushIf_delivers (opts : ExecutorOpts) (st : State) (unhealthy : List Nat)
    (batch : Option (List PendingEntry)) :
    AllDelivered st.executions (startFlushIf opts st unhealthy batch).executions := by
  cases batch with
  | none => exact allDelivered_refl _
  | some entries => exact startFlush_delivers opts st unhealthy entries

theorem addBundles_delivers (opts : ExecutorOpts) (st : State) (exec : Nat)
    (unhealthy : List Nat) (out : List Output) :
    AllDelivered st.executions (addBundles opts st exec unhealthy out).executions := by
  induction out generalizing st with
  | nil => exact allDelivered_refl _
  | cons o out ih =>
      cases o with
      | addToBundle group entry =>
          exact AllDelivered.trans (startFlushIf_delivers opts { st with
            bundles := (st.bundles.add opts.bundleMaxIntents group
              { entry := entry, owner := exec }).1 } unhealthy _) (ih _)
      | _ => exact ih st

theorem putExecution_delivers (opts : ExecutorOpts) (st : State) (exec : Nat)
    (unhealthy : List Nat) (r : Execution × List Output) :
    AllDelivered (st.executions.set exec r.1)
      (putExecution opts st exec unhealthy r).executions :=
  addBundles_delivers opts { st with
    executions := st.executions.set exec r.1
    events := st.events ++ log st.now exec r.2 } exec unhealthy r.2

theorem flushedStep_delivers {st st' : State} (f : Nat) (outcome : Except String Unit)
    (h : flushedStep st f outcome = some st') :
    AllDelivered st.executions st'.executions := by
  unfold flushedStep at h
  split at h
  · cases h
    unfold flushDone
    dsimp only
    split
    · exact deliver_delivers { st with .. } _
    · exact deliver_delivers { st with .. } _
  · cases h
    unfold flushThrew
    dsimp only
    split
    · exact deliver_delivers { st with .. } _
    · exact allDelivered_refl _
  · cases h

/-! ## Steps -/

/-- The action is a step of execution `i`. -/
def Action.owns (a : Action) (i : Nat) : Prop :=
  match a.kind with
  | .settle exec _ => exec = i
  | .resume exec => exec = i
  | _ => False

inductive Changes (opts : ExecutorOpts) (xs : List Execution) :
    Action → List Execution → Prop where
  | idle {a : Action} {ys : List Execution} :
      (∀ i, ¬ a.owns i) → AllDelivered xs ys → Changes opts xs a ys
  | began (intent : TradeIntent) (env : Readings) :
      Changes opts xs { kind := .submit intent, env := env }
        (xs ++ [(Execution.begin intent).1])
  | settled {i : Nat} {reply : Reply} {env : Readings} {x : Execution}
      {r : Execution × List Output} {ys : List Execution} :
      xs[i]? = some x → x.settle opts reply env = some r →
      AllDelivered (xs.set i r.1) ys →
      Changes opts xs { kind := .settle i reply, env := env } ys
  | resumed {i : Nat} {env : Readings} {last : Option String} {x : Execution}
      {r : Execution × List Output} {ys : List Execution} :
      xs[i]? = some x → x.resume last env = some r → AllDelivered (xs.set i r.1) ys →
      Changes opts xs { kind := .resume i, env := env } ys

theorem step_changes {opts : ExecutorOpts} {st st' : State} {a : Action}
    (hstep : step opts st a = some st') : Changes opts st.executions a st'.executions := by
  obtain ⟨kind, env⟩ := a
  unfold step at hstep
  split at hstep
  swap
  · cases hstep
  generalize hst : ({ st with now := env.now } : State) = st₁ at hstep
  have hxs : st.executions = st₁.executions := by rw [← hst]
  rw [hxs]
  cases kind with
  | submit intent =>
      cases hstep
      unfold submit
      split
      · exact .idle (fun _ h => h) (allDelivered_refl _)
      · split
        · exact .idle (fun _ h => h) (allDelivered_refl _)
        · exact .began intent env
  | settle exec reply =>
      dsimp only [stepAt, settleStep] at hstep
      split at hstep
      · cases hstep
      · rename_i x hx
        obtain ⟨r, hr, rfl⟩ := Option.map_eq_some_iff.1 hstep
        exact .settled hx hr (putExecution_delivers opts st₁ exec _ r)
  | timer timer =>
      obtain ⟨⟨bundles, batch⟩, -, rfl⟩ := Option.map_eq_some_iff.1 hstep
      exact .idle (fun _ h => h)
        (startFlushIf_delivers opts { st₁ with bundles := bundles } _ batch)
  | flushed f outcome =>
      exact .idle (fun _ h => h) (flushedStep_delivers f outcome hstep)
  | resume exec =>
      dsimp only [stepAt, resumeStep] at hstep
      split at hstep
      · cases hstep
      · rename_i x hx
        obtain ⟨r, hr, rfl⟩ := Option.map_eq_some_iff.1 hstep
        exact .resumed hx hr (putExecution_delivers opts st₁ exec _ r)
  | release exec =>
      dsimp only [stepAt, release] at hstep
      split at hstep
      · split at hstep
        · split at hstep
          · cases hstep
            exact .idle (fun _ h => h) (allDelivered_refl _)
          · cases hstep
        · cases hstep
      · cases hstep
  | land exec signedTx =>
      dsimp only [stepAt] at hstep
      split at hstep
      · cases hstep
        exact .idle (fun _ h => h) (allDelivered_refl _)
      · cases hstep

/-- What becomes of one execution in a step: it keeps its intent, and once its
deadline has come it only gets closer to its end. -/
structure Closer (late own : Prop) (x y : Execution) : Prop where
  intent : y.intent = x.intent
  unsettled : y.running.isSettled = false → x.running.isSettled = false
  rank : late → y.rank ≤ x.rank
  own : late → own → y.rank < x.rank

theorem Delivered.closer {x y : Execution} (h : Delivered x y) {late own : Prop}
    (hown : ¬ own) : Closer late own x y where
  intent := h.intent
  unsettled hy := by
    cases h with
    | same => exact hy
    | outcome o hx =>
        rw [hx]
        rfl
  rank _ := h.rank
  own _ ho := absurd ho hown

theorem Execution.Advances.closer {x r y : Execution} {late throws own : Prop}
    (h : x.Advances late throws r) (hx : x.running.isSettled = false)
    (hdel : Delivered r y) : Closer late own x y where
  intent := hdel.intent.trans h.intent
  unsettled _ := hx
  rank hlate := hdel.rank.trans (h.rank hlate).le
  own hlate _ := hdel.rank.trans_lt (h.rank hlate)

/-- The execution that a step is about, among the others. -/
private theorem closer_set {xs ys : List Execution} {i j : Nat} {x r z : Execution}
    (late : Execution → Prop) {throws : Prop} (hx : xs[i]? = some x)
    (hadv : x.Advances (late x) throws r) (hrun : x.running.isSettled = false)
    (hdel : AllDelivered (xs.set i r) ys) (hz : xs[j]? = some z) :
    ∃ y, ys[j]? = some y ∧ Closer (late z) (i = j) z y := by
  by_cases hij : i = j
  · subst hij
    obtain rfl : x = z := Option.some.inj (hx.symm.trans hz)
    have hlt := (List.getElem?_eq_some_iff.1 hx).1
    obtain ⟨y, hy, hry⟩ := hdel.getElem? (List.getElem?_set_self hlt)
    exact ⟨y, hy, hadv.closer hrun hry⟩
  · obtain ⟨y, hy, hzy⟩ := hdel.getElem? ((List.getElem?_set_ne hij).trans hz)
    exact ⟨y, hy, hzy.closer hij⟩

/-- Every execution goes on, and at most one is new. -/
theorem step_closer {opts : ExecutorOpts} {st st' : State} {a : Action}
    (hstep : step opts st a = some st') {j : Nat} {z : Execution}
    (hz : st.executions[j]? = some z) :
    ∃ y, st'.executions[j]? = some y ∧
      Closer (z.intent.deadline ≤ a.env.now) (a.owns j) z y := by
  have hchanges := step_changes hstep
  generalize st'.executions = ys at hchanges ⊢
  cases hchanges with
  | idle hidle hdel =>
      obtain ⟨y, hy, hzy⟩ := hdel.getElem? hz
      exact ⟨y, hy, hzy.closer (hidle j)⟩
  | began intent env =>
      have hlt := (List.getElem?_eq_some_iff.1 hz).1
      exact ⟨z, (List.getElem?_append_left hlt).trans hz,
        Delivered.closer .same fun h => h⟩
  | settled hx hr hdel =>
      exact closer_set (fun x => x.intent.deadline ≤ _) hx
        (Execution.settle_advances hr) (Execution.settle_unsettled hr) hdel hz
  | resumed hx hr hdel =>
      exact closer_set (fun x => x.intent.deadline ≤ _) hx
        (Execution.resume_advances hr) (Execution.resume_unsettled hr) hdel hz

/-- Only `submit` adds an execution. -/
theorem Changes.length_eq {opts : ExecutorOpts} {xs ys : List Execution} {a : Action}
    (h : Changes opts xs a ys) (hkind : ∀ intent, a.kind ≠ .submit intent) :
    ys.length = xs.length := by
  cases h with
  | idle _ hdel => exact hdel.length_eq.symm
  | began intent env => exact absurd rfl (hkind intent)
  | settled _ _ hdel => exact hdel.length_eq.symm.trans (List.length_set ..)
  | resumed _ _ hdel => exact hdel.length_eq.symm.trans (List.length_set ..)

/-- An execution that was there before the step. -/
theorem step_backward {opts : ExecutorOpts} {st st' : State} {a : Action}
    (hstep : step opts st a = some st') {j : Nat} {y : Execution}
    (hy : st'.executions[j]? = some y) (hlt : j < st.executions.length) :
    ∃ z, st.executions[j]? = some z ∧
      Closer (z.intent.deadline ≤ a.env.now) (a.owns j) z y := by
  obtain ⟨y', hy', hcloser⟩ := step_closer hstep (List.getElem?_eq_getElem hlt)
  obtain rfl : y = y' := Option.some.inj (hy.symm.trans hy')
  exact ⟨_, List.getElem?_eq_getElem hlt, hcloser⟩

/-! ## The clock and the slots -/

/-- Bundles touch neither the clock nor the slots. -/
structure Keeps (st st' : State) : Prop where
  now : st'.now = st.now
  inFlight : st'.inFlight = st.inFlight

theorem startFlushIf_keeps (opts : ExecutorOpts) (st : State) (unhealthy : List Nat)
    (batch : Option (List PendingEntry)) :
    Keeps st (startFlushIf opts st unhealthy batch) := by
  cases batch with
  | none => exact ⟨rfl, rfl⟩
  | some entries =>
      unfold startFlushIf startFlush
      dsimp only
      split
      · exact ⟨rfl, rfl⟩
      · split <;> exact ⟨rfl, rfl⟩

theorem addBundles_keeps (opts : ExecutorOpts) (st : State) (exec : Nat)
    (unhealthy : List Nat) (out : List Output) :
    Keeps st (addBundles opts st exec unhealthy out) := by
  induction out generalizing st with
  | nil => exact ⟨rfl, rfl⟩
  | cons o out ih =>
      cases o with
      | addToBundle group entry =>
          have hflush := startFlushIf_keeps opts { st with
            bundles := (st.bundles.add opts.bundleMaxIntents group
              { entry := entry, owner := exec }).1 } unhealthy
            (st.bundles.add opts.bundleMaxIntents group { entry := entry, owner := exec }).2
          have hrest := ih (startFlushIf opts { st with
            bundles := (st.bundles.add opts.bundleMaxIntents group
              { entry := entry, owner := exec }).1 } unhealthy
            (st.bundles.add opts.bundleMaxIntents group { entry := entry, owner := exec }).2)
          exact ⟨hrest.now.trans hflush.now, hrest.inFlight.trans hflush.inFlight⟩
      | _ => exact ih st

theorem flushedStep_keeps {st st' : State} (f : Nat) (outcome : Except String Unit)
    (h : flushedStep st f outcome = some st') : Keeps st st' := by
  unfold flushedStep at h
  split at h
  · cases h
    unfold flushDone
    dsimp only
    split <;> exact ⟨rfl, rfl⟩
  · cases h
    unfold flushThrew
    dsimp only
    split <;> exact ⟨rfl, rfl⟩
  · cases h

/-- What a step does to the slots: a new intent takes one, `release` frees one. -/
inductive Slots (st st' : State) : ActionKind → Prop where
  | same (kind : ActionKind) : st'.inFlight = st.inFlight →
      st'.executions.length = st.executions.length → Slots st st' kind
  | taken (intent : TradeIntent) :
      st.inFlight.get? intent.intentId = none →
      st'.inFlight = st.inFlight.set intent.intentId st.executions.length →
      st'.executions = st.executions ++ [(Execution.begin intent).1] →
      Slots st st' (.submit intent)
  | freed {i : Nat} {x : Execution} {r : Except String ExecutionResult} :
      st.executions[i]? = some x → x.running = .settled r →
      st.inFlight.get? x.intent.intentId = some i →
      st'.inFlight = st.inFlight.erase x.intent.intentId →
      st'.executions = st.executions → Slots st st' (.release i)

theorem putExecution_keeps (opts : ExecutorOpts) (st : State) (exec : Nat)
    (unhealthy : List Nat) (r : Execution × List Output) :
    Keeps st (putExecution opts st exec unhealthy r) := by
  have h := addBundles_keeps opts { st with
    executions := st.executions.set exec r.1
    events := st.events ++ log st.now exec r.2 } exec unhealthy r.2
  exact ⟨h.now, h.inFlight⟩

/-- A step that ends with bundles leaves the slots alone. -/
theorem Keeps.slots {st₁ st' : State} (h : Keeps st₁ st') (st : State) (now : Int)
    (hnow : st₁.now = now) (hslots : st₁.inFlight = st.inFlight)
    (hlength : st'.executions.length = st.executions.length) (kind : ActionKind) :
    st'.now = now ∧ Slots st st' kind :=
  ⟨h.now.trans hnow, .same kind (h.inFlight.trans hslots) hlength⟩

theorem step_slots {opts : ExecutorOpts} {st st' : State} {a : Action}
    (hstep : step opts st a = some st') :
    st.now ≤ a.env.now ∧ st'.now = a.env.now ∧ Slots st st' a.kind := by
  obtain ⟨kind, env⟩ := a
  have hlength := (step_changes hstep).length_eq
  unfold step at hstep
  split at hstep
  swap
  · cases hstep
  rename_i hnow
  refine ⟨hnow, ?_⟩
  cases kind with
  | submit intent =>
      cases hstep
      unfold submit
      split
      · exact ⟨rfl, .same _ rfl rfl⟩
      · split
        · exact ⟨rfl, .same _ rfl rfl⟩
        · rename_i hfree
          exact ⟨rfl, .taken intent hfree rfl rfl⟩
  | settle exec reply =>
      dsimp only [stepAt, settleStep] at hstep
      split at hstep
      · cases hstep
      · obtain ⟨r, -, rfl⟩ := Option.map_eq_some_iff.1 hstep
        have hkeeps := putExecution_keeps opts { st with now := env.now } exec env.unhealthy r
        exact hkeeps.slots st env.now rfl rfl (hlength fun _ => ActionKind.noConfusion) _
  | timer timer =>
      obtain ⟨⟨bundles, batch⟩, -, rfl⟩ := Option.map_eq_some_iff.1 hstep
      have hkeeps := startFlushIf_keeps opts { st with now := env.now, bundles := bundles }
        env.unhealthy batch
      exact hkeeps.slots st env.now rfl rfl (hlength fun _ => ActionKind.noConfusion) _
  | flushed f outcome =>
      have hkeeps := flushedStep_keeps f outcome hstep
      exact hkeeps.slots st env.now rfl rfl (hlength fun _ => ActionKind.noConfusion) _
  | resume exec =>
      dsimp only [stepAt, resumeStep] at hstep
      split at hstep
      · cases hstep
      · obtain ⟨r, -, rfl⟩ := Option.map_eq_some_iff.1 hstep
        have hkeeps := putExecution_keeps opts { st with now := env.now } exec env.unhealthy r
        exact hkeeps.slots st env.now rfl rfl (hlength fun _ => ActionKind.noConfusion) _
  | release exec =>
      dsimp only [stepAt, release] at hstep
      split at hstep
      · rename_i x hx
        split at hstep
        · rename_i r hr
          split at hstep
          · rename_i hslot
            cases hstep
            exact ⟨rfl, .freed hx hr hslot rfl rfl⟩
          · cases hstep
        · cases hstep
      · cases hstep
  | land exec signedTx =>
      dsimp only [stepAt] at hstep
      split at hstep
      · cases hstep
        exact ⟨rfl, .same _ rfl rfl⟩
      · cases hstep

end Ap3xSolana.Executor
