import Ap3xSolana.Executor.Changes
import Ap3xSolana.Executor.Landing
import Ap3xSolana.Executor.Waiting

/-!
# `submit` resolves

What `submit` promises: a result for every intent, a bounded number of attempts and
a slot that is free again.  The retry loop has no `try` of its own, so a rejection
can only come from the four places of `uncaught`; everything else holds whatever
fails.
-/

namespace Ap3xSolana.Executor

open Ap3xSolana.Core Ap3xSolana.Lib Ap3xSolana.Lib.Run AttemptLog

/-! ## Rejections -/

def NoneRejected (st : State) : Prop := ∀ x ∈ st.executions, x.running.rejects = false

instance decidableNoneRejected (st : State) : Decidable (NoneRejected st) :=
  inferInstanceAs (Decidable (∀ x ∈ st.executions, _))

theorem noneRejected_init : NoneRejected {} := List.forall_mem_nil _

/-- The action settles a promise of an execution in a way that nothing catches. -/
def uncaught (opts : ExecutorOpts) (st : State) (a : Action) : Bool :=
  match a.kind with
  | .settle exec reply =>
      match st.executions[exec]? with
      | some x => x.uncaught opts reply a.env
      | none => false
  | _ => false

theorem AllDelivered.rejects_iff {xs ys : List Execution} (h : AllDelivered xs ys) :
    (∀ y ∈ ys, y.running.rejects = false) ↔ ∀ x ∈ xs, x.running.rejects = false := by
  constructor
  · intro hys x hx
    obtain ⟨y, hy, hdel⟩ := h.exists_mem hx
    rw [← hdel.rejects]
    exact hys y hy
  · intro hxs y hy
    obtain ⟨x, hx, hdel⟩ := h.of_mem hy
    rw [hdel.rejects]
    exact hxs x hx

/-- Among executions none of which has rejected, one is replaced. -/
theorem set_rejects_iff {xs : List Execution} {i : Nat} {x r : Execution}
    (h : ∀ x ∈ xs, x.running.rejects = false) (hx : xs[i]? = some x) :
    (∀ y ∈ xs.set i r, y.running.rejects = false) ↔ r.running.rejects = false := by
  have hlt := (List.getElem?_eq_some_iff.1 hx).1
  constructor
  · intro hall
    exact hall r (List.mem_of_getElem? (List.getElem?_set_self hlt))
  · intro hr y hy
    rcases List.mem_or_eq_of_mem_set hy with hy | rfl
    · exact h y hy
    · exact hr

theorem step_noneRejected_iff {opts : ExecutorOpts} {st st' : State} {a : Action}
    (h : NoneRejected st) (hstep : step opts st a = some st') :
    NoneRejected st' ↔ uncaught opts st a = false := by
  unfold NoneRejected at h ⊢
  have hchanges := step_changes hstep
  generalize hys : st'.executions = ys at hchanges ⊢
  cases hchanges with
  | idle hidle hdel =>
      rw [hdel.rejects_iff]
      refine iff_of_true h ?_
      unfold uncaught
      split
      · rename_i exec reply hkind
        exact absurd (by rw [Action.owns, hkind]) (hidle exec)
      · rfl
  | began intent env =>
      refine iff_of_true (fun x hx => ?_) rfl
      rcases List.mem_append.1 hx with hx | hx
      · exact h x hx
      · rw [List.mem_singleton.1 hx]
        rfl
  | settled hx hr hdel =>
      rw [hdel.rejects_iff, set_rejects_iff h hx]
      have hrejects := (Execution.settle_advances hr).rejects
      simp only [uncaught, hx]
      rw [Bool.eq_false_iff, ne_eq, hrejects, Bool.not_eq_true]
  | resumed hx hr hdel =>
      rw [hdel.rejects_iff, set_rejects_iff h hx]
      have hrejects := (Execution.resume_advances hr).rejects
      refine iff_of_true ?_ rfl
      rw [Bool.eq_false_iff]
      exact fun hr => hrejects.1 hr

/-! ## Results -/

/-- Who is over with a result has one of its own intent. -/
def OwnResults (st : State) : Prop :=
  ∀ x ∈ st.executions, ∀ r, x.running = .settled (.ok r) → IsResultOf x.intent r

theorem ownResults_init : OwnResults {} := List.forall_mem_nil _

theorem step_ownResults {opts : ExecutorOpts} {st st' : State} {a : Action}
    (h : OwnResults st) (hstep : step opts st a = some st') : OwnResults st' := by
  unfold OwnResults at h ⊢
  have hdelivered : ∀ xs ys, AllDelivered xs ys →
      (∀ x ∈ xs, ∀ r, x.running = .settled (.ok r) → IsResultOf x.intent r) →
      ∀ y ∈ ys, ∀ r, y.running = .settled (.ok r) → IsResultOf y.intent r := by
    intro xs ys hdel hxs y hy r hr
    obtain ⟨x, hx, hxy⟩ := hdel.of_mem hy
    rw [hxy.intent]
    exact hxs x hx r (hxy.settled hr)
  have hset : ∀ {i : Nat} {x : Execution} {r : Execution} {late throws : Prop},
      st.executions[i]? = some x → x.Advances late throws r →
      ∀ y ∈ st.executions.set i r, ∀ res, y.running = .settled (.ok res) →
        IsResultOf y.intent res := by
    intro i x r late throws hx hadv y hy res hres
    rcases List.mem_or_eq_of_mem_set hy with hy | rfl
    · exact h y hy res hres
    · rw [hadv.intent]
      exact hadv.result res hres
  have hchanges := step_changes hstep
  generalize st'.executions = ys at hchanges ⊢
  cases hchanges with
  | idle _ hdel => exact hdelivered _ _ hdel h
  | began intent env =>
      intro x hx r hr
      rcases List.mem_append.1 hx with hx | hx
      · exact h x hx r hr
      · rw [List.mem_singleton.1 hx] at hr
        cases hr
  | settled hx hr hdel =>
      exact hdelivered _ _ hdel (hset hx (Execution.settle_advances hr))
  | resumed hx hr hdel =>
      exact hdelivered _ _ hdel (hset hx (Execution.resume_advances hr))

/-! ## Slots -/

/-- An execution under way holds the slot of its intent. -/
structure SlotInv (st : State) : Prop where
  held : ∀ (i : Nat) (x : Execution), st.executions[i]? = some x →
    x.running.isSettled = false → st.inFlight.get? x.intent.intentId = some i
  owner : ∀ intentId i, st.inFlight.get? intentId = some i →
    ∃ x : Execution, st.executions[i]? = some x ∧ x.intent.intentId = intentId

theorem slotInv_init : SlotInv {} where
  held i x hx := by simp at hx
  owner intentId i h := by cases h

theorem step_slotInv {opts : ExecutorOpts} {st st' : State} {a : Action}
    (h : SlotInv st) (hstep : step opts st a = some st') : SlotInv st' := by
  obtain ⟨-, -, hslots⟩ := step_slots hstep
  generalize a.kind = kind at hslots
  have howner : ∀ intentId i, st.inFlight.get? intentId = some i →
      ∃ y : Execution, st'.executions[i]? = some y ∧ y.intent.intentId = intentId := by
    intro intentId i hget
    obtain ⟨x, hx, hid⟩ := h.owner intentId i hget
    obtain ⟨y, hy, hcloser⟩ := step_closer hstep hx
    exact ⟨y, hy, by rw [hcloser.intent, hid]⟩
  cases hslots with
  | same kind hsame hlen =>
      refine ⟨fun i y hy hrun => ?_, fun intentId i hget => howner intentId i (hsame ▸ hget)⟩
      have hlt := (List.getElem?_eq_some_iff.1 hy).1
      obtain ⟨x, hx, hcloser⟩ := step_backward hstep hy (by omega)
      rw [hsame, hcloser.intent]
      exact h.held i x hx (hcloser.unsettled hrun)
  | taken intent hfree hset hnew =>
      refine ⟨fun i y hy hrun => ?_, fun intentId i hget => ?_⟩
      · by_cases hlt : i < st.executions.length
        · obtain ⟨x, hx, hcloser⟩ := step_backward hstep hy hlt
          have hheld := h.held i x hx (hcloser.unsettled hrun)
          rw [hset, hcloser.intent, OrderedMap.get?_set, if_neg, hheld]
          -- the slot of the new intent was free
          intro heq
          rw [heq, hfree] at hheld
          cases hheld
        · rw [hnew, List.getElem?_append_right (Nat.not_lt.1 hlt)] at hy
          obtain ⟨hi, rfl⟩ := List.getElem?_eq_some_iff.1 hy
          rw [List.length_singleton] at hi
          obtain rfl : i = st.executions.length := by omega
          simp only [Nat.sub_self, List.getElem_cons_zero, hset]
          exact (OrderedMap.get?_set ..).trans (if_pos rfl)
      · rw [hset, OrderedMap.get?_set] at hget
        split at hget
        · rename_i heq
          cases hget
          refine ⟨(Execution.begin intent).1, ?_, heq.symm⟩
          rw [hnew, List.getElem?_concat_length]
        · exact howner intentId i hget
  | @freed f x r hx hr hslot herase hsame =>
      refine ⟨fun i y hy hrun => ?_, fun intentId i hget => ?_⟩
      · rw [hsame] at hy
        have hheld := h.held i y hy hrun
        rw [herase, OrderedMap.get?_erase, if_neg, hheld]
        -- the slot that is freed belongs to an execution that is over
        intro heq
        rw [heq, hslot] at hheld
        obtain rfl := Option.some.inj hheld
        obtain rfl : x = y := Option.some.inj (hx.symm.trans hy)
        rw [hr] at hrun
        cases hrun
      · rw [herase, OrderedMap.get?_erase] at hget
        split at hget
        · cases hget
        · exact howner intentId i hget

/-- A slot is freed once its execution is over. -/
theorem release_frees {opts : ExecutorOpts} {st : State} {i : Nat} {x : Execution}
    {r : Except String ExecutionResult} (hx : st.executions[i]? = some x)
    (hr : x.running = .settled r) (hslot : st.inFlight.get? x.intent.intentId = some i) :
    Enabled opts st (.release i) ∧ ∀ (a : Action) (st' : State), a.kind = .release i →
      step opts st a = some st' → st'.inFlight.get? x.intent.intentId = none := by
  have hrelease : ∀ st₁ : State, st₁.executions = st.executions →
      st₁.inFlight = st.inFlight → release st₁ i =
        some { st₁ with inFlight := st₁.inFlight.erase x.intent.intentId } := by
    intro st₁ hexec hin
    simp only [release, hexec, hx, hr, hin, hslot, if_true]
  constructor
  · rw [enabled_iff]
    simp only [stepAt, hrelease { st with now := st.now } rfl rfl, Option.isSome_some]
  · intro a st' hkind hstep
    unfold step at hstep
    split at hstep
    · simp only [stepAt, hkind, hrelease { st with now := a.env.now } rfl rfl] at hstep
      cases hstep
      exact (OrderedMap.get?_erase ..).trans (if_pos rfl)
    · cases hstep

/-! ## Going on -/

/-- A promise of an execution under way can settle, or the bundle it waits for can be
flushed. -/
theorem can_go_on {opts : ExecutorOpts} {st : State} (h : BundleInv st) {i : Nat}
    {x : Execution} (hx : st.executions[i]? = some x) (hrun : x.running.isSettled = false) :
    ∃ kind, Enabled opts st kind ∧
      (Action.owns { kind := kind, env := { now := st.now } } i ∨
        ∃ e ∈ pending st, e.owner = i ∧ Serves st e kind) := by
  have hsettle : ∀ reply, (x.settle opts reply { now := st.now }).isSome →
      ∃ kind, Enabled opts st kind ∧
        (Action.owns { kind := kind, env := { now := st.now } } i ∨
          ∃ e ∈ pending st, e.owner = i ∧ Serves st e kind) := by
    intro reply hsome
    refine ⟨.settle i reply, enabled_iff.2 ?_, .inl rfl⟩
    simp only [stepAt, settleStep, hx, Option.isSome_map]
    exact hsome
  cases hrunning : x.running with
  | settled r =>
      rw [hrunning] at hrun
      cases hrun
  | bundle tx name =>
      obtain ⟨e, he, howner, kind, hserves, henabled⟩ := bundle_served opts h hx
        (by rw [hrunning]; exact List.cons_ne_nil tx [])
      exact ⟨kind, henabled, .inr ⟨e, he, howner, hserves⟩⟩
  | bundled tx name outcome =>
      refine ⟨.resume i, enabled_iff.2 ?_, .inl rfl⟩
      simp only [stepAt, resumeStep, hx, Option.isSome_map, Execution.resume, hrunning]
      cases outcome with
      | ok signature => rfl
      | error err => cases err <;> rfl
  | sleep signature submitterUsed =>
      exact hsettle .slept (by simp [Execution.settle, hrunning])
  | _ => exact hsettle (.threw (.other "")) (by simp [Execution.settle, hrunning])

/-! ## Endless runs -/

/-- In an endless run, an execution whose deadline has come has finitely many steps
of its own. -/
theorem own_steps_end {opts : ExecutorOpts} {f : ℕ → State} {a : ℕ → Action}
    (hrun : Endless (step opts) f a) {i n : ℕ} {x : Execution}
    (hx : (f n).executions[i]? = some x) (hlate : x.intent.deadline ≤ (f n).now) :
    ∃ N, ∀ m, N ≤ m → ¬ (a m).owns i := by
  have hlater : ∀ m, n ≤ m → x.intent.deadline ≤ (f m).now ∧
      ∃ y, (f m).executions[i]? = some y ∧ y.intent = x.intent := by
    intro m hle
    refine hrun.inv (fun st => x.intent.deadline ≤ st.now ∧
      ∃ y, st.executions[i]? = some y ∧ y.intent = x.intent) ⟨hlate, x, hx, rfl⟩ ?_ hle
    rintro k ⟨hnow, y, hy, hintent⟩ hstep
    obtain ⟨hle, heq, -⟩ := step_slots hstep
    obtain ⟨z, hz, hcloser⟩ := step_closer hstep hy
    exact ⟨heq ▸ hnow.trans hle, z, hz, hcloser.intent.trans hintent⟩
  -- one step of the run, seen from the execution
  have hcloser : ∀ k, ∃ y z, (f (n + k)).executions[i]? = some y ∧
      (f (n + (k + 1))).executions[i]? = some z ∧ Closer True ((a (n + k)).owns i) y z := by
    intro k
    obtain ⟨hnow, y, hy, hintent⟩ := hlater (n + k) (Nat.le_add_right n k)
    obtain ⟨z, hz, hcl⟩ := step_closer (hrun (n + k)) hy
    have hdue : y.intent.deadline ≤ (a (n + k)).env.now := by
      rw [hintent]
      exact hnow.trans (step_slots (hrun (n + k))).1
    exact ⟨y, z, hy, hz, ⟨hcl.intent, hcl.unsettled, fun _ => hcl.rank hdue,
      fun _ => hcl.own hdue⟩⟩
  obtain ⟨N, hN⟩ := eventually_not_of_rank
    (fun k => (((f (n + k)).executions[i]?).map Execution.rank).getD (toLex (0, toLex (0, 0))))
    (fun k => (a (n + k)).owns i)
    (fun k => by
      obtain ⟨y, z, hy, hz, hcl⟩ := hcloser k
      simp only [hy, hz, Option.map_some, Option.getD_some]
      exact hcl.rank trivial)
    (fun k hown => by
      obtain ⟨y, z, hy, hz, hcl⟩ := hcloser k
      simp only [hy, hz, Option.map_some, Option.getD_some]
      exact hcl.own trivial hown)
  refine ⟨n + N, fun m hm => ?_⟩
  have hsub := hN (m - n) (by omega)
  rwa [Nat.add_sub_cancel' (by omega)] at hsub

/-! ## The promise -/

/-- What holds of every execution in every reachable state, whatever fails. -/
structure Promised (opts : ExecutorOpts) (st : State) (i : Nat) (x : Execution) :
    Prop where
  attempts : ((logOf st.events i).countP isAttempt : Int) ≤ maxAttempts x.intent
  result : ∀ r, x.running = .settled (.ok r) → IsResultOf x.intent r
  /-- Until it is over it holds its slot, and something can happen to it. -/
  underWay : x.running.isSettled = false →
    st.inFlight.get? x.intent.intentId = some i ∧
      ∃ kind, Enabled opts st kind ∧
        (Action.owns { kind := kind, env := { now := st.now } } i ∨
          ∃ e ∈ pending st, e.owner = i ∧ Serves st e kind)
  /-- Once it is over, the slot is freed. -/
  slot : ∀ r, x.running = .settled r → st.inFlight.get? x.intent.intentId = some i →
    Enabled opts st (.release i) ∧ ∀ (a : Action) (st' : State), a.kind = .release i →
      step opts st a = some st' → st'.inFlight.get? x.intent.intentId = none

/-- Whatever execution `i` waits for settles at some time. -/
def Served (f : ℕ → State) (a : ℕ → Action) (i : ℕ) : Prop :=
  ∀ m x, (f m).executions[i]? = some x → x.running.isSettled = false →
    ∃ n, m ≤ n ∧ (a n).owns i

structure RunInv (st : State) : Prop where
  bundles : BundleInv st
  results : OwnResults st
  slots : SlotInv st

theorem runInv_init : RunInv {} :=
  ⟨bundleInv_init, ownResults_init, slotInv_init⟩

theorem step_runInv {opts : ExecutorOpts} {st st' : State} {a : Action} (h : RunInv st)
    (hstep : step opts st a = some st') : RunInv st' :=
  ⟨step_bundleInv h.bundles hstep, step_ownResults h.results hstep,
    step_slotInv h.slots hstep⟩

theorem RunInv.promised {opts : ExecutorOpts} {st : State} (h : RunInv st) {i : Nat}
    {x : Execution} (hx : st.executions[i]? = some x) : Promised opts st i x where
  attempts := countP_isAttempt_le (h.bundles.inv.logged i x hx).accepts
  result := h.results x (List.mem_of_getElem? hx)
  underWay hrun := ⟨h.slots.held i x hx hrun, can_go_on h.bundles hx hrun⟩
  slot _ hr hslot := release_frees hx hr hslot

/-- An endless run in which nothing is left uncaught gives every execution a result,
once its deadline has come and what it waits for settles. -/
theorem eventually_resolved {opts : ExecutorOpts} {f : ℕ → State} {a : ℕ → Action}
    (h0 : f 0 = {}) (hrun : Endless (step opts) f a)
    (hcaught : ∀ n, uncaught opts (f n) (a n) = false) {i n : ℕ} {x : Execution}
    (hx : (f n).executions[i]? = some x) (hlate : ∃ m, x.intent.deadline ≤ (f m).now)
    (hserved : Served f a i) :
    ∃ m y r, (f m).executions[i]? = some y ∧ y.intent = x.intent ∧
      y.running = .settled (.ok r) ∧ IsResultOf x.intent r := by
  have hinv : ∀ m, RunInv (f m) ∧ NoneRejected (f m) := fun m =>
    hrun.inv (fun st => RunInv st ∧ NoneRejected st) (m := 0)
      (h0 ▸ ⟨runInv_init, noneRejected_init⟩)
      (fun k hk hstep => ⟨step_runInv hk.1 hstep,
        (step_noneRejected_iff hk.2 hstep).2 (hcaught k)⟩) (Nat.zero_le m)
  -- a state in which the execution is there and its deadline has come
  obtain ⟨m₀, hm₀⟩ := hlate
  have hpersists : ∀ k, n ≤ k → ∃ y, (f k).executions[i]? = some y ∧ y.intent = x.intent := by
    intro k hle
    refine hrun.inv (fun st => ∃ y, st.executions[i]? = some y ∧
      y.intent = x.intent) ⟨x, hx, rfl⟩ ?_ hle
    rintro k ⟨y, hy, hintent⟩ hstep
    obtain ⟨z, hz, hcloser⟩ := step_closer hstep hy
    exact ⟨z, hz, hcloser.intent.trans hintent⟩
  have hclock : ∀ k, m₀ ≤ k → x.intent.deadline ≤ (f k).now := fun k hle =>
    hrun.inv (fun st => x.intent.deadline ≤ st.now) hm₀
      (fun k hk hstep => by
        obtain ⟨hnow, heq, -⟩ := step_slots hstep
        rw [heq]
        exact hk.trans hnow) hle
  obtain ⟨y, hy, hintent⟩ := hpersists (max n m₀) (le_max_left ..)
  have hdue := hclock (max n m₀) (le_max_right ..)
  rw [← hintent] at hdue
  obtain ⟨N, hN⟩ := own_steps_end hrun hy hdue
  obtain ⟨z, hz, hzintent⟩ := hpersists (max n N) (le_max_left ..)
  refine ⟨max n N, z, ?_⟩
  cases hrunning : z.running with
  | settled r =>
      have hmem := List.mem_of_getElem? hz
      cases r with
      | error message =>
          have hnone := (hinv (max n N)).2 z hmem
          rw [hrunning] at hnone
          cases hnone
      | ok r =>
          refine ⟨r, hz, hzintent, rfl, ?_⟩
          rw [← hzintent]
          exact (hinv (max n N)).1.results z hmem r hrunning
  | _ =>
      -- it still has a step of its own to come
      obtain ⟨k, hk, hown⟩ := hserved (max n N) z hz (by rw [hrunning]; rfl)
      exact absurd hown (hN k ((le_max_right n N).trans hk))

/-- `submit` never rejects exactly as long as nothing is thrown where nothing catches;
what else it promises holds whatever fails, and every execution comes to a result. -/
theorem submit_resolves_iff (opts : ExecutorOpts) :
    (∀ (acts : List Action) (st : State), exec (step opts) {} acts = some st →
      (Along (step opts) (fun _ _ st' => NoneRejected st') {} acts ↔
        Along (step opts) (fun st a _ => uncaught opts st a = false) {} acts) ∧
      ∀ (i : Nat) (x : Execution), st.executions[i]? = some x → Promised opts st i x) ∧
    ∀ (f : ℕ → State) (a : ℕ → Action), f 0 = {} → Endless (step opts) f a →
      (∀ n, uncaught opts (f n) (a n) = false) →
      ∀ (i n : ℕ) (x : Execution), (f n).executions[i]? = some x →
        (∃ m, x.intent.deadline ≤ (f m).now) → Served f a i →
        ∃ m y r, (f m).executions[i]? = some y ∧ y.intent = x.intent ∧
          y.running = .settled (.ok r) ∧ IsResultOf x.intent r := by
  refine ⟨fun acts st hrun => ⟨?_, fun i x hx => ?_⟩, ?_⟩
  · refine along_iff_of_inv NoneRejected (fun s a s' hs hstep => ?_) ?_ acts {}
      noneRejected_init
    · exact step_noneRejected_iff hs hstep
    · intro s a s' hs hstep hcaught
      exact (step_noneRejected_iff hs hstep).2 hcaught
  · exact (exec_inv (fun _ _ _ => step_runInv) runInv_init hrun).promised hx
  · intro f a h0 hrun hcaught i n x hx hlate hserved
    exact eventually_resolved h0 hrun hcaught hx hlate hserved

/-! ## A wallet that cannot be resolved -/

section Locked

def lockedIntent : TradeIntent :=
  { intentId := "i1", wallet := "main", instructions := [], feeTier := .med, deadline := 10 }

def noSuchWallet : ExecutionResult :=
  rejected lockedIntent none "wallet_locked" "no such wallet"

/-- A bundle intent where no Jito submitter is configured. -/
def bundledIntent : TradeIntent :=
  { lockedIntent with
    intentId := "i2"
    submitter := some { kind := .rpc, bundleGroup := some "g" } }

/-- The wallet is not there; bundle intents, all of them refused, come in for ever. -/
def lockedActs : ℕ → Action
  | 0 => act 0 (.submit lockedIntent)
  | 1 => act 1 (.settle 0 (.threw (.other "no such wallet")))
  | 2 => act 10 (.release 0)
  | _ + 3 => act 10 (.submit bundledIntent)

def lockedRun : ℕ → State
  | 0 => {}
  | 1 =>
      { executions := [(Execution.begin lockedIntent).1]
        inFlight := OrderedMap.empty.set "i1" 0
        events := log 0 0 [.attempt 1 .med] }
  | 2 =>
      { executions := [(Execution.begin lockedIntent).1.await (.settled (.ok noSuchWallet))]
        inFlight := OrderedMap.empty.set "i1" 0
        now := 1
        events := log 0 0 [.attempt 1 .med] ++ log 1 0 [.result noSuchWallet] }
  | n + 3 =>
      { executions := [(Execution.begin lockedIntent).1.await (.settled (.ok noSuchWallet))]
        now := 10
        events := log 0 0 [.attempt 1 .med] ++ log 1 0 [.result noSuchWallet]
        refused := List.replicate n (rejected bundledIntent none
          "no_jito_submitter_for_bundle"
          "bundleGroup requires a healthy Jito submitter; none configured") }

theorem endless_lockedRun : Endless (step rpcOnly) lockedRun lockedActs := by
  rintro (_ | _ | _ | n)
  · rfl
  · rfl
  · rfl
  · show some _ = some _
    simp only [lockedRun, List.replicate_succ']
    rfl

theorem submit_resolves_lockedRun :
    Along (step rpcOnly) (fun _ _ st' => NoneRejected st') {}
        [lockedActs 0, lockedActs 1, lockedActs 2] ∧
      ∃ m y r, (lockedRun m).executions[0]? = some y ∧ y.intent = lockedIntent ∧
        y.running = .settled (.ok r) ∧ IsResultOf lockedIntent r := by
  obtain ⟨hfinite, hendless⟩ := submit_resolves_iff rpcOnly
  constructor
  · exact (hfinite [lockedActs 0, lockedActs 1, lockedActs 2] (lockedRun 3) rfl).1.2
      (by decide)
  · refine hendless lockedRun lockedActs rfl endless_lockedRun ?_ 0 1
      (Execution.begin lockedIntent).1 rfl ⟨3, le_refl _⟩ ?_
    · rintro (_ | _ | _ | n) <;> rfl
    · rintro (_ | _ | _ | m) x hx hrun
      · cases hx
      · exact ⟨1, le_refl _, rfl⟩
      all_goals
        cases hx
        cases hrun

end Locked

/-! ## A status that cannot be fetched -/

/-- The transaction is submitted; the RPC pool then has no endpoint left to ask for
its status (`RpcError` `circuit_open`). -/
def statusThrows : List Action :=
  [act 0 (.submit lockedIntent)] ++ signAndSubmit 1 1 ++
    [act 2 (.settle 0 (.ack (some "s1"))),
      act 3 (.settle 0 (.threw (.other "no healthy endpoints available")))]

theorem statusThrows_rejects :
    ∃ st, exec (step rpcOnly) {} statusThrows = some st ∧ ¬ NoneRejected st := by
  decide +kernel

end Ap3xSolana.Executor
