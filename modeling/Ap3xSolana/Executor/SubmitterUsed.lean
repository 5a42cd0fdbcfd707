import Ap3xSolana.Executor.BundleResults
import Ap3xSolana.Executor.Landing

/-!
# `submitterUsed` of bundled intents

An observer notes which submitter accepted the bundle of which attempt, and what the
attempts of bundled intents result in.  The results name the acceptor as long as no
bundle is accepted while intents of a bundle that another submitter accepted have yet to
read the shared field (`InTurn`).
-/

namespace Ap3xSolana.Executor

open Ap3xSolana.Core Ap3xSolana.Lib Ap3xSolana.Lib.Run

/-! ## What is observed -/

structure Noted where
  /-- Which submitter accepted the bundle of which attempt of which execution. -/
  accepted : List ((Nat × Nat) × String) := []
  /-- The results of bundled intents, with execution and attempt. -/
  results : List ((Nat × Nat) × ExecutionResult) := []

/-- The name of the submitter that accepted the bundle of an attempt. -/
def Noted.acceptor (w : Noted) (exec attempt : Nat) : Option String :=
  w.accepted.lookup (exec, attempt)

/-- The attempt that an execution is in. -/
def attemptOf (st : State) (exec : Nat) : Nat × Nat :=
  (exec, ((st.executions[exec]?).map (·.attempt)).getD 0)

/-- The flush whose bundle the submitter accepts. -/
def flushAccepted (st : State) (a : Action) : Option Flush :=
  match a.kind with
  | .flushed f (.ok ()) => (st.flushes[f]?).join
  | _ => none

def acceptances (st : State) (flush : Flush) : List ((Nat × Nat) × String) :=
  flush.entries.map fun e => (attemptOf st e.owner, flush.current.name)

def bundledResult (st : State) (e : Event) : Option ((Nat × Nat) × ExecutionResult) :=
  match e.output, st.executions[e.exec]? with
  | .result r, some x => if Bundled x.intent then some (attemptOf st e.exec, r) else none
  | _, _ => none

/-- A step of the executor that the observer notes. -/
def notedStep (opts : ExecutorOpts) (s : State × Noted) (a : Action) :
    Option (State × Noted) :=
  (step opts s.1 a).map fun st' =>
    (st', { accepted := s.2.accepted ++ ((flushAccepted s.1 a).map (acceptances s.1)).getD []
            results := s.2.results ++
              (st'.events.drop s.1.events.length).filterMap (bundledResult s.1) })

/-- Every result names the submitter that accepted the bundle of its attempt. -/
def NamesAcceptor (w : Noted) : Prop :=
  ∀ exec attempt result, ((exec, attempt), result) ∈ w.results →
    result.submitterUsed = w.acceptor exec attempt

/-- The bundle was accepted and the execution has not gone on yet. -/
def Running.resumes : Running → Bool
  | .bundled _ _ (.ok _) => true
  | _ => false

/-- No submitter accepts a bundle while an intent has yet to go on whose bundle a
submitter of another name accepted. -/
def InTurn (st : State) (a : Action) : Prop :=
  ∀ flush ∈ flushAccepted st a, ∀ x ∈ st.executions, x.running.resumes = true →
    st.lastBundleSubmitter = some flush.current.name

instance decidableInTurn (st : State) (a : Action) : Decidable (InTurn st a) :=
  match h : flushAccepted st a with
  | none => isTrue fun flush hflush => by rw [h] at hflush; cases hflush
  | some flush =>
      decidable_of_iff (∀ x ∈ st.executions, x.running.resumes = true →
        st.lastBundleSubmitter = some flush.current.name) <| by
          unfold InTurn
          rw [h]
          exact ⟨fun hall f hf => by cases hf; exact hall, fun hall => hall flush rfl⟩

/-! ## What a step does -/

/-- The bundle of the execution failed, or nothing happened to it. -/
inductive Failed (x : Execution) : Execution → Prop where
  | same : Failed x x
  | failed {signedTx : List UInt8} {name : String} (err : ThrownError) :
      x.running = .bundle signedTx name →
      Failed x { x with running := .bundled signedTx name (.error err) }

theorem Failed.trans {x y z : Execution} (h : Failed x y) (h' : Failed y z) :
    Failed x z := by
  cases h with
  | same => exact h'
  | failed err hx =>
      cases h' with
      | same => exact .failed err hx
      | failed err' hy => cases hy

abbrev AllFailed (xs ys : List Execution) : Prop := List.Forall₂ Failed xs ys

theorem allFailed_refl (xs : List Execution) : AllFailed xs xs :=
  List.forall₂_same.2 fun _ _ => .same

theorem AllFailed.trans {xs ys zs : List Execution} (h : AllFailed xs ys)
    (h' : AllFailed ys zs) : AllFailed xs zs := by
  induction h generalizing zs with
  | nil => exact h'
  | cons hxy _ ih =>
      cases h' with
      | cons hyz hrest => exact .cons (hxy.trans hyz) (ih hrest)

theorem AllFailed.getElem? {xs ys : List Execution} (h : AllFailed xs ys) (i : Nat) :
    xs[i]? = none ∧ ys[i]? = none ∨
      ∃ x y, xs[i]? = some x ∧ ys[i]? = some y ∧ Failed x y := by
  induction h generalizing i with
  | nil => exact .inl ⟨rfl, rfl⟩
  | cons hxy _ ih =>
      cases i with
      | zero => exact .inr ⟨_, _, rfl, rfl, hxy⟩
      | succ i => exact ih i

theorem allFailed_modify (xs : List Execution) (i : Nat) (f : Execution → Execution)
    (hf : ∀ x, Failed x (f x)) : AllFailed xs (xs.modify i f) := by
  induction xs generalizing i with
  | nil => rw [List.modify_nil]; exact .nil
  | cons x xs ih =>
      cases i with
      | zero => exact .cons (hf x) (allFailed_refl xs)
      | succ i => exact .cons .same (ih i)

/-- From `st` to `st'` bundles only fail and submitters are only called. -/
structure OnlyFails (st st' : State) : Prop where
  executions : AllFailed st.executions st'.executions
  last : st'.lastBundleSubmitter = st.lastBundleSubmitter
  events : ∃ es, st'.events = st.events ++ es ∧ ∀ e ∈ es, ∀ r, e.output ≠ .result r

theorem OnlyFails.of_eq {st st' : State} (hx : st'.executions = st.executions)
    (hlast : st'.lastBundleSubmitter = st.lastBundleSubmitter)
    (he : st'.events = st.events) : OnlyFails st st' where
  executions := hx ▸ allFailed_refl _
  last := hlast
  events := ⟨[], by rw [he, List.append_nil], List.forall_mem_nil _⟩

theorem OnlyFails.trans {st₁ st₂ st₃ : State} (h : OnlyFails st₁ st₂)
    (h' : OnlyFails st₂ st₃) : OnlyFails st₁ st₃ where
  executions := h.executions.trans h'.executions
  last := h'.last.trans h.last
  events := by
    obtain ⟨es, hes, hquiet⟩ := h.events
    obtain ⟨es', hes', hquiet'⟩ := h'.events
    refine ⟨es ++ es', by rw [hes', hes, List.append_assoc], fun e he => ?_⟩
    rcases List.mem_append.1 he with he | he
    · exact hquiet e he
    · exact hquiet' e he

theorem onlyFails_deliverError (st : State) (entries : List PendingEntry)
    (err : ThrownError) : OnlyFails st (deliverError st entries err) := by
  refine ⟨?_, rfl, [], (List.append_nil _).symm, List.forall_mem_nil _⟩
  unfold deliverError deliver
  dsimp only
  generalize st.executions = xs
  induction entries generalizing xs with
  | nil => exact allFailed_refl xs
  | cons e entries ih =>
      rw [List.map_cons, List.foldl_cons]
      refine AllFailed.trans (allFailed_modify xs _ _ fun x => ?_) (ih _)
      split
      · rename_i hrun
        exact .failed err hrun
      · exact .same

theorem submitBundle_quiet {st : State} {entries : List PendingEntry}
    {current : Submitter} {e : Event} (he : e ∈ submitBundle st entries current)
    (r : ExecutionResult) : e.output ≠ .result r := by
  obtain ⟨entry, -, he⟩ := List.mem_flatMap.1 he
  obtain rfl := List.mem_singleton.1 he
  intro heq
  cases heq

theorem onlyFails_startFlush (opts : ExecutorOpts) (st : State) (unhealthy : List Nat)
    (entries : List PendingEntry) : OnlyFails st (startFlush opts st unhealthy entries) := by
  unfold startFlush
  split
  · exact onlyFails_deliverError st entries _
  · split
    · exact onlyFails_deliverError st entries _
    · exact ⟨allFailed_refl _, rfl, _, rfl, fun e he => submitBundle_quiet he⟩

theorem onlyFails_startFlushIf (opts : ExecutorOpts) (st : State) (unhealthy : List Nat)
    (batch : Option (List PendingEntry)) :
    OnlyFails st (startFlushIf opts st unhealthy batch) := by
  cases batch with
  | none => exact .of_eq rfl rfl rfl
  | some entries => exact onlyFails_startFlush opts st unhealthy entries

theorem onlyFails_addBundles (opts : ExecutorOpts) (st : State) (exec : Nat)
    (unhealthy : List Nat) (out : List Output) :
    OnlyFails st (addBundles opts st exec unhealthy out) := by
  induction out generalizing st with
  | nil => exact .of_eq rfl rfl rfl
  | cons o out ih =>
      cases o with
      | addToBundle group entry =>
          have hadd := onlyFails_startFlushIf opts { st with
            bundles := (st.bundles.add opts.bundleMaxIntents group
              { entry := entry, owner := exec }).1 } unhealthy
            (st.bundles.add opts.bundleMaxIntents group
              { entry := entry, owner := exec }).2
          exact OnlyFails.trans ⟨hadd.executions, hadd.last, hadd.events⟩ (ih _)
      | _ => exact ih st

theorem onlyFails_flushThrew (st : State) (f : Nat) (flush : Flush) (message : String) :
    OnlyFails st (flushThrew st f flush message) := by
  unfold flushThrew
  dsimp only
  split
  · have hfail := onlyFails_deliverError { st with flushes := st.flushes.set f none }
      flush.entries (flushFailed (flush.errors ++ [s!"{flush.current.name}: {message}"]))
    exact ⟨hfail.executions, hfail.last, hfail.events⟩
  · exact ⟨allFailed_refl _, rfl, _, rfl, fun e he => submitBundle_quiet he⟩

/-- A step ends bundles in errors, begins an execution, moves one, or has a bundle
accepted. -/
inductive Effect (opts : ExecutorOpts) (st : State) (a : Action) (st' : State) : Prop where
  | idle : flushAccepted st a = none → OnlyFails st st' → Effect opts st a st'
  | began (intent : TradeIntent) :
      flushAccepted st a = none →
      OnlyFails { st with executions := st.executions ++ [(Execution.begin intent).1] } st' →
      Effect opts st a st'
  | went (i : Nat) (x : Execution) (r : Execution × List Output) :
      flushAccepted st a = none → st.executions[i]? = some x →
      (∃ reply, x.settle opts reply a.env = some r) ∨
        x.resume st.lastBundleSubmitter a.env = some r →
      OnlyFails { st with
        executions := st.executions.set i r.1
        events := st.events ++ log a.env.now i r.2 } st' →
      Effect opts st a st'
  | accepted (f : Nat) (flush : Flush) :
      flushAccepted st a = some flush → st.flushes[f]? = some (some flush) →
      st' = flushDone { st with now := a.env.now } f flush → Effect opts st a st'

theorem step_effect {opts : ExecutorOpts} {st st' : State} {a : Action}
    (hstep : step opts st a = some st') : Effect opts st a st' := by
  obtain ⟨kind, env⟩ := a
  unfold step at hstep
  split at hstep
  swap
  · cases hstep
  cases kind with
  | submit intent =>
      cases hstep
      unfold submit
      split
      · exact .idle rfl (.of_eq rfl rfl rfl)
      · split
        · exact .idle rfl (.of_eq rfl rfl rfl)
        · refine .began intent rfl ⟨allFailed_refl _, rfl, _, rfl, fun e he r heq => ?_⟩
          obtain rfl := List.mem_singleton.1 he
          cases heq
  | settle exec reply =>
      dsimp only [stepAt, settleStep] at hstep
      split at hstep
      · cases hstep
      · rename_i x hx
        obtain ⟨r, hr, rfl⟩ := Option.map_eq_some_iff.1 hstep
        have hput := onlyFails_addBundles opts { st with
          executions := st.executions.set exec r.1
          events := st.events ++ log env.now exec r.2
          now := env.now } exec env.unhealthy r.2
        exact .went exec x r rfl hx (.inl ⟨reply, hr⟩)
          ⟨hput.executions, hput.last, hput.events⟩
  | timer timer =>
      obtain ⟨⟨bundles, batch⟩, -, rfl⟩ := Option.map_eq_some_iff.1 hstep
      have hfire := onlyFails_startFlushIf opts
        { st with bundles := bundles, now := env.now } env.unhealthy batch
      exact .idle rfl ⟨hfire.executions, hfire.last, hfire.events⟩
  | flushed f outcome =>
      dsimp only [stepAt, flushedStep] at hstep
      split at hstep
      · rename_i flush hf _
        cases hstep
        refine .accepted f flush ?_ hf rfl
        unfold flushAccepted
        dsimp only
        rw [hf]
        rfl
      · cases hstep
        have hthrew := onlyFails_flushThrew { st with now := env.now } f
        exact .idle rfl ⟨(hthrew _ _).executions, (hthrew _ _).last, (hthrew _ _).events⟩
      · cases hstep
  | resume exec =>
      dsimp only [stepAt, resumeStep] at hstep
      split at hstep
      · cases hstep
      · rename_i x hx
        obtain ⟨r, hr, rfl⟩ := Option.map_eq_some_iff.1 hstep
        have hput := onlyFails_addBundles opts { st with
          executions := st.executions.set exec r.1
          events := st.events ++ log env.now exec r.2
          now := env.now } exec env.unhealthy r.2
        exact .went exec x r rfl hx (.inr hr)
          ⟨hput.executions, hput.last, hput.events⟩
  | release exec =>
      dsimp only [stepAt, release] at hstep
      split at hstep
      · split at hstep
        · split at hstep
          · cases hstep
            exact .idle rfl (.of_eq rfl rfl rfl)
          · cases hstep
        · cases hstep
      · cases hstep
  | land exec signedTx =>
      dsimp only [stepAt] at hstep
      split at hstep
      · cases hstep
        refine .idle rfl ⟨allFailed_refl _, rfl, _, rfl, fun e he r heq => ?_⟩
        obtain rfl := List.mem_singleton.1 he
        cases heq
      · cases hstep

/-! ## What is known after a step -/

structure Known (s : State × Noted) : Prop where
  named : ∀ (i : Nat) (x : Execution), s.1.executions[i]? = some x →
    Named x.intent (s.2.acceptor i x.attempt) s.1.lastBundleSubmitter x.running
  accepted : ∀ i k name, ((i, k), name) ∈ s.2.accepted →
    ∃ x : Execution, s.1.executions[i]? = some x ∧ k ≤ x.attempt
  results : ∀ i k result, ((i, k), result) ∈ s.2.results →
    result.submitterUsed = s.2.acceptor i k ∧ ∃ x : Execution,
      s.1.executions[i]? = some x ∧ (k < x.attempt ∨ k = x.attempt ∧ x.running.isSettled)

theorem known_init : Known ({}, {}) where
  named i x h := by simp at h
  accepted i k name hmem := by cases hmem
  results i k result hmem := by cases hmem

theorem Failed.named {x y : Execution} (h : Failed x y) {acceptor last : Option String}
    (hx : Named x.intent acceptor last x.running) :
    Named y.intent acceptor last y.running := by
  cases h with
  | same => exact hx
  | failed err hrun =>
      rw [hrun] at hx
      exact hx.1

theorem Failed.attempt {x y : Execution} (h : Failed x y) : y.attempt = x.attempt := by
  cases h <;> rfl

theorem Failed.isSettled {x y : Execution} (h : Failed x y) (hx : x.running.isSettled) :
    y.running.isSettled := by
  cases h with
  | same => exact hx
  | failed err hrun =>
      rw [hrun] at hx
      cases hx

theorem Known.onlyFails {st st' : State} {w : Noted} (h : Known (st, w))
    (hfails : OnlyFails st st') : Known (st', w) := by
  have hgoesOn : ∀ (i : Nat) (x : Execution), st.executions[i]? = some x →
      ∃ y, st'.executions[i]? = some y ∧ Failed x y := by
    intro i x hx
    rcases hfails.executions.getElem? i with ⟨hnone, -⟩ | ⟨x', y, hx', hy, hfailed⟩
    · rw [hnone] at hx
      cases hx
    · rw [hx'] at hx
      cases hx
      exact ⟨y, hy, hfailed⟩
  refine ⟨fun i y hy => ?_, fun i k name hmem => ?_, fun i k result hmem => ?_⟩
  · rcases hfails.executions.getElem? i with ⟨-, hnone⟩ | ⟨x, y', hx, hy', hfailed⟩
    · rw [show st'.executions[i]? = none from hnone] at hy
      cases hy
    · rw [show st'.executions[i]? = some y' from hy'] at hy
      cases hy
      have hnamed := hfailed.named (h.named i x hx)
      rw [← hfailed.attempt, ← hfails.last] at hnamed
      exact hnamed
  · obtain ⟨x, hx, hle⟩ := h.accepted i k name hmem
    obtain ⟨y, hy, hfailed⟩ := hgoesOn i x hx
    exact ⟨y, hy, hfailed.attempt ▸ hle⟩
  · obtain ⟨hname, x, hx, hover⟩ := h.results i k result hmem
    obtain ⟨y, hy, hfailed⟩ := hgoesOn i x hx
    refine ⟨hname, y, hy, ?_⟩
    rw [hfailed.attempt]
    exact hover.imp_right fun ⟨hk, hsettled⟩ => ⟨hk, hfailed.isSettled hsettled⟩

/-- No bundle of an attempt that is yet to come was accepted. -/
theorem Known.acceptor_eq_none {st : State} {w : Noted} (h : Known (st, w)) {i k : Nat}
    (hlater : ∀ x : Execution, st.executions[i]? = some x → x.attempt < k) :
    w.acceptor i k = none := by
  apply List.lookup_eq_none_iff.2
  intro e he
  rw [bne_iff_ne]
  intro heq
  obtain ⟨x, hx, hle⟩ := h.accepted i k e.2 (by rw [heq]; exact he)
  exact absurd (hlater x hx) (Nat.not_lt.2 hle)

theorem Known.began {st : State} {w : Noted} (h : Known (st, w)) (intent : TradeIntent) :
    Known ({ st with executions := st.executions ++ [(Execution.begin intent).1] }, w) := by
  have hold : ∀ (i : Nat) (x : Execution), st.executions[i]? = some x →
      (st.executions ++ [(Execution.begin intent).1])[i]? = some x := by
    intro i x hx
    rw [List.getElem?_append_left (List.getElem?_eq_some_iff.1 hx).1]
    exact hx
  refine ⟨fun i x hx => ?_, fun i k name hmem => ?_, fun i k result hmem => ?_⟩
  · rcases Nat.lt_trichotomy i st.executions.length with hlt | heq | hgt
    · rw [List.getElem?_append_left hlt] at hx
      exact h.named i x hx
    · subst heq
      rw [List.getElem?_concat_length] at hx
      cases hx
      apply h.acceptor_eq_none
      intro x hx
      rw [List.getElem?_eq_none (Nat.le_refl _)] at hx
      cases hx
    · rw [List.getElem?_eq_none (by simpa using hgt)] at hx
      cases hx
  · obtain ⟨x, hx, hle⟩ := h.accepted i k name hmem
    exact ⟨x, hold i x hx, hle⟩
  · obtain ⟨hname, x, hx, hover⟩ := h.results i k result hmem
    exact ⟨hname, x, hold i x hx, hover⟩

/-- What is noted of the results that an execution puts out. -/
theorem mem_bundledResult_log {st : State} {time : Int} {i : Nat} {x : Execution}
    (hx : st.executions[i]? = some x) {out : List Output} {i' k : Nat}
    {result : ExecutionResult}
    (h : ((i', k), result) ∈ (log time i out).filterMap (bundledResult st)) :
    i' = i ∧ k = x.attempt ∧ .result result ∈ out ∧ Bundled x.intent := by
  obtain ⟨e, he, hresult⟩ := List.mem_filterMap.1 h
  obtain ⟨o, ho, rfl⟩ := List.mem_map.1 he
  unfold bundledResult attemptOf at hresult
  dsimp only at hresult
  rw [hx] at hresult
  cases o with
  | result r =>
      dsimp only at hresult
      split at hresult
      · rename_i hbundled
        cases hresult
        exact ⟨rfl, rfl, ho, hbundled⟩
      · cases hresult
  | _ => cases hresult

theorem filterMap_bundledResult_quiet {st : State} {es : List Event}
    (h : ∀ e ∈ es, ∀ r, e.output ≠ .result r) : es.filterMap (bundledResult st) = [] := by
  apply List.filterMap_eq_nil_iff.2
  intro e he
  obtain ⟨exec, time, output⟩ := e
  cases output with
  | result r => exact absurd rfl (h _ he r)
  | _ => rfl

theorem Known.went {st : State} {w : Noted} (h : Known (st, w)) {i : Nat} {x : Execution}
    {r : Execution × List Output} {time : Int} {events : List Event}
    (hx : st.executions[i]? = some x) (hunsettled : x.running.isSettled = false)
    (hr : Names (w.acceptor i x.attempt) x r) :
    Known ({ st with executions := st.executions.set i r.1, events := events },
      { w with results := w.results ++ (log time i r.2).filterMap (bundledResult st) }) := by
  have hlt := (List.getElem?_eq_some_iff.1 hx).1
  have hself : (st.executions.set i r.1)[i]? = some r.1 := List.getElem?_set_self hlt
  have hgoesOn : x.attempt ≤ r.1.attempt := by
    rcases hr.goesOn with ⟨hattempt, -⟩ | ⟨hattempt, -⟩ <;> omega
  refine ⟨fun j y hy => ?_, fun j k name hmem => ?_, fun j k result hmem => ?_⟩
  · by_cases hj : i = j
    · subst hj
      rw [hself] at hy
      cases hy
      rw [hr.intent]
      rcases hr.goesOn with ⟨hattempt, hnamed, -⟩ | ⟨hattempt, hwallet⟩
      · show Named x.intent (w.acceptor i r.1.attempt) _ r.1.running
        rw [hattempt]
        exact hnamed _
      · show Named x.intent (w.acceptor i r.1.attempt) _ r.1.running
        rw [hwallet]
        apply h.acceptor_eq_none
        intro x' hx'
        rw [hx] at hx'
        cases hx'
        omega
    · rw [show (st.executions.set i r.1)[j]? = st.executions[j]? from
        List.getElem?_set_ne hj] at hy
      exact h.named j y hy
  · obtain ⟨y, hy, hle⟩ := h.accepted j k name hmem
    by_cases hj : i = j
    · subst hj
      rw [hx] at hy
      cases hy
      exact ⟨r.1, hself, hle.trans hgoesOn⟩
    · exact ⟨y, (List.getElem?_set_ne hj).trans hy, hle⟩
  · rcases List.mem_append.1 hmem with hold | hnew
    · obtain ⟨hname, y, hy, hover⟩ := h.results j k result hold
      by_cases hj : i = j
      · subst hj
        rw [hx] at hy
        cases hy
        refine ⟨hname, r.1, hself, .inl ?_⟩
        rcases hover with hk | ⟨-, hsettled⟩
        · omega
        · rw [hunsettled] at hsettled
          cases hsettled
      · exact ⟨hname, y, (List.getElem?_set_ne hj).trans hy, hover⟩
    · obtain ⟨rfl, rfl, hout, hbundled⟩ := mem_bundledResult_log hx hnew
      refine ⟨hr.results result hout hbundled, r.1, hself, ?_⟩
      rcases hr.goesOn with ⟨hattempt, -, hover⟩ | ⟨hattempt, -⟩
      · exact .inr ⟨hattempt.symm, hover result hout⟩
      · exact .inl (by omega)

/-! ## Acceptance -/

/-- What delivering outcomes does to one execution. -/
theorem getElem?_deliver (st : State)
    {entries : List (PendingEntry × Except ThrownError String)} {i : Nat} {y : Execution}
    (h : (deliver st entries).executions[i]? = some y) :
    ∃ x, st.executions[i]? = some x ∧
      (y = x ∧ (waitingTx x.running ≠ [] → ∀ e ∈ entries, e.1.owner ≠ i) ∨
        ∃ signedTx name, x.running = .bundle signedTx name ∧
          ∃ e ∈ entries, e.1.owner = i ∧
            y = { x with running := .bundled signedTx name e.2 }) := by
  induction entries generalizing st with
  | nil => exact ⟨y, h, .inl ⟨rfl, fun _ => List.forall_mem_nil _⟩⟩
  | cons e entries ih =>
      obtain ⟨x₁, hx₁, hrest⟩ := ih (deliver st [e]) h
      simp only [deliver, List.foldl_cons, List.foldl_nil, List.getElem?_modify] at hx₁
      obtain ⟨x, hx, hmodified⟩ := Option.map_eq_some_iff.1 hx₁
      refine ⟨x, hx, ?_⟩
      by_cases howner : e.1.owner = i
      · rw [if_pos howner] at hmodified
        cases hrun : x.running with
        | bundle signedTx name =>
            simp only [hrun] at hmodified
            subst hmodified
            -- it waits no longer, so the rest leaves it alone
            rcases hrest with ⟨rfl, -⟩ | ⟨_, _, hbundle, -⟩
            · exact .inr ⟨signedTx, name, rfl, e, List.mem_cons_self, howner, rfl⟩
            · cases hbundle
        | _ =>
            simp only [hrun] at hmodified
            subst hmodified
            rcases hrest with ⟨rfl, -⟩ | ⟨_, _, hbundle, -⟩
            · exact .inl ⟨rfl, fun hwaits => absurd rfl hwaits⟩
            · rw [hrun] at hbundle
              cases hbundle
      · rw [if_neg howner] at hmodified
        subst hmodified
        rcases hrest with ⟨rfl, hothers⟩ | ⟨signedTx, name, hbundle, e', he', hrest⟩
        · refine .inl ⟨rfl, fun hwaits e' he' => ?_⟩
          rcases List.mem_cons.1 he' with rfl | he'
          · exact howner
          · exact hothers hwaits e' he'
        · exact .inr ⟨signedTx, name, hbundle, e', List.mem_cons_of_mem _ he', hrest⟩

theorem getElem?_deliver_of_some {st : State}
    {entries : List (PendingEntry × Except ThrownError String)} {i : Nat} {x : Execution}
    (h : st.executions[i]? = some x) :
    ∃ y, (deliver st entries).executions[i]? = some y ∧ y.attempt = x.attempt ∧
      (x.running.isSettled → y.running.isSettled) := by
  induction entries generalizing st x with
  | nil => exact ⟨x, h, rfl, id⟩
  | cons e entries ih =>
      have hone : ∃ x₁, (deliver st [e]).executions[i]? = some x₁ ∧
          x₁.attempt = x.attempt ∧ (x.running.isSettled → x₁.running.isSettled) := by
        simp only [deliver, List.foldl_cons, List.foldl_nil, List.getElem?_modify, h]
        refine ⟨_, rfl, ?_, ?_⟩
        · dsimp only
          split
          · split <;> rfl
          · rfl
        · intro hsettled
          dsimp only
          split
          · split
            · rename_i hrun
              rw [hrun] at hsettled
              cases hsettled
            · exact hsettled
          · exact hsettled
      obtain ⟨x₁, hx₁, hattempt, hsettled⟩ := hone
      obtain ⟨y, hy, hattempt', hsettled'⟩ := ih hx₁
      exact ⟨y, hy, hattempt'.trans hattempt, fun hx => hsettled' (hsettled hx)⟩

/-- Whether the field holds another name matters only to those that have yet to go on. -/
theorem Named.of_last {intent : TradeIntent} {acceptor last last' : Option String}
    {running : Running} (h : Named intent acceptor last running)
    (hlast : running.resumes = true → last = last') :
    Named intent acceptor last' running := by
  unfold Running.resumes at hlast
  unfold Named at h ⊢
  split
  case h_5 => exact hlast rfl ▸ h
  all_goals exact h

theorem lookup_acceptances_of_ne {st : State} {flush : Flush} {i k : Nat}
    (h : ∀ e ∈ flush.entries, attemptOf st e.owner ≠ (i, k)) :
    (acceptances st flush).lookup (i, k) = none := by
  apply List.lookup_eq_none_iff.2
  intro p hp
  obtain ⟨e, he, rfl⟩ := List.mem_map.1 hp
  exact bne_iff_ne.2 (h e he).symm

theorem lookup_acceptances (st : State) {flush : Flush} {e : PendingEntry}
    (he : e ∈ flush.entries) :
    (acceptances st flush).lookup (attemptOf st e.owner) = some flush.current.name := by
  have hsome : ((acceptances st flush).lookup (attemptOf st e.owner)).isSome :=
    List.lookup_isSome_iff.2 ⟨_, List.mem_map_of_mem he, beq_self_eq_true _⟩
  obtain ⟨name, hname⟩ := Option.isSome_iff_exists.1 hsome
  obtain ⟨l₁, l₂, hsplit, -⟩ := List.lookup_eq_some_iff.1 hname
  have hmem : (attemptOf st e.owner, name) ∈ acceptances st flush := by
    rw [hsplit]
    exact List.mem_append_right _ List.mem_cons_self
  obtain ⟨e', -, heq⟩ := List.mem_map.1 hmem
  rw [hname, ← (Prod.mk.inj heq).2]

/-- Every entry of a flush belongs to an execution that waits for it. -/
theorem Inv.waits {st : State} (h : Inv [] st) {f : Nat} {flush : Flush}
    (hf : st.flushes[f]? = some (some flush)) {e : PendingEntry} (he : e ∈ flush.entries) :
    ∃ x name, st.executions[e.owner]? = some x ∧
      x.running = .bundle e.entry.signedTx name := by
  have hpending : e ∈ pending st :=
    List.mem_append_right _ (List.mem_flatMap.2 ⟨some flush, List.mem_of_getElem? hf, he⟩)
  obtain ⟨x, hx, hwaits⟩ := h.waiting e hpending
  cases hrun : x.running with
  | bundle signedTx name =>
      rw [hrun] at hwaits
      cases hwaits
      exact ⟨x, name, hx, hrun⟩
  | _ =>
      rw [hrun] at hwaits
      cases hwaits

/-- All entries get their own signature. -/
theorem Known.flushDone_eq {st : State} {w : Noted} (h : Known (st, w)) (hinv : Inv [] st)
    {f : Nat} {flush : Flush} (hf : st.flushes[f]? = some (some flush)) (now : Int) :
    ∃ sigs : List String, sigs.length = flush.entries.length ∧
      flushDone { st with now := now } f flush =
        deliver { st with
          now := now
          flushes := st.flushes.set f none
          lastBundleSubmitter := some flush.current.name }
          (flush.entries.zip (sigs.map .ok)) := by
  obtain ⟨sigs, hsigs⟩ : ∃ sigs,
      (flush.entries.mapM fun e => transactionSignature e.entry.signedTx) = .ok sigs := by
    apply Throwing.exists_mapM_ok
    intro e he
    obtain ⟨x, name, hx, hrun⟩ := hinv.waits hf he
    have hnamed := h.named e.owner x hx
    rw [hrun] at hnamed
    exact hnamed.2
  refine ⟨sigs, (Throwing.mapM_eq_ok.1 hsigs).length_eq.symm, ?_⟩
  unfold flushDone
  dsimp only
  rw [hsigs]

theorem Known.acceptedBundle {st : State} {w : Noted} (h : Known (st, w))
    (hinv : Inv [] st) {f : Nat} {flush : Flush}
    (hf : st.flushes[f]? = some (some flush)) (now : Int)
    (hturn : ∀ x ∈ st.executions, x.running.resumes = true →
      st.lastBundleSubmitter = some flush.current.name) :
    Known (flushDone { st with now := now } f flush,
      { w with accepted := w.accepted ++ acceptances st flush }) := by
  obtain ⟨sigs, hlen, hdone⟩ := h.flushDone_eq hinv hf now
  rw [hdone]
  have hacceptor : ∀ i k, ({ w with accepted := w.accepted ++ acceptances st flush } :
      Noted).acceptor i k =
        (w.acceptor i k).or ((acceptances st flush).lookup (i, k)) :=
    fun i k => List.lookup_append
  have hattempt : ∀ (i : Nat) (x : Execution), st.executions[i]? = some x →
      attemptOf st i = (i, x.attempt) := by
    intro i x hx
    unfold attemptOf
    rw [hx]
    rfl
  -- an attempt that gets its acceptor now is not over
  have hnone : ∀ (i : Nat) (x : Execution) (k : Nat), st.executions[i]? = some x →
      (k = x.attempt → waitingTx x.running = []) →
        (acceptances st flush).lookup (i, k) = none := by
    intro i x k hx hk
    apply lookup_acceptances_of_ne
    intro e he heq
    obtain ⟨x', name, hx', hrun⟩ := hinv.waits hf he
    rw [hattempt _ x' hx'] at heq
    obtain ⟨rfl, rfl⟩ := Prod.mk.inj heq
    rw [hx] at hx'
    cases hx'
    have hfree := hk rfl
    rw [hrun] at hfree
    cases hfree
  refine ⟨fun i y hy => ?_, fun i k name hmem => ?_, fun i k result hmem => ?_⟩
  · obtain ⟨x, hx, hcase⟩ := getElem?_deliver _ hy
    have hnamed := h.named i x hx
    show Named y.intent (Noted.acceptor _ i y.attempt) (some flush.current.name) y.running
    rw [hacceptor]
    rcases hcase with ⟨rfl, hothers⟩ | ⟨signedTx, name, hrun, e, he, howner, rfl⟩
    · have hlookup : (acceptances st flush).lookup (i, y.attempt) = none := by
        apply lookup_acceptances_of_ne
        intro e he heq
        obtain ⟨x', name, hx', hrun⟩ := hinv.waits hf he
        obtain ⟨howner, -⟩ := Prod.mk.inj heq
        rw [howner, show st.executions[i]? = some y from hx] at hx'
        cases hx'
        have hzip : e ∈ (flush.entries.zip
            (sigs.map (Except.ok : String → Except ThrownError String))).map (·.1) := by
          rw [List.map_fst_zip (by rw [List.length_map, hlen])]
          exact he
        obtain ⟨p, hp, rfl⟩ := List.mem_map.1 hzip
        exact hothers (by rw [hrun]; exact List.cons_ne_nil _ _) p hp howner
      rw [hlookup, Option.or_none]
      exact hnamed.of_last fun hres => hturn y (List.mem_of_getElem? hx) hres
    · rw [hrun] at hnamed
      obtain ⟨hentry, houtcome⟩ := List.of_mem_zip he
      obtain ⟨sig, -, hsig⟩ := List.mem_map.1 houtcome
      have hlookup := lookup_acceptances st hentry
      rw [howner, hattempt i x hx] at hlookup
      show Named x.intent _ _ (.bundled signedTx name e.2)
      rw [hnamed.1, Option.none_or, hlookup, ← hsig]
      exact ⟨rfl, rfl⟩
  · rcases List.mem_append.1 hmem with hold | hnew
    · obtain ⟨x, hx, hle⟩ := h.accepted i k name hold
      obtain ⟨y, hy, hsame, -⟩ := getElem?_deliver_of_some hx
      exact ⟨y, hy, hsame ▸ hle⟩
    · obtain ⟨e, he, heq⟩ := List.mem_map.1 hnew
      obtain ⟨x, _, hx, -⟩ := hinv.waits hf he
      rw [hattempt _ x hx] at heq
      cases heq
      obtain ⟨y, hy, hsame, -⟩ := getElem?_deliver_of_some hx
      exact ⟨y, hy, hsame.ge⟩
  · obtain ⟨hname, x, hx, hover⟩ := h.results i k result hmem
    obtain ⟨y, hy, hsame, hsettled⟩ := getElem?_deliver_of_some hx
    refine ⟨?_, y, hy, ?_⟩
    · rw [hacceptor, hnone i x k hx, Option.or_none]
      · exact hname
      · intro hk
        rcases hover with hlt | ⟨-, hover⟩
        · omega
        · cases hrun : x.running with
          | settled r => rfl
          | _ =>
              rw [hrun] at hover
              cases hover
    · rw [hsame]
      exact hover.imp_right fun ⟨hk, hover⟩ => ⟨hk, hsettled hover⟩

/-! ## Runs -/

structure NameInv (s : State × Noted) : Prop where
  base : Inv [] s.1
  known : Known s

theorem nameInv_init : NameInv ({}, {}) := ⟨inv_init, known_init⟩

theorem drop_events {events es all : List Event} (h : all = events ++ es) :
    all.drop events.length = es := by
  rw [h, List.drop_left]

theorem notedStep_known {opts : ExecutorOpts} {s s' : State × Noted} {a : Action}
    (h : NameInv s) (hstep : notedStep opts s a = some s') (hturn : InTurn s.1 a) :
    NameInv s' := by
  obtain ⟨st, w⟩ := s
  obtain ⟨st', hst, rfl⟩ := Option.map_eq_some_iff.1 hstep
  refine ⟨step_inv h.base hst, ?_⟩
  have hknown := h.known
  cases step_effect hst with
  | idle hnone hfails =>
      obtain ⟨es, hes, hquiet⟩ := hfails.events
      dsimp only
      rw [hnone, drop_events hes, filterMap_bundledResult_quiet hquiet, List.append_nil]
      simp only [Option.map_none, Option.getD_none, List.append_nil]
      exact hknown.onlyFails hfails
  | began intent hnone hfails =>
      obtain ⟨es, hes, hquiet⟩ := hfails.events
      dsimp only
      rw [hnone, drop_events hes, filterMap_bundledResult_quiet hquiet, List.append_nil]
      simp only [Option.map_none, Option.getD_none, List.append_nil]
      exact (hknown.began intent).onlyFails hfails
  | went i x r hnone hx hr hfails =>
      obtain ⟨es, hes, hquiet⟩ := hfails.events
      rw [List.append_assoc] at hes
      dsimp only
      rw [hnone, drop_events hes, List.filterMap_append,
        filterMap_bundledResult_quiet hquiet, List.append_nil]
      simp only [Option.map_none, Option.getD_none, List.append_nil]
      have hnamed := hknown.named i x hx
      have hunsettled : x.running.isSettled = false := by
        rcases hr with ⟨reply, hr⟩ | hr
        · exact Execution.settle_unsettled hr
        · exact Execution.resume_unsettled hr
      have hnames : Names (w.acceptor i x.attempt) x r := by
        rcases hr with ⟨reply, hr⟩ | hr
        · exact Execution.settle_names hnamed hr
        · exact Execution.resume_names hnamed hr
      exact (hknown.went hx hunsettled hnames).onlyFails hfails
  | accepted f flush haccepted hf hdone =>
      have hevents : st'.events = st.events ++ [] := by
        obtain ⟨sigs, -, heq⟩ := hknown.flushDone_eq h.base hf a.env.now
        rw [hdone, heq, List.append_nil]
        rfl
      dsimp only
      rw [haccepted, drop_events hevents, List.filterMap_nil, List.append_nil, hdone]
      exact hknown.acceptedBundle h.base hf a.env.now (hturn flush haccepted)

/-- Where no bundle is accepted before the intents of another submitter's bundle have
gone on, every result of a bundled intent names the submitter that accepted its
bundle. -/
theorem submitterUsed_names_acceptor (opts : ExecutorOpts) (acts : List Action)
    (s : State × Noted) (hrun : exec (notedStep opts) ({}, {}) acts = some s)
    (hturn : Along (notedStep opts) (fun s a _ => InTurn s.1 a) ({}, {}) acts) :
    NamesAcceptor s.2 := by
  have hinv : NameInv s :=
    hturn.inv NameInv (fun _ _ _ h hstep hturn => notedStep_known h hstep hturn)
      nameInv_init hrun
  intro exec attempt result hmem
  exact (hinv.known.results exec attempt result hmem).1

/-! ## Two bundles at once -/

def twoJito : ExecutorOpts :=
  { submitters := [{ id := 0, name := "jito-grpc", kind := .jitoGrpc },
      { id := 1, name := "jito-http", kind := .jitoHttp }]
    jitoTipAccount := some (PublicKey.ofByte 9)
    bundleMaxIntents := 1 }

/-- An intent in a bundle of its own. -/
def tippedIntent (intentId : String) : TradeIntent :=
  { intentId := intentId, wallet := "main", instructions := [], feeTier := .med,
    deadline := 10
    submitter := some
      { kind := .jitoGrpc, bundleGroup := some intentId, tipLamports := some 1000 } }

def signBundle (exec : Nat) (b : UInt8) : List Action :=
  [act 1 (.settle exec (.wallet hotWallet)),
    act 1 (.settle exec (.blockhash (Base58.encode (List.replicate 32 b)))),
    act 1 (.settle exec (.signature (List.replicate 64 b)))]

/-- Both bundles are under way; the second fails over. -/
def flushBoth : List Action :=
  [act 0 (.submit (tippedIntent "i1")), act 0 (.submit (tippedIntent "i2"))] ++
    signBundle 0 1 ++ signBundle 1 2 ++
    [act 2 (.flushed 1 (.error "rate limited")), act 3 (.flushed 0 (.ok ()))]

def landed (exec : Nat) : Action :=
  act 4 (.settle exec (.statuses (some
    { slot := 5, confirmationStatus := "confirmed", err := none })))

/-- The first intent goes on before the second bundle is accepted. -/
def resumeFirst : List Action :=
  flushBoth ++ [act 3 (.resume 0), act 3 (.flushed 1 (.ok ())), act 3 (.resume 1),
    landed 0, landed 1]

theorem submitterUsed_resumeFirst :
    ∃ s, exec (notedStep twoJito) ({}, {}) resumeFirst = some s ∧
      s.2.results.map (fun e => (e.1, e.2.submitterUsed)) =
        [((0, 1), some "jito-grpc"), ((1, 1), some "jito-http")] ∧
      NamesAcceptor s.2 := by
  obtain ⟨s, hrun, hresults⟩ :
      ∃ s, exec (notedStep twoJito) ({}, {}) resumeFirst = some s ∧
        s.2.results.map (fun e => (e.1, e.2.submitterUsed)) =
          [((0, 1), some "jito-grpc"), ((1, 1), some "jito-http")] := by
    decide +kernel
  exact ⟨s, hrun, hresults,
    submitterUsed_names_acceptor twoJito resumeFirst s hrun (by decide +kernel)⟩

/-- Both bundles are accepted before either intent goes on: the transaction that
`jito-grpc` accepted is said to have gone through `jito-http`. -/
theorem submitterUsed_wrong_after_overlap :
    ∃ s, exec (notedStep twoJito) ({}, {})
        (flushBoth ++ [act 3 (.flushed 1 (.ok ())), act 3 (.resume 0), landed 0]) = some s ∧
      ¬ NamesAcceptor s.2 := by
  obtain ⟨s, hrun, hresults, hacceptor⟩ :
      ∃ s, exec (notedStep twoJito) ({}, {})
          (flushBoth ++ [act 3 (.flushed 1 (.ok ())), act 3 (.resume 0), landed 0]) =
          some s ∧
        (∃ e, s.2.results.head? = some e ∧ e.1 = (0, 1) ∧
          e.2.submitterUsed = some "jito-http") ∧
        s.2.acceptor 0 1 = some "jito-grpc" := by
    decide +kernel
  refine ⟨s, hrun, fun h => ?_⟩
  obtain ⟨⟨⟨exec, attempt⟩, result⟩, hhead, hattempt, hused⟩ := hresults
  cases hattempt
  have hname := h 0 1 result (List.mem_of_mem_head? hhead)
  rw [hacceptor, hused] at hname
  exact absurd hname (by decide)

end Ap3xSolana.Executor
