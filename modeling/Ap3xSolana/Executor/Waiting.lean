import Ap3xSolana.Executor.Invariant

/-!
# Nobody waits for a bundle in vain

An execution that waits for a bundle has an entry in a group or in a flush, and every
group has a window timer that will flush it.
-/

namespace Ap3xSolana.Executor

open Ap3xSolana.Core Ap3xSolana.Lib

/-! ## Window timers -/

namespace BundleAccumulator

/-- Every group has entries and a timer of its own. -/
structure Armed (b : BundleAccumulator) : Prop where
  fresh : ∀ t ∈ b.timers, t.1 < b.nextTimer
  armed : ∀ group acc, b.groups.get? group = some acc → acc.entries ≠ [] ∧
    ∃ t, acc.timer = some t ∧ b.timers.find? (·.1 = t) = some (t, group)

theorem armed_init : Armed {} where
  fresh t ht := by cases ht
  armed group acc h := by cases h

theorem find?_clearTimer {b : BundleAccumulator} {timer : Option Nat} {t : Nat}
    (h : some t ≠ timer) :
    (b.clearTimer timer).timers.find? (·.1 = t) = b.timers.find? (·.1 = t) := by
  simp only [clearTimer, List.find?_filter]
  congr 1
  funext e
  by_cases he : e.1 = t
  · simp [he, h]
  · simp [he]

theorem fresh_clearTimer {b : BundleAccumulator} (h : ∀ t ∈ b.timers, t.1 < b.nextTimer)
    (timer : Option Nat) : ∀ t ∈ (b.clearTimer timer).timers, t.1 < b.nextTimer :=
  fun t ht => h t (List.mem_filter.1 ht).1

/-- A flush, where the other groups have timers. -/
theorem armed_flush (b : BundleAccumulator) (group : String)
    (hfresh : ∀ t ∈ b.timers, t.1 < b.nextTimer)
    (hsome : ∀ acc, b.groups.get? group = some acc → acc.entries ≠ [])
    (hothers : ∀ group' acc', group' ≠ group → b.groups.get? group' = some acc' →
      acc'.entries ≠ [] ∧ ∃ t, acc'.timer = some t ∧
        (∀ acc, b.groups.get? group = some acc → acc.timer ≠ some t) ∧
        b.timers.find? (·.1 = t) = some (t, group')) :
    Armed (b.flush group).1 := by
  unfold flush
  cases hget : b.groups.get? group with
  | none =>
      refine ⟨hfresh, fun group' acc' hget' => ?_⟩
      have hne : group' ≠ group := by
        intro heq
        rw [heq, hget] at hget'
        cases hget'
      obtain ⟨hentries, t, htimer, -, hfind⟩ := hothers group' acc' hne hget'
      exact ⟨hentries, t, htimer, hfind⟩
  | some acc =>
      dsimp only
      rw [if_neg (hsome acc hget)]
      refine ⟨fresh_clearTimer hfresh _, fun group' acc' hget' => ?_⟩
      have hget'' : (b.groups.erase group).get? group' = some acc' := hget'
      rw [OrderedMap.get?_erase] at hget''
      split at hget''
      · cases hget''
      · rename_i hne
        obtain ⟨hentries, t, htimer, hother, hfind⟩ := hothers group' acc' hne hget''
        refine ⟨hentries, t, htimer, ?_⟩
        rw [find?_clearTimer fun heq => hother acc hget heq.symm]
        exact hfind

/-- Two groups never share a timer. -/
theorem Armed.timer_ne {b : BundleAccumulator} (h : Armed b) {group group' : String}
    {acc : Accumulator} {t : Nat} (hne : group' ≠ group)
    (hacc : b.groups.get? group = some acc)
    (hfind : b.timers.find? (·.1 = t) = some (t, group')) : acc.timer ≠ some t := by
  intro htimer
  obtain ⟨-, t', htimer', hfind'⟩ := h.armed group acc hacc
  obtain rfl : t' = t := Option.some.inj (htimer'.symm.trans htimer)
  rw [hfind] at hfind'
  exact hne (congrArg Prod.snd (Option.some.inj hfind'))

theorem Armed.fire {b b' : BundleAccumulator} {timer : Nat}
    {batch : Option (List PendingEntry)} (h : Armed b)
    (hfire : b.fire timer = some (b', batch)) : Armed b' := by
  unfold BundleAccumulator.fire at hfire
  split at hfire
  · cases hfire
  · rename_i t group hfind
    have hflush := armed_flush (b.clearTimer (some timer)) group
      (fresh_clearTimer h.fresh _) (fun acc hacc => (h.armed group acc hacc).1)
      fun group' acc' hne hget' => by
        obtain ⟨hentries, t', htimer', hfind'⟩ := h.armed group' acc' hget'
        refine ⟨hentries, t', htimer', fun acc hacc => h.timer_ne hne hacc hfind', ?_⟩
        rw [find?_clearTimer, hfind']
        -- the timer that fires is not this group's
        rintro heq
        obtain rfl := Option.some.inj heq
        rw [hfind] at hfind'
        exact hne (congrArg Prod.snd (Option.some.inj hfind')).symm
    rw [Option.some.inj hfire] at hflush
    exact hflush

theorem Armed.add {b : BundleAccumulator} (h : Armed b) (maxPerBundle : Int)
    (group : String) (entry : PendingEntry) :
    Armed (b.add maxPerBundle group entry).1 := by
  unfold BundleAccumulator.add
  dsimp only
  split
  · -- the group is full: it is flushed at once
    refine armed_flush _ _ (fresh_clearTimer h.fresh _) ?_ ?_
    · intro acc hacc
      have hacc' : (b.groups.set group _).get? group = some acc := hacc
      rw [OrderedMap.get?_set, if_pos rfl] at hacc'
      cases hacc'
      simp
    · intro group' acc' hne hget'
      have hget'' : (b.groups.set group _).get? group' = some acc' := hget'
      rw [OrderedMap.get?_set, if_neg hne] at hget''
      obtain ⟨hentries, t', htimer', hfind'⟩ := h.armed group' acc' hget''
      have hother : ((b.groups.get? group).getD {}).timer ≠ some t' := by
        cases hold : b.groups.get? group with
        | none =>
            intro heq
            cases heq
        | some old => exact h.timer_ne hne hold hfind'
      refine ⟨hentries, t', htimer', fun acc hacc => ?_, ?_⟩
      · have hacc' : (b.groups.set group _).get? group = some acc := hacc
        rw [OrderedMap.get?_set, if_pos rfl] at hacc'
        cases hacc'
        exact hother
      · rw [find?_clearTimer fun heq => hother heq.symm]
        exact hfind'
  · split
    · rename_i t htimer
      refine ⟨h.fresh, fun group' acc' hget' => ?_⟩
      have hget'' : (b.groups.set group _).get? group' = some acc' := hget'
      rw [OrderedMap.get?_set] at hget''
      split at hget''
      · rename_i heq
        subst heq
        cases hget''
        cases hold : b.groups.get? group' with
        | none =>
            rw [hold] at htimer
            cases htimer
        | some old =>
            obtain ⟨-, t', htimer', hfind'⟩ := h.armed group' old hold
            exact ⟨by simp, t', htimer', hfind'⟩
      · exact h.armed group' acc' hget''
    · refine ⟨fun t ht => ?_, fun group' acc' hget' => ?_⟩
      · rcases List.mem_append.1 ht with ht | ht
        · exact Nat.lt_succ_of_lt (h.fresh t ht)
        · rw [List.mem_singleton.1 ht]
          exact Nat.lt_succ_self _
      · have hget'' : (b.groups.set group _).get? group' = some acc' := hget'
        rw [OrderedMap.get?_set] at hget''
        split at hget''
        · rename_i heq
          subst heq
          cases hget''
          refine ⟨by simp, b.nextTimer, rfl, ?_⟩
          rw [List.find?_append, List.find?_eq_none.2, Option.none_or]
          · simp
          · intro t ht
            have := h.fresh t ht
            simp only [decide_eq_true_eq]
            omega
        · obtain ⟨hentries, t', htimer', hfind'⟩ := h.armed group' acc' hget''
          refine ⟨hentries, t', htimer', ?_⟩
          rw [List.find?_append, hfind']
          rfl

end BundleAccumulator

/-! ## Entries -/

/-- Who waits for a bundle has an entry on its way; `batch` is between a group and a
flush. -/
def Waited (batch : List PendingEntry) (st : State) : Prop :=
  ∀ (i : Nat) (x : Execution), st.executions[i]? = some x → waitingTx x.running ≠ [] →
    ∃ e ∈ batch ++ pending st, e.owner = i

theorem waited_init : Waited [] {} := fun i x hx => by simp at hx

theorem Waited.of_perm {batch batch' : List PendingEntry} {st st' : State}
    (h : Waited batch st) (hx : st'.executions = st.executions)
    (hp : (batch' ++ pending st').Perm (batch ++ pending st)) : Waited batch' st' := by
  intro i x hi hwait
  obtain ⟨e, he, howner⟩ := h i x (hx ▸ hi) hwait
  exact ⟨e, hp.mem_iff.2 he, howner⟩

/-- Once its promise is settled, nobody waits for an entry. -/
theorem Waited.deliverOne {batch : List PendingEntry} {st : State} {e : PendingEntry}
    (h : Waited (e :: batch) st) (outcome : Except ThrownError String) :
    Waited batch (deliver st [(e, outcome)]) := by
  intro i x hi hwait
  simp only [deliver, List.foldl_cons, List.foldl_nil, List.getElem?_modify] at hi
  obtain ⟨x₀, hx₀, rfl⟩ := Option.map_eq_some_iff.1 hi
  by_cases hown : e.owner = i
  · rw [if_pos hown] at hwait
    exfalso
    revert hwait
    split
    · exact fun hwait => hwait rfl
    · rename_i hne
      intro hwait
      cases hrun : x₀.running with
      | bundle tx name => exact hne tx name hrun
      | _ =>
          rw [hrun] at hwait
          exact hwait rfl
  · rw [if_neg hown] at hwait
    obtain ⟨e', he', howner⟩ := h i x₀ hx₀ hwait
    rcases List.mem_cons.1 he' with rfl | he'
    · exact absurd howner hown
    · exact ⟨e', he', howner⟩

theorem Waited.deliver {st : State}
    {entries : List (PendingEntry × Except ThrownError String)}
    (h : Waited (entries.map (·.1)) st) : Waited [] (deliver st entries) := by
  induction entries generalizing st with
  | nil => exact h
  | cons e entries ih => exact ih (h.deliverOne e.2)

theorem Waited.deliverError {st : State} {entries : List PendingEntry}
    (h : Waited entries st) (err : ThrownError) : Waited [] (deliverError st entries err) := by
  refine Waited.deliver ?_
  have hentries : (entries.map fun e =>
      (e, (Except.error err : Except ThrownError String))).map (·.1) = entries := by
    rw [List.map_map]
    exact List.map_id entries
  rwa [hentries]

theorem Waited.startFlushIf {opts : ExecutorOpts} {unhealthy : List Nat}
    {batch : Option (List PendingEntry)} {st : State} (h : Waited (batch.getD []) st) :
    Waited [] (startFlushIf opts st unhealthy batch) := by
  cases batch with
  | none => exact h
  | some entries =>
      unfold Executor.startFlushIf startFlush
      dsimp only
      split
      · exact h.deliverError _
      · split
        · exact h.deliverError _
        · refine h.of_perm rfl ?_
          simp only [Option.getD_some, List.nil_append, pending, flushing_append]
          simp only [flushing, List.flatMap_cons, List.flatMap_nil, Option.map_some,
            Option.getD_some, List.append_nil]
          rw [← List.append_assoc]
          exact List.perm_append_comm

/-- A flush that is over gives its entries back. -/
theorem Waited.takeFlush {st : State} (h : Waited [] st) {f : Nat} {flush : Flush}
    (hf : st.flushes[f]? = some (some flush)) (last : Option String) :
    Waited flush.entries { st with
      flushes := st.flushes.set f none, lastBundleSubmitter := last } := by
  refine h.of_perm rfl ?_
  simp only [pending, List.nil_append]
  refine (List.perm_append_comm_assoc _ _ _).trans ?_
  exact List.Perm.append_left _ (flushing_set hf none).symm

theorem Waited.flushedStep {st st' : State} (h : Waited [] st) {f : Nat}
    {outcome : Except String Unit} (hstep : flushedStep st f outcome = some st') :
    Waited [] st' := by
  unfold Executor.flushedStep at hstep
  split at hstep
  · rename_i flush hf
    cases hstep
    have htaken := h.takeFlush hf (some flush.current.name)
    unfold flushDone
    split
    · exact htaken.deliverError _
    · rename_i sigs hsigs
      have hlen : sigs.length = flush.entries.length :=
        (Throwing.mapM_eq_ok.1 hsigs).length_eq.symm
      refine Waited.deliver ?_
      rw [List.map_fst_zip (by simp [hlen])]
      exact htaken
  · rename_i flush message hf
    cases hstep
    unfold flushThrew
    dsimp only
    split
    · exact (h.takeFlush hf st.lastBundleSubmitter).deliverError _
    · rename_i current rest _
      refine h.of_perm rfl ?_
      have hperm := flushing_set hf (some
        { flush with current := current, rest := rest,
                     errors := flush.errors ++ [s!"{flush.current.name}: {message}"] })
      simp only [pending, List.nil_append]
      exact List.Perm.append_left _ ((List.perm_append_left_iff _).1 hperm).symm
  · cases hstep

theorem Waited.addBundle {opts : ExecutorOpts} {st : State} {exec : Nat}
    {unhealthy : List Nat} {b : String × BundleEntry}
    (h : Waited [{ entry := b.2, owner := exec }] st) :
    Waited [] (addBundle opts exec unhealthy st b) := by
  refine Waited.startFlushIf (h.of_perm rfl ?_)
  have hperm := add_perm opts.bundleMaxIntents st.bundles b.1
    { entry := b.2, owner := exec }
  simp only [pending, ← List.append_assoc]
  exact List.Perm.append_right _ hperm

/-- An execution that begins to wait has handed over its entry. -/
theorem Waited.putExecution {opts : ExecutorOpts} {st : State} (h : Waited [] st)
    {exec : Nat} (unhealthy : List Nat) {r : Execution × List Output}
    (hhanded : (bundleEntries r.2).map (·.2.signedTx) = waitingTx r.1.running) :
    Waited [] (putExecution opts st exec unhealthy r) := by
  have hput : ∀ batch : List PendingEntry,
      (waitingTx r.1.running ≠ [] → ∃ e ∈ batch, e.owner = exec) →
        Waited batch { st with
          executions := st.executions.set exec r.1
          events := st.events ++ log st.now exec r.2 } := by
    intro batch hbatch i y hy hwait
    rw [List.getElem?_set] at hy
    by_cases hi : exec = i
    · rw [if_pos hi] at hy
      split at hy
      · cases hy
        obtain ⟨e, he, howner⟩ := hbatch hwait
        exact ⟨e, List.mem_append_left _ he, howner.trans hi⟩
      · cases hy
    · rw [if_neg hi] at hy
      obtain ⟨e, he, howner⟩ := h i y hy hwait
      exact ⟨e, List.mem_append_right _ he, howner⟩
  unfold Executor.putExecution
  rw [addBundles_eq]
  cases hrun : r.1.running with
  | bundle tx name =>
      rw [hrun] at hhanded
      obtain ⟨b, hb, htx⟩ := List.map_eq_singleton_iff.1 hhanded
      rw [hb]
      exact Waited.addBundle (hput _ fun _ => ⟨_, List.mem_cons_self, rfl⟩)
  | _ =>
      rw [hrun] at hhanded
      rw [List.map_eq_nil_iff.1 hhanded]
      exact hput [] fun hwait => by rw [hrun] at hwait; exact absurd rfl hwait

/-! ## Timers over a step -/

theorem startFlushIf_bundles (opts : ExecutorOpts) (st : State) (unhealthy : List Nat)
    (batch : Option (List PendingEntry)) :
    (startFlushIf opts st unhealthy batch).bundles = st.bundles := by
  cases batch with
  | none => rfl
  | some entries =>
      unfold startFlushIf startFlush
      dsimp only
      split
      · rfl
      · split <;> rfl

theorem armed_putExecution {opts : ExecutorOpts} {st : State} (h : st.bundles.Armed)
    (exec : Nat) (unhealthy : List Nat) (r : Execution × List Output) :
    (putExecution opts st exec unhealthy r).bundles.Armed := by
  unfold putExecution
  rw [addBundles_eq]
  have hfold : ∀ (bs : List (String × BundleEntry)) (st : State), st.bundles.Armed →
      (bs.foldl (addBundle opts exec unhealthy) st).bundles.Armed := by
    intro bs
    induction bs with
    | nil => exact fun _ h => h
    | cons b bs ih =>
        intro st h
        apply ih
        unfold addBundle
        rw [startFlushIf_bundles]
        exact h.add _ _ _
  exact hfold _ _ h

theorem flushedStep_bundles {st st' : State} {f : Nat} {outcome : Except String Unit}
    (h : flushedStep st f outcome = some st') : st'.bundles = st.bundles := by
  unfold flushedStep at h
  split at h
  · cases h
    unfold flushDone
    dsimp only
    split <;> rfl
  · cases h
    unfold flushThrew
    dsimp only
    split <;> rfl
  · cases h

/-! ## Runs -/

/-- What holds of the bundles in every reachable state. -/
structure BundleInv (st : State) : Prop where
  inv : Inv [] st
  waited : Waited [] st
  armed : st.bundles.Armed

theorem bundleInv_init : BundleInv {} :=
  ⟨inv_init, waited_init, BundleAccumulator.armed_init⟩

theorem step_bundleInv {opts : ExecutorOpts} {st st' : State} {a : Action}
    (h : BundleInv st) (hstep : step opts st a = some st') : BundleInv st' := by
  suffices hnew : Waited [] st' ∧ st'.bundles.Armed from
    ⟨step_inv h.inv hstep, hnew.1, hnew.2⟩
  unfold step at hstep
  split at hstep
  swap
  · cases hstep
  have hinv : Inv [] { st with now := a.env.now } :=
    h.inv.of_perm rfl rfl (List.Perm.refl _)
  have hwaited : Waited [] { st with now := a.env.now } :=
    h.waited.of_perm rfl (List.Perm.refl _)
  have harmed : ({ st with now := a.env.now } : State).bundles.Armed := h.armed
  generalize ({ st with now := a.env.now } : State) = st₁ at hinv hwaited harmed hstep
  unfold stepAt at hstep
  cases hkind : a.kind with
  | submit intent =>
      rw [hkind] at hstep
      cases hstep
      unfold submit
      split
      · exact ⟨hwaited.of_perm rfl (List.Perm.refl _), harmed⟩
      · split
        · exact ⟨hwaited, harmed⟩
        · refine ⟨fun i x hx hwait => ?_, harmed⟩
          by_cases hi : i < st₁.executions.length
          · rw [List.getElem?_append_left hi] at hx
            exact hwaited i x hx hwait
          · -- the new execution waits for its wallet
            rw [List.getElem?_append_right (Nat.not_lt.1 hi)] at hx
            obtain ⟨hlt, rfl⟩ := List.getElem?_eq_some_iff.1 hx
            simp [Execution.begin, waitingTx] at hwait
  | settle exec reply =>
      rw [hkind] at hstep
      dsimp only [settleStep] at hstep
      split at hstep
      · cases hstep
      · rename_i x hx
        obtain ⟨r, hr, rfl⟩ := Option.map_eq_some_iff.1 hstep
        have hfollows := (Execution.settle_follows (hinv.logged exec x hx).tracks hr).1
        exact ⟨hwaited.putExecution _ hfollows.handed, armed_putExecution harmed _ _ _⟩
  | timer timer =>
      rw [hkind] at hstep
      obtain ⟨⟨bundles, batch⟩, hfire, rfl⟩ := Option.map_eq_some_iff.1 hstep
      refine ⟨Waited.startFlushIf (hwaited.of_perm rfl ?_), ?_⟩
      · simp only [pending, ← List.append_assoc]
        exact List.Perm.append_right _ (fire_perm hfire)
      · dsimp only
        rw [startFlushIf_bundles]
        exact harmed.fire hfire
  | flushed f outcome =>
      rw [hkind] at hstep
      exact ⟨hwaited.flushedStep hstep, flushedStep_bundles hstep ▸ harmed⟩
  | resume exec =>
      rw [hkind] at hstep
      dsimp only [resumeStep] at hstep
      split at hstep
      · cases hstep
      · rename_i x hx
        obtain ⟨r, hr, rfl⟩ := Option.map_eq_some_iff.1 hstep
        have hfollows := (Execution.resume_follows (hinv.logged exec x hx).tracks hr).1
        exact ⟨hwaited.putExecution _ hfollows.handed, armed_putExecution harmed _ _ _⟩
  | release exec =>
      rw [hkind] at hstep
      dsimp only [release] at hstep
      split at hstep
      · split at hstep
        · split at hstep
          · cases hstep
            exact ⟨hwaited.of_perm rfl (List.Perm.refl _), harmed⟩
          · cases hstep
        · cases hstep
      · cases hstep
  | land exec tx =>
      rw [hkind] at hstep
      dsimp only at hstep
      split at hstep
      · cases hstep
        exact ⟨hwaited.of_perm rfl (List.Perm.refl _), harmed⟩
      · cases hstep

/-- The action flushes the group of the entry, or ends the submission it is in. -/
inductive Serves (st : State) (e : PendingEntry) : ActionKind → Prop where
  | timer {group : String} {acc : Accumulator} {timer : Nat} :
      st.bundles.groups.get? group = some acc → e ∈ acc.entries →
      st.bundles.timers.find? (·.1 = timer) = some (timer, group) →
      Serves st e (.timer timer)
  | flushed {f : Nat} {flush : Flush} (outcome : Except String Unit) :
      st.flushes[f]? = some (some flush) → e ∈ flush.entries →
      Serves st e (.flushed f outcome)

/-- What can happen now. -/
def Enabled (opts : ExecutorOpts) (st : State) (kind : ActionKind) : Prop :=
  (step opts st { kind := kind, env := { now := st.now } }).isSome

theorem enabled_iff {opts : ExecutorOpts} {st : State} {kind : ActionKind} :
    Enabled opts st kind ↔
      (stepAt opts st { kind := kind, env := { now := st.now } }).isSome := by
  unfold Enabled step
  rw [if_pos (Int.le_refl _)]

/-- Something can happen to the bundle that the execution waits for. -/
theorem bundle_served (opts : ExecutorOpts) {st : State} (h : BundleInv st) {i : Nat}
    {x : Execution} (hx : st.executions[i]? = some x) (hwait : waitingTx x.running ≠ []) :
    ∃ e ∈ pending st, e.owner = i ∧ ∃ kind, Serves st e kind ∧ Enabled opts st kind := by
  obtain ⟨e, he, howner⟩ := h.waited i x hx hwait
  rw [List.nil_append] at he
  refine ⟨e, he, howner, ?_⟩
  rcases List.mem_append.1 he with hgroup | hflush
  · obtain ⟨acc, hacc, hentry⟩ := List.mem_flatMap.1 hgroup
    obtain ⟨group, hget⟩ := OrderedMap.exists_get?_of_mem_values hacc
    obtain ⟨-, timer, -, hfind⟩ := h.armed.armed group acc hget
    refine ⟨.timer timer, .timer hget hentry hfind, enabled_iff.2 ?_⟩
    simp only [stepAt, BundleAccumulator.fire, hfind, Option.map_some, Option.isSome_some]
  · obtain ⟨fl, hfl, hentry⟩ := List.mem_flatMap.1 hflush
    cases fl with
    | none => cases hentry
    | some flush =>
        obtain ⟨f, hf⟩ := List.mem_iff_getElem?.1 hfl
        refine ⟨.flushed f (.ok ()), .flushed _ hf hentry, enabled_iff.2 ?_⟩
        simp only [stepAt, flushedStep, hf, Option.isSome_some]

end Ap3xSolana.Executor
