import Ap3xSolana.Executor.AttemptLog
import Ap3xSolana.Executor.Executor
import Ap3xSolana.Lib.Throwing

/-!
# The logs of all executions

Every execution's log stays accepted, whatever order things happen in.  What links
the executions to the bundles is `waiting`: each entry in a group or in a flush
belongs to an execution that waits for it, and to no other entry.
-/

namespace Ap3xSolana.Executor

open Ap3xSolana.Core Ap3xSolana.Lib Ap3xSolana.Lib.Monitor AttemptLog

/-! ## Entries on their way -/

/-- The entries that wait in a group. -/
def BundleAccumulator.pending (b : BundleAccumulator) : List PendingEntry :=
  b.groups.values.flatMap (·.entries)

/-- The entries that are being flushed. -/
def flushing (fs : List (Option Flush)) : List PendingEntry :=
  fs.flatMap fun f => (f.map (·.entries)).getD []

def pending (st : State) : List PendingEntry :=
  st.bundles.pending ++ flushing st.flushes

theorem flush_perm (b : BundleAccumulator) (group : String) :
    ((b.flush group).2.getD [] ++ (b.flush group).1.pending).Perm b.pending := by
  unfold BundleAccumulator.flush
  have hperm := b.groups.values_erase_perm group (·.entries)
  cases hget : b.groups.get? group with
  | none => simp
  | some acc =>
      rw [hget] at hperm
      dsimp only
      split
      · simp
      · exact List.perm_append_comm.trans hperm

theorem fire_perm {b b' : BundleAccumulator} {timer : Nat}
    {batch : Option (List PendingEntry)} (h : b.fire timer = some (b', batch)) :
    (batch.getD [] ++ b'.pending).Perm b.pending := by
  unfold BundleAccumulator.fire at h
  split at h
  · cases h
  · rename_i group _
    have hperm := flush_perm (b.clearTimer (some timer)) group
    rw [Option.some.inj h] at hperm
    exact hperm

theorem add_perm (maxPerBundle : Int) (b : BundleAccumulator) (group : String)
    (entry : PendingEntry) :
    ((b.add maxPerBundle group entry).2.getD [] ++
      (b.add maxPerBundle group entry).1.pending).Perm (entry :: b.pending) := by
  -- the group with the new entry, whatever becomes of its timer
  have hset : ∀ acc : Accumulator,
      acc.entries = ((b.groups.get? group).getD {}).entries ++ [entry] →
        ((b.groups.set group acc).values.flatMap (·.entries)).Perm (entry :: b.pending) := by
    intro acc hacc
    have hperm := b.groups.values_set_perm group acc (·.entries)
    have hold : ((b.groups.get? group).getD {}).entries =
        ((b.groups.get? group).map (·.entries)).getD [] := by
      cases b.groups.get? group <;> rfl
    rw [hacc, hold, ← List.append_assoc] at hperm
    exact (List.perm_append_right_iff _).1
      (hperm.trans (List.perm_append_singleton entry _))
  unfold BundleAccumulator.add
  dsimp only
  split
  · refine (flush_perm _ group).trans ?_
    exact hset _ rfl
  · split
    · exact hset _ rfl
    · exact hset _ rfl

/-! ## The invariant -/

/-- The log of one execution. -/
def logOf (events : List Event) (i : Nat) : List Timed :=
  events.filterMap fun e => if e.exec = i then some (e.time, e.output) else none

theorem logOf_append (events es : List Event) (i : Nat) :
    logOf (events ++ es) i = logOf events i ++ logOf es i :=
  List.filterMap_append

theorem logOf_log (time : Int) (exec i : Nat) (out : List Output) :
    logOf (log time exec out) i = if exec = i then out.map (time, ·) else [] := by
  induction out with
  | nil => simp [log, logOf]
  | cons o out ih =>
      unfold log logOf at ih ⊢
      by_cases h : exec = i
      · simp only [List.map_cons, List.filterMap_cons, h, if_true] at ih ⊢
        rw [ih]
      · simp only [List.map_cons, List.filterMap_cons, h, if_false] at ih ⊢
        rw [ih]

/-- The log of an execution is accepted, and the execution is where it says. -/
structure Logged (x : Execution) (entries : List Timed) : Prop where
  accepts : Accepts next (Allows x.intent) {} entries
  tracks : Tracks x (entries.foldl next {})

/-- `batch` is on its way from a group to a flush. -/
structure Inv (batch : List PendingEntry) (st : State) : Prop where
  logged : ∀ (i : Nat) (x : Execution), st.executions[i]? = some x →
    Logged x (logOf st.events i)
  fresh : ∀ i, st.executions.length ≤ i → logOf st.events i = []
  owners : ((batch ++ pending st).map (·.owner)).Nodup
  waiting : ∀ e ∈ batch ++ pending st, ∃ x : Execution,
    st.executions[e.owner]? = some x ∧ waitingTx x.running = [e.entry.signedTx]

theorem inv_init : Inv [] {} where
  logged i x h := by simp at h
  fresh i h := rfl
  owners := List.nodup_nil
  waiting e h := by cases h

/-- Only the executions, the log and the entries on their way matter. -/
theorem Inv.of_perm {batch batch' : List PendingEntry} {st st' : State}
    (h : Inv batch st) (hx : st'.executions = st.executions)
    (he : st'.events = st.events)
    (hp : (batch' ++ pending st').Perm (batch ++ pending st)) : Inv batch' st' where
  logged i x hi := by
    rw [he]
    exact h.logged i x (hx ▸ hi)
  fresh i hi := by
    rw [he]
    exact h.fresh i (hx ▸ hi)
  owners := (hp.map (·.owner)).nodup_iff.2 h.owners
  waiting e hmem := by
    rw [hx]
    exact h.waiting e (hp.mem_iff.1 hmem)

/-- Settling the promise of one entry. -/
theorem Inv.deliverOne {batch : List PendingEntry} {st : State} {e : PendingEntry}
    (h : Inv (e :: batch) st) (outcome : Except ThrownError String) :
    Inv batch (deliver st [(e, outcome)]) := by
  have howners := h.owners
  rw [List.cons_append, List.map_cons, List.nodup_cons] at howners
  refine ⟨fun i x hi => ?_, fun i hi => ?_, howners.2, fun e' he' => ?_⟩
  · simp only [deliver, List.foldl_cons, List.foldl_nil, List.getElem?_modify] at hi
    obtain ⟨x₀, hx₀, rfl⟩ := Option.map_eq_some_iff.1 hi
    have hlog := h.logged i x₀ hx₀
    by_cases hown : e.owner = i
    · simp only [hown, if_true]
      split
      · rename_i tx name hrun
        have hfits := hlog.tracks.fits
        rw [hrun] at hfits
        exact ⟨hlog.accepts, ⟨hlog.tracks.attempts, hlog.tracks.positive, hfits⟩⟩
      · exact hlog
    · simp only [hown, if_false]
      exact hlog
  · exact h.fresh i (by simpa [deliver] using hi)
  · obtain ⟨x, hx, hwait⟩ := h.waiting e' (List.mem_cons_of_mem _ he')
    have hne : e.owner ≠ e'.owner := fun heq =>
      howners.1 (heq ▸ List.mem_map_of_mem he')
    exact ⟨x, by simp [deliver, hne, hx], hwait⟩

theorem Inv.deliver {st : State}
    {entries : List (PendingEntry × Except ThrownError String)}
    (h : Inv (entries.map (·.1)) st) : Inv [] (deliver st entries) := by
  induction entries generalizing st with
  | nil => exact h
  | cons e entries ih => exact ih (h.deliverOne e.2)

theorem Inv.deliverError {st : State} {entries : List PendingEntry} (h : Inv entries st)
    (err : ThrownError) : Inv [] (deliverError st entries err) := by
  refine Inv.deliver ?_
  have hentries : (entries.map fun e =>
      (e, (Except.error err : Except ThrownError String))).map (·.1) = entries := by
    rw [List.map_map]
    exact List.map_id entries
  rwa [hentries]

/-- Entries that a log allows and that leave the monitor where it is. -/
theorem Inv.append {batch : List PendingEntry} {st : State} (h : Inv batch st)
    {es : List Event} (hes : ∀ e ∈ es, ∃ x : Execution, st.executions[e.exec]? = some x ∧
      Allows x.intent ((logOf st.events e.exec).foldl next {}) (e.time, e.output) ∧
      ((logOf st.events e.exec).foldl next {}).next (e.time, e.output) =
        (logOf st.events e.exec).foldl next {}) :
    Inv batch { st with events := st.events ++ es } := by
  refine ⟨fun i x hi => ?_, fun i hi => ?_, h.owners, h.waiting⟩
  · have hlog := h.logged i x hi
    have hidle : ∀ a ∈ logOf es i,
        Allows x.intent ((logOf st.events i).foldl next {}) a ∧
          ((logOf st.events i).foldl next {}).next a =
            (logOf st.events i).foldl next {} := by
      intro a ha
      obtain ⟨e, he, hmap⟩ := List.mem_filterMap.1 ha
      split at hmap
      · rename_i hi'
        cases hmap
        obtain ⟨x', hx', hok⟩ := hes e he
        rw [hi'] at hx' hok
        rw [hi] at hx'
        cases hx'
        exact hok
      · cases hmap
    obtain ⟨hacc, hfold⟩ := accepts_of_idle hidle
    refine ⟨?_, ?_⟩
    · rw [logOf_append, accepts_append]
      exact ⟨hlog.accepts, hacc⟩
    · rw [logOf_append, List.foldl_append, hfold]
      exact hlog.tracks
  · rw [logOf_append, h.fresh i hi, List.nil_append]
    refine List.filterMap_eq_nil_iff.2 fun e he => ?_
    obtain ⟨x, hx, -⟩ := hes e he
    have hlt := (List.getElem?_eq_some_iff.1 hx).1
    have hne : e.exec ≠ i := by
      dsimp only at hi
      omega
    rw [if_neg hne]

/-! ## Bundles -/

/-- Calling a submitter with the transactions of waiting entries. -/
theorem Inv.submitBundle {batch entries : List PendingEntry} {st : State}
    (h : Inv batch st)
    (hentries : ∀ e ∈ entries, ∃ x : Execution, st.executions[e.owner]? = some x ∧
      waitingTx x.running = [e.entry.signedTx]) (current : Submitter) :
    Inv batch { st with events := st.events ++ submitBundle st entries current } := by
  refine h.append fun ev hev => ?_
  obtain ⟨e, he, hev⟩ := List.mem_flatMap.1 hev
  obtain rfl := List.mem_singleton.1 hev
  obtain ⟨x, hx, hwait⟩ := hentries e he
  have hfits := (h.logged e.owner x hx).tracks.fits
  cases hrun : x.running with
  | bundle tx name =>
      rw [hrun] at hfits hwait
      cases hwait
      exact ⟨x, hx, hfits, rfl⟩
  | _ =>
      rw [hrun] at hwait
      cases hwait

theorem flushing_append (fs fs' : List (Option Flush)) :
    flushing (fs ++ fs') = flushing fs ++ flushing fs' := List.flatMap_append

theorem Inv.startFlush {opts : ExecutorOpts} {unhealthy : List Nat}
    {entries : List PendingEntry} {st : State} (h : Inv entries st) :
    Inv [] (startFlush opts st unhealthy entries) := by
  unfold Executor.startFlush
  split
  · exact h.deliverError _
  · split
    · exact h.deliverError _
    · rename_i current rest _
      have hsub := h.submitBundle (fun e he => h.waiting e (List.mem_append_left _ he))
        current
      refine hsub.of_perm rfl rfl ?_
      simp only [List.nil_append, pending, flushing_append]
      simp only [flushing, List.flatMap_cons, List.flatMap_nil, Option.map_some,
        Option.getD_some, List.append_nil]
      rw [← List.append_assoc]
      exact List.perm_append_comm

theorem Inv.startFlushIf {opts : ExecutorOpts} {unhealthy : List Nat}
    {entries : Option (List PendingEntry)} {st : State} (h : Inv (entries.getD []) st) :
    Inv [] (startFlushIf opts st unhealthy entries) := by
  cases entries with
  | none => exact h
  | some entries => exact h.startFlush

/-- Taking out a flush leaves its entries on their way. -/
theorem flushing_set {fs : List (Option Flush)} {f : Nat} {flush : Flush}
    (hf : fs[f]? = some (some flush)) (new : Option Flush) :
    (((new.map (·.entries)).getD []) ++ flushing fs).Perm
      (flush.entries ++ flushing (fs.set f new)) := by
  induction fs generalizing f with
  | nil => simp at hf
  | cons g fs ih =>
      cases f with
      | zero =>
          simp only [List.getElem?_cons_zero, Option.some.injEq] at hf
          subst hf
          simp only [flushing, List.set_cons_zero, List.flatMap_cons, Option.map_some,
            Option.getD_some, ← List.append_assoc]
          exact List.Perm.append_right _ List.perm_append_comm
      | succ f =>
          simp only [List.getElem?_cons_succ] at hf
          have hrest := ih hf
          simp only [flushing, List.set_cons_succ, List.flatMap_cons] at hrest ⊢
          refine (List.perm_append_comm_assoc _ _ _).trans ?_
          refine (List.Perm.append_left _ hrest).trans ?_
          exact List.perm_append_comm_assoc _ _ _

/-- A flush that is over gives its entries back. -/
theorem Inv.takeFlush {st : State} (h : Inv [] st) {f : Nat} {flush : Flush}
    (hf : st.flushes[f]? = some (some flush)) (last : Option String) :
    Inv flush.entries { st with
      flushes := st.flushes.set f none, lastBundleSubmitter := last } := by
  refine h.of_perm rfl rfl ?_
  have hperm := flushing_set hf none
  simp only [pending, List.nil_append]
  refine (List.perm_append_comm_assoc _ _ _).trans ?_
  exact List.Perm.append_left _ hperm.symm

theorem Inv.flushDone {st : State} (h : Inv [] st) {f : Nat} {flush : Flush}
    (hf : st.flushes[f]? = some (some flush)) : Inv [] (flushDone st f flush) := by
  have htaken := h.takeFlush hf (some flush.current.name)
  unfold Executor.flushDone
  split
  · exact htaken.deliverError _
  · rename_i sigs hsigs
    have hlen : sigs.length = flush.entries.length :=
      (Throwing.mapM_eq_ok.1 hsigs).length_eq.symm
    refine Inv.deliver ?_
    rw [List.map_fst_zip (by simp [hlen])]
    exact htaken

theorem Inv.flushThrew {st : State} (h : Inv [] st) {f : Nat} {flush : Flush}
    (hf : st.flushes[f]? = some (some flush)) (message : String) :
    Inv [] (flushThrew st f flush message) := by
  unfold Executor.flushThrew
  dsimp only
  split
  · exact (h.takeFlush hf st.lastBundleSubmitter).deliverError _
  · rename_i current rest _
    have hentries : ∀ e ∈ flush.entries, e ∈ pending st := fun e he =>
      List.mem_append_right _ (List.mem_flatMap.2 ⟨some flush, List.mem_of_getElem? hf, he⟩)
    have hsub := h.submitBundle (fun e he => h.waiting e (hentries e he)) current
    refine hsub.of_perm rfl rfl ?_
    -- the same entries, now with the next submitter
    have hperm := flushing_set hf (some
      { flush with current := current, rest := rest,
                   errors := flush.errors ++ [s!"{flush.current.name}: {message}"] })
    simp only [pending, List.nil_append]
    exact List.Perm.append_left _ ((List.perm_append_left_iff _).1 hperm).symm

/-! ## Executions -/

/-- Hands one entry to the accumulator. -/
def addBundle (opts : ExecutorOpts) (exec : Nat) (unhealthy : List Nat) (st : State)
    (b : String × BundleEntry) : State :=
  startFlushIf opts { st with
      bundles := (st.bundles.add opts.bundleMaxIntents b.1
        { entry := b.2, owner := exec }).1 } unhealthy
    (st.bundles.add opts.bundleMaxIntents b.1 { entry := b.2, owner := exec }).2

theorem addBundles_eq (opts : ExecutorOpts) (st : State) (exec : Nat)
    (unhealthy : List Nat) (out : List Output) :
    addBundles opts st exec unhealthy out =
      (bundleEntries out).foldl (addBundle opts exec unhealthy) st := by
  induction out generalizing st with
  | nil => rfl
  | cons o out ih =>
      cases o with
      | addToBundle group entry => exact ih _
      | _ => exact ih st

theorem Inv.addBundle {opts : ExecutorOpts} {st : State} {exec : Nat}
    {unhealthy : List Nat} {b : String × BundleEntry}
    (h : Inv [{ entry := b.2, owner := exec }] st) :
    Inv [] (addBundle opts exec unhealthy st b) := by
  refine Inv.startFlushIf (h.of_perm rfl rfl ?_)
  have hperm := add_perm opts.bundleMaxIntents st.bundles b.1
    { entry := b.2, owner := exec }
  simp only [pending, ← List.append_assoc]
  exact List.Perm.append_right _ hperm

/-- Putting back an execution that did not wait for a bundle. -/
theorem Inv.putExecution {opts : ExecutorOpts} {st : State} (h : Inv [] st) {exec : Nat}
    {x : Execution} (hx : st.executions[exec]? = some x) (unhealthy : List Nat)
    {r : Execution × List Output}
    (hr : Follows x.intent st.now ((logOf st.events exec).foldl next {}) r)
    (hfree : waitingTx x.running = []) :
    Inv [] (putExecution opts st exec unhealthy r) := by
  have hlt := (List.getElem?_eq_some_iff.1 hx).1
  have hother : ∀ e ∈ pending st, e.owner ≠ exec := by
    intro e he howner
    obtain ⟨x', hx', hwait⟩ := h.waiting e he
    rw [howner, hx] at hx'
    cases hx'
    rw [hfree] at hwait
    cases hwait
  have hput : ∀ batch : List PendingEntry, (batch.map (·.owner)).Nodup →
      (∀ e ∈ batch, e.owner = exec ∧ waitingTx r.1.running = [e.entry.signedTx]) →
        Inv batch { st with
          executions := st.executions.set exec r.1
          events := st.events ++ log st.now exec r.2 } := by
    intro batch hnodup hbatch
    refine ⟨fun i y hy => ?_, fun i hi => ?_, ?_, fun e he => ?_⟩
    · rw [logOf_append, logOf_log]
      by_cases hi : exec = i
      · subst hi
        rw [List.getElem?_set_self hlt] at hy
        cases hy
        have hlog := h.logged exec x hx
        rw [if_pos rfl]
        refine ⟨?_, ?_⟩
        · rw [hr.same, accepts_append]
          exact ⟨hlog.accepts, hr.accepts⟩
        · rw [List.foldl_append]
          exact hr.tracks
      · rw [List.getElem?_set_ne hi] at hy
        rw [if_neg hi, List.append_nil]
        exact h.logged i y hy
    · rw [List.length_set] at hi
      have hne : exec ≠ i := by omega
      rw [logOf_append, logOf_log, if_neg hne, List.append_nil]
      exact h.fresh i hi
    · rw [List.map_append, List.nodup_append]
      refine ⟨hnodup, h.owners, fun i hi j hj hij => ?_⟩
      obtain ⟨e, he, rfl⟩ := List.mem_map.1 hi
      obtain ⟨e', he', rfl⟩ := List.mem_map.1 hj
      exact hother e' he' (hij ▸ (hbatch e he).1)
    · rcases List.mem_append.1 he with he | he
      · obtain ⟨rfl, hwait⟩ := hbatch e he
        exact ⟨r.1, List.getElem?_set_self hlt, hwait⟩
      · obtain ⟨y, hy, hwait⟩ := h.waiting e he
        exact ⟨y, by rw [List.getElem?_set_ne (hother e he).symm]; exact hy, hwait⟩
  unfold Executor.putExecution
  rw [addBundles_eq]
  have hhanded := hr.handed
  cases hrun : r.1.running with
  | bundle tx name =>
      rw [hrun] at hhanded
      obtain ⟨b, hb, htx⟩ := List.map_eq_singleton_iff.1 hhanded
      rw [hb]
      refine Inv.addBundle (hput _ (List.nodup_singleton _) fun e he => ?_)
      obtain rfl := List.mem_singleton.1 he
      exact ⟨rfl, by rw [hrun, htx]; rfl⟩
  | _ =>
      rw [hrun] at hhanded
      rw [List.map_eq_nil_iff.1 hhanded]
      exact hput [] List.nodup_nil (fun e he => by cases he)

theorem Inv.submit {opts : ExecutorOpts} {st : State} (h : Inv [] st)
    (intent : TradeIntent) (unhealthy : List Nat) :
    Inv [] (submit opts st intent unhealthy) := by
  unfold Executor.submit
  split
  · exact h.of_perm rfl rfl (List.Perm.refl _)
  · split
    · exact h
    · refine ⟨fun i x hx => ?_, fun i hi => ?_, h.owners, fun e he => ?_⟩
      · rw [logOf_append, logOf_log]
        rcases Nat.lt_trichotomy i st.executions.length with hi | hi | hi
        · rw [List.getElem?_append_left hi] at hx
          rw [if_neg (by omega), List.append_nil]
          exact h.logged i x hx
        · subst hi
          rw [List.getElem?_concat_length] at hx
          cases hx
          rw [h.fresh _ (Nat.le_refl _), if_pos rfl]
          exact ⟨⟨⟨rfl, maxAttempts_pos intent, .inl rfl⟩, trivial⟩,
            ⟨rfl, Nat.one_pos, rfl, rfl⟩⟩
        · rw [List.getElem?_eq_none (by simpa using hi)] at hx
          cases hx
      · have hlt : st.executions.length < i := by simpa using hi
        rw [logOf_append, logOf_log, if_neg (by omega), List.append_nil]
        exact h.fresh i (by omega)
      · obtain ⟨x, hx, hwait⟩ := h.waiting e he
        have hlt := (List.getElem?_eq_some_iff.1 hx).1
        exact ⟨x, by rw [List.getElem?_append_left hlt]; exact hx, hwait⟩

/-- What lands was handed over, so it was signed. -/
theorem Inv.land {st : State} (h : Inv [] st) {exec : Nat} {tx : List UInt8}
    (hx : handedOver st exec tx = true) :
    Inv [] { st with events := st.events ++ log st.now exec [.landed tx] } := by
  obtain ⟨e, he, hmatch⟩ := List.any_eq_true.1 hx
  rw [Bool.and_eq_true, decide_eq_true_iff] at hmatch
  obtain ⟨rfl, hout⟩ := hmatch
  have hmem : (e.time, e.output) ∈ logOf st.events e.exec :=
    List.mem_filterMap.2 ⟨e, he, if_pos rfl⟩
  have hlt : e.exec < st.executions.length := by
    by_contra hge
    rw [h.fresh _ (Nat.le_of_not_lt hge)] at hmem
    cases hmem
  refine h.append fun ev hev => ?_
  obtain rfl := List.mem_singleton.1 hev
  refine ⟨_, List.getElem?_eq_getElem hlt, ?_, rfl⟩
  have hacc := (h.logged _ _ (List.getElem?_eq_getElem hlt)).accepts
  split at hout
  · rename_i sub tx' heq
    rw [heq] at hmem
    have hsigned := submitted_mem_signed hacc hmem
    rwa [decide_eq_true_iff.1 hout] at hsigned
  · cases hout

/-! ## Runs -/

theorem step_inv {opts : ExecutorOpts} {st st' : State} {a : Action} (h : Inv [] st)
    (hstep : step opts st a = some st') : Inv [] st' := by
  unfold step at hstep
  split at hstep
  swap
  · cases hstep
  have hnow : Inv [] { st with now := a.env.now } :=
    h.of_perm rfl rfl (List.Perm.refl _)
  generalize hst : ({ st with now := a.env.now } : State) = st₁ at hnow hstep
  have htime : st₁.now = a.env.now := by rw [← hst]
  unfold stepAt at hstep
  cases hkind : a.kind with
  | submit intent =>
      rw [hkind] at hstep
      cases hstep
      exact hnow.submit intent _
  | settle exec reply =>
      rw [hkind] at hstep
      dsimp only [settleStep] at hstep
      split at hstep
      · cases hstep
      · rename_i x hx
        obtain ⟨r, hr, rfl⟩ := Option.map_eq_some_iff.1 hstep
        obtain ⟨hfollows, hfree⟩ :=
          Execution.settle_follows (hnow.logged exec x hx).tracks hr
        exact hnow.putExecution hx _ (htime ▸ hfollows) hfree
  | timer timer =>
      rw [hkind] at hstep
      obtain ⟨⟨bundles, batch⟩, hfire, rfl⟩ := Option.map_eq_some_iff.1 hstep
      refine Inv.startFlushIf (hnow.of_perm rfl rfl ?_)
      simp only [pending, ← List.append_assoc]
      exact List.Perm.append_right _ (fire_perm hfire)
  | flushed f outcome =>
      rw [hkind] at hstep
      dsimp only [flushedStep] at hstep
      split at hstep
      · rename_i hf
        cases hstep
        exact hnow.flushDone hf
      · rename_i hf
        cases hstep
        exact hnow.flushThrew hf _
      · cases hstep
  | resume exec =>
      rw [hkind] at hstep
      dsimp only [resumeStep] at hstep
      split at hstep
      · cases hstep
      · rename_i x hx
        obtain ⟨r, hr, rfl⟩ := Option.map_eq_some_iff.1 hstep
        obtain ⟨hfollows, hfree⟩ :=
          Execution.resume_follows (hnow.logged exec x hx).tracks hr
        exact hnow.putExecution hx _ (htime ▸ hfollows) hfree
  | release exec =>
      rw [hkind] at hstep
      dsimp only [release] at hstep
      split at hstep
      · split at hstep
        · split at hstep
          · cases hstep
            exact hnow.of_perm rfl rfl (List.Perm.refl _)
          · cases hstep
        · cases hstep
      · cases hstep
  | land exec tx =>
      rw [hkind] at hstep
      dsimp only at hstep
      split at hstep
      · rename_i hover
        cases hstep
        exact hnow.land hover
      · cases hstep

/-- In every reachable state, every log is accepted. -/
theorem run_logged {opts : ExecutorOpts} {acts : List Action} {st : State}
    (hrun : Run.exec (step opts) {} acts = some st) {i : Nat} {x : Execution}
    (hx : st.executions[i]? = some x) : Logged x (logOf st.events i) :=
  (Run.exec_inv (fun _ _ _ => step_inv) inv_init hrun).logged i x hx

end Ap3xSolana.Executor
