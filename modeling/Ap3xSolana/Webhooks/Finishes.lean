import Mathlib.Algebra.Order.BigOperators.Group.List
import Mathlib.Data.ENat.Basic
import Ap3xSolana.Webhooks.History
import Ap3xSolana.Webhooks.PollLoop

/-!
# The drainer finishes

Every attempt that ends takes one from what is left of the row's attempts, or all of it.
What is left bounds the attempts on a row, and over all rows it bounds the cycles that
begin once no delay hides a row (`drainer_finishes`).
-/

namespace Ap3xSolana.Webhooks.Finishes

open Ap3xSolana.Lib.Run

variable {ε : Type}

/-! ## The property -/

/-- The outbox takes what the drainer writes, nothing is inserted, the drainer is not stopped,
and a cycle of `drainOnce` does not overlap another one. -/
def Quiet (st : State ε) (a : HistoryAction ε) : Prop :=
  match a with
  | .act .start => True
  | .act (.timer _ _ statement) =>
      statement = none ∧ ∀ c ∈ st.drainer.cycles, c.active = true → c.looping = true
  | .act (.drainOnce _ statement) =>
      statement = none ∧ ∀ c ∈ st.drainer.cycles, c.active = false
  | .act (.advance _ reply) => reply.statement = none
  | .reorder _ => True
  | _ => False

/-- The attempts on a row. -/
def attempts (backend : Backend) (opts : Options) (st : State ε)
    (acts : List (HistoryAction ε)) (key : Key) : List OutboxRow :=
  gains (historyStep backend opts) (fun st a key => (starts st a).toList.filter (·.key = key))
    st acts key

def beginsLate (since : Int) : HistoryAction ε → Bool
  | .act (.timer _ now _) => since ≤ now
  | .act (.drainOnce now _) => since ≤ now
  | _ => false

/-- The cycles that begin at `since` or later. -/
def lateCycles (backend : Backend) (opts : Options) (st : State ε)
    (acts : List (HistoryAction ε)) (since : Int) : List (HistoryAction ε) :=
  gains (historyStep backend opts) (fun _ a since => if beginsLate since a then [a] else [])
    st acts since

/-- What is left of the attempts of a row. -/
def left (opts : DrainerOptions) (r : OutboxRow) : Nat :=
  if r.processedAt.isSome then 0 else (opts.maxAttempts - r.attempts).toNat

def budget (opts : DrainerOptions) (o : SqliteOutbox) : Nat := (o.rows.map (left opts)).sum

/-- Every row is processed or parked. -/
def Done (opts : DrainerOptions) (o : SqliteOutbox) : Prop := ∀ r ∈ o.rows, ¬ Eligible opts r

/-! ## What is left -/

theorem left_lt {opts : DrainerOptions} {r r' : OutboxRow} (hfinite : opts.maxAttempts ≠ ⊤)
    (hok : Eligible opts r)
    (h : r'.processedAt.isSome ∨ r'.attempts = opts.maxAttempts ∨
      r'.attempts = r.attempts + 1) : left opts r' < left opts r := by
  obtain ⟨hnone, hlt⟩ := hok
  have hlt' : r.attempts < opts.maxAttempts := hlt.resolve_left hfinite
  obtain ⟨m, hm⟩ := ENat.ne_top_iff_exists.1 hfinite
  obtain ⟨n, hn⟩ := ENat.ne_top_iff_exists.1 (ne_top_of_lt hlt')
  have hmn : n < m := by
    rw [← hm, ← hn] at hlt'
    exact_mod_cast hlt'
  have hleft : left opts r = m - n := by
    unfold left
    rw [hnone, ← hm, ← hn, ← ENat.natCast_sub, ENat.toNat_natCast]
    rfl
  rw [hleft]
  unfold left
  split
  · omega
  · rename_i hopen
    rcases h with hdone | hmax | hmore
    · exact absurd hdone hopen
    · rw [hmax, ← hm, ← ENat.natCast_sub, ENat.toNat_natCast]
      omega
    · have hone : ((n : ℕ∞) + 1) = ((n + 1 : ℕ) : ℕ∞) := rfl
      rw [hmore, ← hm, ← hn, hone, ← ENat.natCast_sub, ENat.toNat_natCast]
      omega

theorem left_pos {opts : DrainerOptions} {r : OutboxRow} (hfinite : opts.maxAttempts ≠ ⊤)
    (hok : Eligible opts r) : 0 < left opts r := by
  have hlt : left opts { r with attempts := opts.maxAttempts } < left opts r :=
    left_lt hfinite hok (.inr (.inl rfl))
  omega

theorem left_le (opts : DrainerOptions) (r : OutboxRow) :
    (left opts r : ℕ∞) ≤ opts.maxAttempts := by
  unfold left
  split
  · exact bot_le
  · exact (ENat.natCast_toNat_le_self _).trans tsub_le_self

/-- An `UPDATE` of a row that may still be tried. -/
theorem budget_update {opts : DrainerOptions} {o : SqliteOutbox} {row : OutboxRow}
    {processedAt : OutboxRow → Option Int} {error : Option String}
    {attempts : OutboxRow → ℕ∞} (hrow : o.find? row.key = some row)
    (hlt : left opts { row with
      processedAt := processedAt row, error := error, attempts := attempts row } <
        left opts row) :
    budget opts (o.update row.key processedAt error attempts) < budget opts o := by
  obtain ⟨hmem, -⟩ := SqliteOutbox.find?_eq_some.1 hrow
  unfold budget SqliteOutbox.update
  dsimp only
  rw [List.map_map]
  apply List.sum_lt_sum
  · intro r hr
    simp only [Function.comp_apply]
    split
    · rename_i hkey
      rw [List.inj_on_of_nodup_map o.nodup hr hmem hkey]
      exact Nat.le_of_lt hlt
    · exact Nat.le_refl _
  · refine ⟨row, hmem, ?_⟩
    simp only [Function.comp_apply, if_pos]
    exact hlt

/-- What is left of a row by its key. -/
def leftOf (opts : DrainerOptions) (o : SqliteOutbox) (key : Key) : Nat :=
  ((o.find? key).map (left opts)).getD 0

theorem leftOf_some {opts : DrainerOptions} {o : SqliteOutbox} {key : Key} {r : OutboxRow}
    (h : o.find? key = some r) : leftOf opts o key = left opts r := by
  unfold leftOf
  rw [h]
  rfl

theorem find?_perm {o o' : SqliteOutbox} (h : o'.rows.Perm o.rows) (key : Key) :
    o'.find? key = o.find? key := by
  cases hfind : o.find? key with
  | none =>
      apply SqliteOutbox.find?_eq_none.2
      rw [(h.map (·.key)).mem_iff]
      exact SqliteOutbox.find?_eq_none.1 hfind
  | some r =>
      obtain ⟨hmem, hkey⟩ := SqliteOutbox.find?_eq_some.1 hfind
      exact SqliteOutbox.find?_eq_some.2 ⟨h.mem_iff.2 hmem, hkey⟩

/-! ## One turn -/

/-- What a turn at a row that may be tried comes to. -/
structure Worked (opts : DrainerOptions) (o : SqliteOutbox) (row : OutboxRow)
    (o' : SqliteOutbox) : Prop where
  frame : ∀ key, key ≠ row.key → o'.find? key = o.find? key
  left : leftOf opts o' row.key < leftOf opts o row.key
  budget : budget opts o' < budget opts o
  received : ∀ r' ∈ o'.rows, ∃ r ∈ o.rows, r'.receivedAt = r.receivedAt

theorem worked_update {opts : DrainerOptions} {o : SqliteOutbox} {row : OutboxRow}
    {processedAt : OutboxRow → Option Int} {error : Option String}
    {attempts : OutboxRow → ℕ∞} (hfinite : opts.maxAttempts ≠ ⊤)
    (hrow : o.find? row.key = some row) (hok : Eligible opts row)
    (h : (processedAt row).isSome ∨ attempts row = opts.maxAttempts ∨
      attempts row = row.attempts + 1) :
    Worked opts o row (o.update row.key processedAt error attempts) := by
  have hlt : left opts { row with
      processedAt := processedAt row, error := error, attempts := attempts row } <
        left opts row := left_lt hfinite hok h
  exact
    { frame := fun key hkey => find?_update_ne hkey
      left := by
        rw [leftOf_some hrow, leftOf_some (find?_update_self hrow _ _ _)]
        exact hlt
      budget := budget_update hrow hlt
      received := by
        intro r' hr'
        obtain ⟨r, hr, rfl⟩ := List.mem_map.1 hr'
        refine ⟨r, hr, ?_⟩
        split <;> rfl }

/-- A turn goes on emitting, or it is through with the row. -/
theorem tried_worked {opts : DrainerOptions} {o o' : SqliteOutbox} {row : OutboxRow}
    {next : Next ε} (htried : Tried opts o row o' next) (hfinite : opts.maxAttempts ≠ ⊤)
    (hrow : o.find? row.key = some row) (hok : Eligible opts row)
    (hnot : ∀ message, next ≠ .threw message) :
    (∃ event todo, next = .emitting event todo ∧ o' = o) ∨
      ∃ ok, next = .done ok ∧ Worked opts o row o' := by
  cases next with
  | emitting event todo => exact .inl ⟨event, todo, rfl, htried.same event todo rfl⟩
  | threw message => exact absurd rfl (hnot message)
  | done ok =>
      cases ok with
      | true =>
          obtain ⟨at', rfl⟩ := htried.processed rfl
          exact .inr ⟨true, rfl, worked_update hfinite hrow hok (.inl rfl)⟩
      | false =>
          obtain ⟨error, attempts, rfl, hattempts⟩ := htried.failed rfl
          exact .inr ⟨false, rfl, worked_update hfinite hrow hok (.inr hattempts)⟩

/-! ## What a step does -/

inductive QuietStep (opts : Options) (st : State ε) (a : HistoryAction ε) (st' : State ε) :
    Prop where
  | same (hcycles : st'.drainer.cycles = st.drainer.cycles)
      (hrows : st'.outbox.rows.Perm st.outbox.rows) (hstarts : starts st a = none)
      (hlate : ∀ since, beginsLate since a = false)
  | reads (looping : Bool) (now : Int) (hidle : ∀ c ∈ st.drainer.cycles, c.active = false)
      (hcycles : st'.drainer.cycles =
        st.drainer.cycles ++ [Cycle.begin opts.drainer st.outbox looping now none])
      (ho : st'.outbox = st.outbox) (hstarts : starts st a = none)
      (hlate : ∀ since, beginsLate since a = true → since ≤ now)
  | turn (i : Nat) (reply : Reply ε) (c : Cycle ε) (r : SqliteOutbox × List (Entry ε) × Cycle ε)
      (hc : st.drainer.cycles[i]? = some c)
      (hadvance : c.advance opts.drainer st.outbox false reply = some r)
      (hstatement : reply.statement = none)
      (hcycles : st'.drainer.cycles = st.drainer.cycles.set i r.2.2) (ho : st'.outbox = r.1)
      (hstarts : starts st a = c.takesUp false) (hlate : ∀ since, beginsLate since a = false)

/-- The loop, its drainer not stopped. -/
structure Going (d : Drainer ε) : Prop where
  tidy : PollLoop.Tidy d
  going : d.stopRequested = false

theorem Going.startsAlone {d : Drainer ε} (h : Going d) :
    d.running = true ∨ d.timers = [] ∧ d.stops = [] := by
  cases hrun : d.running with
  | true => exact .inl rfl
  | false =>
      refine .inr ⟨?_, List.eq_nil_iff_forall_not_mem.2 fun p hp => ?_⟩
      · rcases (h.tidy.idle hrun).2 with hstop | ⟨-, hnil⟩
        · rw [h.going] at hstop
          cases hstop
        · exact hnil
      · have hstop := (h.tidy.stops p hp).1
        rw [h.going] at hstop
        cases hstop

@[simp] theorem scheduleNext_stopRequested (d : Drainer ε) (delayMs : Int) :
    (d.scheduleNext delayMs).stopRequested = d.stopRequested := by
  unfold Drainer.scheduleNext
  split <;> rfl

@[simp] theorem putCycle_stopRequested (opts : DrainerOptions) (d : Drainer ε) (i : Nat)
    (c : Cycle ε) : (d.putCycle opts i c).stopRequested = d.stopRequested := by
  unfold Drainer.putCycle
  dsimp only
  split
  · split
    · exact scheduleNext_stopRequested _ _
    · rfl
  · rfl

@[simp] theorem beginCycle_stopRequested (opts : DrainerOptions) (d : Drainer ε)
    (c : Cycle ε) : (d.beginCycle opts c).stopRequested = d.stopRequested := by
  unfold Drainer.beginCycle
  dsimp only
  split
  · exact putCycle_stopRequested _ _ _ _
  · rfl

theorem start_stopRequested {d : Drainer ε} (h : d.stopRequested = false) :
    d.start.stopRequested = false := by
  unfold Drainer.start
  split
  · exact h
  · exact scheduleNext_stopRequested _ _

/-- The poll loop stays one loop: `Controlled` of the pipeline, for the steps of a drainer that
is not stopped. -/
theorem Going.step {opts : Options} {st st' : State ε} {a : Action ε} (h : Going st.drainer)
    (hstep : Webhooks.step opts st a = some st') (hstop : st'.drainer.stopRequested = false) :
    Going st'.drainer := by
  obtain ⟨w, hwatch, hstate⟩ :
      ∃ w, PollLoop.watch opts { state := st } a = some w ∧ w.state = st' := by
    unfold PollLoop.watch
    rw [hstep]
    exact ⟨_, rfl, rfl⟩
  have halone : PollLoop.StartsAlone { state := st } a := by
    cases a with
    | start => exact h.startsAlone
    | _ => trivial
  have hinv : PollLoop.Inv ({ state := st } : PollLoop.Watched ε) := ⟨h.tidy, nofun⟩
  exact ⟨hstate ▸ (PollLoop.controlled_step opts hinv hwatch halone).2.tidy, hstop⟩

/-- A step of a quiet run. -/
theorem quiet_cases {backend : Backend} {opts : Options} {st st' : State ε}
    {a : HistoryAction ε} (h : Going st.drainer)
    (hstep : historyStep backend opts st a = some st') (hquiet : Quiet st a) :
    QuietStep opts st a st' ∧ Going st'.drainer := by
  cases a with
  | restart => exact hquiet.elim
  | reorder rows =>
      unfold historyStep at hstep
      cases backend with
      | sqlite => cases hstep
      | postgres =>
          obtain ⟨o, ho, rfl⟩ := Option.map_eq_some_iff.1 hstep
          refine ⟨.same rfl ?_ rfl fun _ => rfl, h⟩
          unfold SqliteOutbox.reorder at ho
          split at ho
          · rename_i hperm
            cases ho
            exact hperm
          · cases ho
  | act a =>
      rw [historyStep_act] at hstep
      cases a with
      | request req now => exact hquiet.elim
      | insert i statement => exact hquiet.elim
      | stop => exact hquiet.elim
      | stopped call => exact hquiet.elim
      | start =>
          have hgoing := h.step hstep
          cases hstep
          exact ⟨.same (start_cycles _) (List.Perm.refl _) rfl fun _ => rfl,
            hgoing (start_stopRequested h.going)⟩
      | timer i now statement =>
          obtain ⟨rfl, hlooping⟩ := hquiet
          have hgoing := h.step hstep
          change timerStep opts st i now none = some st' at hstep
          unfold timerStep at hstep
          split at hstep
          · rename_i hi
            dsimp only at hstep
            rw [h.going, if_neg Bool.false_ne_true] at hstep
            cases hstep
            refine ⟨.reads true now ?_ (beginCycle_cycles ..) rfl rfl ?_,
              hgoing (beginCycle_stopRequested ..)⟩
            · -- the timer is the loop's only part, so no cycle of the loop is in flight
              intro c hc
              have hloops := (h.tidy.fires hi).2
              have hnot := List.countP_eq_zero.1 hloops c hc
              cases hactive : c.active with
              | false => rfl
              | true =>
                  unfold PollLoop.inLoop at hnot
                  rw [hlooping c hc hactive, hactive] at hnot
                  exact absurd rfl hnot
            · exact fun since hsince => of_decide_eq_true hsince
          · cases hstep
      | drainOnce now statement =>
          obtain ⟨rfl, hidle⟩ := hquiet
          have hgoing := h.step hstep
          cases hstep
          exact ⟨.reads false now hidle (beginCycle_cycles ..) rfl rfl
            fun since hsince => of_decide_eq_true hsince,
            hgoing ((beginCycle_stopRequested ..).trans h.going)⟩
      | advance i reply =>
          have hgoing := h.step hstep
          change advanceStep opts st i reply = some st' at hstep
          unfold advanceStep at hstep
          split at hstep
          · cases hstep
          rename_i c hc
          obtain ⟨r, hadvance, rfl⟩ := Option.map_eq_some_iff.1 hstep
          rw [h.going] at hadvance
          refine ⟨.turn i reply c r hc hadvance hquiet (putCycle_cycles ..) rfl ?_ fun _ => rfl,
            hgoing ((putCycle_stopRequested ..).trans h.going)⟩
          show st.drainer.cycles[i]?.bind _ = _
          rw [hc, h.going]
          rfl

/-! ## The invariant -/

structure Inv (opts : DrainerOptions) (st : State ε) : Prop where
  going : Going st.drainer
  one : st.drainer.cycles.countP (·.active) ≤ 1
  /-- What a cycle holds is as the cycle has read it. -/
  current : ∀ c ∈ st.drainer.cycles, ∀ r ∈ c.held,
    st.outbox.find? r.key = some r ∧ Eligible opts r
  distinct : ∀ c ∈ st.drainer.cycles, (c.held.map (·.key)).Nodup

theorem inv_init (opts : DrainerOptions) (o : SqliteOutbox) :
    Inv opts ({ outbox := o } : State ε) where
  going := ⟨PollLoop.inv_init.tidy, rfl⟩
  one := Nat.zero_le 1
  current _ hc := by cases hc
  distinct _ hc := by cases hc

theorem held_of_idle {c : Cycle ε} (h : c.active = false) : c.held = [] := by
  unfold Cycle.held
  rw [PollLoop.phase_of_not_active h]

/-- The other cycles are over. -/
theorem other_idle {cs : List (Cycle ε)} (hone : cs.countP (·.active) ≤ 1) {i : Nat}
    {c c' d : Cycle ε} (hc : cs[i]? = some c) (hactive : c.active = true)
    (hd : d ∈ cs.set i c') : d = c' ∨ d.active = false := by
  have hi : i < cs.length := (List.getElem?_eq_some_iff.1 hc).1
  obtain ⟨j, hj⟩ := List.mem_iff_getElem?.1 hd
  by_cases hji : j = i
  · subst hji
    rw [List.getElem?_set_self hi] at hj
    cases hj
    exact .inl rfl
  · have hcount := PollLoop.countP_set_add c.finish (fun d : Cycle ε => d.active) hc
    have hover : c.finish.active = false := rfl
    rw [hactive, hover, Bool.toNat_true, Bool.toNat_false] at hcount
    have hzero : (cs.set i c.finish).countP (fun d => d.active) = 0 := by omega
    have hmem : d ∈ cs.set i c.finish := by
      apply List.mem_of_getElem?
      rw [List.getElem?_set_ne (Ne.symm hji)] at hj ⊢
      exact hj
    exact .inr (by simpa using List.countP_eq_zero.1 hzero d hmem)

/-- What a turn comes to, for a cycle of a quiet run. -/
theorem Inv.turn {opts : DrainerOptions} {st : State ε} (h : Inv opts st)
    (hfinite : opts.maxAttempts ≠ ⊤) {i : Nat} {reply : Reply ε} {c : Cycle ε}
    {r : SqliteOutbox × List (Entry ε) × Cycle ε} (hc : st.drainer.cycles[i]? = some c)
    (hadvance : c.advance opts st.outbox false reply = some r)
    (hstatement : reply.statement = none) :
    (c.held = [] ∧ r.1 = st.outbox ∧ r.2.2 = c.finish ∧ c.takesUp false = none) ∨
      ∃ row rest, c.held = row :: rest ∧
        ((∃ event todo, r.2.2 = c.go row rest (.emitting event todo) ∧ r.1 = st.outbox) ∨
          ∃ ok, r.2.2 = c.go row rest (.done ok) ∧ Worked opts st.outbox row r.1) := by
  rcases Cycle.advance_cases hadvance with
    ⟨-, htakes, hheld, rfl⟩ | ⟨row, rest, next, -, hheld, -, -, hgo, htried, hgoes⟩
  · exact .inl ⟨hheld.resolve_left Bool.false_ne_true, rfl, rfl, htakes⟩
  · obtain ⟨hrow, hok⟩ := h.current c (List.mem_of_getElem? hc) row
      (hheld.symm ▸ List.mem_cons_self)
    refine .inr ⟨row, rest, hheld, ?_⟩
    have hnot := hgoes hstatement (mem_keys_of_find? hrow)
    rcases tried_worked htried hfinite hrow hok hnot with
      ⟨event, todo, rfl, ho⟩ | ⟨ok, rfl, hworked⟩
    · exact .inl ⟨event, todo, hgo, ho⟩
    · exact .inr ⟨ok, hgo, hworked⟩

theorem Inv.step {opts : Options} {st st' : State ε} {a : HistoryAction ε}
    (h : Inv opts.drainer st) (hfinite : opts.drainer.maxAttempts ≠ ⊤)
    (hgoing : Going st'.drainer) (hstep : QuietStep opts st a st') : Inv opts.drainer st' := by
  cases hstep with
  | same hcycles hrows _ _ =>
      refine ⟨hgoing, hcycles ▸ h.one, fun c hc r hr => ?_, hcycles ▸ h.distinct⟩
      rw [find?_perm hrows]
      exact h.current c (hcycles ▸ hc) r hr
  | reads looping now hidle hcycles ho _ _ =>
      refine ⟨hgoing, ?_, fun c hc r hr => ?_, fun c hc => ?_⟩
      · have hzero : st.drainer.cycles.countP (·.active) = 0 :=
          List.countP_eq_zero.2 fun c hc => by rw [hidle c hc]; exact Bool.false_ne_true
        rw [hcycles, List.countP_append, hzero, Nat.zero_add]
        exact List.countP_le_length
      · rw [hcycles, List.mem_append, List.mem_singleton] at hc
        rw [ho]
        rcases hc with hold | rfl
        · exact h.current c hold r hr
        · exact ⟨(SqliteOutbox.mem_pending hr).1, pending_eligible hr⟩
      · rw [hcycles, List.mem_append, List.mem_singleton] at hc
        rcases hc with hold | rfl
        · exact h.distinct c hold
        · exact SqliteOutbox.nodup_pending _ _ _
  | turn i reply c r hc hadvance hstatement hcycles ho _ _ =>
      have hactive := (PollLoop.advance_active hadvance).1
      have hmem := List.mem_of_getElem? hc
      have hcount := PollLoop.countP_set_add r.2.2 (fun d : Cycle ε => d.active) hc
      have hone := h.one
      -- the cycle that takes its turn, and no other one, holds rows
      have hself : (∀ x ∈ r.2.2.held, r.1.find? x.key = some x ∧ Eligible opts.drainer x) ∧
          (r.2.2.held.map (·.key)).Nodup := by
        have hcurrent := h.current c hmem
        have hdistinct := h.distinct c hmem
        rcases h.turn hfinite hc hadvance hstatement with
          ⟨-, -, hfinish, -⟩ | ⟨row, rest, hheld, ⟨event, todo, hgo, hsame⟩ | ⟨ok, hgo, hworked⟩⟩
        · rw [hfinish]
          exact ⟨nofun, List.nodup_nil⟩
        · have hheld' : r.2.2.held = c.held := by
            rw [hgo, hheld]
            rfl
          rw [hheld', hsame]
          exact ⟨hcurrent, hdistinct⟩
        · have hheld' : r.2.2.held = rest := by
            rw [hgo]
            cases ok <;> rfl
          rw [hheld, List.map_cons, List.nodup_cons] at hdistinct
          rw [hheld']
          refine ⟨fun x hx => ?_, hdistinct.2⟩
          have hne : x.key ≠ row.key := fun hkey =>
            hdistinct.1 (hkey ▸ List.mem_map_of_mem hx)
          rw [hworked.frame x.key hne]
          exact hcurrent x (hheld.symm ▸ List.mem_cons_of_mem row hx)
      refine ⟨hgoing, ?_, fun d hd x hx => ?_, fun d hd => ?_⟩
      · rw [hcycles]
        rw [hactive] at hcount
        have hle : (r.2.2.active).toNat ≤ 1 := Bool.toNat_le _
        have htrue : (true).toNat = 1 := rfl
        omega
      · rw [hcycles] at hd
        rw [ho]
        rcases other_idle h.one hc hactive hd with rfl | hidle
        · exact hself.1 x hx
        · rw [held_of_idle hidle] at hx
          cases hx
      · rw [hcycles] at hd
        rcases other_idle h.one hc hactive hd with rfl | hidle
        · exact hself.2
        · rw [held_of_idle hidle]
          exact List.nodup_nil

/-! ## The attempts on a row -/

/-- The cycle has taken up the row and waits for its `emit`. -/
def emits (key : Key) (c : Cycle ε) : Bool :=
  match c.phase with
  | .emitting row _ _ _ => row.key = key
  | _ => false

theorem emits_active {key : Key} {c : Cycle ε} (h : emits key c = true) : c.active = true := by
  unfold emits at h
  unfold Cycle.active
  split at h
  · rename_i hphase
    rw [hphase]
  · cases h

/-- The first row of a cycle is taken up now, or it was before. -/
theorem takesUp_add_emits {c : Cycle ε} {row : OutboxRow} {rest : List OutboxRow}
    (h : c.held = row :: rest) (key : Key) :
    ((c.takesUp false).toList.filter (·.key = key)).length + (emits key c).toNat =
      if row.key = key then 1 else 0 := by
  unfold Cycle.held at h
  unfold Cycle.takesUp emits
  split at h
  · rename_i hphase
    rw [hphase, h]
    by_cases hkey : row.key = key <;> simp [hkey]
  · rename_i hphase
    cases h
    rw [hphase]
    by_cases hkey : row.key = key <;> simp [hkey]
  · cases h

/-- An attempt is paid for when it ends. -/
theorem attempts_step {opts : Options} {st st' : State ε} {a : HistoryAction ε}
    (h : Inv opts.drainer st) (hfinite : opts.drainer.maxAttempts ≠ ⊤)
    (hstep : QuietStep opts st a st') (key : Key) :
    ((starts st a).toList.filter (·.key = key)).length + leftOf opts.drainer st'.outbox key +
        st.drainer.cycles.countP (emits key) ≤
      leftOf opts.drainer st.outbox key + st'.drainer.cycles.countP (emits key) := by
  cases hstep with
  | same hcycles hrows hstarts _ =>
      have hleft : leftOf opts.drainer st'.outbox key = leftOf opts.drainer st.outbox key := by
        unfold leftOf
        rw [find?_perm hrows]
      rw [hstarts, hcycles, hleft]
      show 0 + _ + _ ≤ _
      omega
  | reads looping now _ hcycles ho hstarts _ =>
      rw [hstarts, hcycles, ho, List.countP_append]
      show 0 + _ + _ ≤ _
      omega
  | turn i reply c r hc hadvance hstatement hcycles ho hstarts _ =>
      have hcount := PollLoop.countP_set_add r.2.2 (emits key) hc
      rw [hstarts, hcycles, ho]
      rcases h.turn hfinite hc hadvance hstatement with
        ⟨hheld, hsame, hfinish, htakes⟩ | ⟨row, rest, hheld, hturn⟩
      · have hnone : emits key c = false := by
          unfold emits
          unfold Cycle.held at hheld
          split
          · rename_i hphase
            rw [hphase] at hheld
            cases hheld
          · rfl
        rw [hnone] at hcount
        rw [htakes, hsame]
        show 0 + _ + _ ≤ _
        have hzero : (false).toNat = 0 := rfl
        omega
      · have hfirst := takesUp_add_emits hheld key
        rcases hturn with ⟨event, todo, hgo, hsame⟩ | ⟨ok, hgo, hworked⟩
        · have hemits : (emits key r.2.2).toNat = if row.key = key then 1 else 0 := by
            rw [hgo]
            show (decide (row.key = key)).toNat = _
            by_cases hkey : row.key = key <;> simp [hkey]
          rw [hsame]
          omega
        · have hemits : (emits key r.2.2).toNat = 0 := by
            rw [hgo]
            cases ok <;> rfl
          by_cases hkey : row.key = key
          · subst hkey
            have hless := hworked.left
            rw [if_pos rfl] at hfirst
            omega
          · have hframe : leftOf opts.drainer r.1 key = leftOf opts.drainer st.outbox key := by
              unfold leftOf
              rw [hworked.frame key (Ne.symm hkey)]
            rw [if_neg hkey] at hfirst
            omega

/-- Who emits for a row has not used up its attempts. -/
theorem Inv.emits_le {opts : DrainerOptions} {st : State ε} (h : Inv opts st)
    (hfinite : opts.maxAttempts ≠ ⊤) (key : Key) :
    st.drainer.cycles.countP (emits key) ≤ leftOf opts st.outbox key := by
  have hone : st.drainer.cycles.countP (emits key) ≤ 1 :=
    (List.countP_mono_left fun _ _ hemits => emits_active hemits).trans h.one
  cases hcount : st.drainer.cycles.countP (emits key) with
  | zero => exact Nat.zero_le _
  | succ n =>
      have hpos : 0 < st.drainer.cycles.countP (emits key) := by omega
      obtain ⟨c, hc, hemits⟩ := List.countP_pos_iff.1 hpos
      unfold emits at hemits
      split at hemits
      · rename_i row _ _ rest hphase
        have hrow : row ∈ c.held := by
          unfold Cycle.held
          rw [hphase]
          exact List.mem_cons_self
        obtain ⟨hfind, hok⟩ := h.current c hc row hrow
        rw [of_decide_eq_true hemits] at hfind
        rw [leftOf_some hfind]
        have hleft := left_pos hfinite hok
        omega
      · cases hemits

theorem leftOf_le (opts : DrainerOptions) (o : SqliteOutbox) (key : Key) :
    (leftOf opts o key : ℕ∞) ≤ opts.maxAttempts := by
  unfold leftOf
  cases o.find? key with
  | none => exact bot_le
  | some r => exact left_le opts r

/-! ## The cycles that begin late -/

/-- The cycle has a row to work on and is not through with any. -/
def unpaid (c : Cycle ε) : Bool := !c.held.isEmpty && c.processed == 0 && c.failed == 0

theorem unpaid_active {c : Cycle ε} (h : unpaid c = true) : c.active = true := by
  cases hactive : c.active with
  | true => rfl
  | false =>
      unfold unpaid at h
      rw [held_of_idle hactive] at h
      cases h

/-- Late enough, a row that may be tried is read. -/
theorem pending_ne_nil {opts : DrainerOptions} {o : SqliteOutbox} {since now : Int}
    (hbatch : 1 ≤ opts.batchSize) (hdelay : ∀ r ∈ o.rows, r.receivedAt + opts.retryDelayMs ≤ since)
    (hnow : since ≤ now) (hnot : ¬ Done opts o) : o.pending opts.pending now ≠ [] := by
  unfold Done at hnot
  push Not at hnot
  obtain ⟨r, hr, hnone, hlt⟩ := hnot
  have heligible : SqliteOutbox.eligible opts.pending now r = true := by
    have hgate := hdelay r hr
    unfold SqliteOutbox.eligible
    split
    · rw [hnone]
      rfl
    · rename_i hmax
      have hlt' : r.attempts < opts.pending.maxAttempts := hlt.resolve_left hmax
      have hcut : r.receivedAt ≤ now - opts.pending.retryDelayMs := by
        show r.receivedAt ≤ now - opts.retryDelayMs
        omega
      simp [hnone, hlt', hcut]
  have hmem : r ∈ (o.rows.filter (SqliteOutbox.eligible opts.pending now)).insertionSort
      fun a b => a.receivedAt ≤ b.receivedAt :=
    (List.mem_insertionSort _).2 (List.mem_filter.2 ⟨hr, heligible⟩)
  have hlength := List.length_pos_of_mem hmem
  intro hnil
  have hzero := congrArg List.length hnil
  unfold SqliteOutbox.pending at hzero
  rw [List.length_take, List.length_nil] at hzero
  have hlimit : opts.pending.limit = opts.batchSize := rfl
  omega

/-- A cycle that begins late is paid for by the first row it is through with. -/
theorem late_step {opts : Options} {st st' : State ε} {a : HistoryAction ε} {since : Int}
    (h : Inv opts.drainer st) (hfinite : opts.drainer.maxAttempts ≠ ⊤)
    (hbatch : 1 ≤ opts.drainer.batchSize)
    (hdelay : ∀ r ∈ st.outbox.rows, r.receivedAt + opts.drainer.retryDelayMs ≤ since)
    (hnot : ¬ Done opts.drainer st.outbox) (hstep : QuietStep opts st a st') :
    (if beginsLate since a then [a] else []).length + budget opts.drainer st'.outbox +
        st.drainer.cycles.countP unpaid ≤
      budget opts.drainer st.outbox + st'.drainer.cycles.countP unpaid := by
  cases hstep with
  | same hcycles hrows _ hlate =>
      have hbudget : budget opts.drainer st'.outbox = budget opts.drainer st.outbox :=
        (hrows.map _).sum_eq
      rw [hlate since, hcycles, hbudget]
      show 0 + _ + _ ≤ _
      omega
  | reads looping now _ hcycles ho _ hlate =>
      rw [hcycles, ho, List.countP_append, List.countP_singleton]
      cases hbegins : beginsLate since a with
      | false =>
          show 0 + _ + _ ≤ _
          omega
      | true =>
          have hrows := pending_ne_nil hbatch hdelay (hlate since hbegins) hnot
          have hunpaid : unpaid
              (Cycle.begin opts.drainer st.outbox looping now none : Cycle ε) = true := by
            show (!(st.outbox.pending opts.drainer.pending now).isEmpty && _ && _) = true
            rw [List.isEmpty_eq_false_iff.2 hrows]
            rfl
          rw [hunpaid]
          show 1 + _ + _ ≤ _ + (_ + 1)
          omega
  | turn i reply c r hc hadvance hstatement hcycles ho _ hlate =>
      have hcount := PollLoop.countP_set_add r.2.2 unpaid hc
      rw [hlate since, hcycles, ho]
      show 0 + _ + _ ≤ _
      rcases h.turn hfinite hc hadvance hstatement with
        ⟨hheld, hsame, -, -⟩ | ⟨row, rest, hheld, hturn⟩
      · have hpaid : (unpaid c).toNat = 0 := by
          unfold unpaid
          rw [hheld]
          rfl
        rw [hsame]
        omega
      · rcases hturn with ⟨event, todo, hgo, hsame⟩ | ⟨ok, hgo, hworked⟩
        · have hpaid : unpaid r.2.2 = unpaid c := by
            unfold unpaid
            rw [hgo, hheld]
            rfl
          rw [hpaid] at hcount
          rw [hsame]
          omega
        · have hless := hworked.budget
          have hle : (unpaid c).toNat ≤ 1 := Bool.toNat_le _
          omega

/-- The rows stay as old as they are. -/
theorem received_step {opts : Options} {st st' : State ε} {a : HistoryAction ε}
    (h : Inv opts.drainer st) (hfinite : opts.drainer.maxAttempts ≠ ⊤)
    (hstep : QuietStep opts st a st') :
    ∀ r' ∈ st'.outbox.rows, ∃ r ∈ st.outbox.rows, r'.receivedAt = r.receivedAt := by
  intro r' hr'
  cases hstep with
  | same _ hrows _ _ => exact ⟨r', hrows.mem_iff.1 hr', rfl⟩
  | reads _ _ _ _ ho _ _ => exact ⟨r', ho ▸ hr', rfl⟩
  | turn i reply c r hc hadvance hstatement _ ho _ _ =>
      rw [ho] at hr'
      rcases h.turn hfinite hc hadvance hstatement with
        ⟨-, hsame, -, -⟩ | ⟨row, rest, -, ⟨-, -, -, hsame⟩ | ⟨-, -, hworked⟩⟩
      · exact ⟨r', hsame ▸ hr', rfl⟩
      · exact ⟨r', hsame ▸ hr', rfl⟩
      · exact hworked.received r' hr'

/-- What is processed or parked stays so. -/
theorem done_step {opts : Options} {st st' : State ε} {a : HistoryAction ε}
    (h : Inv opts.drainer st) (hfinite : opts.drainer.maxAttempts ≠ ⊤)
    (hstep : QuietStep opts st a st') (hdone : Done opts.drainer st.outbox) :
    Done opts.drainer st'.outbox := by
  cases hstep with
  | same _ hrows _ _ => exact fun r hr => hdone r (hrows.mem_iff.1 hr)
  | reads _ _ _ _ ho _ _ => exact ho ▸ hdone
  | turn i reply c r hc hadvance hstatement _ ho _ _ =>
      rcases h.turn hfinite hc hadvance hstatement with
        ⟨-, hsame, -, -⟩ | ⟨row, rest, hheld, -⟩
      · rw [ho, hsame]
        exact hdone
      · -- a cycle that holds a row knows one that may be tried
        obtain ⟨hrow, hok⟩ := h.current c (List.mem_of_getElem? hc) row
          (hheld.symm ▸ List.mem_cons_self)
        exact absurd hok (hdone row (SqliteOutbox.find?_eq_some.1 hrow).1)

theorem budget_pos {opts : DrainerOptions} {o : SqliteOutbox} (hfinite : opts.maxAttempts ≠ ⊤)
    (h : ¬ Done opts o) : 1 ≤ budget opts o := by
  unfold Done at h
  push Not at h
  obtain ⟨r, hr, hok⟩ := h
  have hleft := left_pos hfinite hok
  have hle : left opts r ≤ budget opts o :=
    List.single_le_sum (fun _ _ => Nat.zero_le _) _ (List.mem_map_of_mem hr)
  omega

/-! ## Runs -/

/-- A row that may not be tried any more is not taken up. -/
theorem starts_eligible {opts : Options} {st st' : State ε} {a : HistoryAction ε}
    (h : Inv opts.drainer st) (hstep : QuietStep opts st a st') :
    ∀ row ∈ starts st a, ∃ r, st.outbox.find? row.key = some r ∧ Eligible opts.drainer r := by
  intro row hrow
  cases hstep with
  | same _ _ hstarts _ =>
      rw [hstarts] at hrow
      cases hrow
  | reads _ _ _ _ _ hstarts _ =>
      rw [hstarts] at hrow
      cases hrow
  | turn i reply c r hc _ _ _ _ hstarts _ =>
      rw [hstarts] at hrow
      have hheld : row ∈ c.held := by
        unfold Cycle.takesUp at hrow
        unfold Cycle.held
        split at hrow
        · rename_i hphase
          rw [hphase]
          cases hrow
          exact List.mem_cons_self
        · cases hrow
      obtain ⟨hfind, hok⟩ := h.current c (List.mem_of_getElem? hc) row hheld
      exact ⟨row, hfind, hok⟩

/-- A row is attempted at most `maxAttempts` times and never once it is processed or parked,
and all rows are after as many cycles as there are attempts left, counted from the time at
which no delay hides a row. -/
theorem drainer_finishes (backend : Backend) (opts : Options)
    (hfinite : opts.drainer.maxAttempts ≠ ⊤) (hbatch : 1 ≤ opts.drainer.batchSize)
    (o : SqliteOutbox) (acts : List (HistoryAction ε)) (st : State ε)
    (hrun : exec (historyStep backend opts) { outbox := o } acts = some st)
    (hquiet : Along (historyStep backend opts) (fun st a _ => Quiet st a) { outbox := o } acts) :
    (∀ key, ((attempts backend opts { outbox := o } acts key).length : ℕ∞) ≤
      opts.drainer.maxAttempts) ∧
    Along (historyStep backend opts) (fun st a _ => ∀ row ∈ starts st a,
      ∃ r, st.outbox.find? row.key = some r ∧ Eligible opts.drainer r) { outbox := o } acts ∧
    ∀ since, (∀ r ∈ o.rows, r.receivedAt + opts.drainer.retryDelayMs ≤ since) →
      budget opts.drainer o < (lateCycles backend opts { outbox := o } acts since).length →
      Done opts.drainer st.outbox := by
  have hinit := inv_init (ε := ε) opts.drainer o
  refine ⟨fun key => ?_, ?_, fun since hsince hlate => ?_⟩
  · obtain ⟨hinv, hpaid⟩ : Inv opts.drainer st ∧
        (attempts backend opts { outbox := o } acts key).length +
          leftOf opts.drainer st.outbox key + ([] : List (Cycle ε)).countP (emits key) ≤
        leftOf opts.drainer o key + st.drainer.cycles.countP (emits key) := by
      apply gains_length_le (Inv opts.drainer) (fun st => leftOf opts.drainer st.outbox key)
        (fun st => st.drainer.cycles.countP (emits key)) key ?_ hquiet hinit hrun
      intro st a st' h hstep hok
      obtain ⟨hcase, hgoing⟩ := quiet_cases h.going hstep hok
      exact ⟨h.step hfinite hgoing hcase, attempts_step h hfinite hcase key⟩
    have howed := hinv.emits_le hfinite key
    have hlength : (attempts backend opts { outbox := o } acts key).length ≤
        leftOf opts.drainer o key := by omega
    calc ((attempts backend opts { outbox := o } acts key).length : ℕ∞)
        ≤ (leftOf opts.drainer o key : ℕ∞) := by exact_mod_cast hlength
      _ ≤ opts.drainer.maxAttempts := leftOf_le opts.drainer o key
  · apply along_of_inv (Inv opts.drainer) (fun st a st' h hstep hok => ?_) acts _ hinit hquiet
    obtain ⟨hcase, hgoing⟩ := quiet_cases h.going hstep hok
    exact ⟨starts_eligible h hcase, h.step hfinite hgoing hcase⟩
  · by_contra hnot
    obtain ⟨hnever, -⟩ := Along.never (Inv opts.drainer)
      (fun st => Done opts.drainer st.outbox)
      (fun st a st' h hstep hok => by
        obtain ⟨hcase, hgoing⟩ := quiet_cases h.going hstep hok
        exact ⟨h.step hfinite hgoing hcase, done_step h hfinite hcase⟩)
      hquiet hinit hrun hnot
    obtain ⟨⟨hinv, -⟩, hpaid⟩ : (Inv opts.drainer st ∧
          ∀ r ∈ st.outbox.rows, r.receivedAt + opts.drainer.retryDelayMs ≤ since) ∧
        (lateCycles backend opts { outbox := o } acts since).length +
          budget opts.drainer st.outbox + ([] : List (Cycle ε)).countP unpaid ≤
        budget opts.drainer o + st.drainer.cycles.countP unpaid := by
      apply gains_length_le (fun st : State ε => Inv opts.drainer st ∧
          ∀ r ∈ st.outbox.rows, r.receivedAt + opts.drainer.retryDelayMs ≤ since)
        (fun st => budget opts.drainer st.outbox) (fun st => st.drainer.cycles.countP unpaid)
        since ?_ hnever ⟨hinit, hsince⟩ hrun
      intro st a st' h hstep hok
      obtain ⟨hcase, hgoing⟩ := quiet_cases h.1.going hstep hok.1
      refine ⟨⟨h.1.step hfinite hgoing hcase, fun r' hr' => ?_⟩,
        late_step h.1 hfinite hbatch h.2 hok.2 hcase⟩
      obtain ⟨r, hr, heq⟩ := received_step h.1 hfinite hcase r' hr'
      rw [heq]
      exact h.2 r hr
    have hone : st.drainer.cycles.countP unpaid ≤ 1 :=
      (List.countP_mono_left fun _ _ hunpaid => unpaid_active hunpaid).trans hinv.one
    have hleft := budget_pos hfinite hnot
    omega

/-! ## A row that always fails beside one without a driver -/

section Stuck

def twice : Options where
  receiver :=
    { driver :=
        { source := "helius"
          verifyRequest := fun _ => none
          parseRawPayload := fun _ => .ok [] } }
  drainer :=
    { drivers := fun source => source = "helius", jsonError := fun _ => none, maxAttempts := 2 }

def stuck : SqliteOutbox where
  rows :=
    [{ id := "sig-1", source := "helius", receivedAt := 0, rawPayload := "\x7b\x7d" },
      { id := "sig-2", source := "shyft", receivedAt := 5, rawPayload := "\x7b\x7d" }]

/-- Two cycles with something to do and three without. -/
def fiveCycles : List (HistoryAction String) :=
  [.act .start, .act (.timer 0 1005 none),
    .act (.advance 0 { now := 1005, normalized := .error "boom" }),
    .act (.advance 0 { now := 1006 }), .act (.advance 0 { now := 1006 }),
    .act (.timer 0 1006 none),
    .act (.advance 1 { now := 1006, normalized := .error "boom" }),
    .act (.advance 1 { now := 1007 }),
    .act (.timer 0 1007 none), .act (.advance 2 { now := 1007 }),
    .act (.timer 0 1257 none), .act (.advance 3 { now := 1257 }),
    .act (.timer 0 1507 none)]

instance decidableQuiet (st : State ε) (a : HistoryAction ε) : Decidable (Quiet st a) :=
  match a with
  | .act (.timer _ _ statement) =>
      inferInstanceAs (Decidable (statement = none ∧
        ∀ c ∈ st.drainer.cycles, c.active = true → c.looping = true))
  | .act (.drainOnce _ statement) =>
      inferInstanceAs (Decidable (statement = none ∧
        ∀ c ∈ st.drainer.cycles, c.active = false))
  | .act (.advance _ reply) => inferInstanceAs (Decidable (reply.statement = none))
  | .act .start | .reorder _ => inferInstanceAs (Decidable True)
  | .act (.request ..) | .act (.insert ..) | .act .stop | .act (.stopped _) | .restart =>
      inferInstanceAs (Decidable False)

theorem drainer_finishes_stuck :
    ∃ st, exec (historyStep .sqlite twice) { outbox := stuck } fiveCycles = some st ∧
      Done twice.drainer st.outbox := by
  have hruns : (exec (historyStep .sqlite twice) { outbox := stuck } fiveCycles).isSome := by
    decide +kernel
  obtain ⟨st, hrun⟩ := Option.isSome_iff_exists.1 hruns
  refine ⟨st, hrun, ?_⟩
  exact (drainer_finishes .sqlite twice (by decide) (by decide) stuck fiveCycles st hrun
    (by decide +kernel)).2.2 1005 (by decide) (by decide +kernel)

end Stuck

end Ap3xSolana.Webhooks.Finishes
