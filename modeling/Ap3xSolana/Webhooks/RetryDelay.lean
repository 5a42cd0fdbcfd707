import Mathlib.Logic.Function.Basic
import Ap3xSolana.Lib.Run
import Ap3xSolana.Webhooks.History
import Ap3xSolana.Webhooks.PollLoop

/-!
# A failed row waits

The columns of a row say how often it has failed and when it was received, and not when it
failed last.  `pending` measures the delay from `received_at`, so a row that fails later than
it came is read again at once; it waits only where nothing can tell the two times apart
(`failed_row_waits`).
-/

namespace Ap3xSolana.Webhooks.RetryDelay

open Ap3xSolana.Lib.Run

variable {ε : Type}

/-! ## The property -/

/-- A history, with the clock and the time at which each row has failed last. -/
structure Timed (ε : Type) where
  state : State ε := {}
  clock : Int := 0
  failedAt : Key → Option Int := fun _ => none

def timeOf : HistoryAction ε → Option Int
  | .act (.request _ now) => some now
  | .act (.timer _ now _) => some now
  | .act (.drainOnce now _) => some now
  | .act (.advance _ reply) => some reply.now
  | _ => none

def Timed.now (h : Timed ε) (a : HistoryAction ε) : Int := (timeOf a).getD h.clock

def failed : Next ε → Bool
  | .done ok => !ok
  | .emitting _ _ => false
  | .threw _ => true

/-- The row whose attempt fails. -/
def fails (opts : DrainerOptions) (st : State ε) : HistoryAction ε → Option Key
  | .act (.advance i reply) =>
      (st.drainer.cycles[i]?.bind (·.tries opts st.outbox st.drainer.stopRequested reply)).bind
        fun x => if failed x.2 then some x.1.key else none
  | _ => none

/-- Time does not go back. -/
def timedStep (backend : Backend) (opts : Options) (h : Timed ε) (a : HistoryAction ε) :
    Option (Timed ε) :=
  if h.now a < h.clock then none
  else
    (historyStep backend opts h.state a).map fun st =>
      { state := st
        clock := h.now a
        failedAt :=
          match fails opts.drainer h.state a with
          | some key => Function.update h.failedAt key (some (h.now a))
          | none => h.failedAt }

/-- No attempt starts within `retryDelayMs` of the row's last failure. -/
def Waits (opts : DrainerOptions) (h : Timed ε) (a : HistoryAction ε) : Prop :=
  ∀ row ∈ starts h.state a, ∀ t ∈ h.failedAt row.key, t + opts.retryDelayMs ≤ h.now a

/-! ## The condition -/

/-- The row may be tried again, and `received_at` has let it through. -/
def Retryable (opts : DrainerOptions) (now : Int) (r : OutboxRow) : Prop :=
  r.processedAt = none ∧ 0 < r.attempts ∧ r.attempts < opts.maxAttempts ∧
    r.receivedAt + opts.retryDelayMs ≤ now

/-- The rows that `received_at` lets through have not failed lately, and no cycle in flight
holds a row that is read again. -/
def Reads (opts : DrainerOptions) (h : Timed ε) (now : Int) : Prop :=
  (∀ r ∈ h.state.outbox.rows, Retryable opts now r → ∀ t ∈ h.failedAt r.key,
    t + opts.retryDelayMs ≤ now) ∧
  ∀ r ∈ h.state.outbox.pending opts.pending now, ∀ c ∈ h.state.drainer.cycles,
    ∀ r' ∈ c.held, r'.key ≠ r.key

def Gated (opts : DrainerOptions) (h : Timed ε) (a : HistoryAction ε) : Prop :=
  match a with
  | .act (.timer _ now none) => h.state.drainer.stopRequested = true ∨ Reads opts h now
  | .act (.drainOnce now none) => Reads opts h now
  | .act (.advance _ reply) => reply.statement = none
  | _ => True

/-! ## The outbox along a history -/

/-- Rows stay, and a row that has failed stays one that has. -/
def Keeps (o o' : SqliteOutbox) : Prop :=
  ∀ key r, o.find? key = some r →
    ∃ r', o'.find? key = some r' ∧ (r.attempts ≠ 0 → r'.attempts ≠ 0)

theorem keeps_refl (o : SqliteOutbox) : Keeps o o := fun _ r hr => ⟨r, hr, id⟩

theorem keeps_of_grown {o o' : SqliteOutbox} (h : Grown o o') : Keeps o o' :=
  fun key r hr => ⟨r, h.old key r hr, id⟩

theorem keeps_reorder {o o' : SqliteOutbox} {rows : List OutboxRow}
    (h : o.reorder rows = some o') : Keeps o o' := by
  unfold SqliteOutbox.reorder at h
  split at h
  · rename_i hperm
    cases h
    intro key r hr
    obtain ⟨hmem, hkey⟩ := SqliteOutbox.find?_eq_some.1 hr
    exact ⟨r, SqliteOutbox.find?_eq_some.2 ⟨hperm.mem_iff.2 hmem, hkey⟩, id⟩
  · cases h

theorem keeps_update (o : SqliteOutbox) (key : Key) (processedAt : OutboxRow → Option Int)
    (error : Option String) (attempts : OutboxRow → ℕ∞)
    (hattempts : ∀ r, r.attempts ≠ 0 → attempts r ≠ 0) :
    Keeps o (o.update key processedAt error attempts) := by
  intro k r hr
  rw [SqliteOutbox.find?_update, hr, Option.map_some]
  by_cases hkey : k = key
  · refine ⟨_, rfl, fun hne => ?_⟩
    rw [if_pos hkey]
    exact hattempts r hne
  · refine ⟨_, rfl, fun hne => ?_⟩
    rwa [if_neg hkey]

theorem insertNext_grown (opts : ReceiverOptions) (o : SqliteOutbox) (keys : List Key)
    (event : ParsedEvent) (todo : List ParsedEvent) (receivedAt : Int)
    (inserted duplicates : Nat) (statement : Option String) :
    Grown o (insertNext opts o keys event todo receivedAt inserted duplicates statement).1 := by
  unfold insertNext
  split
  · exact grown_refl o
  · exact grown_refl o
  · exact grown_insert o _

theorem insertStep_keeps {opts : Options} {st st' : State ε} {i : Nat}
    {statement : Option String} (h : insertStep opts st i statement = some st') :
    Keeps st.outbox st'.outbox ∧ st'.drainer = st.drainer := by
  unfold insertStep at h
  split at h
  · cases h
    exact ⟨keeps_of_grown (insertNext_grown ..), rfl⟩
  · cases h

/-! ## The invariant -/

structure Inv (opts : DrainerOptions) (h : Timed ε) : Prop where
  /-- A failure shows in the attempts. -/
  recorded : ∀ key t, h.failedAt key = some t →
    ∃ r, h.state.outbox.find? key = some r ∧ r.attempts ≠ 0
  waited : ∀ c ∈ h.state.drainer.cycles, ∀ r ∈ c.ahead, ∀ t, h.failedAt r.key = some t →
    t + opts.retryDelayMs ≤ h.clock
  stored : ∀ c ∈ h.state.drainer.cycles, ∀ r ∈ c.held,
    (∃ r', h.state.outbox.find? r.key = some r') ∧ opts.maxAttempts ≠ 0
  distinct : ∀ c ∈ h.state.drainer.cycles, (c.held.map (·.key)).Nodup
  apart : ∀ (i j : Nat) (c c' : Cycle ε), i ≠ j → h.state.drainer.cycles[i]? = some c →
    h.state.drainer.cycles[j]? = some c' → ∀ r ∈ c.held, ∀ r' ∈ c'.held, r.key ≠ r'.key

theorem inv_init (opts : DrainerOptions) : Inv opts ({} : Timed ε) where
  recorded _ _ h := by cases h
  waited _ h := by cases h
  stored _ h := by cases h
  distinct _ h := by cases h
  apart _ _ _ _ _ h := by cases h

/-- The cycles and the failures stay as they are. -/
theorem Inv.keep {opts : DrainerOptions} {h : Timed ε} (hinv : Inv opts h) {st : State ε}
    {clock : Int} (hkeeps : Keeps h.state.outbox st.outbox)
    (hcycles : st.drainer.cycles = h.state.drainer.cycles) (hclock : h.clock ≤ clock) :
    Inv opts { state := st, clock := clock, failedAt := h.failedAt } where
  recorded key t ht := by
    obtain ⟨r, hr, hne⟩ := hinv.recorded key t ht
    obtain ⟨r', hr', hne'⟩ := hkeeps key r hr
    exact ⟨r', hr', hne' hne⟩
  waited c hc r hr t ht :=
    (hinv.waited c (hcycles ▸ hc) r hr t ht).trans hclock
  stored c hc r hr := by
    obtain ⟨⟨r₁, hr₁⟩, hmax⟩ := hinv.stored c (hcycles ▸ hc) r hr
    obtain ⟨r₂, hr₂, -⟩ := hkeeps r.key r₁ hr₁
    exact ⟨⟨r₂, hr₂⟩, hmax⟩
  distinct c hc := hinv.distinct c (hcycles ▸ hc)
  apart i j c c' hne hc hc' := hinv.apart i j c c' hne (hcycles ▸ hc) (hcycles ▸ hc')

/-! ## A batch is read -/

theorem begin_held (opts : DrainerOptions) (o : SqliteOutbox) (looping : Bool) (now : Int)
    (statement : Option String) :
    (Cycle.begin opts o looping now statement : Cycle ε).held =
        (Cycle.begin opts o looping now statement : Cycle ε).ahead ∧
      (Cycle.begin opts o looping now statement : Cycle ε).held =
        match statement with
        | some _ => []
        | none => o.pending opts.pending now := by
  unfold Cycle.begin
  cases statement with
  | some message => exact ⟨rfl, rfl⟩
  | none => exact ⟨rfl, rfl⟩

/-- What a row that is read has behind it. -/
theorem Inv.read {opts : DrainerOptions} {h : Timed ε} (hinv : Inv opts h) {now : Int}
    (hfinite : opts.maxAttempts ≠ ⊤) (hreads : Reads opts h now) {r : OutboxRow}
    (hr : r ∈ h.state.outbox.pending opts.pending now) :
    opts.maxAttempts ≠ 0 ∧
      ∀ t, h.failedAt r.key = some t → t + opts.retryDelayMs ≤ now := by
  obtain ⟨hrow, hok⟩ := SqliteOutbox.mem_pending hr
  unfold SqliteOutbox.eligible at hok
  rw [if_neg (show opts.pending.maxAttempts ≠ ⊤ from hfinite)] at hok
  simp only [Bool.and_eq_true, Bool.or_eq_true, Option.isNone_iff_eq_none,
    decide_eq_true_eq] at hok
  obtain ⟨⟨hnone, hlt⟩, hgate⟩ := hok
  refine ⟨fun hzero => ?_, fun t ht => ?_⟩
  · have hlt' : r.attempts < opts.maxAttempts := hlt
    rw [hzero] at hlt'
    exact absurd hlt' not_lt_zero
  · obtain ⟨r', hr', hne⟩ := hinv.recorded r.key t ht
    cases hrow.symm.trans hr'
    have hgate' : r.receivedAt ≤ now - opts.retryDelayMs := hgate.resolve_left hne
    have hmem := (SqliteOutbox.find?_eq_some.1 hrow).1
    exact hreads.1 r hmem ⟨hnone, pos_iff_ne_zero.2 hne, hlt, by omega⟩ t ht

theorem Inv.begin {opts : Options} {h : Timed ε} (hinv : Inv opts.drainer h) {now : Int}
    (hfinite : opts.drainer.maxAttempts ≠ ⊤) {statement : Option String}
    (hreads : statement = none → Reads opts.drainer h now) (hclock : h.clock ≤ now)
    {st : State ε} (hst : st.drainer.cycles = h.state.drainer.cycles)
    (ho : st.outbox = h.state.outbox) (looping : Bool) :
    Inv opts.drainer
      { state := beginCycle opts st looping now statement, clock := now,
        failedAt := h.failedAt } := by
  have hcycles : (beginCycle opts st looping now statement).drainer.cycles =
      h.state.drainer.cycles ++
        [Cycle.begin opts.drainer h.state.outbox looping now statement] := by
    unfold beginCycle
    rw [beginCycle_cycles, hst, ho]
  obtain ⟨hahead, hheld⟩ := begin_held (ε := ε) opts.drainer h.state.outbox looping now statement
  -- what the new cycle holds is what it has read
  have hread : ∀ r ∈ (Cycle.begin opts.drainer h.state.outbox looping now statement :
      Cycle ε).held, statement = none ∧
        r ∈ h.state.outbox.pending opts.drainer.pending now := by
    intro r hr
    rw [hheld] at hr
    cases statement with
    | some message => cases hr
    | none => exact ⟨rfl, hr⟩
  have hlater : ∀ i (c : Cycle ε),
      (h.state.drainer.cycles ++
        [Cycle.begin opts.drainer h.state.outbox looping now statement])[i]? = some c →
      h.state.drainer.cycles[i]? = some c ∨ i = h.state.drainer.cycles.length ∧
        c = Cycle.begin opts.drainer h.state.outbox looping now statement := by
    intro i c hc
    rw [List.getElem?_append] at hc
    split at hc
    · exact .inl hc
    · rename_i hi
      rw [List.getElem?_singleton] at hc
      split at hc
      · rename_i hzero
        exact .inr ⟨by omega, by cases hc; rfl⟩
      · cases hc
  exact
    { recorded := fun key t ht => by
        show ∃ r, st.outbox.find? key = some r ∧ _
        rw [ho]
        exact hinv.recorded key t ht
      waited := by
        intro c hc r hr t ht
        rw [hcycles, List.mem_append, List.mem_singleton] at hc
        rcases hc with hold | rfl
        · exact (hinv.waited c hold r hr t ht).trans hclock
        · rw [← hahead] at hr
          obtain ⟨hnone, hmem⟩ := hread r hr
          exact (hinv.read hfinite (hreads hnone) hmem).2 t ht
      stored := by
        intro c hc r hr
        show (∃ r', st.outbox.find? r.key = some r') ∧ _
        rw [ho]
        rw [hcycles, List.mem_append, List.mem_singleton] at hc
        rcases hc with hold | rfl
        · exact hinv.stored c hold r hr
        · obtain ⟨hnone, hmem⟩ := hread r hr
          exact ⟨⟨r, (SqliteOutbox.mem_pending hmem).1⟩,
            (hinv.read hfinite (hreads hnone) hmem).1⟩
      distinct := by
        intro c hc
        rw [hcycles, List.mem_append, List.mem_singleton] at hc
        rcases hc with hold | rfl
        · exact hinv.distinct c hold
        · rw [hheld]
          cases statement with
          | some message => exact List.nodup_nil
          | none => exact SqliteOutbox.nodup_pending _ _ _
      apart := by
        intro i j c c' hne hc hc' r hr r' hr'
        rw [hcycles] at hc hc'
        rcases hlater i c hc with hold | ⟨hi, rfl⟩
        · rcases hlater j c' hc' with hold' | ⟨-, rfl⟩
          · exact hinv.apart i j c c' hne hold hold' r hr r' hr'
          · obtain ⟨hnone, hmem⟩ := hread r' hr'
            exact (hreads hnone).2 r' hmem c (List.mem_of_getElem? hold) r hr
        · rcases hlater j c' hc' with hold' | ⟨hj, -⟩
          · obtain ⟨hnone, hmem⟩ := hread r hr
            exact ((hreads hnone).2 r hmem c' (List.mem_of_getElem? hold') r' hr').symm
          · omega }

/-! ## A turn is taken -/

/-- The cycle that takes its turn is the only one that changes. -/
theorem Inv.turn {opts : DrainerOptions} {h : Timed ε} (hinv : Inv opts h) {i : Nat}
    {c c' : Cycle ε} (hc : h.state.drainer.cycles[i]? = some c) {st : State ε}
    (hst : st.drainer.cycles = h.state.drainer.cycles.set i c')
    (hkeeps : Keeps h.state.outbox st.outbox) (hheld : c'.held.Sublist c.held)
    (hahead : c'.ahead ⊆ c.ahead) {clock : Int} (hclock : h.clock ≤ clock)
    {failedAt : Key → Option Int}
    (hfailed : ∀ key t, failedAt key = some t → h.failedAt key = some t ∨
      (∃ r ∈ c.held, r.key = key ∧ ∀ r' ∈ c'.ahead, r'.key ≠ key) ∧
        ∃ r, st.outbox.find? key = some r ∧ r.attempts ≠ 0) :
    Inv opts { state := st, clock := clock, failedAt := failedAt } := by
  have hi : i < h.state.drainer.cycles.length := (List.getElem?_eq_some_iff.1 hc).1
  have hmem := List.mem_of_getElem? hc
  have hget : ∀ j (d : Cycle ε), (h.state.drainer.cycles.set i c')[j]? = some d →
      j ≠ i ∧ h.state.drainer.cycles[j]? = some d ∨ j = i ∧ d = c' := by
    intro j d hd
    by_cases hji : j = i
    · subst hji
      rw [List.getElem?_set_self hi] at hd
      cases hd
      exact .inr ⟨rfl, rfl⟩
    · rw [List.getElem?_set_ne (Ne.symm hji)] at hd
      exact .inl ⟨hji, hd⟩
  exact
    { recorded := by
        intro key t ht
        rcases hfailed key t ht with hold | ⟨-, hnew⟩
        · obtain ⟨r, hr, hne⟩ := hinv.recorded key t hold
          obtain ⟨r', hr', hne'⟩ := hkeeps key r hr
          exact ⟨r', hr', hne' hne⟩
        · exact hnew
      waited := by
        intro d hd r hr t ht
        rw [hst] at hd
        obtain ⟨j, hj⟩ := List.mem_iff_getElem?.1 hd
        rcases hget j d hj with ⟨hji, hold⟩ | ⟨-, rfl⟩
        · rcases hfailed r.key t ht with hsame | ⟨⟨r₁, hr₁, hkey, -⟩, -⟩
          · exact (hinv.waited d (List.mem_of_getElem? hold) r hr t hsame).trans hclock
          · exact absurd hkey.symm
              (hinv.apart j i d c hji hold hc r (d.ahead_subset hr) r₁ hr₁)
        · rcases hfailed r.key t ht with hsame | ⟨⟨r₁, -, -, hnot⟩, -⟩
          · exact (hinv.waited c hmem r (hahead hr) t hsame).trans hclock
          · exact absurd rfl (hnot r hr)
      stored := by
        intro d hd r hr
        rw [hst] at hd
        have hfound : ∀ d₀ ∈ h.state.drainer.cycles, r ∈ d₀.held →
            (∃ r', st.outbox.find? r.key = some r') ∧ opts.maxAttempts ≠ 0 := by
          intro d₀ hd₀ hr₀
          obtain ⟨⟨r₁, hr₁⟩, hmax⟩ := hinv.stored d₀ hd₀ r hr₀
          obtain ⟨r₂, hr₂, -⟩ := hkeeps r.key r₁ hr₁
          exact ⟨⟨r₂, hr₂⟩, hmax⟩
        rcases List.mem_or_eq_of_mem_set hd with hold | rfl
        · exact hfound d hold hr
        · exact hfound c hmem (hheld.subset hr)
      distinct := by
        intro d hd
        rw [hst] at hd
        rcases List.mem_or_eq_of_mem_set hd with hold | rfl
        · exact hinv.distinct d hold
        · exact (hinv.distinct c hmem).sublist (hheld.map _)
      apart := by
        intro j k d d' hne hd hd' r hr r' hr'
        rw [hst] at hd hd'
        rcases hget j d hd with ⟨hji, hold⟩ | ⟨rfl, rfl⟩
        · rcases hget k d' hd' with ⟨-, hold'⟩ | ⟨rfl, rfl⟩
          · exact hinv.apart j k d d' hne hold hold' r hr r' hr'
          · exact hinv.apart j k d c hne hold hc r hr r' (hheld.subset hr')
        · rcases hget k d' hd' with ⟨-, hold'⟩ | ⟨rfl, rfl⟩
          · exact hinv.apart j k c d' hne hc hold' r (hheld.subset hr) r' hr'
          · exact absurd rfl hne }

theorem tried_keeps {opts : DrainerOptions} {o o' : SqliteOutbox} {row : OutboxRow}
    {next : Next ε} (h : Tried opts o row o' next) (hmax : opts.maxAttempts ≠ 0) :
    Keeps o o' := by
  cases next with
  | emitting event todo => exact h.same event todo rfl ▸ keeps_refl o
  | threw message => exact h.threw message rfl ▸ keeps_refl o
  | done ok =>
      cases ok with
      | true =>
          obtain ⟨_, rfl⟩ := h.processed rfl
          exact keeps_update o _ _ _ _ fun _ hne => hne
      | false =>
          obtain ⟨_, attempts, rfl, hattempts⟩ := h.failed rfl
          apply keeps_update o
          intro _ _
          rcases hattempts with rfl | rfl
          · exact hmax
          · exact (by simp : row.attempts + 1 ≠ 0)

/-- A failure that is recorded shows in the attempts. -/
theorem tried_recorded {opts : DrainerOptions} {o o' : SqliteOutbox} {row : OutboxRow}
    (h : Tried opts o row o' (.done false : Next ε)) (hmax : opts.maxAttempts ≠ 0)
    (hrow : ∃ r, o.find? row.key = some r) :
    ∃ r, o'.find? row.key = some r ∧ r.attempts ≠ 0 := by
  obtain ⟨r, hr⟩ := hrow
  obtain ⟨error, attempts, rfl, hattempts⟩ := h.failed rfl
  rw [SqliteOutbox.find?_update, hr, Option.map_some, if_pos rfl]
  refine ⟨_, rfl, ?_⟩
  show attempts ≠ 0
  rcases hattempts with rfl | rfl
  · exact hmax
  · simp

/-- What one turn does to the failures. -/
theorem Inv.advance {opts : Options} {h : Timed ε} (hinv : Inv opts.drainer h) {i : Nat}
    {reply : Reply ε} {st : State ε} (hst : advanceStep opts h.state i reply = some st)
    (hstatement : reply.statement = none) (hclock : h.clock ≤ reply.now) :
    Waits opts.drainer h (.act (.advance i reply)) ∧
      Inv opts.drainer
        { state := st
          clock := reply.now
          failedAt :=
            match fails opts.drainer h.state (.act (.advance i reply)) with
            | some key => Function.update h.failedAt key (some reply.now)
            | none => h.failedAt } := by
  unfold advanceStep at hst
  split at hst
  · cases hst
  rename_i c hc
  have hmem := List.mem_of_getElem? hc
  obtain ⟨⟨o', entries, c'⟩, hadvance, rfl⟩ := Option.map_eq_some_iff.1 hst
  have hstarts : starts h.state (.act (.advance i reply)) =
      c.takesUp h.state.drainer.stopRequested := by
    show h.state.drainer.cycles[i]?.bind _ = _
    rw [hc]
    rfl
  have hfails : fails opts.drainer h.state (.act (.advance i reply)) =
      (c.tries opts.drainer h.state.outbox h.state.drainer.stopRequested reply).bind
        fun x => if failed x.2 then some x.1.key else none := by
    show (h.state.drainer.cycles[i]?.bind _).bind _ = _
    rw [hc]
    rfl
  unfold Waits
  rw [hstarts, hfails]
  rcases Cycle.advance_cases hadvance with
    ⟨htries, htakes, -, hr⟩ | ⟨row, rest, next, htries, hheld, -, hahead, hc', htried, hgoes⟩
  · cases hr
    rw [htries, htakes]
    refine ⟨nofun, ?_⟩
    have hnone : c.finish.held.Sublist c.held := List.nil_sublist _
    apply hinv.turn hc ?_ ?_ hnone (List.nil_subset _) hclock fun _ _ ht => .inl ht
    · exact putCycle_cycles ..
    · exact keeps_refl _
  · dsimp only at hc'
    subst hc'
    have hrow : row ∈ c.held := by
      rw [hheld]
      exact List.mem_cons_self
    obtain ⟨hfound, hmax⟩ := hinv.stored c hmem row hrow
    obtain ⟨r₀, hr₀⟩ := hfound
    have hnot := hgoes hstatement (mem_keys_of_find? hr₀)
    have hdistinct : ∀ r ∈ rest, r.key ≠ row.key := by
      have hnodup := hinv.distinct c hmem
      rw [hheld, List.map_cons, List.nodup_cons] at hnodup
      exact fun r hr hkey => hnodup.1 (hkey ▸ List.mem_map_of_mem hr)
    have hrest : rest ⊆ c.ahead := by
      rcases hahead with ⟨-, hall⟩ | ⟨-, hsame⟩
      · rw [hall, hheld]
        exact List.subset_cons_self row rest
      · exact hsame ▸ fun _ hr => hr
    rw [htries]
    constructor
    · intro r hr t ht
      rcases hahead with ⟨htakes, hall⟩ | ⟨htakes, -⟩
      · rw [htakes] at hr
        cases hr
        have hwaited := hinv.waited c hmem row (hall.symm ▸ hrow) t ht
        exact hwaited.trans hclock
      · rw [htakes] at hr
        cases hr
    · apply hinv.turn hc (putCycle_cycles ..) (tried_keeps htried hmax)
        (hheld.symm ▸ Cycle.held_go next) (fun _ hr => hrest (Cycle.ahead_go next hr)) hclock
      intro key t ht
      cases next with
      | emitting event todo => exact .inl ht
      | threw message => exact absurd rfl (hnot message)
      | done ok =>
          cases ok with
          | true => exact .inl ht
          | false =>
              by_cases hkey : key = row.key
              · subst hkey
                refine .inr ⟨⟨row, hrow, rfl, ?_⟩, tried_recorded htried hmax ⟨r₀, hr₀⟩⟩
                exact fun r hr => hdistinct r (Cycle.ahead_go _ hr)
              · have hother : Function.update h.failedAt row.key (some reply.now) key =
                    h.failedAt key := Function.update_of_ne hkey _ _
                exact .inl (hother.symm.trans ht)

/-! ## Runs -/

theorem waits_step {backend : Backend} {opts : Options}
    (hfinite : opts.drainer.maxAttempts ≠ ⊤) {h h' : Timed ε} {a : HistoryAction ε}
    (hinv : Inv opts.drainer h) (hstep : timedStep backend opts h a = some h')
    (hgated : Gated opts.drainer h a) : Waits opts.drainer h a ∧ Inv opts.drainer h' := by
  unfold timedStep at hstep
  split at hstep
  · cases hstep
  rename_i hback
  have hclock : h.clock ≤ h.now a := not_lt.1 hback
  obtain ⟨st, hst, rfl⟩ := Option.map_eq_some_iff.1 hstep
  cases a with
  | reorder rows =>
      refine ⟨nofun, ?_⟩
      unfold historyStep at hst
      cases backend with
      | sqlite => cases hst
      | postgres =>
          obtain ⟨o, ho, rfl⟩ := Option.map_eq_some_iff.1 hst
          exact hinv.keep (keeps_reorder ho) rfl hclock
  | restart =>
      cases hst
      refine ⟨nofun, hinv.recorded, ?_, ?_, ?_, ?_⟩
      · exact fun _ hc => by cases hc
      · exact fun _ hc => by cases hc
      · exact fun _ hc => by cases hc
      · exact fun _ _ _ _ _ hc => by cases hc
  | act a =>
      rw [historyStep_act] at hst
      cases a with
      | request req now =>
          cases hst
          exact ⟨nofun, hinv.keep (keeps_refl _) rfl hclock⟩
      | insert i statement =>
          obtain ⟨hkeeps, hd⟩ := insertStep_keeps hst
          exact ⟨nofun,
            hinv.keep hkeeps (congrArg Drainer.cycles hd) hclock⟩
      | start =>
          cases hst
          exact ⟨nofun,
            hinv.keep (keeps_refl _) (start_cycles _) hclock⟩
      | stop =>
          cases hst
          exact ⟨nofun,
            hinv.keep (keeps_refl _) (stop_cycles _) hclock⟩
      | stopped call =>
          obtain ⟨d, hd, rfl⟩ := Option.map_eq_some_iff.1 hst
          exact ⟨nofun,
            hinv.keep (keeps_refl _) (stopped_cycles hd) hclock⟩
      | timer i now statement =>
          refine ⟨nofun, ?_⟩
          change timerStep opts h.state i now statement = some st at hst
          unfold timerStep at hst
          split at hst
          · dsimp only at hst
            split at hst
            · cases hst
              exact hinv.keep (keeps_refl _) rfl hclock
            · rename_i hrun
              cases hst
              have hreads : statement = none → Reads opts.drainer h now := by
                intro hnone
                subst hnone
                exact hgated.resolve_left hrun
              apply hinv.begin hfinite hreads hclock ?_ ?_ true
              · rfl
              · rfl
          · cases hst
      | drainOnce now statement =>
          cases hst
          refine ⟨nofun, ?_⟩
          have hreads : statement = none → Reads opts.drainer h now := by
            intro hnone
            subst hnone
            exact hgated
          exact hinv.begin hfinite hreads hclock rfl rfl false
      | advance i reply => exact hinv.advance hst hgated hclock

/-- On either backend a failed row waits for `retryDelayMs`, as long as the outbox takes what
the drainer writes and a row that `received_at` lets through has not failed lately. -/
theorem failed_row_waits (backend : Backend) (opts : Options)
    (hfinite : opts.drainer.maxAttempts ≠ ⊤) (acts : List (HistoryAction ε))
    (hgated : Along (timedStep backend opts) (fun h a _ => Gated opts.drainer h a) {} acts) :
    Along (timedStep backend opts) (fun h a _ => Waits opts.drainer h a) {} acts :=
  along_of_inv (Inv opts.drainer)
    (fun _ _ _ hinv hstep hok => waits_step hfinite hinv hstep hok) acts {}
    (inv_init opts.drainer) hgated

/-! ## A row that fails later than it came -/

section Late

def retryOnce : Options where
  receiver :=
    { driver :=
        { source := "helius"
          verifyRequest := fun _ => none
          parseRawPayload := fun _ => .ok [{ id := "helius:sig-1", json := .ok "{}" }] } }
  drainer :=
    { drivers := fun source => source = "helius"
      jsonError := fun _ => none
      maxAttempts := (5 : Nat) }

/-- A row comes at time 0 and is tried at `now`, when `normalizeEvent` throws. -/
def failsAt (now : Int) : List (HistoryAction String) :=
  [.act (.request { method := "POST", url := "/", headers := [], body := [] } 0),
    .act (.insert 0 none), .act .start, .act (.timer 0 now none),
    .act (.advance 0 { now := now, normalized := .error "boom" }),
    .act (.advance 0 { now := now })]

/-- The loop goes on at once, and so does the row. -/
def triedAt (now : Int) : List (HistoryAction String) :=
  [.act (.timer 0 now none), .act (.advance 1 { now := now, normalized := .ok ["swap"] })]

instance decidableWaits (opts : DrainerOptions) (h : Timed ε) (a : HistoryAction ε) :
    Decidable (Waits opts h a) :=
  inferInstanceAs (Decidable (∀ row ∈ starts h.state a, ∀ t ∈ h.failedAt row.key,
    t + opts.retryDelayMs ≤ h.now a))

instance decidableRetryable (opts : DrainerOptions) (now : Int) (r : OutboxRow) :
    Decidable (Retryable opts now r) := inferInstanceAs (Decidable (_ ∧ _ ∧ _ ∧ _))

instance decidableReads (opts : DrainerOptions) (h : Timed ε) (now : Int) :
    Decidable (Reads opts h now) :=
  inferInstanceAs (Decidable ((∀ r ∈ h.state.outbox.rows, Retryable opts now r →
    ∀ t ∈ h.failedAt r.key, t + opts.retryDelayMs ≤ now) ∧
    ∀ r ∈ h.state.outbox.pending opts.pending now, ∀ c ∈ h.state.drainer.cycles,
      ∀ r' ∈ c.held, r'.key ≠ r.key))

/-- On both backends the row is tried again at the moment it has failed. -/
theorem failsAt_tried_at_once :
    ¬ Along (timedStep .sqlite retryOnce) (fun h a _ => Waits retryOnce.drainer h a) {}
        (failsAt 5000 ++ triedAt 5000) ∧
      ¬ Along (timedStep .postgres retryOnce) (fun h a _ => Waits retryOnce.drainer h a) {}
        (failsAt 5000 ++ triedAt 5000) := by
  decide +kernel

instance decidableGated (opts : DrainerOptions) (h : Timed ε) (a : HistoryAction ε) :
    Decidable (Gated opts h a) :=
  match a with
  | .act (.timer _ now none) =>
      inferInstanceAs (Decidable (h.state.drainer.stopRequested = true ∨ Reads opts h now))
  | .act (.drainOnce now none) => inferInstanceAs (Decidable (Reads opts h now))
  | .act (.advance _ reply) => inferInstanceAs (Decidable (reply.statement = none))
  | .act (.timer _ _ (some _)) | .act (.drainOnce _ (some _)) | .act (.request ..) |
      .act (.insert ..) | .act .start | .act .stop | .act (.stopped _) | .reorder _ |
      .restart => inferInstanceAs (Decidable True)

/-- The next timer fires late enough. -/
theorem failed_row_waits_second :
    Along (timedStep .postgres retryOnce) (fun h a _ => Waits retryOnce.drainer h a) {}
      (failsAt 5000 ++ triedAt 6000) :=
  failed_row_waits .postgres retryOnce (by decide) (failsAt 5000 ++ triedAt 6000)
    (by decide +kernel)

end Late

end Ap3xSolana.Webhooks.RetryDelay
