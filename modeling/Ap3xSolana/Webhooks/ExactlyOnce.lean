import Ap3xSolana.Webhooks.Pipeline
import Ap3xSolana.Webhooks.RowLog

/-!
# Each event once

As long as the cycles do not overlap, `emit` does not throw and the outbox takes what
the drainer writes, the rows a cycle has read stay as it read them: deliveries only
add rows, and no other cycle is there.
-/

namespace Ap3xSolana.Webhooks

open Ap3xSolana.Lib.Monitor Ap3xSolana.Lib.Run

variable {ε : Type}

/-! ## The property -/

def Cycle.active (c : Cycle ε) : Bool :=
  match c.phase with
  | .finished => false
  | _ => true

/-- The row is one that `pending` may select, now or once its delay is over. -/
def Eligible (opts : DrainerOptions) (r : OutboxRow) : Prop :=
  r.processedAt = none ∧ (opts.maxAttempts = ⊤ ∨ r.attempts < opts.maxAttempts)

instance (opts : DrainerOptions) (r : OutboxRow) : Decidable (Eligible opts r) := by
  unfold Eligible
  infer_instance

/-- `pending` selects eligible rows only. -/
theorem pending_eligible {opts : DrainerOptions} {o : SqliteOutbox} {now : Int}
    {r : OutboxRow} (h : r ∈ o.pending opts.pending now) : Eligible opts r := by
  have hok := (SqliteOutbox.mem_pending h).2
  unfold SqliteOutbox.eligible at hok
  split at hok
  · rename_i htop
    exact ⟨by simpa using hok, .inl htop⟩
  · simp only [Bool.and_eq_true, Option.isNone_iff_eq_none, decide_eq_true_eq] at hok
    exact ⟨hok.1.1, .inr hok.1.2⟩

/-- The row has no driver or no JSON, or `normalizeEvent` threw `maxAttempts` times. -/
def Parked (opts : DrainerOptions) (failures : List FailReason) : Prop :=
  (∃ reason ∈ failures, reason.parks) ∨ opts.maxAttempts ≤ failures.length

structure ExactlyOnce (opts : Options) (st : State ε) : Prop where
  /-- Each row is normalized once, then its events are emitted in order, then it is
  processed. -/
  accepts : ∀ key, Accepts RowState.next RowState.Allows .fresh (logOf key st.log)
  /-- What was acknowledged stays in the table. -/
  acknowledged : ∀ d ∈ st.deliveries, d.Acknowledged →
    ∀ key ∈ d.keys, ∃ r, st.outbox.find? key = some r
  processed : ∀ key r, st.outbox.find? key = some r → r.processedAt.isSome →
    ∃ events, normalizedOf (logOf key st.log) = [events] ∧
      emittedOf (logOf key st.log) = events
  /-- Between cycles, a row that is not processed has had nothing emitted. -/
  waiting : (∀ c ∈ st.drainer.cycles, c.active = false) →
    ∀ key r, st.outbox.find? key = some r → r.processedAt = none →
      normalizedOf (logOf key st.log) = [] ∧ emittedOf (logOf key st.log) = []
  notDropped : ∀ key r, st.outbox.find? key = some r → r.processedAt = none →
    Eligible opts.drainer r ∨ Parked opts.drainer (failuresOf (logOf key st.log))

/-- One cycle at a time, no throw of `emit` and none of the drainer's statements. -/
def Clean (st : State ε) (a : Action ε) (_ : State ε) : Prop :=
  match a with
  | .timer .. =>
      st.drainer.stopRequested = false → ∀ c ∈ st.drainer.cycles, c.active = false
  | .drainOnce .. => ∀ c ∈ st.drainer.cycles, c.active = false
  | .advance _ reply => reply.emit = none ∧ reply.statement = none
  | _ => True

instance (st : State ε) (a : Action ε) (st' : State ε) : Decidable (Clean st a st') := by
  unfold Clean
  split <;> infer_instance

/-! ## The invariant -/

def stateOf (log : List (Entry ε)) (key : Key) : RowState ε :=
  (logOf key log).foldl RowState.next .fresh

/-- The batch of a cycle is as it was read, and the log is where the cycle is. -/
def Cycle.Tracked (c : Cycle ε) (o : SqliteOutbox) (log : List (Entry ε)) : Prop :=
  match c.phase with
  | .finished => True
  | .rows todo => (todo.map (·.key)).Nodup ∧ ∀ r ∈ todo, Current o r
  | .emitting row _ todo rest =>
      ((row :: rest).map (·.key)).Nodup ∧ (∀ r ∈ row :: rest, Current o r) ∧
        stateOf log row.key = .emitting todo

/-- The keys of a delivery that are not still to be inserted have rows. -/
def Delivery.Stored (d : Delivery) (source : String) (o : SqliteOutbox) : Prop :=
  match d with
  | .inserting keys todo _ _ _ =>
      ∀ key ∈ keys, key ∈ todo.map (fun e => (source, e.id)) ∨ ∃ r, o.find? key = some r
  | .settled keys (.ok (.accepted _)) => ∀ key ∈ keys, ∃ r, o.find? key = some r
  | .settled _ _ => True

structure Inv (opts : Options) (st : State ε) : Prop where
  accepts : ∀ key, Accepts RowState.next RowState.Allows .fresh (logOf key st.log)
  absent : ∀ key, st.outbox.find? key = none → logOf key st.log = []
  done : ∀ key r, st.outbox.find? key = some r →
    (r.processedAt.isSome ↔ stateOf st.log key = .done)
  attempts : ∀ key r, st.outbox.find? key = some r → r.processedAt = none →
    (∃ reason ∈ failuresOf (logOf key st.log), reason.parks) ∨
      r.attempts = (failuresOf (logOf key st.log)).length
  emitting : ∀ key todo, stateOf st.log key = .emitting todo →
    ∃ c ∈ st.drainer.cycles, ∃ row event rest,
      c.phase = .emitting row event todo rest ∧ row.key = key
  solo : ∀ (i j : Nat) (c c' : Cycle ε), st.drainer.cycles[i]? = some c →
    st.drainer.cycles[j]? = some c' → c.active → c'.active → i = j
  tracked : ∀ c ∈ st.drainer.cycles, c.Tracked st.outbox st.log
  stored : ∀ d ∈ st.deliveries, d.Stored opts.receiver.driver.source st.outbox

theorem inv_init (opts : Options) : Inv opts ({} : State ε) where
  accepts _ := trivial
  absent _ _ := rfl
  done _ _ h := by cases h
  attempts _ _ h := by cases h
  emitting _ _ h := by cases h
  solo _ _ _ _ h := by simp at h
  tracked _ h := by cases h
  stored _ h := by cases h

/-- How far the events of a row have come. -/
theorem Inv.says {opts : Options} {st : State ε} (h : Inv opts st) (key : Key) :
    (stateOf st.log key).Says (logOf key st.log) := by
  have hempty : RowState.Says ([] : List (Entry ε)) .fresh := ⟨rfl, rfl⟩
  exact RowState.says_foldl hempty (h.accepts key)

/-- The invariant says that no event is lost or emitted twice. -/
theorem Inv.exactlyOnce {opts : Options} {st : State ε} (h : Inv opts st) :
    ExactlyOnce opts st where
  accepts := h.accepts
  acknowledged d hd hack key hkey := by
    have hstored := h.stored d hd
    cases d with
    | inserting keys todo receivedAt inserted duplicates => cases hack
    | settled keys result =>
        cases result with
        | error message => cases hack
        | ok result =>
            cases result with
            | rejected reason detail => cases hack
            | accepted eventCount => exact hstored key hkey
  processed key r hr hdone := by
    have hmeans := h.says key
    rw [(h.done key r hr).1 hdone] at hmeans
    exact hmeans
  waiting hidle key r hr hnone := by
    have hmeans := h.says key
    cases hstate : stateOf st.log key with
    | fresh =>
        rw [hstate] at hmeans
        exact hmeans
    | emitting todo =>
        obtain ⟨c, hc, row, event, rest, hphase, -⟩ := h.emitting key todo hstate
        have hover := hidle c hc
        unfold Cycle.active at hover
        rw [hphase] at hover
        cases hover
    | done =>
        have hsome := (h.done key r hr).2 hstate
        rw [hnone] at hsome
        cases hsome
  notDropped key r hr hnone := by
    rcases h.attempts key r hr hnone with hparks | hcount
    · exact .inr (.inl hparks)
    · by_cases hmax : opts.drainer.maxAttempts ≤ (failuresOf (logOf key st.log)).length
      · exact .inr (.inr hmax)
      · exact .inl ⟨hnone, .inr (by rw [hcount]; exact not_le.1 hmax)⟩

/-! ## Deliveries -/

/-- The old rows are still there, as they were, and the new ones are new. -/
structure Grown (o o' : SqliteOutbox) : Prop where
  old : ∀ key r, o.find? key = some r → o'.find? key = some r
  new : ∀ key r, o.find? key = none → o'.find? key = some r →
    r.processedAt = none ∧ r.attempts = 0

theorem grown_insert (o : SqliteOutbox) (event : WebhookEvent) : Grown o (o.insert event) where
  old key r hr := by rw [SqliteOutbox.find?_insert, hr, Option.some_or]
  new key r hnone hr := by
    rw [SqliteOutbox.find?_insert, hnone, Option.none_or] at hr
    split at hr
    · cases hr
      exact ⟨rfl, rfl⟩
    · cases hr

theorem insert_stored (o : SqliteOutbox) (event : WebhookEvent) :
    ∃ r, (o.insert event).find? event.key = some r := by
  rw [SqliteOutbox.find?_insert, if_pos rfl]
  cases o.find? event.key with
  | none => exact ⟨_, rfl⟩
  | some r => exact ⟨r, rfl⟩

/-- Rows are never deleted. -/
theorem Delivery.Stored.mono {o o' : SqliteOutbox} {d : Delivery} {source : String}
    (hd : d.Stored source o)
    (h : ∀ key r, o.find? key = some r → ∃ r', o'.find? key = some r') :
    d.Stored source o' := by
  cases d with
  | inserting keys todo receivedAt inserted duplicates =>
      intro key hkey
      rcases hd key hkey with htodo | ⟨r, hr⟩
      · exact .inl htodo
      · exact .inr (h key r hr)
  | settled keys result =>
      cases result with
      | error message => trivial
      | ok result =>
          cases result with
          | rejected reason detail => trivial
          | accepted eventCount =>
              intro key hkey
              obtain ⟨r, hr⟩ := hd key hkey
              exact h key r hr

theorem Grown.tracked {o o' : SqliteOutbox} (h : Grown o o') {c : Cycle ε}
    {log : List (Entry ε)} (hc : c.Tracked o log) : c.Tracked o' log := by
  unfold Cycle.Tracked at hc ⊢
  split at hc
  · trivial
  · exact ⟨hc.1, fun r hr => ⟨h.old _ _ (hc.2 r hr).1, (hc.2 r hr).2⟩⟩
  · exact ⟨hc.1, fun r hr => ⟨h.old _ _ (hc.2.1 r hr).1, (hc.2.1 r hr).2⟩, hc.2.2⟩

/-- Deliveries come and go; the rows grow. -/
theorem Inv.grow {opts : Options} {st : State ε} (h : Inv opts st) {o : SqliteOutbox}
    (ho : Grown st.outbox o) {deliveries : List Delivery}
    (hstored : ∀ d ∈ deliveries, d.Stored opts.receiver.driver.source o) :
    Inv opts { st with outbox := o, deliveries := deliveries } where
  accepts := h.accepts
  absent key hnone := by
    refine h.absent key (Option.eq_none_iff_forall_ne_some.2 fun r hr => ?_)
    have hsome := ho.old key r hr
    dsimp only at hnone
    rw [hnone] at hsome
    cases hsome
  done key r hr := by
    cases hold : st.outbox.find? key with
    | none =>
        have hlog := h.absent key hold
        simp only [(ho.new key r hold hr).1, stateOf, hlog]
        simp
    | some r₀ =>
        have heq := ho.old key r₀ hold
        dsimp only at hr
        rw [hr] at heq
        cases heq
        exact h.done key r hold
  attempts key r hr hnone := by
    cases hold : st.outbox.find? key with
    | none =>
        right
        rw [(ho.new key r hold hr).2]
        simp only [h.absent key hold]
        rfl
    | some r₀ =>
        have heq := ho.old key r₀ hold
        dsimp only at hr
        rw [hr] at heq
        cases heq
        exact h.attempts key r hold hnone
  emitting := h.emitting
  solo := h.solo
  tracked c hc := ho.tracked (h.tracked c hc)
  stored := hstored

theorem grown_refl (o : SqliteOutbox) : Grown o o :=
  ⟨fun _ _ hr => hr, fun _ _ hnone hr => by rw [hnone] at hr; cases hr⟩

theorem insertLoop_stored {keys : List Key} {todo : List ParsedEvent} {receivedAt : Int}
    {inserted duplicates : Nat} {source : String} {o : SqliteOutbox}
    (h : ∀ key ∈ keys, key ∈ todo.map (fun e => (source, e.id)) ∨
      ∃ r, o.find? key = some r) :
    (insertLoop keys todo receivedAt inserted duplicates).Stored source o := by
  unfold insertLoop
  split
  · intro key hkey
    rcases h key hkey with htodo | hrow
    · cases htodo
    · exact hrow
  · exact h

theorem ingest_stored (opts : ReceiverOptions) (taken : Nat) (req : IncomingRequest)
    (now : Int) (o : SqliteOutbox) :
    (ingest opts taken req now).Stored opts.driver.source o := by
  unfold ingest
  split
  · trivial
  · split
    · trivial
    · split
      · trivial
      · split
        · trivial
        · exact insertLoop_stored fun key hkey => .inl hkey

theorem insertNext_stored {opts : ReceiverOptions} {o : SqliteOutbox} {keys : List Key}
    {event : ParsedEvent} {todo : List ParsedEvent} {receivedAt : Int}
    {inserted duplicates : Nat} {statement : Option String}
    (h : (Delivery.inserting keys (event :: todo) receivedAt inserted duplicates).Stored
      opts.driver.source o) :
    Grown o (insertNext opts o keys event todo receivedAt inserted duplicates statement).1 ∧
      (insertNext opts o keys event todo receivedAt inserted duplicates
        statement).2.Stored opts.driver.source
        (insertNext opts o keys event todo receivedAt inserted duplicates statement).1 := by
  unfold insertNext
  split
  · exact ⟨grown_refl o, trivial⟩
  · exact ⟨grown_refl o, trivial⟩
  · rename_i json _
    dsimp only
    generalize hrow : WebhookEvent.mk event.id opts.driver.source receivedAt json = row
    have hrowKey : row.key = (opts.driver.source, event.id) := by rw [← hrow]; rfl
    have hkeys : ∀ key ∈ keys, key ∈ todo.map (fun e => (opts.driver.source, e.id)) ∨
        ∃ r, (o.insert row).find? key = some r := by
      intro key hkey
      rcases h key hkey with htodo | ⟨r, hr⟩
      · rw [List.map_cons, List.mem_cons] at htodo
        rcases htodo with rfl | htodo
        · exact .inr (hrowKey ▸ insert_stored o row)
        · exact .inl htodo
      · exact .inr ⟨r, (grown_insert o row).old key r hr⟩
    refine ⟨grown_insert o row, ?_⟩
    split
    · exact insertLoop_stored hkeys
    · exact insertLoop_stored hkeys

/-! ## Cycles -/

/-- Only the cycles of the drainer matter. -/
theorem Inv.of_cycles {opts : Options} {st : State ε} (h : Inv opts st) {d : Drainer ε}
    (hd : d.cycles = st.drainer.cycles) : Inv opts { st with drainer := d } where
  accepts := h.accepts
  absent := h.absent
  done := h.done
  attempts := h.attempts
  emitting := by
    dsimp only
    rw [hd]
    exact h.emitting
  solo := by
    dsimp only
    rw [hd]
    exact h.solo
  tracked := by
    dsimp only
    rw [hd]
    exact h.tracked
  stored := h.stored

@[simp] theorem scheduleNext_cycles (d : Drainer ε) (delayMs : Int) :
    (d.scheduleNext delayMs).cycles = d.cycles := by
  unfold Drainer.scheduleNext
  split <;> rfl

@[simp] theorem start_cycles (d : Drainer ε) : d.start.cycles = d.cycles := by
  unfold Drainer.start
  split
  · rfl
  · exact scheduleNext_cycles _ _

@[simp] theorem stop_cycles (d : Drainer ε) : d.stop.cycles = d.cycles := by
  unfold Drainer.stop
  split
  · rfl
  · split <;> rfl

theorem stopped_cycles {d d' : Drainer ε} {call : Nat} (h : d.stopped call = some d') :
    d'.cycles = d.cycles := by
  unfold Drainer.stopped at h
  split at h
  · split at h
    · cases h
      rfl
    · cases h
  · cases h

@[simp] theorem putCycle_cycles (opts : DrainerOptions) (d : Drainer ε) (i : Nat)
    (c : Cycle ε) : (d.putCycle opts i c).cycles = d.cycles.set i c := by
  unfold Drainer.putCycle
  dsimp only
  split
  · split
    · exact scheduleNext_cycles _ _
    · rfl
  · rfl

@[simp] theorem beginCycle_cycles (opts : DrainerOptions) (d : Drainer ε) (c : Cycle ε) :
    (d.beginCycle opts c).cycles = d.cycles ++ [c] := by
  unfold Drainer.beginCycle
  dsimp only
  split
  · rw [putCycle_cycles]
    simp
  · rfl

theorem begin_tracked (opts : DrainerOptions) (o : SqliteOutbox) (looping : Bool)
    (now : Int) (statement : Option String) (log : List (Entry ε)) :
    (Cycle.begin opts o looping now statement).Tracked o log := by
  unfold Cycle.begin Cycle.Tracked
  cases statement with
  | some message => trivial
  | none =>
      refine ⟨o.nodup_pending _ now, fun r hr => ?_⟩
      have hfind := (SqliteOutbox.mem_pending hr).1
      exact ⟨hfind, (pending_eligible hr).1⟩

theorem Cycle.active_iff {c : Cycle ε} : c.active = true ↔ c.phase ≠ .finished := by
  unfold Cycle.active
  split
  · rename_i hphase
    simp [hphase]
  · rename_i hphase
    simpa using hphase

theorem Cycle.tracked_of_finished {c : Cycle ε} {o : SqliteOutbox} {log : List (Entry ε)}
    (h : c.active = false) : c.Tracked o log := by
  unfold Cycle.active at h
  unfold Cycle.Tracked
  split at h
  · rename_i hphase
    rw [hphase]
    trivial
  · cases h

/-- A new cycle, when no other is there. -/
theorem Inv.beginCycle {opts : Options} {st : State ε} (h : Inv opts st)
    (hidle : ∀ c ∈ st.drainer.cycles, c.active = false) (looping : Bool) (now : Int)
    (statement : Option String) : Inv opts (beginCycle opts st looping now statement) where
  accepts := h.accepts
  absent := h.absent
  done := h.done
  attempts := h.attempts
  emitting key todo hstate := by
    obtain ⟨c, hc, hphase⟩ := h.emitting key todo hstate
    simp only [Webhooks.beginCycle, beginCycle_cycles]
    exact ⟨c, List.mem_append_left _ hc, hphase⟩
  solo i j c c' hi hj hci hcj := by
    simp only [Webhooks.beginCycle, beginCycle_cycles] at hi hj
    -- only the new cycle is active, and it is the last one
    have hlast : ∀ (k : Nat) (c : Cycle ε), (st.drainer.cycles ++
        [.begin opts.drainer st.outbox looping now statement])[k]? = some c →
        c.active → k = st.drainer.cycles.length := by
      intro k c hk hactive
      by_contra hne
      have hlt : k < st.drainer.cycles.length := by
        have hbound := (List.getElem?_eq_some_iff.1 hk).1
        simp only [List.length_append, List.length_singleton] at hbound
        omega
      rw [List.getElem?_append_left hlt] at hk
      rw [hidle c (List.mem_of_getElem? hk)] at hactive
      cases hactive
    rw [hlast i c hi hci, hlast j c' hj hcj]
  tracked c hc := by
    simp only [Webhooks.beginCycle, beginCycle_cycles, List.mem_append,
      List.mem_singleton] at hc
    rcases hc with hc | rfl
    · exact h.tracked c hc
    · exact begin_tracked _ _ _ _ _ _
  stored := h.stored

/-! ## Turns -/

theorem logOf_append (key : Key) (log es : List (Entry ε)) :
    logOf key (log ++ es) = logOf key log ++ logOf key es := List.filter_append ..

theorem logOf_self {key : Key} {es : List (Entry ε)} (h : ∀ e ∈ es, e.key = key) :
    logOf key es = es := List.filter_eq_self.2 fun e he => by simpa using h e he

theorem logOf_ne {key k : Key} {es : List (Entry ε)} (h : ∀ e ∈ es, e.key = key)
    (hne : k ≠ key) : logOf k es = [] :=
  List.filter_eq_nil_iff.2 fun e he => by simpa [h e he] using fun heq => hne heq.symm

/-- The state after a turn of cycle `i` at `row`. -/
def afterTurn (st : State ε) (i : Nat) (c : Cycle ε) (row : OutboxRow)
    (rest : List OutboxRow) (out : Outcome ε) (d : Drainer ε) : State ε :=
  { st with
    outbox := out.1
    log := st.log ++ out.2.1
    drainer := { d with cycles := st.drainer.cycles.set i (c.go row rest out.2.2) } }

section Turns

variable {opts : Options} {st : State ε} {i : Nat} {c : Cycle ε} {row : OutboxRow}
  {rest : List OutboxRow} {out : Outcome ε}

theorem stateOf_append_self {log : List (Entry ε)} {es : List (Entry ε)}
    (hkeys : ∀ e ∈ es, e.key = row.key) :
    stateOf (log ++ es) row.key = es.foldl RowState.next (stateOf log row.key) := by
  unfold stateOf
  rw [logOf_append, logOf_self hkeys, List.foldl_append]

theorem stateOf_append_ne {log : List (Entry ε)} {es : List (Entry ε)} {key : Key}
    (hkeys : ∀ e ∈ es, e.key = row.key) (hne : key ≠ row.key) :
    stateOf (log ++ es) key = stateOf log key := by
  unfold stateOf
  rw [logOf_append, logOf_ne hkeys hne, List.append_nil]

/-- A turn leaves a row behind. -/
theorem Turn.found {o : SqliteOutbox} {s : RowState ε} (h : Turn o row s out)
    (hrow : o.find? row.key = some row) : ∃ r, out.1.find? row.key = some r := by
  obtain ⟨-, -, -, hresult⟩ := h
  split at hresult
  · obtain ⟨-, r, hr, -⟩ := hresult
    exact ⟨r, hr⟩
  · obtain ⟨-, -, r, -, hr, -⟩ := hresult
    exact ⟨r, hr⟩
  · exact ⟨row, hresult.2.1 ▸ hrow⟩
  · exact hresult.elim

theorem Turn.done {o : SqliteOutbox} {s : RowState ε} (h : Turn o row s out)
    (hrow : Current o row) {r : OutboxRow} (hr : out.1.find? row.key = some r) :
    r.processedAt.isSome ↔ out.2.1.foldl RowState.next s = .done := by
  obtain ⟨-, -, -, hresult⟩ := h
  split at hresult
  · obtain ⟨hfold, r', hr', hdone⟩ := hresult
    rw [hr] at hr'
    cases hr'
    simp [hfold, hdone]
  · obtain ⟨hfold, -, r', -, hr', hnone, -⟩ := hresult
    rw [hr] at hr'
    cases hr'
    simp [hfold, hnone]
  · obtain ⟨hfold, ho, -⟩ := hresult
    rw [ho, hrow.1] at hr
    cases hr
    simp [hfold, hrow.2]
  · exact hresult.elim

/-- Failures are counted, unless one of them parks the row. -/
theorem Turn.attempts {o : SqliteOutbox} {s : RowState ε} (h : Turn o row s out)
    (hrow : Current o row) {failures : List FailReason}
    (hcount : (∃ reason ∈ failures, reason.parks) ∨ row.attempts = failures.length)
    {r : OutboxRow} (hr : out.1.find? row.key = some r) (hnone : r.processedAt = none) :
    (∃ reason ∈ failures ++ failuresOf out.2.1, reason.parks) ∨
      r.attempts = (failures ++ failuresOf out.2.1).length := by
  obtain ⟨-, -, -, hresult⟩ := h
  rcases hcount with ⟨reason, hmem, hparks⟩ | hcount
  · exact .inl ⟨reason, List.mem_append_left _ hmem, hparks⟩
  split at hresult
  · obtain ⟨-, r', hr', hdone⟩ := hresult
    rw [hr] at hr'
    cases hr'
    rw [hnone] at hdone
    cases hdone
  · obtain ⟨-, reason, r', hentries, hr', -, hcause⟩ := hresult
    rw [hr] at hr'
    cases hr'
    have hfailures : failuresOf out.2.1 = [reason] := by rw [hentries]; rfl
    rw [hfailures]
    rcases hcause with hparks | hnext
    · exact .inl ⟨reason, List.mem_append_right _ List.mem_cons_self, hparks⟩
    · right
      rw [hnext, hcount]
      simp
  · obtain ⟨-, ho, hfailures⟩ := hresult
    rw [ho, hrow.1] at hr
    cases hr
    right
    rw [hfailures, List.append_nil, hcount]
  · exact hresult.elim

/-- Where the cycle is after the turn. -/
theorem Turn.tracked {o : SqliteOutbox} {log : List (Entry ε)}
    (h : Turn o row (stateOf log row.key) out)
    (hrows : ((row :: rest).map (·.key)).Nodup) (hcurrent : ∀ r ∈ row :: rest, Current o r) :
    (c.go row rest out.2.2).Tracked out.1 (log ++ out.2.1) := by
  have hstate : stateOf (log ++ out.2.1) row.key = _ := stateOf_append_self h.keys
  obtain ⟨-, -, hframe, hresult⟩ := h
  rw [List.map_cons, List.nodup_cons] at hrows
  have hrest : ∀ r ∈ rest, Current out.1 r := by
    intro r hr
    obtain ⟨hfind, hnone⟩ := hcurrent r (List.mem_cons_of_mem _ hr)
    have hne : r.key ≠ row.key := fun heq => hrows.1 (heq ▸ List.mem_map_of_mem hr)
    exact ⟨by rw [hframe _ hne]; exact hfind, hnone⟩
  cases hnext : out.2.2 with
  | done ok => cases ok <;> exact ⟨hrows.2, hrest⟩
  | emitting event todo =>
      rw [hnext] at hresult
      obtain ⟨hfold, ho, -⟩ := hresult
      refine ⟨by rw [List.map_cons, List.nodup_cons]; exact hrows, ?_, hstate.trans hfold⟩
      rw [ho]
      exact hcurrent
  | threw message => trivial

theorem Inv.turn (h : Inv opts st) (hi : st.drainer.cycles[i]? = some c)
    (hactive : c.active) (hrows : ((row :: rest).map (·.key)).Nodup)
    (hcurrent : ∀ r ∈ row :: rest, Current st.outbox r)
    (hat : ∀ row' event todo' rest', c.phase = .emitting row' event todo' rest' →
      row' = row)
    (hturn : Turn st.outbox row (stateOf st.log row.key) out) (d : Drainer ε) :
    Inv opts (afterTurn st i c row rest out d) := by
  have hlt := (List.getElem?_eq_some_iff.1 hi).1
  have hrow := hcurrent row List.mem_cons_self
  have hself : stateOf (st.log ++ out.2.1) row.key = _ := stateOf_append_self hturn.keys
  have hother : ∀ key, key ≠ row.key → stateOf (st.log ++ out.2.1) key = stateOf st.log key :=
    fun key hne => stateOf_append_ne hturn.keys hne
  have hlogSelf : logOf row.key (st.log ++ out.2.1) = logOf row.key st.log ++ out.2.1 := by
    rw [logOf_append, logOf_self hturn.keys]
  have hlogNe : ∀ key, key ≠ row.key → logOf key (st.log ++ out.2.1) = logOf key st.log := by
    intro key hne
    rw [logOf_append, logOf_ne hturn.keys hne, List.append_nil]
  -- no other cycle is active, and this one is at no other row
  have honly : ∀ (j : Nat) (c' : Cycle ε), st.drainer.cycles[j]? = some c' → c'.active →
      j = i := fun j c' hj hc' => h.solo j i c' c hj hi hc' hactive
  refine ⟨fun key => ?_, fun key hnone => ?_, fun key r hr => ?_, fun key r hr hnone => ?_,
    fun key todo hstate => ?_, fun j k cj ck hj hk hcj hck => ?_, fun c' hc' => ?_,
    fun dl hdl => ?_⟩
  · by_cases hkey : key = row.key
    · subst hkey
      dsimp only [afterTurn]
      rw [hlogSelf, accepts_append]
      exact ⟨h.accepts _, hturn.accepts⟩
    · dsimp only [afterTurn]
      rw [hlogNe key hkey]
      exact h.accepts key
  · dsimp only [afterTurn] at hnone ⊢
    by_cases hkey : key = row.key
    · subst hkey
      obtain ⟨r, hr⟩ := hturn.found hrow.1
      rw [hnone] at hr
      cases hr
    · rw [hturn.frame key hkey] at hnone
      rw [hlogNe key hkey]
      exact h.absent key hnone
  · dsimp only [afterTurn] at hr ⊢
    by_cases hkey : key = row.key
    · subst hkey
      rw [hself]
      exact hturn.done hrow hr
    · rw [hturn.frame key hkey] at hr
      rw [hother key hkey]
      exact h.done key r hr
  · dsimp only [afterTurn] at hr ⊢
    by_cases hkey : key = row.key
    · subst hkey
      have hfailures : failuresOf (logOf row.key (st.log ++ out.2.1)) =
          failuresOf (logOf row.key st.log) ++ failuresOf out.2.1 := by
        rw [hlogSelf]
        exact List.filterMap_append
      rw [hfailures]
      exact hturn.attempts hrow (h.attempts _ row hrow.1 hrow.2) hr hnone
    · rw [hturn.frame key hkey] at hr
      rw [hlogNe key hkey]
      exact h.attempts key r hr hnone
  · dsimp only [afterTurn] at hstate ⊢
    by_cases hkey : key = row.key
    · subst hkey
      rw [hself] at hstate
      have hresult := hturn.result
      rw [hstate] at hresult
      cases hnext : out.2.2 with
      | done ok =>
          rw [hnext] at hresult
          cases ok <;> cases hresult.1
      | emitting event todo' =>
          rw [hnext] at hresult
          cases hresult.1
          exact ⟨_, List.mem_set hlt _, row, event, rest, rfl, rfl⟩
      | threw message =>
          rw [hnext] at hresult
          exact hresult.elim
    · rw [hother key hkey] at hstate
      obtain ⟨c', hc', row', event, rest', hphase, rfl⟩ := h.emitting key todo hstate
      obtain ⟨j, hj⟩ := List.mem_iff_getElem?.1 hc'
      have hc'active : c'.active := Cycle.active_iff.2 (by rw [hphase]; simp)
      obtain rfl := honly j c' hj hc'active
      rw [hi] at hj
      cases hj
      exact absurd (congrArg (·.key) (hat row' event todo rest' hphase)) hkey
  · dsimp only [afterTurn] at hj hk
    have hat : ∀ (k : Nat) (ck : Cycle ε),
        (st.drainer.cycles.set i (c.go row rest out.2.2))[k]? = some ck → ck.active →
          k = i := by
      intro k ck hk hck
      by_contra hne
      rw [List.getElem?_set_ne fun heq => hne heq.symm] at hk
      exact hne (honly k ck hk hck)
    rw [hat j cj hj hcj, hat k ck hk hck]
  · obtain ⟨j, hj⟩ := List.mem_iff_getElem?.1 hc'
    dsimp only [afterTurn] at hj ⊢
    by_cases hji : i = j
    · subst hji
      rw [List.getElem?_set_self hlt] at hj
      cases hj
      exact hturn.tracked hrows hcurrent
    · rw [List.getElem?_set_ne hji] at hj
      refine Cycle.tracked_of_finished ?_
      cases hc'active : c'.active with
      | false => rfl
      | true => exact absurd (honly j c' hj hc'active).symm hji
  · refine (h.stored dl hdl).mono fun key r hr => ?_
    dsimp only [afterTurn]
    by_cases hkey : key = row.key
    · subst hkey
      exact hturn.found hrow.1
    · exact ⟨r, by rw [hturn.frame key hkey]; exact hr⟩

end Turns

/-- A cycle that ends. -/
theorem Inv.finish {opts : Options} {st : State ε} (h : Inv opts st) {i : Nat}
    {c : Cycle ε} (hi : st.drainer.cycles[i]? = some c)
    (hat : ∀ row event todo rest, c.phase ≠ .emitting row event todo rest)
    {d : Drainer ε} (hd : d.cycles = st.drainer.cycles.set i c.finish) :
    Inv opts { st with drainer := d } := by
  have hlt := (List.getElem?_eq_some_iff.1 hi).1
  have hfinish : c.finish.active = false := rfl
  refine ⟨h.accepts, h.absent, h.done, h.attempts, fun key todo hstate => ?_,
    fun j k cj ck hj hk hcj hck => ?_, fun c' hc' => ?_, h.stored⟩
  · obtain ⟨c', hc', row, event, rest, hphase, hkey⟩ := h.emitting key todo hstate
    obtain ⟨j, hj⟩ := List.mem_iff_getElem?.1 hc'
    have hji : i ≠ j := by
      rintro rfl
      rw [hi] at hj
      cases hj
      exact hat row event todo rest hphase
    refine ⟨c', ?_, row, event, rest, hphase, hkey⟩
    dsimp only
    rw [hd]
    exact List.mem_of_getElem? ((List.getElem?_set_ne hji).trans hj)
  · have hold : ∀ (k : Nat) (ck : Cycle ε), d.cycles[k]? = some ck → ck.active →
        st.drainer.cycles[k]? = some ck := by
      intro k ck hk hck
      rw [hd] at hk
      by_cases hki : i = k
      · subst hki
        rw [List.getElem?_set_self hlt] at hk
        cases hk
        rw [hfinish] at hck
        cases hck
      · rwa [List.getElem?_set_ne hki] at hk
    exact h.solo j k cj ck (hold j cj hj hcj) (hold k ck hk hck) hcj hck
  · dsimp only at hc' ⊢
    rw [hd] at hc'
    rcases List.mem_or_eq_of_mem_set hc' with hc' | rfl
    · exact h.tracked c' hc'
    · exact Cycle.tracked_of_finished hfinish

/-- A row at the head of a batch is fresh. -/
theorem Inv.fresh {opts : Options} {st : State ε} (h : Inv opts st) {i : Nat}
    {c : Cycle ε} (hi : st.drainer.cycles[i]? = some c) {row : OutboxRow}
    {rest : List OutboxRow} (hphase : c.phase = .rows (row :: rest))
    (hrow : Current st.outbox row) : stateOf st.log row.key = .fresh := by
  cases hstate : stateOf st.log row.key with
  | fresh => rfl
  | done =>
      have hsome := (h.done row.key row hrow.1).2 hstate
      rw [hrow.2] at hsome
      cases hsome
  | emitting todo =>
      obtain ⟨c', hc', row', event, rest', hphase', -⟩ := h.emitting row.key todo hstate
      obtain ⟨j, hj⟩ := List.mem_iff_getElem?.1 hc'
      have hactive : c.active := Cycle.active_iff.2 (by rw [hphase]; simp)
      have hactive' : c'.active := Cycle.active_iff.2 (by rw [hphase']; simp)
      obtain rfl := h.solo j i c' c hj hi hactive' hactive
      rw [hi] at hj
      cases hj
      rw [hphase] at hphase'
      cases hphase'

theorem Inv.advance {opts : Options} {st st' : State ε} (h : Inv opts st) {i : Nat}
    {reply : Reply ε} (hemit : reply.emit = none) (hstatement : reply.statement = none)
    (hstep : advanceStep opts st i reply = some st') : Inv opts st' := by
  unfold advanceStep at hstep
  split at hstep
  · cases hstep
  rename_i c hi
  have htracked := h.tracked c (List.mem_of_getElem? hi)
  obtain ⟨⟨o, entries, c'⟩, hadvance, rfl⟩ := Option.map_eq_some_iff.1 hstep
  unfold Cycle.advance at hadvance
  unfold Cycle.Tracked at htracked
  -- the end of a cycle leaves the log and the outbox alone
  have hover : (∀ row event todo rest, c.phase ≠ .emitting row event todo rest) →
      (st.outbox, ([] : List (Entry ε)), c.finish) = (o, entries, c') →
        Inv opts { st with
          outbox := o
          drainer := st.drainer.putCycle opts.drainer i c'
          log := st.log ++ entries } := by
    rintro hat heq
    cases heq
    rw [List.append_nil]
    exact h.finish hi hat (putCycle_cycles _ _ _ _)
  -- a turn changes the row at hand
  have hturned : ∀ row rest out, c.active → ((row :: rest).map (·.key)).Nodup →
      (∀ r ∈ row :: rest, Current st.outbox r) →
      (∀ row' event todo' rest', c.phase = .emitting row' event todo' rest' → row' = row) →
      Turn st.outbox row (stateOf st.log row.key) out →
      (out.1, out.2.1, c.go row rest out.2.2) = (o, entries, c') →
        Inv opts { st with
          outbox := o
          drainer := st.drainer.putCycle opts.drainer i c'
          log := st.log ++ entries } := by
    rintro row rest out hactive hrows hcurrent hat hturn heq
    cases heq
    exact (h.turn hi hactive hrows hcurrent hat hturn {}).of_cycles (putCycle_cycles _ _ _ _)
  cases hphase : c.phase with
  | finished =>
      rw [hphase] at hadvance
      cases hadvance
  | rows todo =>
      have hat : ∀ row event todo rest, c.phase ≠ .emitting row event todo rest := by
        intro row event todo rest
        rw [hphase]
        simp
      rw [hphase] at hadvance htracked
      cases todo with
      | nil => exact hover hat (Option.some.inj hadvance)
      | cons row rest =>
          dsimp only at hadvance
          split at hadvance
          · exact hover hat (Option.some.inj hadvance)
          · have hrow := htracked.2 row List.mem_cons_self
            have hturn : Turn st.outbox row (stateOf st.log row.key)
                (processOne opts.drainer st.outbox row reply) := by
              rw [h.fresh hi hphase hrow]
              exact processOne_turn hrow hstatement
            exact hturned row rest _ (Cycle.active_iff.2 (by rw [hphase]; simp)) htracked.1
              htracked.2 (fun row' event todo' rest' heq => absurd heq (hat _ _ _ _)) hturn
              (Option.some.inj hadvance)
  | emitting row event todo rest =>
      rw [hphase] at hadvance htracked
      have hturn : Turn st.outbox row (stateOf st.log row.key)
          (emitSettled st.outbox row todo reply) := by
        rw [htracked.2.2]
        exact emitSettled_turn (htracked.2.1 row List.mem_cons_self) hstatement hemit
      refine hturned row rest _ (Cycle.active_iff.2 (by rw [hphase]; simp)) htracked.1
        htracked.2.1 (fun row' event' todo' rest' heq => ?_) hturn (Option.some.inj hadvance)
      rw [hphase] at heq
      cases heq
      rfl

/-! ## Runs -/

theorem step_inv {opts : Options} {st st' : State ε} {a : Action ε} (h : Inv opts st)
    (hstep : step opts st a = some st') (hclean : Clean st a st') : Inv opts st' := by
  cases a with
  | request req now =>
      cases hstep
      refine h.grow (grown_refl _) fun d hd => ?_
      rcases List.mem_append.1 hd with hd | hd
      · exact h.stored d hd
      · obtain rfl := List.mem_singleton.1 hd
        exact ingest_stored _ _ _ _ _
  | insert i statement =>
      simp only [step, insertStep] at hstep
      split at hstep
      · rename_i hi
        cases hstep
        obtain ⟨hgrown, hstored⟩ := insertNext_stored (h.stored _ (List.mem_of_getElem? hi))
        refine h.grow hgrown fun d hd => ?_
        rcases List.mem_or_eq_of_mem_set hd with hd | rfl
        · exact (h.stored d hd).mono fun key r hr => ⟨r, hgrown.old key r hr⟩
        · exact hstored
      · cases hstep
  | start =>
      cases hstep
      exact h.of_cycles (start_cycles _)
  | stop =>
      cases hstep
      exact h.of_cycles (stop_cycles _)
  | stopped call =>
      obtain ⟨d, hd, rfl⟩ := Option.map_eq_some_iff.1 hstep
      exact h.of_cycles (stopped_cycles hd)
  | timer i now statement =>
      simp only [step, timerStep] at hstep
      split at hstep
      · have htimer : Inv opts { st with
            drainer := { st.drainer with timers := st.drainer.timers.eraseIdx i } } :=
          h.of_cycles rfl
        split at hstep
        · cases hstep
          exact htimer
        · rename_i hrun
          cases hstep
          exact htimer.beginCycle (hclean (by simpa using hrun)) true now statement
      · cases hstep
  | drainOnce now statement =>
      cases hstep
      exact h.beginCycle hclean false now statement
  | advance i reply => exact h.advance hclean.1 hclean.2 hstep

/-- In a run without overlapping cycles and without throws of `emit` and of the
drainer's statements, each event is emitted once and no delivery is lost. -/
theorem exactly_once (opts : Options) (acts : List (Action ε))
    (hclean : Along (step opts) Clean {} acts) :
    Along (step opts) (fun _ _ st => ExactlyOnce opts st) {} acts := by
  refine along_of_inv (Inv opts) (fun st a st' h hstep hok => ?_) acts {} (inv_init opts)
    hclean
  have h' := step_inv h hstep hok
  exact ⟨h'.exactlyOnce, h'⟩

/-! ## Runs that lose or repeat an event -/

/-- A receiver of one event per delivery and a drainer that tries a row once. -/
def tryOnce : Options where
  receiver :=
    { driver :=
        { source := "helius"
          verifyRequest := fun _ => none
          parseRawPayload := fun _ => .ok [{ id := "helius:sig-1", json := .ok "{}" }] } }
  drainer :=
    { drivers := fun source => source = "helius", jsonError := fun _ => none,
      maxAttempts := 1 }

def deliver (now : Int) : List (Action String) :=
  [.request { method := "POST", url := "/", headers := [], body := [] } now, .insert 0 none]

/-- A delivery, and a cycle in which the row's one event is emitted. -/
def deliverAndDrain : List (Action String) :=
  deliver 0 ++ [.drainOnce 1 none, .advance 0 { now := 1, normalized := .ok ["swap"] },
    .advance 0 { now := 2 }, .advance 0 { now := 2 }] ++
  [.request { method := "POST", url := "/", headers := [], body := [] } 3, .insert 1 none]

theorem exactly_once_deliverAndDrain :
    Along (step tryOnce) (fun _ _ st => ExactlyOnce tryOnce st) {} deliverAndDrain :=
  exactly_once tryOnce deliverAndDrain (by decide +kernel)

/-- The normalizer throws once, and the row is parked. -/
def normalizeThrows : List (Action String) :=
  deliver 0 ++ [.drainOnce 1 none, .advance 0 { now := 1, normalized := .error "boom" },
    .advance 0 { now := 1 }]

/-- The events are emitted, but the row cannot be marked. -/
def markThrows : List (Action String) :=
  deliver 0 ++ [.drainOnce 1 none, .advance 0 { now := 1, normalized := .ok ["swap"] },
    .advance 0 { now := 1, statement := some "SQLITE_BUSY" }, .drainOnce 2 none,
    .advance 1 { now := 2, normalized := .ok ["swap"] }]

/-- An acknowledged delivery is given up before any of its events is emitted, and
another one has its event emitted twice. -/
theorem delivery_parked_or_repeated :
    (∃ st, exec (step tryOnce) {} normalizeThrows = some st ∧
      (∀ d ∈ st.deliveries, d.Acknowledged ∧ d.keys = [("helius", "helius:sig-1")]) ∧
      st.deliveries ≠ [] ∧
      emittedOf (logOf ("helius", "helius:sig-1") st.log) = [] ∧
      ∀ now, st.outbox.pending tryOnce.drainer.pending now = []) ∧
    ∃ st, exec (step tryOnce) {} markThrows = some st ∧
      emittedOf (logOf ("helius", "helius:sig-1") st.log) = ["swap", "swap"] := by
  refine ⟨?_, by decide +kernel⟩
  obtain ⟨st, hst, hacked, hsome, hemitted, hrows⟩ :
      ∃ st, exec (step tryOnce) {} normalizeThrows = some st ∧
        (∀ d ∈ st.deliveries, d.Acknowledged ∧ d.keys = [("helius", "helius:sig-1")]) ∧
        st.deliveries.length ≠ 0 ∧
        emittedOf (logOf ("helius", "helius:sig-1") st.log) = [] ∧
        ∀ r ∈ st.outbox.rows, ¬ Eligible tryOnce.drainer r := by
    decide +kernel
  refine ⟨st, hst, hacked, fun hnil => hsome (by rw [hnil]; rfl), hemitted, fun now => ?_⟩
  refine List.eq_nil_iff_forall_not_mem.2 fun r hr => ?_
  exact hrows r (SqliteOutbox.find?_eq_some.1 (SqliteOutbox.mem_pending hr).1).1
    (pending_eligible hr)

end Ap3xSolana.Webhooks
