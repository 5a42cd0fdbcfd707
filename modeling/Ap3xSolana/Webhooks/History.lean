import Mathlib.Data.List.Perm.Basic
import Ap3xSolana.Webhooks.ExactlyOnce

/-!
# Outbox histories

The pipeline over either backend, with restarts of its process.  The table is the same on
both; a Postgres heap promises no order of rows, so there they may move at any time.
-/

namespace Ap3xSolana.Webhooks

variable {ε : Type}

/-! ## The backends -/

namespace PostgresOutbox

/-- The rows `pending` selects, before order and limit. -/
def eligible (opts : PendingOptions) (now : Int) (r : OutboxRow) : Bool :=
  if opts.maxAttempts = ⊤ then r.processedAt.isNone
  else
    r.processedAt.isNone && r.attempts < opts.maxAttempts &&
      (r.attempts = 0 || r.receivedAt ≤ now - opts.retryDelayMs)

/-- `ORDER BY received_at ASC LIMIT $3`; rows of one moment come as they lie. -/
def pending (table : SqliteOutbox) (opts : PendingOptions) (now : Int) : List OutboxRow :=
  ((table.rows.filter (eligible opts now)).insertionSort
    fun a b => a.receivedAt ≤ b.receivedAt).take opts.limit

/-- Both backends select the same rows. -/
theorem pending_eq : pending = SqliteOutbox.pending := rfl

end PostgresOutbox

inductive Backend where
  | sqlite
  | postgres
  deriving DecidableEq, Repr

def Backend.pending : Backend → SqliteOutbox → PendingOptions → Int → List OutboxRow
  | .sqlite => SqliteOutbox.pending
  | .postgres => PostgresOutbox.pending

theorem Backend.pending_eq (backend : Backend) : backend.pending = SqliteOutbox.pending := by
  cases backend with
  | sqlite => rfl
  | postgres => exact PostgresOutbox.pending_eq

/-! ## The machine -/

inductive HistoryAction (ε : Type) where
  | act (a : Action ε)
  /-- The rows come to lie in another order. -/
  | reorder (rows : List OutboxRow)
  /-- The process ends, and another one takes over its table. -/
  | restart

/-- The start of a cycle, with the batch of the backend. -/
def Backend.begin (backend : Backend) (opts : DrainerOptions) (o : SqliteOutbox)
    (looping : Bool) (now : Int) (statement : Option String) : Cycle ε :=
  match statement with
  | some _ => { looping := looping, startedAt := now, batch := none, phase := .finished }
  | none =>
      let rows := backend.pending o opts.pending now
      { looping := looping, startedAt := now, batch := some rows, phase := .rows rows }

def Backend.beginCycle (backend : Backend) (opts : Options) (st : State ε) (looping : Bool)
    (now : Int) (statement : Option String) : State ε :=
  { st with
    drainer := st.drainer.beginCycle opts.drainer
      (backend.begin opts.drainer st.outbox looping now statement) }

def Backend.timerStep (backend : Backend) (opts : Options) (st : State ε) (i : Nat)
    (now : Int) (statement : Option String) : Option (State ε) :=
  if i < st.drainer.timers.length then
    let st := { st with
      drainer := { st.drainer with timers := st.drainer.timers.eraseIdx i } }
    if st.drainer.stopRequested then some st
    else some (backend.beginCycle opts st true now statement)
  else none

def SqliteOutbox.reorder (o : SqliteOutbox) (rows : List OutboxRow) : Option SqliteOutbox :=
  if h : rows.Perm o.rows then
    some { rows := rows, nodup := ((h.map _).nodup_iff).2 o.nodup }
  else none

def historyStep (backend : Backend) (opts : Options) (st : State ε) :
    HistoryAction ε → Option (State ε)
  | .act (.timer i now statement) => backend.timerStep opts st i now statement
  | .act (.drainOnce now statement) =>
      some (backend.beginCycle opts st false now statement)
  | .act a => step opts st a
  | .reorder rows =>
      match backend with
      | .sqlite => none
      | .postgres => (st.outbox.reorder rows).map fun o => { st with outbox := o }
  | .restart => some { outbox := st.outbox, log := st.log }

theorem Backend.begin_eq (backend : Backend) (opts : DrainerOptions) (o : SqliteOutbox)
    (looping : Bool) (now : Int) (statement : Option String) :
    (backend.begin opts o looping now statement : Cycle ε) =
      Cycle.begin opts o looping now statement := by
  cases statement with
  | some message => rfl
  | none =>
      unfold Backend.begin
      dsimp only
      rw [backend.pending_eq]
      rfl

theorem Backend.beginCycle_eq (backend : Backend) (opts : Options) (st : State ε)
    (looping : Bool) (now : Int) (statement : Option String) :
    backend.beginCycle opts st looping now statement =
      Webhooks.beginCycle opts st looping now statement := by
  unfold Backend.beginCycle
  rw [backend.begin_eq]
  rfl

/-- What the pipeline does is what it does over either backend. -/
theorem historyStep_act (backend : Backend) (opts : Options) (st : State ε) (a : Action ε) :
    historyStep backend opts st (.act a) = step opts st a := by
  cases a with
  | timer i now statement =>
      show backend.timerStep opts st i now statement = timerStep opts st i now statement
      unfold Backend.timerStep
      dsimp only
      rw [backend.beginCycle_eq]
      rfl
  | drainOnce now statement =>
      show some (backend.beginCycle opts st false now statement) =
        some (Webhooks.beginCycle opts st false now statement)
      rw [backend.beginCycle_eq]
  | _ => rfl

/-! ## The rows of a cycle -/

/-- The rows a cycle is not through with. -/
def Cycle.held (c : Cycle ε) : List OutboxRow :=
  match c.phase with
  | .rows todo => todo
  | .emitting row _ _ rest => row :: rest
  | .finished => []

/-- The rows a cycle has not taken up. -/
def Cycle.ahead (c : Cycle ε) : List OutboxRow :=
  match c.phase with
  | .rows todo => todo
  | .emitting _ _ _ rest => rest
  | .finished => []

/-- The row a turn takes up. -/
def Cycle.takesUp (stopRequested : Bool) (c : Cycle ε) : Option OutboxRow :=
  match c.phase with
  | .rows (row :: _) => if stopRequested then none else some row
  | _ => none

/-- The row a turn is about, and how the row goes on. -/
def Cycle.tries (opts : DrainerOptions) (o : SqliteOutbox) (stopRequested : Bool)
    (c : Cycle ε) (reply : Reply ε) : Option (OutboxRow × Next ε) :=
  match c.phase with
  | .finished => none
  | .rows [] => none
  | .rows (row :: _) =>
      if stopRequested then none else some (row, (processOne opts o row reply).2.2)
  | .emitting row _ todo _ => some (row, (emitSettled o row todo reply).2.2)

/-- The row whose attempt starts. -/
def starts (st : State ε) : HistoryAction ε → Option OutboxRow
  | .act (.advance i _) => st.drainer.cycles[i]?.bind (·.takesUp st.drainer.stopRequested)
  | _ => none

theorem Cycle.ahead_subset (c : Cycle ε) : c.ahead ⊆ c.held := by
  unfold Cycle.ahead Cycle.held
  cases c.phase with
  | rows todo => exact fun _ h => h
  | emitting row event todo rest => exact List.subset_cons_self row rest
  | finished => exact fun _ h => h

theorem Cycle.held_go {c : Cycle ε} {row : OutboxRow} {rest : List OutboxRow}
    (next : Next ε) : (c.go row rest next).held.Sublist (row :: rest) := by
  cases next with
  | done ok =>
      cases ok with
      | true => exact List.sublist_cons_self row rest
      | false => exact List.sublist_cons_self row rest
  | emitting event todo => exact List.Sublist.refl _
  | threw message => exact List.nil_sublist _

theorem Cycle.ahead_go {c : Cycle ε} {row : OutboxRow} {rest : List OutboxRow}
    (next : Next ε) : (c.go row rest next).ahead ⊆ rest := by
  cases next with
  | done ok =>
      cases ok with
      | true => exact fun _ h => h
      | false => exact fun _ h => h
  | emitting event todo => exact fun _ h => h
  | threw message => exact List.nil_subset _

/-! ## One turn, failing or not -/

/-- What a turn at `row` leaves in the outbox. -/
structure Tried (opts : DrainerOptions) (o : SqliteOutbox) (row : OutboxRow)
    (o' : SqliteOutbox) (next : Next ε) : Prop where
  same : ∀ event todo, next = .emitting event todo → o' = o
  threw : ∀ message, next = .threw message → o' = o
  processed : next = .done true → ∃ at', o' = o.update row.key (fun _ => some at') none (·.attempts)
  failed : next = .done false → ∃ error attempts,
    o' = o.update row.key (·.processedAt) (some error) (fun _ => attempts) ∧
      (attempts = opts.maxAttempts ∨ attempts = row.attempts + 1)

/-- A statement that is not refused finds its row. -/
def Goes (o : SqliteOutbox) (row : OutboxRow) (reply : Reply ε) (next : Next ε) : Prop :=
  reply.statement = none → row.key ∈ o.rows.map (·.key) → ∀ message, next ≠ .threw message

theorem markFailed_tried {opts : DrainerOptions} {o : SqliteOutbox} {row : OutboxRow}
    {reason : FailReason} {error : String} {attempts : ℕ∞} {reply : Reply ε}
    (hattempts : attempts = opts.maxAttempts ∨ attempts = row.attempts + 1) :
    Tried opts o row (markFailed o row reason error attempts reply).1
        (markFailed o row reason error attempts reply).2.2 ∧
      Goes o row reply (markFailed o row reason error attempts reply).2.2 := by
  unfold markFailed SqliteOutbox.markFailed Goes
  cases hstatement : reply.statement with
  | some message =>
      exact ⟨⟨nofun, fun _ _ => rfl, nofun, nofun⟩, nofun⟩
  | none =>
      by_cases hrow : row.key ∈ o.rows.map (·.key)
      · rw [if_pos hrow]
        exact ⟨⟨nofun, nofun, nofun, fun _ => ⟨error, attempts, rfl, hattempts⟩⟩,
          fun _ _ => nofun⟩
      · rw [if_neg hrow]
        exact ⟨⟨nofun, fun _ _ => rfl, nofun, nofun⟩, fun _ hmem => absurd hmem hrow⟩

theorem emitNext_tried {opts : DrainerOptions} {o : SqliteOutbox} {row : OutboxRow}
    {reply : Reply ε} (events : List ε) :
    Tried opts o row (emitNext o row reply events).1 (emitNext o row reply events).2.2 ∧
      Goes o row reply (emitNext o row reply events).2.2 := by
  cases events with
  | cons event todo =>
      exact ⟨⟨fun _ _ _ => rfl, nofun, nofun, nofun⟩, fun _ _ => nofun⟩
  | nil =>
      unfold emitNext markProcessed SqliteOutbox.markProcessed Goes
      cases hstatement : reply.statement with
      | some message =>
          exact ⟨⟨nofun, fun _ _ => rfl, nofun, nofun⟩, nofun⟩
      | none =>
          by_cases hrow : row.key ∈ o.rows.map (·.key)
          · rw [if_pos hrow]
            exact ⟨⟨nofun, nofun, fun _ => ⟨reply.now, rfl⟩, nofun⟩, fun _ _ => nofun⟩
          · rw [if_neg hrow]
            exact ⟨⟨nofun, fun _ _ => rfl, nofun, nofun⟩, fun _ hmem => absurd hmem hrow⟩

theorem processOne_tried {opts : DrainerOptions} {o : SqliteOutbox} {row : OutboxRow}
    {reply : Reply ε} :
    Tried opts o row (processOne opts o row reply).1 (processOne opts o row reply).2.2 ∧
      Goes o row reply (processOne opts o row reply).2.2 := by
  unfold processOne
  split
  · exact markFailed_tried (.inl rfl)
  · split
    · exact markFailed_tried (.inl rfl)
    · split
      · exact markFailed_tried (.inr rfl)
      · exact emitNext_tried _

theorem emitSettled_tried {opts : DrainerOptions} {o : SqliteOutbox} {row : OutboxRow}
    {todo : List ε} {reply : Reply ε} :
    Tried opts o row (emitSettled o row todo reply).1 (emitSettled o row todo reply).2.2 ∧
      Goes o row reply (emitSettled o row todo reply).2.2 := by
  unfold emitSettled
  split
  · exact markFailed_tried (.inr rfl)
  · exact emitNext_tried todo

/-- A turn of a cycle ends it with nothing done, or is about its first row. -/
theorem Cycle.advance_cases {opts : DrainerOptions} {o : SqliteOutbox} {stopRequested : Bool}
    {c : Cycle ε} {reply : Reply ε} {r : SqliteOutbox × List (Entry ε) × Cycle ε}
    (h : c.advance opts o stopRequested reply = some r) :
    (c.tries opts o stopRequested reply = none ∧ c.takesUp stopRequested = none ∧
        (stopRequested = true ∨ c.held = []) ∧ r = (o, [], c.finish)) ∨
      ∃ row rest next, c.tries opts o stopRequested reply = some (row, next) ∧
        c.held = row :: rest ∧ c.ahead ⊆ row :: rest ∧
        (c.takesUp stopRequested = some row ∧ c.ahead = c.held ∨
          c.takesUp stopRequested = none ∧ c.ahead = rest) ∧
        r.2.2 = c.go row rest next ∧ Tried opts o row r.1 next ∧ Goes o row reply next := by
  unfold Cycle.advance at h
  unfold Cycle.tries Cycle.takesUp Cycle.held Cycle.ahead
  split at h
  · cases h
  · rename_i hphase
    cases h
    rw [hphase]
    exact .inl ⟨rfl, rfl, .inr rfl, rfl⟩
  · rename_i row rest hphase
    rw [hphase]
    split at h
    · rename_i hstop
      cases h
      rw [hstop]
      exact .inl ⟨rfl, rfl, .inl rfl, rfl⟩
    · rename_i hstop
      cases h
      dsimp only
      rw [if_neg hstop, if_neg hstop]
      exact .inr ⟨row, rest, _, rfl, rfl, fun _ hmem => hmem, .inl ⟨rfl, rfl⟩, rfl,
        processOne_tried⟩
  · rename_i row event todo rest hphase
    cases h
    rw [hphase]
    exact .inr ⟨row, rest, _, rfl, rfl, List.subset_cons_self row rest, .inr ⟨rfl, rfl⟩, rfl,
      emitSettled_tried⟩

end Ap3xSolana.Webhooks
