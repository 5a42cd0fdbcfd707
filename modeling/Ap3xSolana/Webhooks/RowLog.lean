import Ap3xSolana.Lib.Monitor
import Ap3xSolana.Webhooks.Drainer

/-!
# The log of one row

A row is normalized once, its events are emitted in order, then it is processed, and
nothing follows.  Failures come before.  `processOne_turn` and `emitSettled_turn` say
that a turn of a cycle keeps to this when `emit` and the outbox do not throw.
-/

namespace Ap3xSolana.Webhooks

open Ap3xSolana.Lib.Monitor

variable {ε : Type}

def Entry.key : Entry ε → Key
  | .normalized key _ => key
  | .emit key _ => key
  | .failed key _ => key
  | .processed key => key

/-- The entries about a row. -/
def logOf (key : Key) (log : List (Entry ε)) : List (Entry ε) := log.filter (·.key = key)

/-- What `normalizeEvent` gave, each time it did not throw. -/
def normalizedOf (log : List (Entry ε)) : List (List ε) :=
  log.filterMap fun e =>
    match e with
    | .normalized _ events => some events
    | _ => none

/-- The events emitted, in order. -/
def emittedOf (log : List (Entry ε)) : List ε :=
  log.filterMap fun e =>
    match e with
    | .emit _ event => some event
    | _ => none

def failuresOf (log : List (Entry ε)) : List FailReason :=
  log.filterMap fun e =>
    match e with
    | .failed _ reason => some reason
    | _ => none

/-- What the log of a row amounts to. -/
inductive RowState (ε : Type) where
  | fresh
  /-- These events are still to be emitted. -/
  | emitting (todo : List ε)
  | done
  deriving DecidableEq

namespace RowState

def next : RowState ε → Entry ε → RowState ε
  | .fresh, .normalized _ events => .emitting events
  | .emitting (_ :: todo), .emit _ _ => .emitting todo
  | .emitting [], .processed _ => .done
  | s, _ => s

/-- What may come next. -/
def Allows : RowState ε → Entry ε → Prop
  | .fresh, .normalized .. => True
  | .fresh, .failed _ reason => reason ≠ .emit
  | .emitting (event :: _), .emit _ e => e = event
  | .emitting [], .processed _ => True
  | _, _ => False

/-- How far the events of a row have come. -/
def Says (log : List (Entry ε)) : RowState ε → Prop
  | .fresh => normalizedOf log = [] ∧ emittedOf log = []
  | .emitting todo =>
      ∃ events, normalizedOf log = [events] ∧ emittedOf log ++ todo = events
  | .done => ∃ events, normalizedOf log = [events] ∧ emittedOf log = events

theorem says_next {log : List (Entry ε)} {s : RowState ε} {e : Entry ε} (h : s.Says log)
    (hok : s.Allows e) : (s.next e).Says (log ++ [e]) := by
  have hnorm : normalizedOf (log ++ [e]) = normalizedOf log ++ normalizedOf [e] :=
    List.filterMap_append
  have hemit : emittedOf (log ++ [e]) = emittedOf log ++ emittedOf [e] :=
    List.filterMap_append
  cases s with
  | fresh =>
      obtain ⟨hn, he⟩ := h
      cases e with
      | normalized key events =>
          refine ⟨events, by rw [hnorm, hn]; rfl, ?_⟩
          rw [hemit, he]
          rfl
      | failed key reason => exact ⟨by rw [hnorm, hn]; rfl, by rw [hemit, he]; rfl⟩
      | emit key event => cases hok
      | processed key => cases hok
  | emitting todo =>
      obtain ⟨events, hn, he⟩ := h
      cases todo with
      | nil =>
          cases e with
          | processed key =>
              exact ⟨events, by rw [hnorm, hn]; rfl, by rw [hemit, ← he]; rfl⟩
          | _ => cases hok
      | cons event todo =>
          cases e with
          | emit key event' =>
              obtain rfl : event' = event := hok
              refine ⟨events, by rw [hnorm, hn]; rfl, ?_⟩
              rw [hemit, List.append_assoc, ← he]
              rfl
          | _ => cases hok
  | done => cases e <;> cases hok

theorem says_foldl {log es : List (Entry ε)} {s : RowState ε} (h : s.Says log)
    (hok : Accepts next Allows s es) : (es.foldl next s).Says (log ++ es) := by
  induction es generalizing log s with
  | nil => simpa using h
  | cons e es ih =>
      have hrest := ih (says_next h hok.1) hok.2
      rwa [List.append_assoc, List.singleton_append] at hrest

end RowState

/-! ## One turn of a cycle -/

/-- What a turn at `row`, whose log is at `s`, does to the outbox and to the log. -/
structure Turn (o : SqliteOutbox) (row : OutboxRow) (s : RowState ε) (out : Outcome ε) :
    Prop where
  keys : ∀ e ∈ out.2.1, e.key = row.key
  accepts : Accepts RowState.next RowState.Allows s out.2.1
  frame : ∀ key, key ≠ row.key → out.1.find? key = o.find? key
  result :
    match out.2.2 with
    | .done true =>
        out.2.1.foldl RowState.next s = .done ∧
          ∃ r, out.1.find? row.key = some r ∧ r.processedAt.isSome
    | .done false =>
        out.2.1.foldl RowState.next s = .fresh ∧
          ∃ reason r, out.2.1 = [.failed row.key reason] ∧
            out.1.find? row.key = some r ∧ r.processedAt = none ∧
            (reason.parks ∨ r.attempts = row.attempts + 1)
    | .emitting _ todo =>
        out.2.1.foldl RowState.next s = .emitting todo ∧ out.1 = o ∧ failuresOf out.2.1 = []
    | .threw _ => False

/-- A row that a cycle has read and that is still as it was read. -/
def Current (o : SqliteOutbox) (row : OutboxRow) : Prop :=
  o.find? row.key = some row ∧ row.processedAt = none

theorem mem_keys_of_find? {o : SqliteOutbox} {key : Key} {r : OutboxRow}
    (h : o.find? key = some r) : key ∈ o.rows.map (·.key) := by
  obtain ⟨hmem, rfl⟩ := SqliteOutbox.find?_eq_some.1 h
  exact List.mem_map_of_mem hmem

theorem find?_update_ne {o : SqliteOutbox} {key k : Key}
    {processedAt : OutboxRow → Option Int} {error : Option String}
    {attempts : OutboxRow → ℕ∞} (hne : k ≠ key) :
    (o.update key processedAt error attempts).find? k = o.find? k := by
  rw [SqliteOutbox.find?_update]
  simp [hne]

theorem find?_update_self {o : SqliteOutbox} {row : OutboxRow} (h : o.find? row.key = some row)
    (processedAt : OutboxRow → Option Int) (error : Option String)
    (attempts : OutboxRow → ℕ∞) :
    (o.update row.key processedAt error attempts).find? row.key =
      some { row with
        processedAt := processedAt row, error := error, attempts := attempts row } := by
  rw [SqliteOutbox.find?_update, h, Option.map_some, if_pos rfl]

theorem markFailed_turn {o : SqliteOutbox} {row : OutboxRow} {reason : FailReason}
    {error : String} {attempts : ℕ∞} {reply : Reply ε} (hrow : Current o row)
    (hstatement : reply.statement = none) (hemit : reason ≠ .emit)
    (hattempts : reason.parks ∨ attempts = row.attempts + 1) :
    Turn o row .fresh (markFailed o row reason error attempts reply) := by
  unfold markFailed SqliteOutbox.markFailed
  rw [hstatement, if_pos (mem_keys_of_find? hrow.1)]
  refine ⟨?_, ⟨hemit, trivial⟩, fun key hkey => find?_update_ne hkey, rfl, reason, _, rfl,
    find?_update_self hrow.1 _ _ _, hrow.2, hattempts⟩
  rintro e he
  obtain rfl := List.mem_singleton.1 he
  rfl

/-- The end of a row: every event has been emitted. -/
theorem markProcessed_eq {o : SqliteOutbox} {row : OutboxRow} {reply : Reply ε}
    (hrow : Current o row) (hstatement : reply.statement = none) :
    ∃ o', markProcessed o row reply = (o', [.processed row.key], .done true) ∧
      (∀ key, key ≠ row.key → o'.find? key = o.find? key) ∧
      ∃ r, o'.find? row.key = some r ∧ r.processedAt.isSome := by
  unfold markProcessed SqliteOutbox.markProcessed
  rw [hstatement, if_pos (mem_keys_of_find? hrow.1)]
  exact ⟨_, rfl, fun key hkey => find?_update_ne hkey, _, find?_update_self hrow.1 _ _ _, rfl⟩

theorem emitNext_turn {o : SqliteOutbox} {row : OutboxRow} {reply : Reply ε}
    (hrow : Current o row) (hstatement : reply.statement = none) (events : List ε) :
    Turn o row (.emitting events) (emitNext o row reply events) := by
  cases events with
  | nil =>
      obtain ⟨o', heq, hframe, hdone⟩ := markProcessed_eq hrow hstatement
      rw [emitNext, heq]
      refine ⟨fun e he => ?_, ⟨trivial, trivial⟩, hframe, rfl, hdone⟩
      obtain rfl := List.mem_singleton.1 he
      rfl
  | cons event todo =>
      refine ⟨fun e he => ?_, ⟨rfl, trivial⟩, fun _ _ => rfl, rfl, rfl, rfl⟩
      obtain rfl := List.mem_singleton.1 he
      rfl

/-- Normalizing a row makes the turn over its events the turn of the row. -/
theorem normalized_turn {o : SqliteOutbox} {row : OutboxRow} {events : List ε}
    {out : Outcome ε} (h : Turn o row (.emitting events) out)
    (hfailed : ∀ reason, out.2.1 ≠ [.failed row.key reason]) :
    Turn o row .fresh (out.1, .normalized row.key events :: out.2.1, out.2.2) := by
  obtain ⟨o', entries, next⟩ := out
  obtain ⟨hkeys, haccepts, hframe, hresult⟩ := h
  refine ⟨?_, ⟨trivial, haccepts⟩, hframe, ?_⟩
  · rintro e (_ | ⟨_, he⟩)
    · rfl
    · exact hkeys e he
  · cases next with
    | done ok =>
        cases ok with
        | true => exact hresult
        | false =>
            obtain ⟨-, reason, r, hentries, -⟩ := hresult
            exact absurd hentries (hfailed reason)
    | emitting event todo => exact hresult
    | threw message => exact hresult

theorem emitNext_entries_ne_failed {o : SqliteOutbox} {row : OutboxRow} {reply : Reply ε}
    (hrow : Current o row) (hstatement : reply.statement = none) (events : List ε)
    (reason : FailReason) : (emitNext o row reply events).2.1 ≠ [.failed row.key reason] := by
  cases events with
  | nil =>
      obtain ⟨o', heq, -⟩ := markProcessed_eq hrow hstatement
      rw [emitNext, heq]
      simp
  | cons event todo => simp [emitNext]

/-- The turn that takes a fresh row. -/
theorem processOne_turn {opts : DrainerOptions} {o : SqliteOutbox} {row : OutboxRow}
    {reply : Reply ε} (hrow : Current o row) (hstatement : reply.statement = none) :
    Turn o row .fresh (processOne opts o row reply) := by
  unfold processOne
  split
  · exact markFailed_turn hrow hstatement (by decide) (.inl rfl)
  · split
    · exact markFailed_turn hrow hstatement (by decide) (.inl rfl)
    · split
      · exact markFailed_turn hrow hstatement (by decide) (.inr rfl)
      · rename_i events _
        exact normalized_turn (emitNext_turn hrow hstatement events)
          (emitNext_entries_ne_failed hrow hstatement events)

/-- The turn after an event that was emitted. -/
theorem emitSettled_turn {o : SqliteOutbox} {row : OutboxRow} {todo : List ε}
    {reply : Reply ε} (hrow : Current o row) (hstatement : reply.statement = none)
    (hemit : reply.emit = none) :
    Turn o row (.emitting todo) (emitSettled o row todo reply) := by
  unfold emitSettled
  rw [hemit]
  exact emitNext_turn hrow hstatement todo

end Ap3xSolana.Webhooks
