import Mathlib.Data.ENat.Basic
import Mathlib.Data.List.Nodup
import Mathlib.Data.List.Sort

/-!
# The outbox

The table of `SqliteOutbox`, in rowid order, and its statements.  Attempts and their
limit may be `Infinity` in the source, hence `ℕ∞`.  The primary key is part of the
structure.
-/

namespace Ap3xSolana.Webhooks

/-- The primary key `(source, id)`. -/
abbrev Key := String × String

structure WebhookEvent where
  id : String
  source : String
  receivedAt : Int
  /-- The payload is UTF-8 text. -/
  rawPayload : String
  deriving DecidableEq, Repr

structure OutboxRow extends WebhookEvent where
  processedAt : Option Int := none
  error : Option String := none
  attempts : ℕ∞ := 0
  deriving DecidableEq

def WebhookEvent.key (e : WebhookEvent) : Key := (e.source, e.id)

structure SqliteOutbox where
  rows : List OutboxRow := []
  nodup : (rows.map (·.key)).Nodup := by decide

structure PendingOptions where
  limit : Nat
  maxAttempts : ℕ∞
  retryDelayMs : Int
  deriving DecidableEq

namespace SqliteOutbox

def find? (o : SqliteOutbox) (key : Key) : Option OutboxRow :=
  o.rows.find? (·.key = key)

/-- `INSERT … ON CONFLICT DO NOTHING`. -/
def insert (o : SqliteOutbox) (event : WebhookEvent) : SqliteOutbox :=
  if h : event.key ∈ o.rows.map (·.key) then o
  else
    { rows := o.rows ++ [{ event with }]
      nodup := by
        rw [List.map_append, List.map_singleton, ← List.concat_eq_append]
        exact o.nodup.concat h }

/-- The rows `pending` selects, before order and limit. -/
def eligible (opts : PendingOptions) (now : Int) (r : OutboxRow) : Bool :=
  if opts.maxAttempts = ⊤ then r.processedAt.isNone
  else
    r.processedAt.isNone && r.attempts < opts.maxAttempts &&
      (r.attempts = 0 || r.receivedAt ≤ now - opts.retryDelayMs)

/-- `ORDER BY received_at ASC LIMIT ?`; rows of one moment come in rowid order. -/
def pending (o : SqliteOutbox) (opts : PendingOptions) (now : Int) : List OutboxRow :=
  ((o.rows.filter (eligible opts now)).insertionSort
    fun a b => a.receivedAt ≤ b.receivedAt).take opts.limit

/-- An `UPDATE` of the columns outside the key. -/
def update (o : SqliteOutbox) (key : Key) (processedAt : OutboxRow → Option Int)
    (error : Option String) (attempts : OutboxRow → ℕ∞) : SqliteOutbox where
  rows := o.rows.map fun r =>
    if r.key = key then
      { r with processedAt := processedAt r, error := error, attempts := attempts r }
    else r
  nodup := by
    rw [List.map_map]
    convert o.nodup using 2
    funext r
    simp only [Function.comp_apply]
    split <;> rfl

/-- `UPDATE … WHERE source = ? AND id = ?`; no row is an error. -/
def markProcessed (o : SqliteOutbox) (key : Key) (processedAt : Int) :
    Except String SqliteOutbox :=
  if key ∈ o.rows.map (·.key) then
    .ok (o.update key (fun _ => some processedAt) none (·.attempts))
  else .error s!"SqliteOutbox.markProcessed: no row for ({key.1}, {key.2})"

def markFailed (o : SqliteOutbox) (key : Key) (error : String) (attempts : ℕ∞) :
    Except String SqliteOutbox :=
  if key ∈ o.rows.map (·.key) then
    .ok (o.update key (·.processedAt) (some error) fun _ => attempts)
  else .error s!"SqliteOutbox.markFailed: no row for ({key.1}, {key.2})"

/-! ## Lookups -/

theorem find?_eq_some {o : SqliteOutbox} {key : Key} {r : OutboxRow} :
    o.find? key = some r ↔ r ∈ o.rows ∧ r.key = key := by
  constructor
  · intro h
    exact ⟨List.mem_of_find?_eq_some h, by simpa using List.find?_some h⟩
  · rintro ⟨hmem, rfl⟩
    cases hfind : o.find? r.key with
    | none =>
        have hne := List.find?_eq_none.1 hfind r hmem
        simp at hne
    | some r' =>
        have hmem' := List.mem_of_find?_eq_some hfind
        have hkey : r'.key = r.key := by simpa using List.find?_some hfind
        rw [List.inj_on_of_nodup_map o.nodup hmem' hmem hkey]

theorem find?_eq_none {o : SqliteOutbox} {key : Key} :
    o.find? key = none ↔ key ∉ o.rows.map (·.key) := by
  simp [find?]

/-- A first delivery makes a row, any other one changes nothing. -/
theorem find?_insert (o : SqliteOutbox) (event : WebhookEvent) (key : Key) :
    (o.insert event).find? key =
      (o.find? key).or (if event.key = key then some { event with } else none) := by
  unfold insert
  split
  · rename_i h
    by_cases hkey : event.key = key
    · subst hkey
      obtain ⟨r, hr⟩ := Option.ne_none_iff_exists'.1 fun hnone => find?_eq_none.1 hnone h
      rw [hr, Option.some_or]
    · rw [if_neg hkey, Option.or_none]
  · simp only [find?, List.find?_append]
    congr 1
    by_cases hkey : event.key = key <;> simp [hkey]

theorem find?_update (o : SqliteOutbox) (key : Key) (processedAt : OutboxRow → Option Int)
    (error : Option String) (attempts : OutboxRow → ℕ∞) (k : Key) :
    (o.update key processedAt error attempts).find? k =
      (o.find? k).map fun r =>
        if k = key then
          { r with processedAt := processedAt r, error := error, attempts := attempts r }
        else r := by
  have hkeys : ∀ r : OutboxRow,
      (if r.key = key then
        { r with processedAt := processedAt r, error := error, attempts := attempts r }
      else r).key = r.key := by
    intro r
    split <;> rfl
  simp only [find?, update, List.find?_map]
  have hpred : ((fun r : OutboxRow => decide (r.key = k)) ∘ fun r =>
      if r.key = key then
        { r with processedAt := processedAt r, error := error, attempts := attempts r }
      else r) = fun r => decide (r.key = k) := by
    funext r
    simp only [Function.comp_apply, hkeys]
  rw [hpred]
  cases hfind : o.rows.find? (fun r => decide (r.key = k)) with
  | none => rfl
  | some r =>
      have hkey : r.key = k := by simpa using List.find?_some hfind
      simp only [Option.map_some, hkey]

theorem mem_pending {o : SqliteOutbox} {opts : PendingOptions} {now : Int} {r : OutboxRow}
    (h : r ∈ o.pending opts now) : o.find? r.key = some r ∧ eligible opts now r = true := by
  have hmem := (List.mem_insertionSort _).1 (List.mem_of_mem_take h)
  obtain ⟨hrow, hok⟩ := List.mem_filter.1 hmem
  exact ⟨find?_eq_some.2 ⟨hrow, rfl⟩, hok⟩

/-- No row comes twice in one batch. -/
theorem nodup_pending (o : SqliteOutbox) (opts : PendingOptions) (now : Int) :
    ((o.pending opts now).map (·.key)).Nodup := by
  unfold pending
  refine List.Nodup.sublist ((List.take_sublist _ _).map _) ?_
  refine (((List.perm_insertionSort _ _).map _).nodup_iff).2 ?_
  exact o.nodup.sublist (List.filter_sublist.map _)

end SqliteOutbox

end Ap3xSolana.Webhooks
