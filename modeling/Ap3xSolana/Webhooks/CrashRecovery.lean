import Ap3xSolana.Webhooks.History

/-!
# Crashes

The pipeline, with a process that may end between any two steps, and a consumer that keeps what
reaches it once for each row and position.  The table and what the consumer has are all that a
crash leaves.
-/

namespace Ap3xSolana.Webhooks.CrashRecovery

open Ap3xSolana.Lib.Run

variable {ε : Type}

/-! ## The machine -/

/-- An event as the consumer knows it: its row and its place among the row's events. -/
structure Seen (ε : Type) where
  key : Key
  position : Nat
  event : ε
  deriving DecidableEq

structure State (ε : Type) where
  pipeline : Webhooks.State ε := {}
  /-- The rows of each delivery that was answered with 200. -/
  acknowledged : List (List Key) := []
  seen : List (Seen ε) := []

inductive Action (ε : Type) where
  | act (a : Webhooks.Action ε)
  /-- The answer to a delivery is sent. -/
  | answer (delivery : Nat)
  /-- What a cycle emits reaches the consumer. -/
  | reach (cycle : Nat)
  /-- The process ends, and another one takes over its table. -/
  | crash

/-- `normalizeEvent` of the driver, with the row it is given. -/
abbrev Normalize (ε : Type) := WebhookEvent → Except String (List ε)

/-- The event whose `emit` the cycle awaits. -/
def awaited (normalize : Normalize ε) (c : Cycle ε) : Option (Seen ε) :=
  match c.phase with
  | .emitting row event todo _ =>
      match normalize row.toWebhookEvent with
      | .ok events =>
          some { key := row.key, position := events.length - (todo.length + 1), event := event }
      | .error _ => none
  | _ => none

/-- The consumer has something for this row and position. -/
def has (seen : List (Seen ε)) (e : Seen ε) : Bool :=
  seen.any fun s => s.key = e.key ∧ s.position = e.position

/-- The consumer drops what it has seen already. -/
def consume (seen : List (Seen ε)) (e : Seen ε) : List (Seen ε) :=
  if has seen e then seen else seen ++ [e]

/-- The reply a cycle gets: what `normalizeEvent` gives is the driver's. -/
def replied (normalize : Normalize ε) (c : Cycle ε) (reply : Reply ε) : Reply ε :=
  match c.phase with
  | .rows (row :: _) => { reply with normalized := normalize row.toWebhookEvent }
  | _ => reply

/-- An `emit` that resolves has reached the consumer. -/
def reached (normalize : Normalize ε) (seen : List (Seen ε)) (c : Cycle ε) (reply : Reply ε) :
    Bool :=
  reply.emit.isSome || (awaited normalize c).all (has seen)

def advance (opts : Options) (normalize : Normalize ε) (st : State ε) (i : Nat)
    (reply : Reply ε) : Option (State ε) :=
  match st.pipeline.drainer.cycles[i]? with
  | none => none
  | some c =>
      if reached normalize st.seen c reply then
        (advanceStep opts st.pipeline i (replied normalize c reply)).map fun pipeline =>
          { st with pipeline := pipeline }
      else none

def step (opts : Options) (normalize : Normalize ε) (st : State ε) :
    Action ε → Option (State ε)
  | .act (.advance i reply) => advance opts normalize st i reply
  | .act a =>
      (Webhooks.step opts st.pipeline a).map fun pipeline => { st with pipeline := pipeline }
  | .answer i =>
      match st.pipeline.deliveries[i]? with
      | some (.settled keys (.ok (.accepted _))) =>
          some { st with acknowledged := st.acknowledged ++ [keys] }
      | _ => none
  | .reach i =>
      (st.pipeline.drainer.cycles[i]?.bind (awaited normalize)).map fun e =>
        { st with seen := consume st.seen e }
  | .crash =>
      some { st with
        pipeline := { outbox := st.pipeline.outbox, log := st.pipeline.log } }

/-! ## What survives -/

/-- The events of a row, in order. -/
def allOf (key : Key) (events : List ε) : List (Seen ε) :=
  events.mapIdx fun position event => { key := key, position := position, event := event }

/-- What the consumer has of a row. -/
def seenOf (key : Key) (seen : List (Seen ε)) : List (Seen ε) := seen.filter (·.key = key)

/-- The row is not processed, and it is waiting or parked. -/
def Left (opts : DrainerOptions) (log : List (Entry ε)) (r : OutboxRow) : Prop :=
  r.processedAt = none ∧ (Eligible opts r ∨ Parked opts (failuresOf (logOf r.key log)))

structure Survives (opts : Options) (normalize : Normalize ε) (st : State ε) : Prop where
  acknowledged : ∀ keys ∈ st.acknowledged, ∀ key ∈ keys,
    ∃ r, st.pipeline.outbox.find? key = some r ∧
      ((∃ events, normalize r.toWebhookEvent = .ok events ∧ allOf key events ⊆ st.seen) ∨
        Left opts.drainer st.pipeline.log r)
  once : ∀ key r, st.pipeline.outbox.find? key = some r → r.processedAt.isSome →
    ∃ events, normalize r.toWebhookEvent = .ok events ∧ seenOf key st.seen = allOf key events
  /-- A crash counts for nothing. -/
  crash : ∀ st', step opts normalize st .crash = some st' → ∀ key,
    st'.pipeline.outbox.find? key = st.pipeline.outbox.find? key ∧
      failuresOf (logOf key st'.pipeline.log) = failuresOf (logOf key st.pipeline.log)

/-! ## What the consumer has -/

theorem allOf_append (key : Key) (before after : List ε) (event : ε) :
    ∃ rest, allOf key (before ++ event :: after) =
      allOf key before ++ { key := key, position := before.length, event := event } :: rest := by
  unfold allOf
  rw [List.mapIdx_append, List.mapIdx_cons]
  simp

theorem length_allOf (key : Key) (events : List ε) : (allOf key events).length = events.length := by
  simp [allOf]

/-- A consumer that has an initial part of the events has the positions below its length. -/
theorem has_iff {seen : List (Seen ε)} {key : Key} {events : List ε}
    (h : seenOf key seen <+: allOf key events) (position : Nat) (event : ε) :
    has seen { key := key, position := position, event := event } = true ↔
      position < (seenOf key seen).length := by
  have hget : ∀ (i : Nat) s, (seenOf key seen)[i]? = some s → s.position = i := by
    intro i s hs
    have hall := (List.prefix_iff_getElem?.1 h) i (List.getElem?_eq_some_iff.1 hs).1
    rw [(List.getElem?_eq_some_iff.1 hs).2] at hall
    simp only [allOf, List.getElem?_mapIdx, Option.map_eq_some_iff] at hall
    obtain ⟨_, -, rfl⟩ := hall
    rfl
  constructor
  · intro hhas
    obtain ⟨s, hs, hsame⟩ := List.any_eq_true.1 hhas
    obtain ⟨hkey, hposition⟩ : s.key = key ∧ s.position = position := by simpa using hsame
    have hmem : s ∈ seenOf key seen := List.mem_filter.2 ⟨hs, by simpa using hkey⟩
    obtain ⟨i, hi⟩ := List.mem_iff_getElem?.1 hmem
    have hlt := (List.getElem?_eq_some_iff.1 hi).1
    have hat := hget i s hi
    omega
  · intro hlt
    have hs := List.getElem?_eq_getElem hlt
    have hat := hget position _ hs
    have hmem := List.mem_filter.1 (List.mem_of_getElem? hs)
    exact List.any_eq_true.2 ⟨_, hmem.1, by simpa [hat] using hmem.2⟩

theorem seenOf_consume_ne {seen : List (Seen ε)} {e : Seen ε} {key : Key} (h : key ≠ e.key) :
    seenOf key (consume seen e) = seenOf key seen := by
  unfold consume
  split
  · rfl
  · simp [seenOf, Ne.symm h]

/-- What comes next in its row is kept, and what was there already is not kept again. -/
theorem seenOf_consume {seen : List (Seen ε)} {key : Key} {before after : List ε} {event : ε}
    (h : seenOf key seen <+: allOf key (before ++ event :: after))
    (hlength : before.length ≤ (seenOf key seen).length) :
    seenOf key (consume seen { key := key, position := before.length, event := event }) <+:
        allOf key (before ++ event :: after) ∧
      before.length <
        (seenOf key (consume seen
          { key := key, position := before.length, event := event })).length := by
  obtain ⟨rest, hall⟩ := allOf_append key before after event
  have hiff := has_iff h before.length event
  unfold consume
  by_cases hlt : before.length < (seenOf key seen).length
  · rw [if_pos (hiff.2 hlt)]
    exact ⟨h, hlt⟩
  · have hbefore : seenOf key seen = allOf key before := by
      refine List.IsPrefix.eq_of_length (List.prefix_of_prefix_length_le h ?_ ?_) ?_
      · rw [hall]
        exact List.prefix_append _ _
      · rw [length_allOf]
        omega
      · rw [length_allOf]
        omega
    have hnew : seenOf key (seen ++ [{ key := key, position := before.length, event := event }]) =
        allOf key before ++ [{ key := key, position := before.length, event := event }] := by
      rw [← hbefore]
      simp [seenOf]
    rw [if_neg fun hhas => hlt (hiff.1 hhas), hnew, hall]
    refine ⟨⟨rest, by simp⟩, ?_⟩
    rw [List.length_append, length_allOf]
    simp

/-! ## One turn of a cycle -/

/-- What a turn at `row` with the events `left` to emit, if nothing has failed, does. -/
structure Went (o : SqliteOutbox) (row : OutboxRow) (left : Option (List ε))
    (out : Outcome ε) : Prop where
  keys : ∀ e ∈ out.2.1, e.key = row.key
  others : ∀ key, key ≠ row.key → out.1.find? key = o.find? key
  /-- The columns change when the row is processed or has failed. -/
  self : ∀ r, o.find? row.key = some r → ∃ r', out.1.find? row.key = some r' ∧
    r'.toWebhookEvent = r.toWebhookEvent ∧
    (r'.processedAt.isSome → r.processedAt.isSome ∨ left = some []) ∧
    (r'.attempts = r.attempts ∨ (∃ reason ∈ failuresOf out.2.1, reason.parks) ∨
      r'.attempts = row.attempts + 1 ∧ failuresOf out.2.1 ≠ [])
  emitting : ∀ event todo, out.2.2 = .emitting event todo → left = some (event :: todo)

/-- A turn that leaves the table alone. -/
theorem went_same {o : SqliteOutbox} {row : OutboxRow} {left : Option (List ε)}
    {entries : List (Entry ε)} {next : Next ε} (hkeys : ∀ e ∈ entries, e.key = row.key)
    (hemitting : ∀ event todo, next = .emitting event todo → left = some (event :: todo)) :
    Went o row left (o, entries, next) where
  keys := hkeys
  others := fun _ _ => rfl
  self := fun r hr => ⟨r, hr, rfl, .inl, .inl rfl⟩
  emitting := hemitting

theorem markFailed_went {o : SqliteOutbox} {row : OutboxRow} {reason : FailReason}
    {error : String} {attempts : ℕ∞} {reply : Reply ε} (left : Option (List ε))
    (hattempts : reason.parks ∨ attempts = row.attempts + 1) :
    Went o row left (markFailed o row reason error attempts reply) := by
  unfold markFailed SqliteOutbox.markFailed
  cases reply.statement with
  | some message => exact went_same nofun nofun
  | none =>
      by_cases hrow : row.key ∈ o.rows.map (·.key)
      · rw [if_pos hrow]
        refine ⟨fun e he => ?_, fun key hkey => find?_update_ne hkey, fun r hr => ?_, nofun⟩
        · obtain rfl := List.mem_singleton.1 he
          rfl
        · dsimp only
          rw [SqliteOutbox.find?_update, hr, Option.map_some, if_pos rfl]
          refine ⟨_, rfl, rfl, .inl, .inr ?_⟩
          rcases hattempts with hparks | hnext
          · exact .inl ⟨reason, List.mem_cons_self, hparks⟩
          · exact .inr ⟨hnext, List.cons_ne_nil _ _⟩
      · rw [if_neg hrow]
        exact went_same nofun nofun

theorem emitNext_went {o : SqliteOutbox} {row : OutboxRow} {reply : Reply ε}
    (events : List ε) : Went o row (some events) (emitNext o row reply events) := by
  cases events with
  | cons event todo =>
      refine went_same (fun e he => ?_) fun event' todo' hnext => ?_
      · obtain rfl := List.mem_singleton.1 he
        rfl
      · cases hnext
        rfl
  | nil =>
      unfold emitNext markProcessed SqliteOutbox.markProcessed
      cases reply.statement with
      | some message => exact went_same nofun nofun
      | none =>
          by_cases hrow : row.key ∈ o.rows.map (·.key)
          · rw [if_pos hrow]
            refine ⟨fun e he => ?_, fun key hkey => find?_update_ne hkey, fun r hr => ?_, nofun⟩
            · obtain rfl := List.mem_singleton.1 he
              rfl
            · dsimp only
              rw [SqliteOutbox.find?_update, hr, Option.map_some, if_pos rfl]
              exact ⟨_, rfl, rfl, fun _ => .inr rfl, .inl rfl⟩
          · rw [if_neg hrow]
            exact went_same nofun nofun

/-- Normalizing comes first, and is no failure. -/
theorem Went.normalized {o : SqliteOutbox} {row : OutboxRow} {left : Option (List ε)}
    {out : Outcome ε} (h : Went o row left out) (events : List ε) :
    Went o row left (out.1, .normalized row.key events :: out.2.1, out.2.2) where
  keys e he := by
    rcases List.mem_cons.1 he with rfl | hrest
    · rfl
    · exact h.keys e hrest
  others := h.others
  self := h.self
  emitting := h.emitting

theorem processOne_went (opts : DrainerOptions) (o : SqliteOutbox) (row : OutboxRow)
    (reply : Reply ε) :
    Went o row reply.normalized.toOption (processOne opts o row reply) := by
  unfold processOne
  split
  · exact markFailed_went _ (.inl rfl)
  · split
    · exact markFailed_went _ (.inl rfl)
    · split
      · exact markFailed_went _ (.inr rfl)
      · next events hevents =>
          rw [hevents]
          exact (emitNext_went events).normalized events

theorem emitSettled_went (o : SqliteOutbox) (row : OutboxRow) (todo : List ε)
    (reply : Reply ε) :
    Went o row (if reply.emit = none then some todo else none)
      (emitSettled o row todo reply) := by
  unfold emitSettled
  cases reply.emit with
  | some message => exact markFailed_went _ (.inr rfl)
  | none =>
      rw [if_pos rfl]
      exact emitNext_went todo

/-! ## The invariant -/

/-- The attempts are failures, unless one of these parks the row. -/
def Counted (log : List (Entry ε)) (key : Key) (attempts : ℕ∞) : Prop :=
  (∃ reason ∈ failuresOf (logOf key log), reason.parks) ∨
    attempts ≤ (failuresOf (logOf key log)).length

structure Inv (opts : Options) (normalize : Normalize ε) (st : State ε) : Prop where
  stored : ∀ d ∈ st.pipeline.deliveries,
    d.Stored opts.receiver.driver.source st.pipeline.outbox
  acknowledged : ∀ keys ∈ st.acknowledged, ∀ key ∈ keys,
    ∃ r, st.pipeline.outbox.find? key = some r
  counted : ∀ key r, st.pipeline.outbox.find? key = some r →
    Counted st.pipeline.log key r.attempts
  held : ∀ c ∈ st.pipeline.drainer.cycles, ∀ row ∈ c.held,
    Counted st.pipeline.log row.key row.attempts ∧
      ∃ r, st.pipeline.outbox.find? row.key = some r ∧ r.toWebhookEvent = row.toWebhookEvent
  emitting : ∀ c ∈ st.pipeline.drainer.cycles, ∀ row event todo rest,
    c.phase = .emitting row event todo rest →
      ∃ before, normalize row.toWebhookEvent = .ok (before ++ event :: todo) ∧
        before.length ≤ (seenOf row.key st.seen).length
  /-- What the consumer has of a row is an initial part of its events. -/
  seen : ∀ key r, st.pipeline.outbox.find? key = some r → ∀ events,
    normalize r.toWebhookEvent = .ok events → seenOf key st.seen <+: allOf key events
  unseen : ∀ key, st.pipeline.outbox.find? key = none → seenOf key st.seen = []
  processed : ∀ key r, st.pipeline.outbox.find? key = some r → r.processedAt.isSome →
    ∃ events, normalize r.toWebhookEvent = .ok events ∧
      seenOf key st.seen = allOf key events

theorem inv_init (opts : Options) (normalize : Normalize ε) :
    Inv opts normalize ({} : State ε) where
  stored _ h := by cases h
  acknowledged _ h := by cases h
  counted _ _ h := by cases h
  held _ h := by cases h
  emitting _ h := by cases h
  seen _ _ h := by cases h
  unseen _ _ := rfl
  processed _ _ h := by cases h

theorem Counted.left {opts : DrainerOptions} {log : List (Entry ε)} {key : Key}
    {r : OutboxRow} (h : Counted log key r.attempts) (hkey : r.key = key)
    (hnone : r.processedAt = none) : Left opts log r := by
  refine ⟨hnone, ?_⟩
  rw [hkey]
  rcases h with hparks | hle
  · exact .inr (.inl hparks)
  · by_cases hmax : opts.maxAttempts ≤ (failuresOf (logOf key log)).length
    · exact .inr (.inr hmax)
    · exact .inl ⟨hnone, .inr (hle.trans_lt (not_le.1 hmax))⟩

theorem Inv.survives {opts : Options} {normalize : Normalize ε} {st : State ε}
    (h : Inv opts normalize st) : Survives opts normalize st where
  acknowledged keys hkeys key hkey := by
    obtain ⟨r, hr⟩ := h.acknowledged keys hkeys key hkey
    refine ⟨r, hr, ?_⟩
    cases hdone : r.processedAt with
    | some at' =>
        obtain ⟨events, hevents, hseen⟩ := h.processed key r hr (by rw [hdone]; rfl)
        refine .inl ⟨events, hevents, ?_⟩
        rw [← hseen]
        exact List.filter_subset_self _
    | none =>
        exact .inr ((h.counted key r hr).left (SqliteOutbox.find?_eq_some.1 hr).2 hdone)
  once := h.processed
  crash _ hstep _ := by
    cases hstep
    exact ⟨rfl, rfl⟩

/-! ## Steps of the pipeline -/

theorem Counted.append {log : List (Entry ε)} {key : Key} {attempts : ℕ∞}
    (h : Counted log key attempts) (entries : List (Entry ε)) :
    Counted (log ++ entries) key attempts := by
  have hfailures : failuresOf (logOf key (log ++ entries)) =
      failuresOf (logOf key log) ++ failuresOf (logOf key entries) := by
    rw [logOf_append]
    exact List.filterMap_append
  unfold Counted
  rw [hfailures]
  rcases h with ⟨reason, hreason, hparks⟩ | hle
  · exact .inl ⟨reason, List.mem_append_left _ hreason, hparks⟩
  · refine .inr (hle.trans ?_)
    rw [List.length_append]
    exact_mod_cast Nat.le_add_right _ _

/-- A failure that counts is in the log. -/
theorem Counted.failed {log entries : List (Entry ε)} {row : OutboxRow}
    (h : Counted log row.key row.attempts) (hkeys : ∀ e ∈ entries, e.key = row.key)
    (hfailed : failuresOf entries ≠ []) :
    Counted (log ++ entries) row.key (row.attempts + 1) := by
  have hfailures : failuresOf (logOf row.key (log ++ entries)) =
      failuresOf (logOf row.key log) ++ failuresOf entries := by
    rw [logOf_append, logOf_self hkeys]
    exact List.filterMap_append
  unfold Counted
  rw [hfailures]
  rcases h with ⟨reason, hreason, hparks⟩ | hle
  · exact .inl ⟨reason, List.mem_append_left _ hreason, hparks⟩
  · have hone : 1 ≤ (failuresOf entries).length := List.length_pos_iff.2 hfailed
    refine .inr ((add_le_add_left hle 1).trans ?_)
    rw [List.length_append]
    exact_mod_cast Nat.add_le_add_left hone _

/-- A step that is not a turn: deliveries add rows, and a cycle that begins has read its rows. -/
theorem Inv.grow {opts : Options} {normalize : Normalize ε} {st : State ε}
    (h : Inv opts normalize st) {pipeline : Webhooks.State ε}
    (hgrown : Grown st.pipeline.outbox pipeline.outbox) (hlog : pipeline.log = st.pipeline.log)
    (hstored : ∀ d ∈ pipeline.deliveries, d.Stored opts.receiver.driver.source pipeline.outbox)
    (hcycles : ∀ c ∈ pipeline.drainer.cycles, c ∈ st.pipeline.drainer.cycles ∨
      (∀ row ∈ c.held, st.pipeline.outbox.find? row.key = some row) ∧
        ∀ row event todo rest, c.phase ≠ .emitting row event todo rest) :
    Inv opts normalize { st with pipeline := pipeline } := by
  have hold : ∀ key r, pipeline.outbox.find? key = some r →
      st.pipeline.outbox.find? key = some r ∨
        st.pipeline.outbox.find? key = none ∧ r.processedAt = none ∧ r.attempts = 0 := by
    intro key r hr
    cases hbefore : st.pipeline.outbox.find? key with
    | none => exact .inr ⟨rfl, hgrown.new key r hbefore hr⟩
    | some r₀ =>
        have hsame := hgrown.old key r₀ hbefore
        rw [hr] at hsame
        cases hsame
        exact .inl rfl
  have hrow : ∀ (row : OutboxRow) r, st.pipeline.outbox.find? row.key = some r →
      r.toWebhookEvent = row.toWebhookEvent →
      ∃ r, pipeline.outbox.find? row.key = some r ∧ r.toWebhookEvent = row.toWebhookEvent :=
    fun row r hr hsame => ⟨r, hgrown.old row.key r hr, hsame⟩
  refine ⟨hstored, fun keys hkeys key hkey => ?_, fun key r hr => ?_, fun c hc row hmem => ?_,
    fun c hc row event todo rest hphase => ?_, fun key r hr events hevents => ?_,
    fun key hnone => ?_, fun key r hr hdone => ?_⟩
  · obtain ⟨r, hr⟩ := h.acknowledged keys hkeys key hkey
    exact ⟨r, hgrown.old key r hr⟩
  · dsimp only
    rw [hlog]
    rcases hold key r hr with hbefore | ⟨-, -, hzero⟩
    · exact h.counted key r hbefore
    · rw [hzero]
      exact .inr zero_le
  · dsimp only
    rw [hlog]
    rcases hcycles c hc with hbefore | ⟨hread, -⟩
    · obtain ⟨hcounted, r, hr, hsame⟩ := h.held c hbefore row hmem
      exact ⟨hcounted, hrow row r hr hsame⟩
    · have hfind := hread row hmem
      exact ⟨h.counted row.key row hfind, hrow row row hfind rfl⟩
  · rcases hcycles c hc with hbefore | ⟨-, hnot⟩
    · exact h.emitting c hbefore row event todo rest hphase
    · exact absurd hphase (hnot row event todo rest)
  · rcases hold key r hr with hbefore | ⟨hbefore, -, -⟩
    · exact h.seen key r hbefore events hevents
    · dsimp only
      rw [h.unseen key hbefore]
      exact List.nil_prefix
  · refine h.unseen key (Option.eq_none_iff_forall_ne_some.2 fun r hr => ?_)
    have hsame := hgrown.old key r hr
    dsimp only at hnone
    rw [hnone] at hsame
    cases hsame
  · rcases hold key r hr with hbefore | ⟨-, hnone, -⟩
    · exact h.processed key r hbefore hdone
    · rw [hnone] at hdone
      cases hdone

/-! ## Turns -/

/-- A row that was there is there, with what became of it; and no other row is there. -/
theorem Went.find? {o : SqliteOutbox} {row : OutboxRow} {left : Option (List ε)}
    {out : Outcome ε} (h : Went o row left out) (hrow : ∃ r, o.find? row.key = some r)
    (key : Key) :
    (o.find? key = none → out.1.find? key = none) ∧
      (∀ r, o.find? key = some r →
        ∃ r', out.1.find? key = some r' ∧ r'.toWebhookEvent = r.toWebhookEvent) ∧
      ∀ r', out.1.find? key = some r' → ∃ r, o.find? key = some r ∧
        r'.toWebhookEvent = r.toWebhookEvent := by
  by_cases hkey : key = row.key
  · subst hkey
    obtain ⟨r, hr⟩ := hrow
    obtain ⟨r', hr', hsame, -⟩ := h.self r hr
    refine ⟨fun hnone => ?_, fun r₀ hr₀ => ?_, fun r₀ hr₀ => ?_⟩
    · rw [hr] at hnone
      cases hnone
    · rw [hr] at hr₀
      cases hr₀
      exact ⟨r', hr', hsame⟩
    · rw [hr'] at hr₀
      cases hr₀
      exact ⟨r, hr, hsame⟩
  · rw [h.others key hkey]
    exact ⟨id, fun r hr => ⟨r, hr, rfl⟩, fun r hr => ⟨r, hr, rfl⟩⟩

/-- The state after a turn of cycle `i` at `row`. -/
def afterTurn (st : State ε) (out : Outcome ε) (d : Drainer ε) : State ε :=
  { st with
    pipeline := { st.pipeline with
      outbox := out.1, drainer := d, log := st.pipeline.log ++ out.2.1 } }

theorem go_emitting {c : Cycle ε} {row row' : OutboxRow} {rest rest' : List OutboxRow}
    {next : Next ε} {event : ε} {todo : List ε}
    (h : (c.go row rest next).phase = .emitting row' event todo rest') :
    row' = row ∧ next = .emitting event todo := by
  cases next with
  | done ok => cases ok <;> cases h
  | emitting event' todo' =>
      cases h
      exact ⟨rfl, rfl⟩
  | threw message => cases h

theorem Inv.turn {opts : Options} {normalize : Normalize ε} {st : State ε}
    (h : Inv opts normalize st) {i : Nat} {c : Cycle ε} {row : OutboxRow}
    {rest : List OutboxRow} {left : Option (List ε)} {out : Outcome ε}
    (hi : st.pipeline.drainer.cycles[i]? = some c) (hheld : row :: rest ⊆ c.held)
    (hwent : Went st.pipeline.outbox row left out)
    (hleft : ∀ events, left = some events →
      ∃ before, normalize row.toWebhookEvent = .ok (before ++ events) ∧
        before.length ≤ (seenOf row.key st.seen).length)
    {d : Drainer ε}
    (hd : d.cycles = st.pipeline.drainer.cycles.set i (c.go row rest out.2.2)) :
    Inv opts normalize (afterTurn st out d) := by
  obtain ⟨hcounted, r₀, hr₀, hsame₀⟩ :=
    h.held c (List.mem_of_getElem? hi) row (hheld List.mem_cons_self)
  have hfind := hwent.find? ⟨r₀, hr₀⟩
  have hcycles : ∀ c' ∈ d.cycles,
      c' ∈ st.pipeline.drainer.cycles ∨ c' = c.go row rest out.2.2 := by
    intro c' hc'
    rw [hd] at hc'
    exact List.mem_or_eq_of_mem_set hc'
  refine ⟨fun dl hdl => ?_, fun keys hkeys key hkey => ?_, fun key r hr => ?_,
    fun c' hc' row' hrow' => ?_, fun c' hc' row' event todo rest' hphase => ?_,
    fun key r hr events hevents => ?_, fun key hnone => ?_, fun key r hr hdone => ?_⟩
  · refine (h.stored dl hdl).mono fun key r hr => ?_
    obtain ⟨r', hr', -⟩ := (hfind key).2.1 r hr
    exact ⟨r', hr'⟩
  · obtain ⟨r, hr⟩ := h.acknowledged keys hkeys key hkey
    obtain ⟨r', hr', -⟩ := (hfind key).2.1 r hr
    exact ⟨r', hr'⟩
  · dsimp only [afterTurn] at hr ⊢
    by_cases hkey : key = row.key
    · subst hkey
      obtain ⟨r', hr', -, -, hattempts⟩ := hwent.self r₀ hr₀
      rw [hr] at hr'
      cases hr'
      rcases hattempts with hsame | ⟨reason, hreason, hparks⟩ | ⟨hnext, hfailed⟩
      · rw [hsame]
        exact (h.counted row.key r₀ hr₀).append _
      · refine .inl ⟨reason, ?_, hparks⟩
        rw [logOf_append, logOf_self hwent.keys]
        unfold failuresOf
        rw [List.filterMap_append]
        exact List.mem_append_right _ hreason
      · rw [hnext]
        exact hcounted.failed hwent.keys hfailed
    · rw [hwent.others key hkey] at hr
      exact (h.counted key r hr).append _
  · have hbefore : ∃ c'' ∈ st.pipeline.drainer.cycles, row' ∈ c''.held := by
      rcases hcycles c' hc' with hold | rfl
      · exact ⟨c', hold, hrow'⟩
      · exact ⟨c, List.mem_of_getElem? hi, hheld ((Cycle.held_go _).subset hrow')⟩
    obtain ⟨c'', hc'', hrow''⟩ := hbefore
    obtain ⟨hcounted', r, hr, hsame⟩ := h.held c'' hc'' row' hrow''
    obtain ⟨r', hr', hsame'⟩ := (hfind row'.key).2.1 r hr
    exact ⟨hcounted'.append _, r', hr', hsame'.trans hsame⟩
  · rcases hcycles c' hc' with hold | rfl
    · exact h.emitting c' hold row' event todo rest' hphase
    · obtain ⟨rfl, hnext⟩ := go_emitting hphase
      exact hleft _ (hwent.emitting event todo hnext)
  · obtain ⟨r', hr', hsame⟩ := (hfind key).2.2 r hr
    rw [hsame] at hevents
    exact h.seen key r' hr' events hevents
  · refine h.unseen key (Option.eq_none_iff_forall_ne_some.2 fun r hr => ?_)
    obtain ⟨r', hr', -⟩ := (hfind key).2.1 r hr
    have hnone' : out.1.find? key = none := hnone
    rw [hnone'] at hr'
    cases hr'
  · have hold : ∀ r', st.pipeline.outbox.find? key = some r' → r'.processedAt.isSome →
        r.toWebhookEvent = r'.toWebhookEvent →
        ∃ events, normalize r.toWebhookEvent = .ok events ∧
          seenOf key st.seen = allOf key events := by
      intro r' hr' hdone' hsame
      rw [hsame]
      exact h.processed key r' hr' hdone'
    dsimp only [afterTurn] at hr ⊢
    by_cases hkey : key = row.key
    · subst hkey
      obtain ⟨r', hr', hsame, hprocessed, -⟩ := hwent.self r₀ hr₀
      rw [hr] at hr'
      cases hr'
      rcases hprocessed hdone with hdone₀ | hnil
      · exact hold r₀ hr₀ hdone₀ hsame
      · obtain ⟨before, hbefore, hlength⟩ := hleft [] hnil
        rw [List.append_nil, ← hsame₀, ← hsame] at hbefore
        refine ⟨before, hbefore, ?_⟩
        refine (h.seen row.key r₀ hr₀ before (hsame ▸ hbefore)).eq_of_length_le ?_
        rw [length_allOf]
        exact hlength
    · rw [hwent.others key hkey] at hr
      exact hold r hr hdone rfl

/-- A cycle that ends. -/
theorem Inv.finish {opts : Options} {normalize : Normalize ε} {st : State ε}
    (h : Inv opts normalize st) {i : Nat} {c : Cycle ε} {d : Drainer ε}
    (hd : d.cycles = st.pipeline.drainer.cycles.set i c.finish) :
    Inv opts normalize { st with pipeline := { st.pipeline with drainer := d } } := by
  refine h.grow (grown_refl _) rfl h.stored fun c' hc' => ?_
  dsimp only at hc'
  rw [hd] at hc'
  rcases List.mem_or_eq_of_mem_set hc' with hold | rfl
  · exact .inl hold
  · exact .inr ⟨nofun, nofun⟩

/-! ## The consumer -/

/-- What a cycle that emits has before and after the event. -/
theorem awaited_eq {normalize : Normalize ε} {c : Cycle ε} {row : OutboxRow} {event : ε}
    {before todo : List ε} {rest : List OutboxRow}
    (hphase : c.phase = .emitting row event todo rest)
    (hevents : normalize row.toWebhookEvent = .ok (before ++ event :: todo)) :
    awaited normalize c =
      some { key := row.key, position := before.length, event := event } := by
  unfold awaited
  rw [hphase]
  dsimp only
  rw [hevents]
  simp

theorem Inv.reach {opts : Options} {normalize : Normalize ε} {st : State ε}
    (h : Inv opts normalize st) {c : Cycle ε} (hc : c ∈ st.pipeline.drainer.cycles)
    {e : Seen ε} (he : awaited normalize c = some e) :
    Inv opts normalize { st with seen := consume st.seen e } := by
  cases hphase : c.phase with
  | rows todo => simp [awaited, hphase] at he
  | finished => simp [awaited, hphase] at he
  | emitting row event todo rest =>
      obtain ⟨before, hevents, hlength⟩ := h.emitting c hc row event todo rest hphase
      rw [awaited_eq hphase hevents] at he
      cases he
      obtain ⟨-, r₀, hr₀, hsame⟩ := h.held c hc row (by simp [Cycle.held, hphase])
      have hpfx := h.seen row.key r₀ hr₀ _ (hsame ▸ hevents)
      obtain ⟨hnew, hlonger⟩ := seenOf_consume hpfx hlength
      have hother : ∀ key, key ≠ row.key →
          seenOf key (consume st.seen
            { key := row.key, position := before.length, event := event }) =
              seenOf key st.seen :=
        fun key hkey => seenOf_consume_ne hkey
      have hgrows : ∀ key, (seenOf key st.seen).length ≤
          (seenOf key (consume st.seen
            { key := row.key, position := before.length, event := event })).length := by
        intro key
        unfold consume seenOf
        split
        · exact le_refl _
        · rw [List.filter_append, List.length_append]
          exact Nat.le_add_right _ _
      refine ⟨h.stored, h.acknowledged, h.counted, h.held,
        fun c' hc' row' event' todo' rest' hphase' => ?_, fun key r hr events hevents' => ?_,
        fun key hnone => ?_, fun key r hr hdone => ?_⟩
      · obtain ⟨before', hevents', hlength'⟩ := h.emitting c' hc' row' event' todo' rest' hphase'
        exact ⟨before', hevents', hlength'.trans (hgrows row'.key)⟩
      · by_cases hkey : key = row.key
        · subst hkey
          rw [hr₀] at hr
          cases hr
          rw [hsame, hevents] at hevents'
          cases hevents'
          exact hnew
        · dsimp only
          rw [hother key hkey]
          exact h.seen key r hr events hevents'
      · have hkey : key ≠ row.key := by
          rintro rfl
          rw [hr₀] at hnone
          cases hnone
        exact (hother key hkey).trans (h.unseen key hnone)
      · obtain ⟨events, hevents', hall⟩ := h.processed key r hr hdone
        refine ⟨events, hevents', ?_⟩
        by_cases hkey : key = row.key
        · subst hkey
          rw [hr₀] at hr
          cases hr
          rw [hsame, hevents] at hevents'
          cases hevents'
          refine hnew.eq_of_length_le ?_
          rw [← hall]
          exact hgrows row.key
        · exact (hother key hkey).trans hall

/-! ## Runs -/

theorem Inv.advance {opts : Options} {normalize : Normalize ε} {st st' : State ε}
    (h : Inv opts normalize st) {i : Nat} {reply : Reply ε}
    (hstep : advance opts normalize st i reply = some st') : Inv opts normalize st' := by
  unfold CrashRecovery.advance at hstep
  split at hstep
  · cases hstep
  next c hi =>
  split at hstep
  · next hreached =>
      obtain ⟨pipeline, hpipeline, rfl⟩ := Option.map_eq_some_iff.1 hstep
      unfold advanceStep at hpipeline
      rw [hi] at hpipeline
      obtain ⟨⟨o, entries, c'⟩, hadvance, rfl⟩ := Option.map_eq_some_iff.1 hpipeline
      unfold Cycle.advance at hadvance
      have hover : (st.pipeline.outbox, ([] : List (Entry ε)), c.finish) = (o, entries, c') →
          Inv opts normalize
            { st with
              pipeline :=
                { st.pipeline with
                  outbox := o
                  drainer := st.pipeline.drainer.putCycle opts.drainer i c'
                  log := st.pipeline.log ++ entries } } := by
        intro heq
        cases heq
        rw [List.append_nil]
        exact h.finish (putCycle_cycles ..)
      cases hphase : c.phase with
      | finished =>
          rw [hphase] at hadvance
          cases hadvance
      | rows todo =>
          rw [hphase] at hadvance
          cases todo with
          | nil => exact hover (Option.some.inj hadvance)
          | cons row rest =>
              dsimp only at hadvance
              split at hadvance
              · exact hover (Option.some.inj hadvance)
              · have hheld : row :: rest ⊆ c.held := by simp [Cycle.held, hphase]
                have hreply : (replied normalize c reply).normalized =
                    normalize row.toWebhookEvent := by
                  unfold replied
                  rw [hphase]
                cases hadvance
                refine h.turn hi hheld (processOne_went opts.drainer _ row _)
                  (fun events hevents => ⟨[], ?_, Nat.zero_le _⟩) (putCycle_cycles ..)
                rw [hreply] at hevents
                cases hnormalized : normalize row.toWebhookEvent with
                | ok all =>
                    rw [hnormalized] at hevents
                    cases hevents
                    rfl
                | error message =>
                    rw [hnormalized] at hevents
                    cases hevents
      | emitting row event todo rest =>
          rw [hphase] at hadvance
          have hheld : row :: rest ⊆ c.held := by simp [Cycle.held, hphase]
          have hc := List.mem_of_getElem? hi
          have hreply : replied normalize c reply = reply := by
            unfold replied
            rw [hphase]
          rw [hreply] at hadvance
          cases hadvance
          refine h.turn hi hheld (emitSettled_went _ row todo reply) (fun events hevents => ?_)
            (putCycle_cycles ..)
          obtain ⟨before, hall, -⟩ := h.emitting c hc row event todo rest hphase
          split at hevents
          · next hemit =>
              cases hevents
              unfold reached at hreached
              rw [hemit, awaited_eq hphase hall] at hreached
              obtain ⟨-, r, hr, hsame⟩ := h.held c hc row (hheld List.mem_cons_self)
              have hpfx := h.seen row.key r hr _ (hsame ▸ hall)
              refine ⟨before ++ [event], by rw [hall]; simp, ?_⟩
              rw [List.length_append]
              exact (has_iff hpfx before.length event).1 (by simpa using hreached)
          · cases hevents
  · cases hstep

theorem begin_new (opts : DrainerOptions) (o : SqliteOutbox) (looping : Bool) (now : Int)
    (statement : Option String) :
    (∀ row ∈ (Cycle.begin opts o looping now statement : Cycle ε).held,
        o.find? row.key = some row) ∧
      ∀ row event todo rest,
        (Cycle.begin opts o looping now statement : Cycle ε).phase ≠
          .emitting row event todo rest := by
  unfold Cycle.begin
  cases statement with
  | some message => exact ⟨nofun, nofun⟩
  | none => exact ⟨fun row hrow => (SqliteOutbox.mem_pending hrow).1, nofun⟩

theorem Inv.beginCycle {opts : Options} {normalize : Normalize ε} {st : State ε}
    (h : Inv opts normalize st) {pipeline : Webhooks.State ε}
    (houtbox : pipeline.outbox = st.pipeline.outbox) (hlog : pipeline.log = st.pipeline.log)
    (hdeliveries : pipeline.deliveries = st.pipeline.deliveries)
    (hcycles : pipeline.drainer.cycles = st.pipeline.drainer.cycles) (looping : Bool)
    (now : Int) (statement : Option String) :
    Inv opts normalize
      { st with pipeline := Webhooks.beginCycle opts pipeline looping now statement } := by
  refine h.grow (houtbox.symm ▸ grown_refl _) hlog (fun d hd => ?_) fun c hc => ?_
  · show d.Stored _ pipeline.outbox
    rw [houtbox]
    exact h.stored d (hdeliveries ▸ hd)
  · simp only [Webhooks.beginCycle, beginCycle_cycles, List.mem_append, List.mem_singleton] at hc
    rcases hc with hold | rfl
    · exact .inl (hcycles ▸ hold)
    · rw [houtbox]
      exact .inr (begin_new _ _ _ _ _)

/-- Nothing but the poll loop changes. -/
theorem Inv.drainer {opts : Options} {normalize : Normalize ε} {st : State ε}
    (h : Inv opts normalize st) {d : Drainer ε} (hd : d.cycles = st.pipeline.drainer.cycles) :
    Inv opts normalize { st with pipeline := { st.pipeline with drainer := d } } :=
  h.grow (grown_refl _) rfl h.stored fun _ hc => .inl (hd ▸ hc)

theorem Inv.pipeline {opts : Options} {normalize : Normalize ε} {st : State ε}
    (h : Inv opts normalize st) {a : Webhooks.Action ε} (ha : ∀ i reply, a ≠ .advance i reply)
    {pipeline : Webhooks.State ε} (hstep : Webhooks.step opts st.pipeline a = some pipeline) :
    Inv opts normalize { st with pipeline := pipeline } := by
  cases a with
  | request req now =>
      cases hstep
      refine h.grow (grown_refl _) rfl (fun d hd => ?_) fun _ hc => .inl hc
      rcases List.mem_append.1 hd with hd | hd
      · exact h.stored d hd
      · obtain rfl := List.mem_singleton.1 hd
        exact ingest_stored _ _ _ _ _
  | insert i statement =>
      simp only [Webhooks.step, insertStep] at hstep
      split at hstep
      · next hi =>
          cases hstep
          obtain ⟨hgrown, hstored⟩ := insertNext_stored (h.stored _ (List.mem_of_getElem? hi))
          refine h.grow hgrown rfl (fun d hd => ?_) fun _ hc => .inl hc
          rcases List.mem_or_eq_of_mem_set hd with hd | rfl
          · exact (h.stored d hd).mono fun key r hr => ⟨r, hgrown.old key r hr⟩
          · exact hstored
      · cases hstep
  | start =>
      cases hstep
      exact h.drainer (start_cycles _)
  | stop =>
      cases hstep
      exact h.drainer (stop_cycles _)
  | stopped call =>
      obtain ⟨d, hd, rfl⟩ := Option.map_eq_some_iff.1 hstep
      exact h.drainer (stopped_cycles hd)
  | timer i now statement =>
      simp only [Webhooks.step, timerStep] at hstep
      split at hstep
      · split at hstep
        · cases hstep
          exact h.drainer rfl
        · cases hstep
          apply h.beginCycle
          all_goals rfl
      · cases hstep
  | drainOnce now statement =>
      cases hstep
      exact h.beginCycle rfl rfl rfl rfl false now statement
  | advance i reply => exact absurd rfl (ha i reply)

/-- The answer to a delivery is sent when its rows are in the table. -/
theorem Inv.answer {opts : Options} {normalize : Normalize ε} {st : State ε}
    (h : Inv opts normalize st) {i : Nat} {keys : List Key} {eventCount : Nat}
    (hi : st.pipeline.deliveries[i]? = some (.settled keys (.ok (.accepted eventCount)))) :
    Inv opts normalize { st with acknowledged := st.acknowledged ++ [keys] } := by
  refine ⟨h.stored, fun keys' hkeys => ?_, h.counted, h.held, h.emitting, h.seen, h.unseen,
    h.processed⟩
  rcases List.mem_append.1 hkeys with hold | hnew
  · exact h.acknowledged keys' hold
  · obtain rfl := List.mem_singleton.1 hnew
    exact h.stored _ (List.mem_of_getElem? hi)

theorem Inv.crash {opts : Options} {normalize : Normalize ε} {st : State ε}
    (h : Inv opts normalize st) :
    Inv opts normalize
      { st with pipeline := { outbox := st.pipeline.outbox, log := st.pipeline.log } } :=
  h.grow (grown_refl _) rfl (fun _ hd => absurd hd List.not_mem_nil)
    fun _ hc => absurd hc List.not_mem_nil

theorem step_inv {opts : Options} {normalize : Normalize ε} {st st' : State ε} {a : Action ε}
    (h : Inv opts normalize st) (hstep : step opts normalize st a = some st') :
    Inv opts normalize st' := by
  cases a with
  | act a =>
      by_cases ha : ∃ i reply, a = .advance i reply
      · obtain ⟨i, reply, rfl⟩ := ha
        exact h.advance hstep
      · have hpipeline : (Webhooks.step opts st.pipeline a).map
            (fun pipeline => { st with pipeline := pipeline }) = some st' := by
          rw [← hstep]
          cases a with
          | advance i reply => exact absurd ⟨i, reply, rfl⟩ ha
          | _ => rfl
        obtain ⟨pipeline, hrun, rfl⟩ := Option.map_eq_some_iff.1 hpipeline
        exact h.pipeline (fun i reply heq => ha ⟨i, reply, heq⟩) hrun
  | answer i =>
      simp only [step] at hstep
      split at hstep
      · next hi =>
          cases hstep
          exact h.answer hi
      · cases hstep
  | reach i =>
      obtain ⟨e, he, rfl⟩ := Option.map_eq_some_iff.1 hstep
      obtain ⟨c, hc, hawaited⟩ := Option.bind_eq_some_iff.1 he
      exact h.reach (List.mem_of_getElem? hc) hawaited
  | crash =>
      cases hstep
      exact h.crash

/-- In every run, whatever crashes it meets, what was answered with 200 is emitted, waiting or
parked, and the consumer has each event of a processed row once. -/
theorem events_survive (opts : Options) (normalize : Normalize ε) (acts : List (Action ε))
    {st : State ε} (hrun : exec (step opts normalize) {} acts = some st) :
    Survives opts normalize st := by
  have hinv : Inv opts normalize st :=
    exec_inv (fun _ _ _ h hstep => step_inv h hstep) (inv_init opts normalize) hrun
  exact hinv.survives

/-- The process ends while the second event of a row is emitted. -/
def interrupted : List (Action String) :=
  [.act (.drainOnce 1 none), .act (.advance 0 { now := 1 }), .reach 0,
    .act (.advance 0 { now := 1 }), .reach 0, .crash]

/-- The delivery is answered, and the row is tried again from its first event. -/
def redelivered : List (Action String) :=
  [.answer 0, .act (.drainOnce 3 none), .act (.advance 0 { now := 3 }), .reach 0,
    .act (.advance 0 { now := 3 }), .reach 0, .act (.advance 0 { now := 3 })]

def crashes : List (Action String) :=
  (deliver 0).map .act ++ interrupted ++ (deliver 2).map .act ++ redelivered

def twoEvents : Normalize String := fun _ => .ok ["buy", "sell"]

/-- The one attempt that the row has is not used up by the crash. -/
theorem events_survive_crashes :
    ∃ st, exec (step tryOnce twoEvents) {} crashes = some st ∧
      st.seen.map (·.event) = ["buy", "sell"] ∧ Survives tryOnce twoEvents st := by
  obtain ⟨st, hst, hseen⟩ : ∃ st, exec (step tryOnce twoEvents) {} crashes = some st ∧
      st.seen.map (·.event) = ["buy", "sell"] := by
    decide +kernel
  exact ⟨st, hst, hseen, events_survive tryOnce twoEvents crashes hst⟩

end Ap3xSolana.Webhooks.CrashRecovery
