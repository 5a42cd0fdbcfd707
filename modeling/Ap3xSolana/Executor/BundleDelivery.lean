import Ap3xSolana.Executor.Waiting

/-!
# Calls of `add`

`BundleAccumulator` with any `onFlush`: the calls of `add`, the batches in the order in
which they were flushed, and how the promise of each batch settled.  The first half says
what adding an entry and firing a timer do to the groups (`Added`, `Fired`), the second
is the machine.
-/

namespace Ap3xSolana.Executor

open Ap3xSolana.Lib

namespace BundleAccumulator

/-- The entries that wait in a group. -/
def waiting (b : BundleAccumulator) (group : String) : List PendingEntry :=
  ((b.groups.get? group).map (·.entries)).getD []

/-- The window timer of a group. -/
def timerOf (b : BundleAccumulator) (group : String) : Option Nat :=
  (b.groups.get? group).bind (·.timer)

/-- Every timer is that of its group; those of flushed groups are gone. -/
structure Timed (b : BundleAccumulator) : Prop where
  armed : Armed b
  current : ∀ t ∈ b.timers, b.timerOf t.2 = some t.1

theorem timed_init : Timed {} where
  armed := armed_init
  current t ht := by cases ht

theorem Timed.find?_of_mem {b : BundleAccumulator} (h : Timed b) {t : Nat × String}
    (ht : t ∈ b.timers) : b.timers.find? (·.1 = t.1) = some t := by
  obtain ⟨acc, hacc, htimer⟩ := Option.bind_eq_some_iff.1 (h.current t ht)
  obtain ⟨-, t', htimer', hfind⟩ := h.armed.armed t.2 acc hacc
  rw [htimer] at htimer'
  cases htimer'
  exact hfind

/-- Who waits in a group has its timer to flush it. -/
theorem Timed.exists_timer {b : BundleAccumulator} (h : Timed b) {group : String}
    (hwaits : b.waiting group ≠ []) : ∃ t, b.timerOf group = some t ∧ (t, group) ∈ b.timers := by
  unfold waiting at hwaits
  cases hacc : b.groups.get? group with
  | none =>
      rw [hacc] at hwaits
      exact absurd rfl hwaits
  | some acc =>
      obtain ⟨-, t, htimer, hfind⟩ := h.armed.armed group acc hacc
      refine ⟨t, ?_, List.mem_of_find?_eq_some hfind⟩
      unfold timerOf
      rw [hacc]
      exact htimer

theorem Timed.waiting_eq_nil {b : BundleAccumulator} (h : Timed b) {group : String}
    (hnone : b.timerOf group = none) : b.waiting group = [] := by
  by_contra hwaits
  obtain ⟨t, htimer, -⟩ := h.exists_timer hwaits
  rw [hnone] at htimer
  cases htimer

/-- `group` is flushed: it is empty then, and its timer is gone. -/
structure Flushed (b b' : BundleAccumulator) (group : String) : Prop where
  waiting : ∀ group', b'.waiting group' = if group' = group then [] else b.waiting group'
  timerOf : ∀ group', b'.timerOf group' = if group' = group then none else b.timerOf group'
  timers : ∀ t, t ∈ b'.timers ↔ t ∈ b.timers ∧ some t.1 ≠ b.timerOf group
  nextTimer : b'.nextTimer = b.nextTimer

theorem flush_flushed {b : BundleAccumulator} {group : String}
    (hwaits : b.waiting group ≠ []) :
    (b.flush group).2 = some (b.waiting group) ∧ Flushed b (b.flush group).1 group := by
  unfold waiting at hwaits
  cases hacc : b.groups.get? group with
  | none =>
      rw [hacc] at hwaits
      exact absurd rfl hwaits
  | some acc =>
      rw [hacc] at hwaits
      have htimer : b.timerOf group = acc.timer := by
        unfold timerOf
        rw [hacc]
        rfl
      have hentries : b.waiting group = acc.entries := by
        unfold waiting
        rw [hacc]
        rfl
      unfold flush
      rw [hacc]
      dsimp only
      rw [if_neg (show ¬ acc.entries = [] from hwaits), hentries]
      refine ⟨rfl, fun group' => ?_, fun group' => ?_, fun t => ?_, rfl⟩
      · show (((b.groups.erase group).get? group').map (·.entries)).getD [] = _
        rw [OrderedMap.get?_erase]
        split <;> rfl
      · show ((b.groups.erase group).get? group').bind (·.timer) = _
        rw [OrderedMap.get?_erase]
        split <;> rfl
      · rw [htimer]
        show t ∈ b.timers.filter _ ↔ _
        rw [List.mem_filter, decide_eq_true_iff]

theorem Flushed.current {b b' : BundleAccumulator} {group : String}
    (h : Flushed b b' group) (hcurrent : ∀ t ∈ b.timers, b.timerOf t.2 = some t.1) :
    ∀ t ∈ b'.timers, b'.timerOf t.2 = some t.1 := by
  intro t ht
  obtain ⟨hmem, hne⟩ := (h.timers t).1 ht
  have htimer := hcurrent t hmem
  rw [h.timerOf, if_neg]
  · exact htimer
  · intro heq
    rw [heq] at htimer
    exact hne htimer.symm

/-- What adding `entry` to `group` does. -/
inductive Added (maxPerBundle : Int) (b b' : BundleAccumulator) (group : String)
    (entry : PendingEntry) : Option (List PendingEntry) → Prop where
  /-- The group is full. -/
  | full (hsize : maxPerBundle ≤ (b.waiting group).length + 1)
      (waiting : ∀ group', b'.waiting group' = if group' = group then [] else b.waiting group')
      (timerOf : ∀ group', b'.timerOf group' =
        if group' = group then none else b.timerOf group')
      (nextTimer : b'.nextTimer = b.nextTimer) :
      Added maxPerBundle b b' group entry (some (b.waiting group ++ [entry]))
  /-- The entry waits, with the timer of the group or with a new one. -/
  | waits (t : Nat) (hsize : (b.waiting group).length + 1 < maxPerBundle)
      (waiting : ∀ group', b'.waiting group' =
        if group' = group then b.waiting group ++ [entry] else b.waiting group')
      (timerOf : ∀ group', b'.timerOf group' =
        if group' = group then some t else b.timerOf group')
      (timer : b.timerOf group = some t ∧ b'.nextTimer = b.nextTimer ∨
        b.timerOf group = none ∧ t = b.nextTimer ∧ b'.nextTimer = b.nextTimer + 1) :
      Added maxPerBundle b b' group entry none

theorem waiting_set (b : BundleAccumulator) (group : String) (acc : Accumulator)
    (group' : String) :
    (({ b with groups := b.groups.set group acc } : BundleAccumulator).waiting group') =
      if group' = group then acc.entries else b.waiting group' := by
  unfold waiting
  rw [OrderedMap.get?_set]
  split <;> rfl

theorem timerOf_set (b : BundleAccumulator) (group : String) (acc : Accumulator)
    (group' : String) :
    (({ b with groups := b.groups.set group acc } : BundleAccumulator).timerOf group') =
      if group' = group then acc.timer else b.timerOf group' := by
  unfold timerOf
  rw [OrderedMap.get?_set]
  split <;> rfl

theorem waiting_eq (b : BundleAccumulator) (group : String) :
    b.waiting group = ((b.groups.get? group).getD {}).entries := by
  unfold waiting
  cases b.groups.get? group <;> rfl

theorem timerOf_eq (b : BundleAccumulator) (group : String) :
    b.timerOf group = ((b.groups.get? group).getD {}).timer := by
  unfold timerOf
  cases b.groups.get? group <;> rfl

/-- What `add` does, and that it leaves no timer of a flushed group behind. -/
theorem Timed.add {b : BundleAccumulator} (h : Timed b) (maxPerBundle : Int)
    (group : String) (entry : PendingEntry) :
    Added maxPerBundle b (b.add maxPerBundle group entry).1 group entry
        (b.add maxPerBundle group entry).2 ∧
      Timed (b.add maxPerBundle group entry).1 := by
  have harmed := h.armed.add maxPerBundle group entry
  have hwaiting := waiting_eq b group
  have htimerOf := timerOf_eq b group
  unfold BundleAccumulator.add at harmed ⊢
  dsimp only at harmed ⊢
  generalize (b.groups.get? group).getD {} = acc at *
  rw [List.length_append, List.length_singleton, ← hwaiting] at harmed ⊢
  by_cases hfull : (((b.waiting group).length + 1 : Nat) : Int) ≥ maxPerBundle
  · rw [if_pos hfull] at harmed ⊢
    -- the group with the new entry, its timer cleared
    generalize hb₁ : ({ b with
        groups := b.groups.set group { acc with entries := b.waiting group ++ [entry] } } :
      BundleAccumulator).clearTimer acc.timer = b₁ at harmed ⊢
    have hset : ∀ group', b₁.waiting group' =
        if group' = group then b.waiting group ++ [entry] else b.waiting group' := by
      intro group'
      rw [← hb₁]
      exact waiting_set b group _ group'
    have htimers : ∀ group', b₁.timerOf group' =
        if group' = group then acc.timer else b.timerOf group' := by
      intro group'
      rw [← hb₁]
      exact timerOf_set b group _ group'
    have hself : b₁.waiting group = b.waiting group ++ [entry] := by
      rw [hset, if_pos rfl]
    have hsome : b₁.waiting group ≠ [] := by
      rw [hself]
      exact List.append_ne_nil_of_right_ne_nil _ (List.cons_ne_nil _ _)
    obtain ⟨hbatch, hflushed⟩ := flush_flushed hsome
    rw [hbatch, hself]
    refine ⟨.full (by exact_mod_cast hfull) (fun group' => ?_) (fun group' => ?_) ?_,
      harmed, fun t ht => ?_⟩
    · rw [hflushed.waiting, hset]
      split <;> rfl
    · rw [hflushed.timerOf, htimers]
      split <;> rfl
    · rw [hflushed.nextTimer, ← hb₁]
      rfl
    · obtain ⟨hmem, hne⟩ := (hflushed.timers t).1 ht
      rw [← hb₁] at hmem
      have hcurrent := h.current t (List.mem_filter.1 hmem).1
      rw [htimers, if_pos rfl] at hne
      have hother : t.2 ≠ group := by
        intro heq
        rw [heq, htimerOf] at hcurrent
        exact hne hcurrent.symm
      rw [hflushed.timerOf, if_neg hother, htimers, if_neg hother]
      exact hcurrent
  · rw [if_neg hfull] at harmed ⊢
    have hroom : ((b.waiting group).length : Int) + 1 < maxPerBundle := by
      push_cast at hfull
      omega
    cases htimer : acc.timer with
    | some t =>
        simp only [htimer] at harmed ⊢
        rw [htimer] at htimerOf
        have htimers := timerOf_set b group
          { entries := b.waiting group ++ [entry], timer := some t }
        refine ⟨.waits t hroom (waiting_set b group _) htimers (.inl ⟨htimerOf, rfl⟩),
          harmed, fun t' ht' => ?_⟩
        have hcurrent := h.current t' ht'
        rw [htimers]
        split
        · rename_i heq
          rw [heq, htimerOf] at hcurrent
          exact hcurrent
        · exact hcurrent
    | none =>
        simp only [htimer] at harmed ⊢
        rw [htimer] at htimerOf
        have htimers := timerOf_set b group
          { entries := b.waiting group ++ [entry], timer := some b.nextTimer }
        refine ⟨.waits b.nextTimer hroom (waiting_set b group _) htimers
          (.inr ⟨htimerOf, rfl, rfl⟩), harmed, fun t' ht' => ?_⟩
        show BundleAccumulator.timerOf { b with groups := _ } t'.2 = _
        rw [htimers]
        rcases List.mem_append.1 ht' with hold | hnew
        · have hcurrent := h.current t' hold
          rw [if_neg]
          · exact hcurrent
          · intro heq
            rw [heq, htimerOf] at hcurrent
            cases hcurrent
        · rw [List.mem_singleton.1 hnew, if_pos rfl]

/-- A timer that fires flushes the group it was armed for, which has entries. -/
theorem Timed.fire {b b' : BundleAccumulator} (h : Timed b) {timer : Nat}
    {batch : Option (List PendingEntry)} (hfire : b.fire timer = some (b', batch)) :
    Timed b' ∧ ∃ group, (timer, group) ∈ b.timers ∧ b.timerOf group = some timer ∧
      b.waiting group ≠ [] ∧ batch = some (b.waiting group) ∧ Flushed b b' group := by
  have harmed := h.armed.fire hfire
  unfold BundleAccumulator.fire at hfire
  split at hfire
  · cases hfire
  · rename_i t group hfind
    obtain rfl : t = timer := by simpa using List.find?_some hfind
    have hmem := List.mem_of_find?_eq_some hfind
    have htimer : b.timerOf group = some t := h.current _ hmem
    have hsome : b.waiting group ≠ [] := by
      obtain ⟨acc, hacc, -⟩ := Option.bind_eq_some_iff.1 htimer
      rw [waiting_eq, hacc]
      exact (h.armed.armed group acc hacc).1
    obtain ⟨hbatch, hflushed⟩ := flush_flushed (b := b.clearTimer (some t)) hsome
    obtain ⟨rfl, rfl⟩ := Prod.mk.inj (Option.some.inj hfire)
    have hflushed' : Flushed b ((b.clearTimer (some t)).flush group).1 group := by
      refine ⟨hflushed.waiting, hflushed.timerOf, fun t' => ?_, hflushed.nextTimer⟩
      rw [hflushed.timers]
      show t' ∈ b.timers.filter _ ∧ some t'.1 ≠ b.timerOf group ↔ _
      rw [List.mem_filter, decide_eq_true_iff, htimer]
      exact ⟨fun hh => ⟨hh.1.1, hh.2⟩, fun hh => ⟨⟨hh.1, hh.2⟩, hh.2⟩⟩
    exact ⟨⟨harmed, hflushed'.current h.current⟩, group, hmem, htimer, hsome, hbatch,
      hflushed'⟩

end BundleAccumulator

/-! ## The machine -/

/-- A call of `add`, and what its promise settled with. -/
structure AddCall where
  group : String
  entry : BundleEntry
  outcome : Option (Except String String) := none
  deriving Repr

/-- A flushed batch: what flushed it (no timer when the group was full), and how the
promise of `onFlush` settled. -/
structure Batch where
  group : String
  entries : List PendingEntry
  timer : Option Nat := none
  outcome : Option (Except String (List String)) := none
  deriving Repr

structure DeliveryState where
  accumulator : BundleAccumulator := {}
  calls : List AddCall := []
  batches : List Batch := []
  /-- For each timer the call that armed it. -/
  armedBy : List Nat := []

inductive DeliveryAction where
  | add (group : String) (entry : BundleEntry)
  | fire (timer : Nat)
  /-- The promise of `onFlush` settles. -/
  | flushed (batch : Nat) (outcome : Except String (List String))

/-- `sigs[i] ?? ''`, or the error of the batch. -/
def settledWith (outcome : Except String (List String)) (i : Nat) : Except String String :=
  outcome.map fun sigs => (sigs[i]?).getD ""

/-- Settles the promise of the entry at position `e.2`. -/
def settleCall (outcome : Except String (List String)) (calls : List AddCall)
    (e : PendingEntry × Nat) : List AddCall :=
  calls.modify e.1.owner fun c => { c with outcome := some (settledWith outcome e.2) }

/-- The `forEach` over the entries of a batch. -/
def settleCalls (calls : List AddCall) (entries : List PendingEntry)
    (outcome : Except String (List String)) : List AddCall :=
  entries.zipIdx.foldl (settleCall outcome) calls

def addCall (maxPerBundle : Int) (st : DeliveryState) (group : String)
    (entry : BundleEntry) : DeliveryState :=
  let call := st.calls.length
  let (accumulator, batch) :=
    st.accumulator.add maxPerBundle group { entry := entry, owner := call }
  { accumulator := accumulator
    calls := st.calls ++ [{ group := group, entry := entry }]
    batches := st.batches ++
      (batch.map fun entries => { group := group, entries := entries : Batch }).toList
    armedBy := st.armedBy ++
      if accumulator.nextTimer = st.accumulator.nextTimer then [] else [call] }

def fireTimer (st : DeliveryState) (timer : Nat) : Option DeliveryState :=
  match st.accumulator.timers.find? (·.1 = timer), st.accumulator.fire timer with
  | some (_, group), some (accumulator, batch) =>
      some { st with
        accumulator := accumulator
        batches := st.batches ++ (batch.map fun entries =>
          { group := group, entries := entries, timer := some timer : Batch }).toList }
  | _, _ => none

def batchSettles (st : DeliveryState) (k : Nat) (outcome : Except String (List String)) :
    Option DeliveryState :=
  match st.batches[k]? with
  | some batch =>
      if batch.outcome.isSome then none
      else some { st with
        calls := settleCalls st.calls batch.entries outcome
        batches := st.batches.set k { batch with outcome := some outcome } }
  | none => none

def deliveryStep (maxPerBundle : Int) (st : DeliveryState) :
    DeliveryAction → Option DeliveryState
  | .add group entry => some (addCall maxPerBundle st group entry)
  | .fire timer => fireTimer st timer
  | .flushed batch outcome => batchSettles st batch outcome

end Ap3xSolana.Executor
