import Ap3xSolana.Signals.SignalQueue

/-!
# Where the signals of a queue are

What was accepted is what has left the buffer, in order, and then the buffer (`Core.places`): both
the loop and an overflow take the oldest signal.  Everything else about the queue is read off that
(`queue_accounts_iff`), except its bound: one signal is always buffered, even if the capacity is
less than that.
-/

namespace Ap3xSolana.Signals.SignalQueue

open Ap3xSolana.Lib Ap3xSolana.Lib.Run

variable {δ : Type} {opts : SignalQueueOpts} {q : QueueState δ}

/-! ## The invariant -/

/-- The signals, wherever they are, and the handlers that were called for them. -/
structure Core (opts : SignalQueueOpts) (q : QueueState δ) : Prop where
  places : q.accepted = q.taken.map (·.1) ++ q.buffer
  increasing : (q.accepted.map (·.number)).Pairwise (· < ·)
  /-- An accepted signal is one that the memory of ids let pass. -/
  admitted : ∀ p ∈ q.accepted, ∃ o, q.history[p.number]? = some (o, true) ∧
    o.key = p.signal.signalId
  kept : RecentKeys.Kept opts.dedup q.history q.dedup
  distinct : RecentKeys.Distinct opts.dedup q.history
  /-- A signal was delivered if it was handed to a subscriber. -/
  delivered : ∀ p, (p, Fate.delivered) ∈ q.taken ↔ ∃ c ∈ q.calls, c.pushed = p
  ordered : (q.calls.map (·.pushed.number)).Pairwise (· ≤ ·)

/-- The loop is at the last signal that was delivered. -/
def AtLast (q : QueueState δ) (p : Pushed δ) : Prop :=
  (p, Fate.delivered) ∈ q.taken ∧ ∀ c ∈ q.calls, c.pushed.number ≤ p.number

structure Inv (opts : SignalQueueOpts) (q : QueueState δ) : Prop where
  core : Core opts q
  /-- Only the handler that the loop awaits has not settled. -/
  calls : q.calls = q.settled ++ q.dispatching.toList.map (·.call)
  current : ∀ d, q.dispatching = some d → AtLast q d.call.pushed

theorem core_init (opts : SignalQueueOpts) : Core opts ({} : QueueState δ) where
  places := rfl
  increasing := .nil
  admitted _ h := by cases h
  kept := RecentKeys.kept_nil _ _
  distinct before p between q after h := by simp at h
  delivered p := by
    constructor
    · intro h
      cases h
    · rintro ⟨c, hc, -⟩
      cases hc
  ordered := .nil

theorem inv_init (opts : SignalQueueOpts) : Inv opts ({} : QueueState δ) where
  core := core_init opts
  calls := rfl
  current _ h := by cases h

/-! ## The loop -/

theorem shift_cons {p : Pushed δ} {rest : List (Pushed δ)} (h : q.buffer = p :: rest)
    (fate : Fate) :
    shift q fate = { q with buffer := rest, taken := q.taken ++ [(p, fate)] } := by
  unfold shift
  rw [h]

theorem Core.shift_places (h : Core opts q) (fate : Fate) :
    (shift q fate).accepted = (shift q fate).taken.map (·.1) ++ (shift q fate).buffer := by
  have hplaces := h.places
  cases hbuffer : q.buffer with
  | nil =>
      unfold shift
      rw [hbuffer]
      exact hplaces
  | cons p rest =>
      rw [shift_cons hbuffer, List.map_append, List.append_assoc]
      rw [hbuffer] at hplaces
      exact hplaces

/-- The oldest signal is dropped. -/
theorem Core.dropOldest (h : Core opts q) : Core opts (shift q .dropped) := by
  cases hbuffer : q.buffer with
  | nil =>
      unfold shift
      rw [hbuffer]
      exact h
  | cons p rest =>
      have hplaces := h.shift_places .dropped
      rw [shift_cons hbuffer] at hplaces ⊢
      refine { h with places := hplaces, delivered := fun p' => ?_ }
      rw [← h.delivered p']
      constructor
      · intro hmem
        rcases List.mem_append.1 hmem with hmem | hmem
        · exact hmem
        · cases List.mem_singleton.1 hmem
      · exact List.mem_append_left _

/-- A signal that comes off the buffer is newer than all that were handed out. -/
theorem Core.head_newer (h : Core opts q) {p : Pushed δ} {rest : List (Pushed δ)}
    (hbuffer : q.buffer = p :: rest) {c : HandlerCall δ} (hc : c ∈ q.calls) :
    c.pushed.number < p.number := by
  have htaken : (c.pushed, Fate.delivered) ∈ q.taken := (h.delivered c.pushed).2 ⟨c, hc, rfl⟩
  have hincreasing := h.increasing
  rw [h.places, hbuffer, List.map_append] at hincreasing
  refine (List.pairwise_append.1 hincreasing).2.2 _ ?_ _ ?_
  · exact List.mem_map_of_mem (List.mem_map_of_mem htaken)
  · exact List.mem_map_of_mem List.mem_cons_self

theorem pairwise_concat {calls : List (HandlerCall δ)} {c : HandlerCall δ}
    (h : (calls.map (·.pushed.number)).Pairwise (· ≤ ·))
    (hlast : ∀ c' ∈ calls, c'.pushed.number ≤ c.pushed.number) :
    ((calls ++ [c]).map (·.pushed.number)).Pairwise (· ≤ ·) := by
  rw [List.map_append, List.pairwise_append]
  refine ⟨h, List.pairwise_singleton _ _, fun n hn m hm => ?_⟩
  obtain ⟨c', hc', rfl⟩ := List.mem_map.1 hn
  rw [List.mem_singleton.1 hm]
  exact hlast c' hc'

/-- Handlers are called one at a time: all calls before have settled. -/
structure Ready (opts : SignalQueueOpts) (q : QueueState δ) : Prop where
  core : Core opts q
  calls : q.calls = q.settled

theorem Ready.callHandler (h : Ready opts q) {p : Pushed δ} (hlast : AtLast q p) (loop : Nat)
    (s : Subscriber) : Inv opts (callHandler q loop p s) where
  core :=
    { h.core with
      delivered := fun p' => by
        show (p', Fate.delivered) ∈ q.taken ↔ ∃ c ∈ q.calls ++ [_], c.pushed = p'
        rw [h.core.delivered p']
        constructor
        · rintro ⟨c, hc, hp⟩
          exact ⟨c, List.mem_append_left _ hc, hp⟩
        · rintro ⟨c, hc, rfl⟩
          rcases List.mem_append.1 hc with hc | hc
          · exact ⟨c, hc, rfl⟩
          · rw [List.mem_singleton.1 hc]
            exact (h.core.delivered p).1 hlast.1
      ordered := pairwise_concat h.core.ordered hlast.2 }
  calls := congrArg (· ++ _) h.calls
  current d hd := by
    cases hd
    refine ⟨hlast.1, fun c hc => ?_⟩
    rcases List.mem_append.1 hc with hc | hc
    · exact hlast.2 c hc
    · rw [List.mem_singleton.1 hc]

/-- The oldest signal goes to the first subscriber. -/
theorem Ready.deliver (h : Ready opts q) {p : Pushed δ} {rest : List (Pushed δ)}
    (hbuffer : q.buffer = p :: rest) (loop : Nat) (s : Subscriber) :
    Inv opts (SignalQueue.callHandler (shift q .delivered) loop p s) := by
  have hplaces := h.core.shift_places .delivered
  have hnewer : ∀ c ∈ q.calls, c.pushed.number ≤ p.number := fun c hc =>
    (h.core.head_newer hbuffer hc).le
  rw [shift_cons hbuffer] at hplaces ⊢
  constructor
  · refine { h.core with places := hplaces, delivered := fun p' => ?_, ordered := ?_ }
    · show (p', Fate.delivered) ∈ q.taken ++ [(p, Fate.delivered)] ↔
        ∃ c ∈ q.calls ++ [⟨p, s⟩], c.pushed = p'
      rw [List.mem_append, h.core.delivered p']
      constructor
      · rintro (⟨c, hc, hp⟩ | hp)
        · exact ⟨c, List.mem_append_left _ hc, hp⟩
        · cases List.mem_singleton.1 hp
          exact ⟨⟨p, s⟩, List.mem_append_right _ List.mem_cons_self, rfl⟩
      · rintro ⟨c, hc, rfl⟩
        rcases List.mem_append.1 hc with hc | hc
        · exact .inl ⟨c, hc, rfl⟩
        · rw [List.mem_singleton.1 hc]
          exact .inr List.mem_cons_self
    · exact pairwise_concat h.core.ordered hnewer
  · exact congrArg (· ++ _) h.calls
  · intro d hd
    cases hd
    refine ⟨List.mem_append_right _ List.mem_cons_self, fun c hc => ?_⟩
    rcases List.mem_append.1 hc with hc | hc
    · exact hnewer c hc
    · rw [List.mem_singleton.1 hc]

theorem Ready.rest (h : Ready opts q) : Inv opts { q with dispatching := none } where
  core := { h.core with }
  calls := by
    show q.calls = q.settled ++ []
    rw [List.append_nil, h.calls]
  current _ hd := by cases hd

theorem Ready.dispatchLoop (h : Ready opts q) (loop : Nat) :
    Inv opts (dispatchLoop q loop) := by
  unfold SignalQueue.dispatchLoop
  split
  · next hbuffer _ => exact h.deliver hbuffer loop _
  · exact h.rest

theorem Inv.ready (h : Inv opts q) (hidle : q.dispatching = none) : Ready opts q where
  core := h.core
  calls := by
    rw [h.calls, hidle]
    exact List.append_nil _

theorem Inv.dispatch (h : Inv opts q) : Inv opts (dispatch q) := by
  unfold SignalQueue.dispatch
  split
  · exact h
  · next hidle =>
      have hready := h.ready (Option.not_isSome_iff_eq_none.1 hidle)
      have hcounted : Ready opts { q with loops := q.loops + 1 } :=
        ⟨{ hready.core with }, hready.calls⟩
      exact hcounted.dispatchLoop q.loops

theorem Inv.settleHandler (h : Inv opts q) {d : Dispatching δ} (hd : q.dispatching = some d)
    (failed throws : Bool) : Inv opts (settleHandler q d failed throws) := by
  have hready : Ready opts { q with settled := q.settled ++ [d.call] } :=
    ⟨{ h.core with }, by
      show q.calls = q.settled ++ [d.call]
      rw [h.calls, hd]
      rfl⟩
  unfold SignalQueue.settleHandler
  dsimp only
  split
  · have hcrashed : Ready opts { q with
        settled := q.settled ++ [d.call], crashed := q.crashed ++ [d.loop] } :=
      ⟨{ hready.core with }, hready.calls⟩
    exact hcrashed.rest
  · unfold nextSubscriber
    split
    · exact hready.callHandler (h.current d hd) d.loop _
    · exact hready.dispatchLoop d.loop

/-! ## The calls -/

theorem offered_history (o : RecentKeys.Offer String) :
    (offered opts q o).history =
      q.history ++ [(o, (RecentKeys.offer opts.dedup q.dedup o).2)] := rfl

theorem Core.number_lt (h : Core opts q) {p : Pushed δ} (hp : p ∈ q.accepted) :
    p.number < q.history.length := by
  obtain ⟨o, ho, -⟩ := h.admitted p hp
  exact (List.getElem?_eq_some_iff.1 ho).1

theorem Core.offered (h : Core opts q) (o : RecentKeys.Offer String) :
    Core opts (offered opts q o) :=
  { h with
    admitted := fun p hp => by
      obtain ⟨o', ho', hkey⟩ := h.admitted p hp
      rw [offered_history, List.getElem?_append_left (h.number_lt hp)]
      exact ⟨o', ho', hkey⟩
    kept := h.kept.offer o
    distinct := h.distinct.offer h.kept o }

theorem Inv.offered (h : Inv opts q) (o : RecentKeys.Offer String) : Inv opts (offered opts q o) :=
  ⟨h.core.offered o, h.calls, h.current⟩

theorem shift_dispatching (q : QueueState δ) (fate : Fate) :
    (shift q fate).dispatching = q.dispatching ∧ (shift q fate).calls = q.calls ∧
      (shift q fate).settled = q.settled ∧ (shift q fate).history = q.history ∧
      (shift q fate).accepted = q.accepted := by
  unfold shift
  split <;> exact ⟨rfl, rfl, rfl, rfl, rfl⟩

theorem taken_subset_shift (q : QueueState δ) (fate : Fate) {p : Pushed δ × Fate}
    (h : p ∈ q.taken) : p ∈ (shift q fate).taken := by
  unfold shift
  split
  · exact h
  · exact List.mem_append_left _ h

theorem Inv.dropOldest (h : Inv opts q) : Inv opts (shift q .dropped) := by
  obtain ⟨hdispatching, hcalls, hsettled, -⟩ := shift_dispatching q .dropped
  refine ⟨h.core.dropOldest, ?_, fun d hd => ?_⟩
  · rw [hcalls, hsettled, hdispatching]
    exact h.calls
  · rw [hdispatching] at hd
    obtain ⟨htaken, hlast⟩ := h.current d hd
    refine ⟨taken_subset_shift q .dropped htaken, ?_⟩
    rw [hcalls]
    exact hlast

/-- A signal whose offer is the last in the history. -/
theorem Inv.enqueue (h : Inv opts q) {p : Pushed δ} {o : RecentKeys.Offer String}
    {history : RecentKeys.History String} (hhistory : q.history = history ++ [(o, true)])
    (hnumber : p.number = history.length) (hkey : o.key = p.signal.signalId)
    (hbefore : ∀ p' ∈ q.accepted, p'.number < history.length) : Inv opts (enqueue q p) where
  core :=
    { h.core with
      places := by
        show q.accepted ++ [p] = q.taken.map (·.1) ++ (q.buffer ++ [p])
        rw [h.core.places, List.append_assoc]
      increasing := by
        show ((q.accepted ++ [p]).map (·.number)).Pairwise (· < ·)
        rw [List.map_append, List.pairwise_append]
        refine ⟨h.core.increasing, List.pairwise_singleton _ _, fun n hn m hm => ?_⟩
        obtain ⟨p', hp', rfl⟩ := List.mem_map.1 hn
        rw [List.mem_singleton.1 hm]
        show p'.number < p.number
        rw [hnumber]
        exact hbefore p' hp'
      admitted := fun p' hp' => by
        rcases List.mem_append.1 hp' with hp' | hp'
        · exact h.core.admitted p' hp'
        · rw [List.mem_singleton.1 hp']
          refine ⟨o, ?_, hkey⟩
          show q.history[p.number]? = _
          rw [hhistory, hnumber, List.getElem?_concat_length] }
  calls := h.calls
  current := h.current

theorem Inv.push (h : Inv opts q) (signal : Signal δ) (sweptAt storedAt : Int) (throws : Bool) :
    Inv opts (push opts q signal sweptAt storedAt throws) := by
  unfold SignalQueue.push
  dsimp only
  generalize ho : RecentKeys.Offer.mk signal.signalId sweptAt storedAt = o
  have hoffered := h.offered o
  have hbefore : ∀ p ∈ q.accepted, p.number < q.history.length := fun p hp => h.core.number_lt hp
  have hkey : o.key = signal.signalId := by rw [← ho]
  split
  · next hadmitted =>
      have hhistory : (SignalQueue.offered opts q o).history = q.history ++ [(o, true)] := by
        rw [offered_history, hadmitted]
      split
      · split
        · exact hoffered.dropOldest
        · obtain ⟨-, -, -, hsame, haccepted⟩ :=
            shift_dispatching (SignalQueue.offered opts q o) .dropped
          refine (hoffered.dropOldest.enqueue (hsame.trans hhistory) rfl hkey ?_).dispatch
          rw [haccepted]
          exact hbefore
      · exact (hoffered.enqueue hhistory rfl hkey hbefore).dispatch
  · exact hoffered

theorem Inv.step {q' : QueueState δ} {a : QueueAction δ} (h : Inv opts q)
    (hstep : step opts q a = some q') : Inv opts q' := by
  cases a with
  | push signal sweptAt storedAt throws =>
      cases hstep
      exact h.push signal sweptAt storedAt throws
  | subscribe name handler =>
      cases hstep
      exact Inv.dispatch ⟨{ h.core with }, h.calls, h.current⟩
  | unsubscribe name =>
      cases hstep
      exact ⟨{ h.core with }, h.calls, h.current⟩
  | handlerSettled failed throws =>
      simp only [SignalQueue.step] at hstep
      split at hstep
      · next d hd =>
          cases hstep
          exact h.settleHandler hd failed throws
      · cases hstep
  | drain =>
      cases hstep
      exact ⟨{ h.core with }, h.calls, h.current⟩
  | drainImmediate i =>
      simp only [SignalQueue.step] at hstep
      split at hstep
      · cases hstep
        have hdispatch := h.dispatch
        exact ⟨{ hdispatch.core with }, hdispatch.calls, hdispatch.current⟩
      · cases hstep
  | drainDispatched i =>
      simp only [SignalQueue.step] at hstep
      split at hstep
      · split at hstep
        · cases hstep
        · cases hstep
          exact ⟨{ h.core with }, h.calls, h.current⟩
      · cases hstep

/-! ## The bound -/

def Bounded (opts : SignalQueueOpts) (q : QueueState δ) : Prop :=
  (q.buffer.length : Int) ≤ opts.capacity

theorem length_shift (q : QueueState δ) (fate : Fate) :
    (shift q fate).buffer.length = q.buffer.length - 1 := by
  unfold shift
  cases hbuffer : q.buffer with
  | nil =>
      show q.buffer.length = _
      rw [hbuffer]
      rfl
  | cons p rest => rfl

theorem length_dispatchLoop (q : QueueState δ) (loop : Nat) :
    (dispatchLoop q loop).buffer.length ≤ q.buffer.length := by
  unfold dispatchLoop
  split
  · show (shift q .delivered).buffer.length ≤ _
    rw [length_shift]
    omega
  · exact Nat.le_refl _

theorem length_dispatch (q : QueueState δ) : (dispatch q).buffer.length ≤ q.buffer.length := by
  unfold dispatch
  split
  · exact Nat.le_refl _
  · exact length_dispatchLoop _ _

theorem length_settleHandler (q : QueueState δ) (d : Dispatching δ) (failed throws : Bool) :
    (settleHandler q d failed throws).buffer.length ≤ q.buffer.length := by
  unfold settleHandler nextSubscriber
  dsimp only
  split
  · exact Nat.le_refl _
  · split
    · exact Nat.le_refl _
    · exact length_dispatchLoop _ _

/-- With room for one signal an overflow makes room for the next. -/
theorem Bounded.push (h : Bounded opts q) (hcapacity : 1 ≤ opts.capacity) (signal : Signal δ)
    (sweptAt storedAt : Int) (throws : Bool) :
    Bounded opts (push opts q signal sweptAt storedAt throws) := by
  unfold Bounded at h ⊢
  unfold SignalQueue.push
  dsimp only
  generalize hp : Pushed.mk q.history.length signal = p
  generalize RecentKeys.Offer.mk signal.signalId sweptAt storedAt = o
  have hlength : ∀ q' : QueueState δ, (enqueue q' p).buffer.length = q'.buffer.length + 1 :=
    fun _ => List.length_append
  split
  · split
    · next hfull =>
        have hshift := length_shift (offered opts q o) .dropped
        have hsame : (offered opts q o).buffer.length = q.buffer.length := rfl
        split
        · omega
        · have hdispatch := length_dispatch (enqueue (shift (offered opts q o) .dropped) p)
          rw [hlength] at hdispatch
          omega
    · next hroom =>
        have hdispatch := length_dispatch (enqueue (offered opts q o) p)
        have hsame : (offered opts q o).buffer.length = q.buffer.length := rfl
        rw [hlength] at hdispatch
        omega
  · exact h

theorem Bounded.step {q' : QueueState δ} {a : QueueAction δ} (h : Bounded opts q)
    (hcapacity : 1 ≤ opts.capacity) (hstep : step opts q a = some q') : Bounded opts q' := by
  have hless : ∀ q'' : QueueState δ, q''.buffer.length ≤ q.buffer.length → Bounded opts q'' := by
    intro q'' hle
    unfold Bounded at h ⊢
    omega
  cases a with
  | push signal sweptAt storedAt throws =>
      cases hstep
      exact h.push hcapacity signal sweptAt storedAt throws
  | subscribe name handler =>
      cases hstep
      exact hless _ (length_dispatch _)
  | unsubscribe name =>
      cases hstep
      exact h
  | handlerSettled failed throws =>
      simp only [SignalQueue.step] at hstep
      split at hstep
      · cases hstep
        exact hless _ (length_settleHandler _ _ _ _)
      · cases hstep
  | drain =>
      cases hstep
      exact h
  | drainImmediate i =>
      simp only [SignalQueue.step] at hstep
      split at hstep
      · cases hstep
        exact hless _ (length_dispatch _)
      · cases hstep
  | drainDispatched i =>
      simp only [SignalQueue.step] at hstep
      split at hstep
      · split at hstep
        · cases hstep
        · cases hstep
          exact h
      · cases hstep

/-! ## Every run -/

/-- Every accepted signal was delivered, was dropped or is buffered, in the order of the pushes,
and what leaves is always the oldest. -/
structure Accounted (opts : SignalQueueOpts) (q : QueueState δ) : Prop where
  places : q.accepted = q.taken.map (·.1) ++ q.buffer
  increasing : (q.accepted.map (·.number)).Pairwise (· < ·)
  admitted : ∀ p ∈ q.accepted, ∃ o, q.history[p.number]? = some (o, true) ∧
    o.key = p.signal.signalId
  distinct : RecentKeys.Distinct opts.dedup q.history
  delivered : ∀ p, (p, Fate.delivered) ∈ q.taken ↔ ∃ c ∈ q.calls, c.pushed = p
  ordered : (q.calls.map (·.pushed.number)).Pairwise (· ≤ ·)
  bounded : Bounded opts q

theorem Core.accounted (h : Core opts q) (hbounded : Bounded opts q) : Accounted opts q :=
  { h with bounded := hbounded }

theorem queue_inv {acts : List (QueueAction δ)} (h : exec (step opts) {} acts = some q) :
    Inv opts q :=
  exec_inv (fun _ _ _ h hstep => h.step hstep) (inv_init opts) h

theorem queue_bounded (hcapacity : 1 ≤ opts.capacity) {acts : List (QueueAction δ)}
    (h : exec (step opts) {} acts = some q) : Bounded opts q := by
  have hempty : Bounded opts ({} : QueueState δ) := by
    show ((0 : Nat) : Int) ≤ opts.capacity
    omega
  exact exec_inv (fun _ _ _ h hstep => h.step hcapacity hstep) hempty h

/-- One signal without a subscriber. -/
theorem push_fills (opts : SignalQueueOpts) (hcapacity : opts.capacity ≤ 0) :
    (push opts ({} : QueueState Unit) (bareSignal "a") 0 0 false).buffer.length = 1 := by
  have hadmitted : (RecentKeys.offer opts.dedup (.empty : OrderedMap String Int)
      { key := "a", sweptAt := 0, storedAt := 0 }).2 = true := rfl
  have hfull : opts.capacity ≤ (([] : List (Pushed Unit)).length : Int) := hcapacity
  unfold push
  dsimp only
  rw [show (bareSignal "a").signalId = "a" from rfl, if_pos hadmitted, if_pos hfull]
  rfl

/-- The queue accounts for its signals in every run exactly if it has room for one. -/
theorem queue_accounts_iff (opts : SignalQueueOpts) :
    (∀ (δ : Type) (acts : List (QueueAction δ)) (q : QueueState δ),
      exec (step opts) {} acts = some q → Accounted opts q) ↔ 1 ≤ opts.capacity := by
  constructor
  · intro h
    by_contra hcapacity
    have hbounded := (h Unit [.push (bareSignal "a") 0 0 false] _ rfl).bounded
    unfold Bounded at hbounded
    rw [push_fills opts (by omega)] at hbounded
    omega
  · exact fun hcapacity δ acts q hrun =>
      (queue_inv hrun).core.accounted (queue_bounded hcapacity hrun)

/-- A queue of capacity 0 buffers a signal. -/
theorem buffer_exceeds_capacity :
    ∃ q, exec (step { capacity := 0 }) ({} : QueueState Unit)
        [.push (bareSignal "a") 0 0 false] = some q ∧
      ¬ (q.buffer.length : Int) ≤ ({ capacity := 0 } : SignalQueueOpts).capacity :=
  ⟨_, rfl, by decide⟩

end Ap3xSolana.Signals.SignalQueue
