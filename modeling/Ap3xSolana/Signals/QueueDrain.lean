import Ap3xSolana.Lib.Table
import Ap3xSolana.Signals.QueueAccounting

/-!
# What `drain` waits for

`drain` resolves when it finds the buffer empty, and a signal has left the buffer before its
handlers are called.  So when it resolves one signal may still be with its handlers: the one that
the running `dispatch` awaits (`drain_leaves_one`).
-/

namespace Ap3xSolana.Signals.SignalQueue

open Ap3xSolana.Lib Ap3xSolana.Lib.Run

variable {δ : Type} {opts : SignalQueueOpts} {q q' : QueueState δ}

/-- What the drains remember was accepted. -/
def Remembered (q : QueueState δ) : Prop := ∀ d ∈ q.drains, ∀ p ∈ d.before, p ∈ q.accepted

/-- Signals are only ever added, and only the calls of `drain` touch the drains. -/
structure Grows (q q' : QueueState δ) : Prop where
  accepted : ∀ p ∈ q.accepted, p ∈ q'.accepted
  drains : q'.drains = q.drains

theorem grows_shift (q : QueueState δ) (fate : Fate) : Grows q (shift q fate) := by
  unfold shift
  split <;> exact ⟨fun _ h => h, rfl⟩

theorem Grows.trans {q'' : QueueState δ} (h : Grows q q') (h' : Grows q' q'') : Grows q q'' :=
  ⟨fun p hp => h'.accepted p (h.accepted p hp), h'.drains.trans h.drains⟩

theorem grows_dispatchLoop (q : QueueState δ) (loop : Nat) : Grows q (dispatchLoop q loop) := by
  unfold dispatchLoop
  split
  · exact (grows_shift q .delivered).trans ⟨fun _ h => h, rfl⟩
  · exact ⟨fun _ h => h, rfl⟩

theorem grows_dispatch (q : QueueState δ) : Grows q (dispatch q) := by
  unfold dispatch
  split
  · exact ⟨fun _ h => h, rfl⟩
  · have hcounted : Grows q { q with loops := q.loops + 1 } := ⟨fun _ h => h, rfl⟩
    exact hcounted.trans (grows_dispatchLoop _ _)

theorem grows_settleHandler (q : QueueState δ) (d : Dispatching δ) (failed throws : Bool) :
    Grows q (settleHandler q d failed throws) := by
  have hsettled : Grows q { q with settled := q.settled ++ [d.call] } := ⟨fun _ h => h, rfl⟩
  unfold settleHandler nextSubscriber
  dsimp only
  split
  · exact ⟨fun _ h => h, rfl⟩
  · split
    · exact ⟨fun _ h => h, rfl⟩
    · exact hsettled.trans (grows_dispatchLoop _ _)

theorem grows_push (opts : SignalQueueOpts) (q : QueueState δ) (signal : Signal δ)
    (sweptAt storedAt : Int) (throws : Bool) :
    Grows q (push opts q signal sweptAt storedAt throws) := by
  unfold push
  dsimp only
  generalize RecentKeys.Offer.mk signal.signalId sweptAt storedAt = o
  have hoffered : Grows q (offered opts q o) := ⟨fun _ h => h, rfl⟩
  have henqueue : ∀ (q' : QueueState δ) (p : Pushed δ), Grows q' (enqueue q' p) :=
    fun q' p => ⟨fun _ h => List.mem_append_left _ h, rfl⟩
  split
  · split
    · have hshift := hoffered.trans (grows_shift _ .dropped)
      split
      · exact hshift
      · exact (hshift.trans (henqueue _ _)).trans (grows_dispatch _)
    · exact (hoffered.trans (henqueue _ _)).trans (grows_dispatch _)
  · exact hoffered

/-- The step as the drains see it. -/
inductive DrainStep (q : QueueState δ) (q' : QueueState δ) : Prop where
  | grows (h : Grows q q')
  | called (h : q' = drain q)
  | went {i : Nat} {d : Drain δ} {stage : DrainStage} (h : q.drains[i]? = some d)
      (haccepted : ∀ p ∈ q.accepted, p ∈ q'.accepted)
      (hdrains : q'.drains = q.drains.set i { d with stage := stage })
      (hstage : stage = .resolved → hasWork q = false ∧ q'.buffer = q.buffer ∧
        q'.subscribers = q.subscribers)

theorem headOfDrain_resolved (h : headOfDrain q = .resolved) : hasWork q = false := by
  unfold headOfDrain at h
  split at h
  · cases h
  · next hwork => exact Bool.eq_false_iff.2 hwork

theorem step_drains {a : QueueAction δ} (h : step opts q a = some q') : DrainStep q q' := by
  cases a with
  | push signal sweptAt storedAt throws =>
      cases h
      exact .grows (grows_push _ _ _ _ _ _)
  | subscribe name handler =>
      cases h
      have hset : Grows q { q with
          subscribers := setSubscriber q name handler, births := q.births + 1 } :=
        ⟨fun _ h => h, rfl⟩
      exact .grows (hset.trans (grows_dispatch _))
  | unsubscribe name =>
      cases h
      exact .grows ⟨fun _ h => h, rfl⟩
  | handlerSettled failed throws =>
      simp only [step] at h
      split at h
      · cases h
        exact .grows (grows_settleHandler _ _ _ _)
      · cases h
  | drain =>
      cases h
      exact .called rfl
  | drainImmediate i =>
      simp only [step] at h
      split at h
      · next before hd =>
          cases h
          have hgrows := grows_dispatch q
          have hdrains : (drainImmediate q i ⟨before, .immediate⟩).drains = q.drains.set i
              ⟨before, .dispatched (if q.dispatching.isSome then none else some q.loops)⟩ := by
            rw [← hgrows.drains]
            rfl
          exact .went hd hgrows.accepted hdrains fun hstage => by cases hstage
      · cases h
  | drainDispatched i =>
      simp only [step] at h
      split at h
      · next before loop hd =>
          split at h
          · cases h
          · cases h
            refine .went hd (fun _ h => h) rfl fun hstage => ?_
            split at hstage
            · cases hstage
            · exact ⟨headOfDrain_resolved hstage, rfl, rfl⟩
      · cases h

theorem Remembered.step {a : QueueAction δ} (h : Remembered q)
    (hstep : step opts q a = some q') : Remembered q' := by
  intro d hd p hp
  cases step_drains hstep with
  | grows hgrows =>
      rw [hgrows.drains] at hd
      exact hgrows.accepted p (h d hd p hp)
  | called hcalled =>
      subst hcalled
      rcases List.mem_append.1 hd with hd | hd
      · exact h d hd p hp
      · rw [List.mem_singleton.1 hd] at hp
        exact hp
  | @went i d' stage hd' haccepted hdrains hstage =>
      rw [hdrains] at hd
      rcases List.mem_or_eq_of_mem_set hd with hd | rfl
      · exact haccepted p (h d hd p hp)
      · exact haccepted p (h d' (List.mem_of_getElem? hd') p hp)

/-- The promise of the drain resolves in this step. -/
structure Resolves (q q' : QueueState δ) (i : Nat) (d : Drain δ) : Prop where
  drain : q'.drains[i]? = some d
  resolved : d.stage = .resolved
  before : ∀ d', q.drains[i]? = some d' → d'.stage ≠ .resolved

theorem Resolves.idle {a : QueueAction δ} (hstep : step opts q a = some q') {i : Nat} {d : Drain δ}
    (h : Resolves q q' i d) (hsubscribers : q'.subscribers ≠ []) : q'.buffer = [] := by
  have hempty : ∀ q₁ : QueueState δ, hasWork q₁ = false → q₁.subscribers ≠ [] → q₁.buffer = [] := by
    intro q₁ hwork hsubs
    unfold hasWork at hwork
    cases hbuffer : q₁.buffer with
    | nil => rfl
    | cons p rest =>
        rw [hbuffer, Bool.and_eq_false_iff] at hwork
        rcases hwork with hwork | hwork
        · cases hwork
        · exact absurd (List.isEmpty_iff.1 (by simpa using hwork)) hsubs
  cases step_drains hstep with
  | grows hgrows =>
      have hdrain := h.drain
      rw [hgrows.drains] at hdrain
      exact absurd h.resolved (h.before d hdrain)
  | called hcalled =>
      subst hcalled
      have hdrain : (q.drains ++ [Drain.mk q.accepted (headOfDrain q)])[i]? = some d := h.drain
      rw [Table.getElem?_added] at hdrain
      split at hdrain
      · cases hdrain
        exact hempty q (headOfDrain_resolved h.resolved) hsubscribers
      · exact absurd h.resolved (h.before d hdrain)
  | @went j d' stage hd' haccepted hdrains hstage =>
      have hdrain := h.drain
      rw [hdrains, Table.getElem?_replaced hd'] at hdrain
      split at hdrain
      · cases hdrain
        obtain ⟨hwork, hbuffer, hsubs⟩ := hstage h.resolved
        rw [hbuffer]
        exact hempty q hwork (hsubs ▸ hsubscribers)
      · exact absurd h.resolved (h.before d hdrain)

/-- Of the signals that were accepted before the drain none is buffered when it resolves, and no
handler is at work on them except the one that the running loop awaits. -/
theorem drain_leaves_one (opts : SignalQueueOpts) (acts : List (QueueAction δ))
    (q q' : QueueState δ) (a : QueueAction δ) (i : Nat) (d : Drain δ)
    (hrun : exec (step opts) {} acts = some q) (hstep : step opts q a = some q')
    (hresolves : Resolves q q' i d) (hsubscribers : q'.subscribers ≠ []) :
    q'.buffer = [] ∧ ∀ p ∈ d.before, (p, Fate.dropped) ∈ q'.taken ∨
      (p, Fate.delivered) ∈ q'.taken ∧ ∀ c ∈ q'.calls, c.pushed = p →
        c ∈ q'.settled ∨ ∃ loop, q'.dispatching = some ⟨loop, c⟩ := by
  have hinv : Inv opts q' := (queue_inv hrun).step hstep
  have hremembered : Remembered q' :=
    Remembered.step (exec_inv (fun _ _ _ h hstep => h.step hstep)
      (fun _ hd => by cases hd) hrun) hstep
  have hbuffer := hresolves.idle hstep hsubscribers
  refine ⟨hbuffer, fun p hp => ?_⟩
  have haccepted := hremembered d (List.mem_of_getElem? hresolves.drain) p hp
  rw [hinv.core.places, hbuffer, List.append_nil] at haccepted
  obtain ⟨⟨p', fate⟩, htaken, rfl⟩ := List.mem_map.1 haccepted
  cases fate with
  | dropped => exact .inl htaken
  | delivered =>
      refine .inr ⟨htaken, fun c hc _ => ?_⟩
      rw [hinv.calls] at hc
      rcases List.mem_append.1 hc with hc | hc
      · exact .inl hc
      · obtain ⟨d', hd', rfl⟩ := List.mem_map.1 hc
        exact .inr ⟨d'.loop, Option.mem_toList.1 hd'⟩

/-- A drain that waits for two signals. -/
def drainOfTwo : List (QueueAction Unit) :=
  [.push (bareSignal "a") 0 0 false, .push (bareSignal "b") 0 0 false, .subscribe "sub" 0, .drain,
    .handlerSettled false false, .handlerSettled false false, .drainImmediate 0]

theorem drain_leaves_one_drainOfTwo :
    ∃ (q q' : QueueState Unit) (d : Drain Unit), exec (step {}) {} drainOfTwo = some q ∧
      step {} q (.drainDispatched 0) = some q' ∧ d.before.length = 2 ∧
      (q'.buffer = [] ∧ ∀ p ∈ d.before, (p, Fate.dropped) ∈ q'.taken ∨
        (p, Fate.delivered) ∈ q'.taken ∧ ∀ c ∈ q'.calls, c.pushed = p →
          c ∈ q'.settled ∨ ∃ loop, q'.dispatching = some ⟨loop, c⟩) := by
  refine ⟨_, _, _, rfl, rfl, ?_, drain_leaves_one {} drainOfTwo _ _ (.drainDispatched 0) 0 _ rfl rfl
    ⟨rfl, rfl, fun d' hd' => ?_⟩ ?_⟩
  · rfl
  · cases hd'
    exact DrainStage.noConfusion
  · exact List.cons_ne_nil _ _

/-- The handler of the only signal is at work when `drain` resolves. -/
theorem drain_resolves_in_handler :
    ∃ q, exec (step {}) {} [.subscribe "sub" 0, .push (bareSignal "a") 0 0 false, .drain] = some q ∧
      q.subscribers ≠ [] ∧ q.drains.map (·.stage) = [.resolved] ∧
      q.drains.map (·.before.length) = [1] ∧ q.calls.length = 1 ∧ q.settled.length = 0 :=
  ⟨_, rfl, List.cons_ne_nil _ _, rfl, rfl, rfl, rfl⟩

end Ap3xSolana.Signals.SignalQueue
