import Ap3xSolana.Webhooks.ExactlyOnce

/-!
# One poll loop

`stop` leaves the pending timer armed, and the timer asks for `stopRequested` only when it
fires.  A `start` in between clears that flag, and the old timer goes on beside the new one.
There is one loop as long as `start` finds no timer pending and no `stop` waiting
(`one_poll_loop`).
-/

namespace Ap3xSolana.Webhooks.PollLoop

open Ap3xSolana.Lib.Run

variable {ε : Type}

/-! ## The property -/

/-- The pipeline, with a note whether a `stop` has resolved since the last `start`. -/
structure Watched (ε : Type) where
  state : State ε := {}
  halted : Bool := false

/-- `stop` has no cycle to wait for. -/
def returnsAtOnce (d : Drainer ε) : Bool := !d.running || d.waiter.isNone

def watch (opts : Options) (w : Watched ε) (a : Action ε) : Option (Watched ε) :=
  (step opts w.state a).map fun st =>
    { state := st
      halted := match a with
        | .start => false
        | .stop => w.halted || returnsAtOnce w.state.drainer
        | .stopped _ => true
        | _ => w.halted }

def inLoop (c : Cycle ε) : Bool := c.looping && c.active

/-- The cycles in flight that the loop has started. -/
def loops (d : Drainer ε) : Nat := d.cycles.countP inLoop

/-- One cycle in flight or one timer that can start one, and never more. -/
def OneLoop (d : Drainer ε) : Prop :=
  loops d ≤ 1 ∧ (d.stopRequested = false → d.timers.length + loops d ≤ 1)

/-- The timer that fires starts a cycle. -/
def startsCycle (w : Watched ε) : Action ε → Bool
  | .timer _ _ _ => !w.state.drainer.stopRequested
  | _ => false

/-- There is one loop, and no cycle starts between a `stop` that has resolved and the next
`start`. -/
def Controlled (w : Watched ε) (a : Action ε) (w' : Watched ε) : Prop :=
  OneLoop w'.state.drainer ∧ (startsCycle w a = true → w.halted = false)

/-! ## The condition -/

/-- `start` is called on a running drainer, or when no timer is pending and no `stop` waits. -/
def StartsAlone (w : Watched ε) (a : Action ε) : Prop :=
  match a with
  | .start => w.state.drainer.running = true ∨
      w.state.drainer.timers = [] ∧ w.state.drainer.stops = []
  | _ => True

instance decidableControlled (w : Watched ε) (a : Action ε) (w' : Watched ε) :
    Decidable (Controlled w a w') :=
  inferInstanceAs (Decidable ((_ ∧ (_ → _)) ∧ (_ → _)))

instance decidableStartsAlone (w : Watched ε) (a : Action ε) :
    Decidable (StartsAlone w a) :=
  match a with
  | .start =>
      inferInstanceAs (Decidable (w.state.drainer.running = true ∨
        w.state.drainer.timers = [] ∧ w.state.drainer.stops = []))
  | .request .. | .insert .. | .stop | .stopped .. | .timer .. | .drainOnce .. |
      .advance .. => inferInstanceAs (Decidable True)

/-! ## The invariant -/

/-- No cycle starts before the next `start`. -/
def Rests (d : Drainer ε) : Prop := d.stopRequested = true ∨ d.running = false ∧ d.timers = []

structure Tidy (d : Drainer ε) : Prop where
  one : d.timers.length + loops d ≤ 1
  waiter : d.waiter = none → loops d = 0
  promised : ∀ p, d.waiter = some p → p ∉ d.resolved ∧ p < d.promises
  resolved : ∀ p ∈ d.resolved, p < d.promises
  idle : d.running = false → loops d = 0 ∧ Rests d
  stops : ∀ p ∈ d.stops, d.stopRequested = true ∧ (d.waiter = none ∨ d.waiter = some p)

structure Inv (w : Watched ε) : Prop where
  tidy : Tidy w.state.drainer
  halted : w.halted = true → Rests w.state.drainer

theorem inv_init : Inv ({} : Watched ε) where
  tidy :=
    { one := Nat.zero_le 1
      waiter := fun _ => rfl
      promised := fun _ h => by cases h
      resolved := fun _ h => by cases h
      idle := fun _ => ⟨rfl, .inr ⟨rfl, rfl⟩⟩
      stops := fun _ h => by cases h }
  halted h := by cases h

theorem Tidy.oneLoop {d : Drainer ε} (h : Tidy d) : OneLoop d :=
  ⟨(Nat.le_add_left _ _).trans h.one, fun _ => h.one⟩

/-- A timer that can start a cycle belongs to a running drainer. -/
theorem Tidy.running_of_timer {d : Drainer ε} (h : Tidy d) (hstop : d.stopRequested = false)
    (htimer : d.timers ≠ []) : d.running = true := by
  cases hrun : d.running with
  | true => rfl
  | false =>
      rcases (h.idle hrun).2 with hreq | ⟨-, hnil⟩
      · rw [hstop] at hreq
        cases hreq
      · exact absurd hnil htimer

/-- The timer that fires is the only one. -/
theorem Tidy.fires {d : Drainer ε} (h : Tidy d) {i : Nat} (hi : i < d.timers.length) :
    d.timers.eraseIdx i = [] ∧ loops d = 0 := by
  have hone := h.one
  have hlen : (d.timers.eraseIdx i).length = 0 := by
    rw [List.length_eraseIdx_of_lt hi]
    omega
  exact ⟨List.length_eq_zero_iff.1 hlen, by omega⟩

/-! ## Cycles -/

theorem begin_looping (opts : DrainerOptions) (o : SqliteOutbox) (looping : Bool) (now : Int)
    (statement : Option String) :
    (Cycle.begin opts o looping now statement : Cycle ε).looping = looping := by
  unfold Cycle.begin
  split <;> rfl

theorem go_looping (c : Cycle ε) (row : OutboxRow) (rest : List OutboxRow) (next : Next ε) :
    (c.go row rest next).looping = c.looping := by
  unfold Cycle.go
  split <;> rfl

/-- A turn is taken by a cycle in flight. -/
theorem advance_active {opts : DrainerOptions} {o : SqliteOutbox} {stopRequested : Bool}
    {c : Cycle ε} {reply : Reply ε} {r : SqliteOutbox × List (Entry ε) × Cycle ε}
    (h : c.advance opts o stopRequested reply = some r) :
    c.active = true ∧ r.2.2.looping = c.looping := by
  unfold Cycle.advance at h
  split at h
  · cases h
  · rename_i hphase
    cases h
    exact ⟨by unfold Cycle.active; rw [hphase], rfl⟩
  · rename_i hphase
    have hactive : c.active = true := by
      unfold Cycle.active
      rw [hphase]
    split at h
    · cases h
      exact ⟨hactive, rfl⟩
    · cases h
      exact ⟨hactive, go_looping _ _ _ _⟩
  · rename_i hphase
    cases h
    refine ⟨?_, go_looping _ _ _ _⟩
    unfold Cycle.active
    rw [hphase]

/-- One element changes the count by itself. -/
theorem countP_set_add {α : Type*} {l : List α} {i : Nat} {a : α} (b : α) (p : α → Bool)
    (h : l[i]? = some a) :
    (l.set i b).countP p + (p a).toNat = l.countP p + (p b).toNat := by
  obtain ⟨hi, hget⟩ := List.getElem?_eq_some_iff.1 h
  have hpos : p a = true → 0 < l.countP p := fun hp =>
    List.countP_pos_iff.2 ⟨a, List.mem_of_getElem? h, hp⟩
  rw [List.countP_set hi, hget]
  cases hpa : p a with
  | false => cases p b <;> simp
  | true =>
      have hcount := hpos hpa
      cases p b
      · show _ - 1 + 0 + 1 = _ + 0
        omega
      · show _ - 1 + 1 + 1 = _ + 1
        omega

/-! ## Control -/

theorem Tidy.start {d : Drainer ε} (h : Tidy d)
    (halone : d.running = true ∨ d.timers = [] ∧ d.stops = []) : Tidy d.start := by
  unfold Drainer.start
  split
  · exact h
  · rename_i hrun
    have hidle := (h.idle (by simpa using hrun)).1
    obtain ⟨htimers, hstops⟩ := halone.resolve_left hrun
    show Tidy (Drainer.scheduleNext _ _)
    unfold Drainer.scheduleNext
    exact
      { one := by
          show (d.timers ++ [0]).length + loops d ≤ 1
          rw [htimers, hidle]
          rfl
        waiter := fun _ => hidle
        promised := h.promised
        resolved := h.resolved
        idle := fun hfalse => by cases hfalse
        stops := fun p hp => by
          have hmem : p ∈ d.stops := hp
          rw [hstops] at hmem
          cases hmem }

theorem Tidy.stop {d : Drainer ε} (h : Tidy d) : Tidy d.stop := by
  unfold Drainer.stop
  split
  · exact h
  · split
    · rename_i hrun _ promise hwaiter
      exact
        { one := h.one
          waiter := h.waiter
          promised := h.promised
          resolved := h.resolved
          idle := fun hfalse => by
            have hfalse' : d.running = false := hfalse
            exact absurd (by rw [hfalse']; exact Bool.false_ne_true) hrun
          stops := fun p hp => by
            refine ⟨rfl, ?_⟩
            rcases List.mem_append.1 hp with hold | hnew
            · exact (h.stops p hold).2
            · rw [List.mem_singleton.1 hnew]
              exact .inr hwaiter }
    · rename_i hwaiter
      exact
        { one := h.one
          waiter := h.waiter
          promised := h.promised
          resolved := h.resolved
          idle := fun _ => ⟨h.waiter hwaiter, .inl rfl⟩
          stops := fun p hp => ⟨rfl, (h.stops p hp).2⟩ }

/-- A `stop` that returns at once leaves nothing to start a cycle. -/
theorem Tidy.stop_rests {d : Drainer ε} (h : Tidy d) : Rests d.stop := by
  unfold Drainer.stop
  split
  · rename_i hrun
    exact (h.idle (by simpa using hrun)).2
  · split
    · exact .inl rfl
    · exact .inl rfl

/-- A `stop` that has waited leaves nothing in flight either. -/
theorem Tidy.stopped {d d' : Drainer ε} {call : Nat} (h : Tidy d)
    (hd : d.stopped call = some d') : Tidy d' ∧ Rests d' := by
  unfold Drainer.stopped at hd
  split at hd
  · rename_i promise hcall
    split at hd
    · rename_i hresolved
      cases hd
      obtain ⟨hreq, hwaiter⟩ := h.stops promise (List.mem_of_getElem? hcall)
      have hnone : d.waiter = none :=
        hwaiter.resolve_right fun hsome => (h.promised promise hsome).1 hresolved
      refine ⟨?_, .inl hreq⟩
      exact
        { one := h.one
          waiter := h.waiter
          promised := h.promised
          resolved := h.resolved
          idle := fun _ => ⟨h.waiter hnone, .inl hreq⟩
          stops := fun p hp => h.stops p (List.mem_of_mem_eraseIdx hp) }
    · cases hd
  · cases hd

/-! ## Cycles of the loop -/

theorem Tidy.dropTimer {d : Drainer ε} (h : Tidy d) (i : Nat) :
    Tidy { d with timers := d.timers.eraseIdx i } where
  one := by
    have hlen : (d.timers.eraseIdx i).length ≤ d.timers.length := List.length_eraseIdx_le ..
    have hone := h.one
    show (d.timers.eraseIdx i).length + loops d ≤ 1
    omega
  waiter := h.waiter
  promised := h.promised
  resolved := h.resolved
  idle hrun := by
    refine ⟨(h.idle hrun).1, (h.idle hrun).2.imp_right fun hnil => ⟨hnil.1, ?_⟩⟩
    show d.timers.eraseIdx i = []
    rw [hnil.2]
    rfl
  stops := h.stops

/-- The end of `runCycle` sets the next timer, and it is the only one. -/
theorem Tidy.cycleOver {opts : DrainerOptions} {d : Drainer ε} {c : Cycle ε} (h : Tidy d)
    (hrun : d.running = true) (htimers : d.timers = []) (hloops : loops d = 0) :
    Tidy (d.cycleOver opts c) := by
  have hresolved : ∀ p ∈ d.resolved ++ d.waiter.toList, p < d.promises := by
    intro p hp
    rcases List.mem_append.1 hp with hold | hnew
    · exact h.resolved p hold
    · exact (h.promised p (Option.mem_toList.1 hnew)).2
  unfold Drainer.cycleOver
  dsimp only
  generalize (if c.processed > 0 ∨ c.failed > 0 then (0 : Int) else opts.pollIntervalMs) = delay
  unfold Drainer.scheduleNext
  split
  · exact
      { one := h.one
        waiter := fun _ => hloops
        promised := fun _ hp => by cases hp
        resolved := hresolved
        idle := fun hfalse => absurd (hrun.symm.trans hfalse) Bool.true_eq_false.mp
        stops := fun p hp => ⟨(h.stops p hp).1, .inl rfl⟩ }
  · exact
      { one := by
          show (d.timers ++ [delay]).length + loops d ≤ 1
          rw [htimers, hloops]
          rfl
        waiter := fun _ => hloops
        promised := fun _ hp => by cases hp
        resolved := hresolved
        idle := fun hfalse => absurd (hrun.symm.trans hfalse) Bool.true_eq_false.mp
        stops := fun p hp => ⟨(h.stops p hp).1, .inl rfl⟩ }

/-- A cycle that takes the loop no further than it was. -/
theorem Tidy.setCycles {d : Drainer ε} {cs : List (Cycle ε)} (h : Tidy d)
    (hle : cs.countP inLoop ≤ loops d) : Tidy { d with cycles := cs } where
  one := by
    have hone := h.one
    show d.timers.length + cs.countP inLoop ≤ 1
    omega
  waiter hnone := by
    have hzero := h.waiter hnone
    show cs.countP inLoop = 0
    omega
  promised := h.promised
  resolved := h.resolved
  idle hrun := by
    have hzero := (h.idle hrun).1
    refine ⟨?_, (h.idle hrun).2⟩
    show cs.countP inLoop = 0
    omega
  stops := h.stops

theorem putCycle_finished {opts : DrainerOptions} {d : Drainer ε} {i : Nat} {c : Cycle ε}
    (hphase : c.phase = .finished) (hloop : c.looping = true) :
    d.putCycle opts i c = Drainer.cycleOver opts { d with cycles := d.cycles.set i c } c := by
  unfold Drainer.putCycle
  dsimp only
  rw [hphase]
  exact if_pos hloop

theorem putCycle_else {opts : DrainerOptions} {d : Drainer ε} {i : Nat} {c : Cycle ε}
    (h : c.active = true ∨ c.looping = false) :
    d.putCycle opts i c = { d with cycles := d.cycles.set i c } := by
  unfold Drainer.putCycle
  dsimp only
  split
  · rename_i hphase
    rcases h with hactive | hloop
    · unfold Cycle.active at hactive
      rw [hphase] at hactive
      cases hactive
    · exact if_neg (by rw [hloop]; exact Bool.false_ne_true)
  · rfl

theorem phase_of_not_active {c : Cycle ε} (h : c.active = false) : c.phase = .finished := by
  unfold Cycle.active at h
  split at h
  · assumption
  · cases h

/-- The loop takes up a cycle, which may be over at once. -/
theorem Tidy.beginLoop {opts : DrainerOptions} {d : Drainer ε} {c : Cycle ε} (h : Tidy d)
    (hrun : d.running = true) (hstop : d.stopRequested = false) (htimers : d.timers = [])
    (hloops : loops d = 0) (hc : c.looping = true) : Tidy (d.beginCycle opts c) := by
  have hset : (d.cycles ++ [c]).set ((d.cycles ++ [c]).length - 1) c = d.cycles ++ [c] := by
    simp
  have hcount : (d.cycles ++ [c]).countP inLoop = if inLoop c = true then 1 else 0 := by
    rw [List.countP_append, List.countP_singleton]
    show loops d + _ = _
    omega
  have htidy : Tidy { d with
      cycles := d.cycles ++ [c], waiter := some d.promises, promises := d.promises + 1 } :=
    { one := by
        show d.timers.length + (d.cycles ++ [c]).countP inLoop ≤ 1
        rw [htimers, hcount, List.length_nil]
        split <;> omega
      waiter := fun hnone => by cases hnone
      promised := fun p hp => by
        cases hp
        exact ⟨fun hmem => Nat.lt_irrefl _ (h.resolved _ hmem), Nat.lt_succ_self _⟩
      resolved := fun p hp => Nat.lt_succ_of_lt (h.resolved p hp)
      idle := fun hfalse => absurd (hrun.symm.trans hfalse) Bool.true_eq_false.mp
      stops := fun p hp => by
        have hreq := (h.stops p hp).1
        rw [hstop] at hreq
        cases hreq }
  unfold Drainer.beginCycle
  dsimp only
  rw [if_pos hc]
  cases hactive : c.active with
  | true =>
      rw [putCycle_else (.inl hactive)]
      dsimp only
      rw [hset]
      exact htidy
  | false =>
      rw [putCycle_finished (phase_of_not_active hactive) hc]
      dsimp only
      rw [hset]
      apply htidy.cycleOver hrun htimers
      show (d.cycles ++ [c]).countP inLoop = 0
      rw [hcount, if_neg]
      unfold inLoop
      rw [hc, hactive]
      exact Bool.false_ne_true

/-- A turn of a cycle. -/
theorem Tidy.putCycle {opts : DrainerOptions} {d : Drainer ε} {i : Nat} {c c' : Cycle ε}
    (h : Tidy d) (hc : d.cycles[i]? = some c) (hactive : c.active = true)
    (hlooping : c'.looping = c.looping) :
    Tidy (d.putCycle opts i c') ∧ (Rests d → Rests (d.putCycle opts i c')) := by
  have hcount := countP_set_add c' inLoop hc
  by_cases helse : c'.active = true ∨ c'.looping = false
  · rw [putCycle_else helse]
    have hsame : inLoop c' = inLoop c := by
      unfold inLoop
      rw [hlooping, hactive]
      rcases helse with hactive' | hloop
      · rw [hactive']
      · rw [← hlooping, hloop]
        rfl
    rw [hsame] at hcount
    refine ⟨h.setCycles ?_, id⟩
    show (d.cycles.set i c').countP inLoop ≤ d.cycles.countP inLoop
    omega
  · have hloop' : c'.looping = true := by simpa using fun hno => helse (.inr hno)
    have hover : c'.active = false := by simpa using fun hyes => helse (.inl hyes)
    have hloop : c.looping = true := hlooping.symm.trans hloop'
    have hin : inLoop c = true := by
      unfold inLoop
      rw [hloop, hactive]
      rfl
    have hout : inLoop c' = false := by
      unfold inLoop
      rw [hover, Bool.and_false]
    rw [hin, hout] at hcount
    have hcount' : (d.cycles.set i c').countP inLoop + 1 = loops d := hcount
    have hone := h.one
    -- the loop has a cycle in flight, so the drainer runs and no timer is pending
    have hrun : d.running = true := by
      cases hcase : d.running with
      | true => rfl
      | false =>
          have hzero := (h.idle hcase).1
          omega
    have htimers : d.timers = [] := List.length_eq_zero_iff.1 (by omega)
    have hset : Tidy { d with cycles := d.cycles.set i c' } := h.setCycles (by omega)
    rw [putCycle_finished (phase_of_not_active hover) hloop']
    refine ⟨hset.cycleOver hrun htimers ?_, fun hrests => .inl ?_⟩
    · show (d.cycles.set i c').countP inLoop = 0
      omega
    · have hreq : d.stopRequested = true :=
        hrests.resolve_right fun hidle => absurd (hrun.symm.trans hidle.1) Bool.true_eq_false.mp
      unfold Drainer.cycleOver Drainer.scheduleNext
      dsimp only
      rw [if_pos hreq]
      exact hreq

/-! ## Runs -/

theorem Inv.timer {opts : Options} {w : Watched ε} {st : State ε} {i : Nat} {now : Int}
    {statement : Option String} (h : Inv w)
    (hst : timerStep opts w.state i now statement = some st) :
    Inv { state := st, halted := w.halted } ∧
      (w.state.drainer.stopRequested = false → w.halted = false) := by
  unfold timerStep at hst
  split at hst
  · rename_i hi
    have hne : w.state.drainer.timers ≠ [] := fun hnil => by
      rw [hnil] at hi
      cases hi
    dsimp only at hst
    split at hst
    · rename_i hreq
      cases hst
      exact ⟨⟨h.tidy.dropTimer i, fun _ => .inl hreq⟩, fun hno => by
        rw [hreq] at hno
        cases hno⟩
    · rename_i hreq
      cases hst
      have hstop : w.state.drainer.stopRequested = false := by simpa using hreq
      have hrun := h.tidy.running_of_timer hstop hne
      have hhalted : w.halted = false := by
        cases hcase : w.halted with
        | false => rfl
        | true =>
            rcases h.halted hcase with hyes | ⟨hidle, -⟩
            · exact absurd hyes hreq
            · exact absurd (hrun.symm.trans hidle) Bool.true_eq_false.mp
      obtain ⟨htimers, hloops⟩ := h.tidy.fires hi
      refine ⟨⟨?_, fun hyes => absurd (hhalted.symm.trans hyes) Bool.false_ne_true⟩,
        fun _ => hhalted⟩
      exact (h.tidy.dropTimer i).beginLoop hrun hstop htimers hloops (begin_looping ..)
  · cases hst

theorem Inv.advance {opts : Options} {w : Watched ε} {st : State ε} {i : Nat}
    {reply : Reply ε} (h : Inv w) (hst : advanceStep opts w.state i reply = some st) :
    Inv { state := st, halted := w.halted } := by
  unfold advanceStep at hst
  split at hst
  · cases hst
  · rename_i c hc
    obtain ⟨⟨o, entries, c'⟩, hadvance, rfl⟩ := Option.map_eq_some_iff.1 hst
    obtain ⟨hactive, hlooping⟩ := advance_active hadvance
    have hput : Tidy (w.state.drainer.putCycle opts.drainer i c') ∧
        (Rests w.state.drainer → Rests (w.state.drainer.putCycle opts.drainer i c')) :=
      h.tidy.putCycle hc hactive hlooping
    exact ⟨hput.1, fun hhalted => hput.2 (h.halted hhalted)⟩

theorem Inv.drainOnce {opts : Options} {w : Watched ε} (h : Inv w) (now : Int)
    (statement : Option String) :
    Inv { state := beginCycle opts w.state false now statement, halted := w.halted } := by
  have hlooping : (Cycle.begin opts.drainer w.state.outbox false now statement :
      Cycle ε).looping = false := begin_looping ..
  unfold beginCycle Drainer.beginCycle
  dsimp only
  rw [hlooping, if_neg Bool.false_ne_true]
  refine ⟨h.tidy.setCycles ?_, h.halted⟩
  rw [List.countP_append, List.countP_singleton, if_neg]
  · exact Nat.le_refl _
  · unfold inLoop
    rw [hlooping]
    exact Bool.false_ne_true

theorem controlled_step (opts : Options) {w w' : Watched ε} {a : Action ε} (h : Inv w)
    (hstep : watch opts w a = some w') (halone : StartsAlone w a) :
    Controlled w a w' ∧ Inv w' := by
  have hsame : ∀ st : State ε, st.drainer = w.state.drainer →
      Inv ({ state := st, halted := w.halted } : Watched ε) := by
    intro st hd
    exact ⟨hd ▸ h.tidy, hd ▸ h.halted⟩
  suffices hinv : Inv w' ∧ (startsCycle w a = true → w.halted = false) from
    ⟨⟨hinv.1.tidy.oneLoop, hinv.2⟩, hinv.1⟩
  obtain ⟨st, hst, rfl⟩ := Option.map_eq_some_iff.1 hstep
  cases a with
  | request req now =>
      cases hst
      exact ⟨hsame _ rfl, fun hno => by cases hno⟩
  | insert i statement =>
      refine ⟨hsame st ?_, fun hno => by cases hno⟩
      change insertStep opts w.state i statement = some st at hst
      unfold insertStep at hst
      split at hst
      · cases hst
        rfl
      · cases hst
  | start =>
      cases hst
      exact ⟨⟨h.tidy.start halone, fun hno => by cases hno⟩, fun hno => by cases hno⟩
  | stop =>
      cases hst
      exact ⟨⟨h.tidy.stop, fun _ => h.tidy.stop_rests⟩, fun hno => by cases hno⟩
  | stopped call =>
      obtain ⟨d, hd, rfl⟩ := Option.map_eq_some_iff.1 hst
      obtain ⟨htidy, hrests⟩ := h.tidy.stopped hd
      exact ⟨⟨htidy, fun _ => hrests⟩, fun hno => by cases hno⟩
  | timer i now statement =>
      obtain ⟨hinv, hhalted⟩ := h.timer hst
      exact ⟨hinv, fun hstarts => hhalted (by simpa [startsCycle] using hstarts)⟩
  | drainOnce now statement =>
      cases hst
      exact ⟨h.drainOnce now statement, fun hno => by cases hno⟩
  | advance i reply =>
      exact ⟨h.advance hst, fun hno => by cases hno⟩

/-- As long as every `start` finds the drainer running or at rest, with no timer pending and
no `stop` waiting, there is one poll loop and it rests after `stop`. -/
theorem one_poll_loop (opts : Options) (acts : List (Action ε))
    (halone : Along (watch opts) (fun w a _ => StartsAlone w a) {} acts) :
    Along (watch opts) Controlled {} acts :=
  along_of_inv Inv (fun _ _ _ h hstep hok => controlled_step opts h hstep hok) acts {}
    inv_init halone

/-! ## A restart before the timer fires -/

section Restart

def idleOpts : Options where
  receiver :=
    { driver :=
        { source := "helius"
          verifyRequest := fun _ => none
          parseRawPayload := fun _ => .ok [] } }
  drainer := { drivers := fun _ => false, jsonError := fun _ => none }

/-- The timer of the first `start` is still pending at the second. -/
def quickRestart : List (Action String) := [.start, .stop, .start]

/-- Both timers fire, and both cycles wait for their rows. -/
def bothFire : List (Action String) := [.timer 0 5 none, .timer 0 5 none]

theorem quickRestart_two_loops :
    (∃ w, exec (watch idleOpts) {} (quickRestart ++ bothFire) = some w ∧
      loops w.state.drainer = 2) ∧
      ¬ Along (watch idleOpts) Controlled {} quickRestart := by
  constructor
  · decide +kernel
  · decide +kernel

/-- The second `start` waits until the old timer has found `stopRequested`. -/
def slowRestart : List (Action String) :=
  [.start, .stop, .timer 0 1 none, .start, .timer 0 5 none, .stop, .advance 0 { now := 6 },
    .stopped 0, .start]

theorem one_poll_loop_slowRestart : Along (watch idleOpts) Controlled {} slowRestart :=
  one_poll_loop idleOpts slowRestart (by decide +kernel)

end Restart

end Ap3xSolana.Webhooks.PollLoop
