import Ap3xSolana.Lib.Run
import Ap3xSolana.Signals.BusSteps

/-!
# Disposed producers

`dispose`, the deferred `start` and `emit` do not know which registration they belong to.
The first two look their producer up by its id, and so come to a producer that was
registered under the same id since; `emit` looks at `closed` alone.

A registration is over once its `dispose` was called.  `disposed_silent_iff` says in which
runs the bus leaves the registrations that are over alone, and the newer ones to
themselves: those whose steps are all `Careful`.
-/

namespace Ap3xSolana.Signals.Disposal

open Ap3xSolana.Lib Ap3xSolana.Lib.Run Ap3xSolana.Signals.MemorySignalBus

variable {δ : Type}

/-! ## The property -/

/-- The events that a step records. -/
def newEvents (bus bus' : MemorySignalBus δ) : List BusEvent :=
  bus'.events.drop bus.events.length

/-- The `emit` call with number `k` came after a `dispose` of the registration `p`. -/
def Late (opts : SignalBusOpts) (before : List (BusAction δ)) (k p : Nat) : Prop :=
  ∃ front bus, front ++ [.disposeProducer p] <+: before ∧
    exec step (MemorySignalBus.init δ opts) front = some bus ∧ bus.emissions.length ≤ k

/-- What the step `a` from `bus` to `bus'` must not do, after the actions `before`. -/
structure Silent (opts : SignalBusOpts) (before : List (BusAction δ)) (bus : MemorySignalBus δ)
    (a : BusAction δ) (bus' : MemorySignalBus δ) : Prop where
  starts : ∀ p, .started p ∈ newEvents bus bus' → .disposeProducer p ∉ before
  once : ∀ p, bus'.events.count (.started p) ≤ 1
  stops : ∀ p, a = .disposeProducer p → ∀ q, .stopped q ∈ newEvents bus bus' → q = p
  keeps : ∀ p, a = .disposeProducer p → ∀ q ∈ bus.producers.values, q ≠ p →
    q ∈ bus'.producers.values
  delivers : ∀ k consumer, .handle k consumer ∈ newEvents bus bus' →
    ∀ em, bus'.emissions[k]? = some em → ¬ Late opts before k em.registration

/-- The loop over `cs` comes to a consumer that takes the signal. -/
def takes (em : Emission δ) (k : Nat) (cs : List (RegisteredConsumer δ)) : Bool :=
  (cs.find? fun c => !(em.turn k c).passes).any fun c => em.turn k c = .handle

/-- The step `a` does nothing for a registration that is over, and nothing to another one
of the same id. -/
def Careful (before : List (BusAction δ)) (bus : MemorySignalBus δ) : BusAction δ → Prop
  | .runDeferred =>
      ∀ p ∈ bus.deferred.head?, .disposeProducer p ∈ before → bus.closed = true ∨
        ∀ registration, bus.registrations[p]? = some registration →
          registration.producer.id ∉ bus.producers.keys
  | .disposeProducer p =>
      ∀ registration, bus.registrations[p]? = some registration →
        ∀ q, bus.producers.get? registration.producer.id = some q → q = p
  | .emit p signal sweptAt storedAt =>
      .disposeProducer p ∈ before → ∀ loop ∈ bus.loops (.emit p signal sweptAt storedAt),
        takes loop.2 loop.1 bus.consumers = false
  | _ => True

def AllSilent (opts : SignalBusOpts) (acts : List (BusAction δ)) : Prop :=
  ∀ before a bus bus', before ++ [a] <+: acts →
    exec step (MemorySignalBus.init δ opts) before = some bus → bus.step a = some bus' →
      Silent opts before bus a bus'

def AllCareful (opts : SignalBusOpts) (acts : List (BusAction δ)) : Prop :=
  ∀ before a bus bus', before ++ [a] <+: acts →
    exec step (MemorySignalBus.init δ opts) before = some bus → bus.step a = some bus' →
      Careful before bus a

/-! ## What a step records -/

theorem newEvents_eq {bus bus' : MemorySignalBus δ} {new : List BusEvent}
    (h : bus'.events = bus.events ++ new) : newEvents bus bus' = new := by
  rw [newEvents, h, List.drop_left]

/-- No producer registers, and no deferred start runs. -/
structure Settled (bus bus' : MemorySignalBus δ) : Prop where
  registrations : bus'.registrations = bus.registrations
  deferred : bus'.deferred = bus.deferred
  events : ∃ new, bus'.events = bus.events ++ new ∧ ∀ p, .started p ∉ new

structure Enqueues (bus bus' : MemorySignalBus δ) : Prop where
  registrations : bus'.registrations.length = bus.registrations.length + 1
  deferred : bus'.deferred = bus.deferred ++ [bus.registrations.length]
  events : bus'.events = bus.events

/-- The deferred start of the registration `p` runs. -/
structure Starts (bus bus' : MemorySignalBus δ) (p : Nat) (registration : ProducerRegistration) :
    Prop where
  found : bus.registrations[p]? = some registration
  registrations : bus'.registrations.length = bus.registrations.length
  deferred : bus.deferred = p :: bus'.deferred
  events : bus'.events = bus.events ++
    if bus.closed = true ∨ registration.producer.id ∉ bus.producers.keys then []
    else [.started p]

theorem Settled.refl (bus : MemorySignalBus δ) : Settled bus bus :=
  ⟨rfl, rfl, [], (List.append_nil _).symm, fun _ => List.not_mem_nil⟩

theorem advance_starts (bus : MemorySignalBus δ) (k : Nat) (em : Emission δ) (p : Nat) :
    .started p ∉ (bus.advance k em).2 := by
  intro hmem
  have habout := (advance_about bus k em _ hmem).1
  cases habout

theorem settled_emit (bus : MemorySignalBus δ) (p : Nat) (producer : SignalProducer)
    (signal : Signal δ) (sweptAt storedAt : Int) :
    Settled bus (bus.emit p producer signal sweptAt storedAt) := by
  unfold MemorySignalBus.emit
  split
  · exact .refl bus
  · dsimp only
    split
    · refine ⟨rfl, rfl, _, rfl, fun q hmem => ?_⟩
      rcases List.mem_cons.1 hmem with h | h
      · cases h
      · exact advance_starts _ _ _ q h
    · exact ⟨rfl, rfl, _, rfl, by simp⟩

theorem settled_settle {bus bus' : MemorySignalBus δ} {k : Nat} {threw : Bool}
    (h : bus.settle k threw = some bus') : Settled bus bus' := by
  unfold MemorySignalBus.settle at h
  split at h
  · cases h
  · split at h
    · cases h
      refine ⟨rfl, rfl, _, rfl, fun q hmem => ?_⟩
      cases threw <;> simp at hmem <;> exact advance_starts bus k _ q hmem
    · cases h

theorem runDeferred_starts {bus bus' : MemorySignalBus δ} (h : bus.runDeferred = some bus') :
    ∃ p registration, Starts bus bus' p registration := by
  unfold MemorySignalBus.runDeferred at h
  split at h
  · cases h
  · rename_i p deferred hdeferred
    split at h
    · cases h
    · rename_i registration hfound
      refine ⟨p, registration, ?_⟩
      dsimp only at h
      split at h
      · rename_i hgone
        cases h
        exact ⟨hfound, rfl, hdeferred, by rw [if_pos hgone, List.append_nil]⟩
      · rename_i hthere
        cases h
        refine ⟨hfound, List.length_set, hdeferred, ?_⟩
        rw [if_neg hthere]
        rfl

/-- What a step does to the registrations and the deferred starts. -/
theorem step_deferred {bus bus' : MemorySignalBus δ} {a : BusAction δ}
    (h : bus.step a = some bus') :
    Settled bus bus' ∨ Enqueues bus bus' ∨
      (a = .runDeferred ∧ ∃ p registration, Starts bus bus' p registration) := by
  cases a with
  | registerProducer producer =>
      cases h
      show Settled bus (bus.unlessThrown (bus.registerProducer producer)) ∨
        Enqueues bus (bus.unlessThrown (bus.registerProducer producer)) ∨ _
      unfold registerProducer
      split
      · exact .inl (.refl bus)
      · split
        · exact .inl (.refl bus)
        · exact .inr (.inl ⟨List.length_append, rfl, rfl⟩)
  | runDeferred => exact .inr (.inr ⟨rfl, runDeferred_starts h⟩)
  | startRejects p =>
      refine .inl ?_
      simp only [step] at h
      split at h
      · split at h
        · cases h
          exact ⟨rfl, rfl, _, rfl, by simp⟩
        · cases h
      · cases h
  | disposeProducer p =>
      refine .inl ?_
      change bus.disposeProducer p = some bus' at h
      unfold MemorySignalBus.disposeProducer at h
      split at h
      · cases h
      · split at h
        · cases h
          exact .refl bus
        · cases h
          exact ⟨rfl, rfl, _, rfl, by simp⟩
  | registerConsumer consumer =>
      refine .inl ?_
      cases h
      show Settled bus (bus.unlessThrown (bus.registerConsumer consumer))
      unfold registerConsumer
      split
      · exact .refl bus
      · split
        · exact .refl bus
        · exact ⟨rfl, rfl, _, rfl, by simp⟩
  | disposeConsumer id =>
      cases h
      exact .inl ⟨rfl, rfl, [], (List.append_nil _).symm, by simp⟩
  | emit p signal sweptAt storedAt =>
      refine .inl ?_
      simp only [step] at h
      split at h
      · split at h
        · cases h
          exact settled_emit _ _ _ _ _ _
        · cases h
      · cases h
  | settle k threw => exact .inl (settled_settle h)
  | close =>
      refine .inl ?_
      cases h
      unfold MemorySignalBus.close
      split
      · exact .refl bus
      · exact ⟨rfl, rfl, _, rfl, by simp⟩
  | clear =>
      refine .inl ?_
      change bus.clear = some bus' at h
      unfold MemorySignalBus.clear at h
      split at h
      · cases h
        exact ⟨rfl, rfl, [], (List.append_nil _).symm, by simp⟩
      · cases h

/-! ## The deferred starts -/

/-- Every registration has one deferred start, and is not started before it. -/
structure Queued (bus : MemorySignalBus δ) : Prop where
  nodup : bus.deferred.Nodup
  known : ∀ p, p ∈ bus.deferred ∨ .started p ∈ bus.events → p < bus.registrations.length
  fresh : ∀ p ∈ bus.deferred, .started p ∉ bus.events
  once : ∀ p, bus.events.count (.started p) ≤ 1

theorem queued_init (opts : SignalBusOpts) : Queued (MemorySignalBus.init δ opts) where
  nodup := List.nodup_nil
  known p h := by rcases h with h | h <;> cases h
  fresh p h := by cases h
  once p := Nat.zero_le 1

theorem Queued.settled {bus bus' : MemorySignalBus δ} (hq : Queued bus) (h : Settled bus bus') :
    Queued bus' := by
  obtain ⟨new, hevents, hnew⟩ := h.events
  have hmem : ∀ p, .started p ∈ bus'.events ↔ .started p ∈ bus.events := by
    intro p
    rw [hevents, List.mem_append, or_iff_left (hnew p)]
  constructor
  · rw [h.deferred]
    exact hq.nodup
  · intro p hp
    rw [h.deferred, hmem] at hp
    rw [h.registrations]
    exact hq.known p hp
  · intro p hp
    rw [h.deferred] at hp
    rw [hmem]
    exact hq.fresh p hp
  · intro p
    rw [hevents, List.count_append, List.count_eq_zero.2 (hnew p)]
    exact hq.once p

theorem Queued.enqueues {bus bus' : MemorySignalBus δ} (hq : Queued bus)
    (h : Enqueues bus bus') : Queued bus' := by
  have hlast : ∀ {p}, p = bus.registrations.length →
      p ∉ bus.deferred ∧ .started p ∉ bus.events := by
    rintro p rfl
    exact ⟨fun hp => Nat.lt_irrefl _ (hq.known _ (.inl hp)),
      fun hp => Nat.lt_irrefl _ (hq.known _ (.inr hp))⟩
  constructor
  · rw [h.deferred]
    refine List.nodup_append.2 ⟨hq.nodup, List.nodup_singleton _, ?_⟩
    intro p hp p' hp' heq
    exact (hlast (heq.trans (List.mem_singleton.1 hp'))).1 hp
  · intro p hp
    rw [h.deferred, h.events, List.mem_append, List.mem_singleton] at hp
    rw [h.registrations]
    have hknown := hq.known p
    by_cases heq : p = bus.registrations.length
    · omega
    · have hlt : p < bus.registrations.length := hknown (by tauto)
      omega
  · intro p hp
    rw [h.deferred, List.mem_append, List.mem_singleton] at hp
    rw [h.events]
    exact hp.elim (hq.fresh p) fun hp => (hlast hp).2
  · rw [h.events]
    exact hq.once

theorem Queued.starts {bus bus' : MemorySignalBus δ} (hq : Queued bus) {p : Nat}
    {registration : ProducerRegistration} (h : Starts bus bus' p registration) :
    Queued bus' := by
  have hnodup := hq.nodup
  rw [h.deferred, List.nodup_cons] at hnodup
  have hfresh : .started p ∉ bus.events := hq.fresh p (h.deferred ▸ List.mem_cons_self)
  have hrest : ∀ {q}, q ∈ bus'.deferred → q ∈ bus.deferred := by
    intro q hq'
    rw [h.deferred]
    exact List.mem_cons_of_mem p hq'
  have hnew : ∀ {q}, .started q ∈ bus'.events → .started q ∈ bus.events ∨ q = p := by
    intro q hmem
    rw [h.events, List.mem_append] at hmem
    refine hmem.imp_right fun hmem => ?_
    split at hmem
    · cases hmem
    · cases List.mem_singleton.1 hmem
      rfl
  constructor
  · exact hnodup.2
  · intro q hmem
    rw [h.registrations]
    rcases hmem with hmem | hmem
    · exact hq.known q (.inl (hrest hmem))
    · rcases hnew hmem with hmem | rfl
      · exact hq.known q (.inr hmem)
      · exact hq.known q (.inl (h.deferred ▸ List.mem_cons_self))
  · intro q hmem hstarted
    rcases hnew hstarted with hstarted | rfl
    · exact hq.fresh q (hrest hmem) hstarted
    · exact hnodup.1 hmem
  · intro q
    rw [h.events, List.count_append]
    have honce := hq.once q
    split
    · exact honce
    · by_cases heq : p = q
      · rw [← heq, List.count_eq_zero.2 hfresh]
        simp
      · rw [List.count_singleton, if_neg (by simpa using heq)]
        exact honce

theorem Queued.step {bus bus' : MemorySignalBus δ} {a : BusAction δ} (hq : Queued bus)
    (h : bus.step a = some bus') : Queued bus' := by
  rcases step_deferred h with hsettled | henqueues | ⟨-, p, registration, hstarts⟩
  · exact hq.settled hsettled
  · exact hq.enqueues henqueues
  · exact hq.starts hstarts

/-! ## Late emissions -/

theorem dispatched_takes {em : Emission δ} {k : Nat} {cs : List (RegisteredConsumer δ)}
    {result : EmitStage × List BusEvent} (h : Dispatched em k cs result) :
    (takes em k cs = true ↔ ∃ consumer, .handle k consumer ∈ result.2) ∧
      (takes em k cs = false → ∀ consumer id, result.1 ≠ .awaiting consumer id) := by
  have hnotes : ∀ {notes consumer}, Mismatches k notes → .handle k consumer ∉ notes := by
    intro notes consumer hnotes hmem
    obtain ⟨consumer', error, heq⟩ := hnotes _ hmem
    cases heq
  have hfront : ∀ {front : List (RegisteredConsumer δ)},
      (∀ c ∈ front, (em.turn k c).passes = true) →
        front.find? (fun c => !(em.turn k c).passes) = none := by
    intro front hpass
    rw [List.find?_eq_none]
    intro c hc
    simp [hpass c hc]
  cases h with
  | resolved notes hmism hpass =>
      simp [takes, hfront hpass, hnotes hmism]
  | awaiting front c back notes hmism hcs hpass hturn =>
      have hfind : cs.find? (fun c => !(em.turn k c).passes) = some c := by
        rw [hcs, List.find?_append, hfront hpass]
        simp [hturn, Turn.passes]
      simp [takes, hfind, hturn]
  | rejected front c back notes hmism hcs hpass hturn =>
      have hfind : cs.find? (fun c => !(em.turn k c).passes) = some c := by
        rw [hcs, List.find?_append, hfront hpass]
        simp [hturn, Turn.passes]
      simp [takes, hfind, hturn, hnotes hmism]

theorem advance_takes (bus : MemorySignalBus δ) (k : Nat) {em : Emission δ}
    (hcursor : em.cursor = 0) :
    (takes em k bus.consumers = true ↔ ∃ consumer, .handle k consumer ∈ (bus.advance k em).2) ∧
      (takes em k bus.consumers = false →
        ∀ consumer id, (bus.advance k em).1.stage ≠ .awaiting consumer id) := by
  have hall : bus.ahead em.cursor = bus.consumers := by
    rw [hcursor]
    exact List.filter_eq_self.2 fun c _ => by simp
  have h := dispatched_takes (dispatched em k (bus.ahead em.cursor))
  rw [hall] at h
  unfold advance
  rw [hall]
  exact h

/-- A call of a step that publishes is one of `emit`. -/
theorem loops_new {bus : MemorySignalBus δ} {a : BusAction δ} {em : Emission δ}
    (h : bus.loops a = some (bus.emissions.length, em)) :
    ∃ p signal sweptAt storedAt, a = .emit p signal sweptAt storedAt ∧ em.registration = p := by
  cases a with
  | emit p signal sweptAt storedAt =>
      refine ⟨p, signal, sweptAt, storedAt, rfl, ?_⟩
      simp only [loops] at h
      split at h
      · split at h
        · cases h
          rfl
        · cases h
      · cases h
  | settle k threw =>
      simp only [loops, Option.map_eq_some_iff, Prod.mk.injEq] at h
      obtain ⟨em', hem', rfl, -⟩ := h
      rw [List.getElem?_eq_none (le_refl _)] at hem'
      cases hem'
  | _ => cases h

theorem loops_emit {bus : MemorySignalBus δ} {p : Nat} {signal : Signal δ}
    {sweptAt storedAt : Int} {k : Nat} {em : Emission δ}
    (h : bus.loops (.emit p signal sweptAt storedAt) = some (k, em)) :
    k = bus.emissions.length := by
  simp only [loops] at h
  split at h
  · split at h
    · cases h
      rfl
    · cases h
  · cases h

theorem emissions_le {bus bus' : MemorySignalBus δ} {a : BusAction δ}
    (h : bus.step a = some bus') : bus.emissions.length ≤ bus'.emissions.length := by
  rcases step_cases h with ⟨hquiet, -⟩ | ⟨consumer, -, hregisters⟩ | ⟨em, -, hpublishes⟩ |
    ⟨k, em, consumer, consumerId, threw, -, hsettles⟩
  · exact (congrArg List.length hquiet.emissions).ge
  · exact (congrArg List.length hregisters.emissions).ge
  · rw [hpublishes.emissions, List.length_append]
    exact Nat.le_add_right _ _
  · rw [hsettles.emissions, List.length_set]

section Over

variable {opts : SignalBusOpts} {before : List (BusAction δ)} {bus bus' : MemorySignalBus δ}
  {a : BusAction δ}

/-- A call of a registration that is over is late. -/
theorem late_of_disposed (hrun : exec step (MemorySignalBus.init δ opts) before = some bus)
    {p : Nat} (hp : .disposeProducer p ∈ before) : Late opts before bus.emissions.length p := by
  obtain ⟨front, back, rfl⟩ := List.append_of_mem hp
  obtain ⟨v, hv, hback⟩ := exec_append_iff.1 hrun
  refine ⟨front, v, ⟨back, by simp⟩, hv, ?_⟩
  refine @exec_inv _ _ step (fun bus => v.emissions.length ≤ bus.emissions.length) ?_ _ _ _
    (le_refl _) hback
  exact fun _ _ _ hle h => hle.trans (emissions_le h)

theorem Late.disposed {k p : Nat} (h : Late opts before k p) : .disposeProducer p ∈ before := by
  obtain ⟨front, v, hpfx, -, -⟩ := h
  exact hpfx.subset (by simp)

/-- An earlier call does not become late. -/
theorem Late.of_append (hrun : exec step (MemorySignalBus.init δ opts) before = some bus)
    {k p : Nat} (hk : k < bus.emissions.length) (h : Late opts (before ++ [a]) k p) :
    Late opts before k p := by
  obtain ⟨front, v, hpfx, hv, hle⟩ := h
  rcases List.prefix_concat_iff.1 hpfx with heq | hpfx
  · obtain ⟨rfl, -⟩ := List.append_inj' heq rfl
    cases hrun.symm.trans hv
    omega
  · exact ⟨front, v, hpfx, hv, hle⟩

/-! ## One step -/

/-- What holds after the actions `before`: no loop of a late emission waits. -/
structure Inv (opts : SignalBusOpts) (before : List (BusAction δ)) (bus : MemorySignalBus δ) :
    Prop where
  queued : Queued bus
  lates : ∀ k em, bus.emissions[k]? = some em → Late opts before k em.registration →
    ∀ consumer id, em.stage ≠ .awaiting consumer id

theorem inv_init (opts : SignalBusOpts) : Inv opts [] (MemorySignalBus.init δ opts) :=
  ⟨queued_init opts, fun _ _ h => by cases h⟩

theorem starts_of_careful (hstep : bus.step a = some bus') (hcareful : Careful before bus a)
    (p : Nat) (hp : .started p ∈ newEvents bus bus') : .disposeProducer p ∉ before := by
  rcases step_deferred hstep with hsettled | henqueues | ⟨rfl, q, registration, hstarts⟩
  · obtain ⟨new, hevents, hnew⟩ := hsettled.events
    rw [newEvents_eq hevents] at hp
    exact absurd hp (hnew p)
  · rw [newEvents_eq (henqueues.events.trans (List.append_nil _).symm)] at hp
    cases hp
  · rw [newEvents_eq hstarts.events] at hp
    split at hp
    · cases hp
    · rename_i hthere
      cases List.mem_singleton.1 hp
      intro hdisposed
      have hhead : p ∈ bus.deferred.head? := by
        rw [hstarts.deferred]
        rfl
      rcases hcareful p hhead hdisposed with hclosed | hgone
      · exact hthere (.inl hclosed)
      · exact hthere (.inr (hgone registration hstarts.found))

/-- A call of `dispose`, and the producer that it stops. -/
theorem disposeProducer_eq {p : Nat} (hstep : bus.step (.disposeProducer p) = some bus') :
    ∃ registration, bus.registrations[p]? = some registration ∧
      ((bus.producers.get? registration.producer.id = none ∧ bus' = bus) ∨
        ∃ q, bus.producers.get? registration.producer.id = some q ∧
          bus' = { bus with producers := bus.producers.erase registration.producer.id }.record
            [.stopped q]) := by
  change bus.disposeProducer p = some bus' at hstep
  unfold MemorySignalBus.disposeProducer at hstep
  split at hstep
  · cases hstep
  · rename_i registration hfound
    refine ⟨registration, hfound, ?_⟩
    split at hstep
    · rename_i hnone
      cases hstep
      exact .inl ⟨hnone, rfl⟩
    · rename_i q hq
      cases hstep
      exact .inr ⟨q, hq, rfl⟩

theorem disposes_of_careful {p : Nat} (hstep : bus.step (.disposeProducer p) = some bus')
    (hcareful : Careful before bus (.disposeProducer p)) :
    (∀ q, .stopped q ∈ newEvents bus bus' → q = p) ∧
      ∀ q ∈ bus.producers.values, q ≠ p → q ∈ bus'.producers.values := by
  obtain ⟨registration, hfound, ⟨-, rfl⟩ | ⟨q, hq, rfl⟩⟩ := disposeProducer_eq hstep
  · refine ⟨fun q hmem => ?_, fun q hmem _ => hmem⟩
    rw [newEvents_eq (List.append_nil _).symm] at hmem
    cases hmem
  · have hqp : q = p := hcareful registration hfound q hq
    constructor
    · intro q' hmem
      rw [newEvents_eq rfl] at hmem
      cases List.mem_singleton.1 hmem
      exact hqp
    · intro q' hmem hne
      obtain ⟨key, hkey⟩ := OrderedMap.exists_get?_of_mem_values hmem
      apply OrderedMap.mem_values_of_get? (k := key)
      show (bus.producers.erase registration.producer.id).get? key = some q'
      rw [OrderedMap.get?_erase, if_neg, hkey]
      rintro rfl
      rw [hq] at hkey
      exact hne ((Option.some.inj hkey).symm.trans hqp)

theorem delivers_of_careful (hinv : Inv opts before bus) (hstep : bus.step a = some bus')
    (hcareful : Careful before bus a) {k consumer : Nat}
    (hmem : .handle k consumer ∈ newEvents bus bus') {em' : Emission δ}
    (hem' : bus'.emissions[k]? = some em') : ¬ Late opts before k em'.registration := by
  intro hlate
  rcases step_cases hstep with ⟨hquiet, -⟩ | ⟨c, -, hregisters⟩ | ⟨em, hloops, hpublishes⟩ |
    ⟨k', em, c, consumerId, threw, -, hsettles⟩
  · obtain ⟨new, hevents, hnew⟩ := hquiet.events
    rw [newEvents_eq hevents] at hmem
    cases (hnew _ hmem).1
  · rw [newEvents_eq hregisters.events] at hmem
    cases List.mem_singleton.1 hmem
  · rw [newEvents_eq hpublishes.events] at hmem
    have hhandle : .handle k consumer ∈ (bus.advance bus.emissions.length em).2 :=
      (List.mem_cons.1 hmem).resolve_left BusEvent.noConfusion
    cases (advance_about bus _ em _ hhandle).1
    rw [hpublishes.emissions, List.getElem?_concat_length] at hem'
    cases hem'
    obtain ⟨p, signal, sweptAt, storedAt, rfl, hp⟩ := loops_new hloops
    have htakes := hcareful (hp ▸ hlate.disposed) _ hloops
    rw [(advance_takes bus _ hpublishes.cursor).1.2 ⟨consumer, hhandle⟩] at htakes
    cases htakes
  · rw [newEvents_eq hsettles.events] at hmem
    have hhandle : .handle k consumer ∈ (bus.advance k' em).2 := by
      cases threw <;> simpa using hmem
    cases (advance_about bus _ em _ hhandle).1
    have hlt := (List.getElem?_eq_some_iff.1 hsettles.found).1
    rw [hsettles.emissions, List.getElem?_set_self hlt] at hem'
    cases hem'
    exact hinv.lates k em hsettles.found hlate c consumerId hsettles.stage

theorem lates_of_careful (hrun : exec step (MemorySignalBus.init δ opts) before = some bus)
    (hinv : Inv opts before bus) (hstep : bus.step a = some bus')
    (hcareful : Careful before bus a) : Inv opts (before ++ [a]) bus' := by
  refine ⟨hinv.queued.step hstep, fun k em' hem' hlate => ?_⟩
  have hold : bus.emissions[k]? = some em' → ∀ consumer id, em'.stage ≠ .awaiting consumer id :=
    fun hem => hinv.lates k em' hem
      (hlate.of_append hrun (List.getElem?_eq_some_iff.1 hem).1)
  rcases step_cases hstep with ⟨hquiet, -⟩ | ⟨c, -, hregisters⟩ | ⟨em, hloops, hpublishes⟩ |
    ⟨k', em, c, consumerId, threw, -, hsettles⟩
  · exact hold (hquiet.emissions ▸ hem')
  · exact hold (hregisters.emissions ▸ hem')
  · rw [hpublishes.emissions] at hem'
    rcases Nat.lt_trichotomy k bus.emissions.length with hlt | rfl | hgt
    · rw [List.getElem?_append_left hlt] at hem'
      exact hold hem'
    · rw [List.getElem?_concat_length] at hem'
      cases hem'
      obtain ⟨p, signal, sweptAt, storedAt, rfl, hp⟩ := loops_new hloops
      have hdisposed : BusAction.disposeProducer p ∈ before := by
        have hmem := hlate.disposed
        rw [List.mem_append, List.mem_singleton] at hmem
        exact hp ▸ hmem.resolve_right (fun h => by cases h)
      exact (advance_takes bus _ hpublishes.cursor).2 (hcareful hdisposed _ hloops)
    · rw [List.getElem?_eq_none] at hem'
      · cases hem'
      · rw [List.length_append, List.length_singleton]
        omega
  · have hlt := (List.getElem?_eq_some_iff.1 hsettles.found).1
    by_cases heq : k' = k
    · cases heq
      rw [hsettles.emissions, List.getElem?_set_self hlt] at hem'
      cases hem'
      have hlate' : Late opts before k em.registration := hlate.of_append hrun hlt
      exact absurd hsettles.stage (hinv.lates k em hsettles.found hlate' c consumerId)
    · rw [hsettles.emissions, List.getElem?_set_ne heq] at hem'
      exact hold hem'

theorem careful_of_silent (hrun : exec step (MemorySignalBus.init δ opts) before = some bus)
    (hstep : bus.step a = some bus') (hsilent : Silent opts before bus a bus') :
    Careful before bus a := by
  cases a with
  | runDeferred =>
      intro p hhead hdisposed
      obtain ⟨q, registration, hstarts⟩ := runDeferred_starts hstep
      have hqp : q = p := by
        rw [hstarts.deferred] at hhead
        exact Option.some.inj hhead
      by_contra hnot
      rw [not_or] at hnot
      apply hsilent.starts p _ hdisposed
      rw [newEvents_eq hstarts.events, if_neg, hqp]
      · exact List.mem_singleton_self _
      · rintro (hclosed | hgone)
        · exact hnot.1 hclosed
        · refine hnot.2 fun registration' hfound => ?_
          cases hstarts.found.symm.trans (hqp ▸ hfound)
          exact hgone
  | disposeProducer p =>
      intro registration hfound q hq
      obtain ⟨registration', hfound', ⟨hnone, -⟩ | ⟨q', hq', rfl⟩⟩ := disposeProducer_eq hstep
      · cases hfound.symm.trans hfound'
        cases hq.symm.trans hnone
      · cases hfound.symm.trans hfound'
        cases hq.symm.trans hq'
        apply hsilent.stops p rfl
        rw [newEvents_eq rfl]
        exact List.mem_singleton_self _
  | emit p signal sweptAt storedAt =>
      intro hdisposed loop hloop
      rcases step_cases hstep with ⟨-, hnone⟩ | ⟨c, h, -⟩ | ⟨em, hloops, hpublishes⟩ |
        ⟨k', em, c, consumerId, threw, hloops, hsettles⟩
      · rw [hnone] at hloop
        cases hloop
      · cases h
      · cases hloop.symm.trans hloops
        rw [Bool.eq_false_iff]
        intro htakes
        obtain ⟨consumer, hhandle⟩ := (advance_takes bus _ hpublishes.cursor).1.1 htakes
        obtain ⟨p', signal', sweptAt', storedAt', h, hp⟩ := loops_new hloops
        cases h
        have hlate := late_of_disposed hrun hdisposed
        have hem := congrArg (·[bus.emissions.length]?) hpublishes.emissions
        rw [List.getElem?_concat_length] at hem
        refine hsilent.delivers bus.emissions.length consumer ?_ _ hem (hp ▸ hlate)
        · rw [newEvents_eq hpublishes.events]
          exact List.mem_cons_of_mem _ hhandle
      · have hlt := (List.getElem?_eq_some_iff.1 hsettles.found).1
        exact absurd (loops_emit hloops) (Nat.ne_of_lt hlt)
  | _ => trivial

end Over

/-- **Disposal.**  In the runs whose steps are all careful, and only in those, the bus leaves
alone the registrations that are over, and the newer ones to themselves. -/
theorem disposed_silent_iff (opts : SignalBusOpts) (acts : List (BusAction δ)) :
    AllSilent opts acts ↔ AllCareful opts acts := by
  apply steps_iff_steps (Inv opts) (inv_init opts)
  intro before bus a bus' hrun hinv hstep
  refine ⟨⟨careful_of_silent hrun hstep, fun hcareful => ?_⟩, lates_of_careful hrun hinv hstep⟩
  constructor
  · exact starts_of_careful hstep hcareful
  · exact (hinv.queued.step hstep).once
  · rintro p rfl
    exact (disposes_of_careful hstep hcareful).1
  · rintro p rfl
    exact (disposes_of_careful hstep hcareful).2
  · intro k consumer hmem em hem
    exact delivers_of_careful hinv hstep hcareful hmem hem

/-! ## One id, two producers -/

def swaps : SignalProducer :=
  { id := "swaps", source := "geyser", signalType := "swap", signalVersion := "v1" }

/-- A producer is disposed before its start, and another one takes its id. -/
def replaced : List (BusAction Unit) :=
  [.registerProducer swaps, .disposeProducer 0, .registerProducer swaps]

/-- A producer is disposed after its start. -/
def stopped : List (BusAction Unit) :=
  [.registerProducer swaps, .runDeferred, .registerConsumer { id := "a" }, .disposeProducer 0]

/-- The first producer is started all the same; its second `dispose` stops the new one; and
the consumer gets what a producer emits after its `dispose`. -/
theorem replaced_not_silent :
    ¬ AllSilent {} (replaced ++ [.runDeferred]) ∧
      ¬ AllSilent {} (replaced ++ [.disposeProducer 0]) ∧
      ¬ AllSilent {} (stopped ++ [.emit 0 (bareSignal "x") 0 0]) := by
  refine ⟨fun hall => ?_, fun hall => ?_, fun hall => ?_⟩
  · have hruns : ∃ bus, exec step (MemorySignalBus.init Unit {}) replaced = some bus ∧
        ∃ bus', bus.step .runDeferred = some bus' ∧ .started 0 ∈ newEvents bus bus' := by
      decide +kernel
    obtain ⟨bus, hbus, bus', hstep, hmem⟩ := hruns
    exact (hall _ _ bus bus' (List.prefix_refl _) hbus hstep).starts 0 hmem (by simp [replaced])
  · have hruns : ∃ bus, exec step (MemorySignalBus.init Unit {}) replaced = some bus ∧
        ∃ bus', bus.step (.disposeProducer 0) = some bus' ∧
          .stopped 1 ∈ newEvents bus bus' := by
      decide +kernel
    obtain ⟨bus, hbus, bus', hstep, hmem⟩ := hruns
    cases (hall _ _ bus bus' (List.prefix_refl _) hbus hstep).stops 0 rfl 1 hmem
  · have hruns : ∃ bus, exec step (MemorySignalBus.init Unit {}) stopped = some bus ∧
        bus.emissions.length = 0 ∧
          ∃ bus', bus.step (.emit 0 (bareSignal "x") 0 0) = some bus' ∧
            .handle 0 0 ∈ newEvents bus bus' ∧
              ∃ em, bus'.emissions[0]? = some em ∧ em.registration = 0 := by
      decide +kernel
    obtain ⟨bus, hbus, hlength, bus', hstep, hmem, em, hem, hp⟩ := hruns
    have hlate := late_of_disposed hbus (p := em.registration) (by simp [stopped, hp])
    rw [hlength] at hlate
    exact (hall _ _ bus bus' (List.prefix_refl _) hbus hstep).delivers 0 0 hmem em hem hlate

end Ap3xSolana.Signals.Disposal
