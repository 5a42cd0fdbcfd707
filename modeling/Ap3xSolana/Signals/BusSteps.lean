import Mathlib.Data.List.Nodup
import Ap3xSolana.Signals.MemorySignalBus

/-!
# What a step of the bus does

`Advanced` says where the loop of an emission stops: at the end, at the first consumer that
takes the signal, or at a filter that throws.  A step makes at most one emission go on
(`step_cases`); everything else that it records is about no emission.
-/

namespace Ap3xSolana.Signals

open Ap3xSolana.Lib

variable {δ : Type}

/-- The emission that an event is about. -/
def BusEvent.emission? : BusEvent → Option Nat
  | .published k => some k
  | .versionMismatch k _ _ => some k
  | .handle k _ => some k
  | .handled k _ _ => some k
  | .filterThrew k _ => some k
  | .handlerError k _ _ => some k
  | .resolved k => some k
  | .rejected k => some k
  | _ => none

/-- The registration of a consumer that an event is about, if it is one. -/
def BusEvent.registered? : BusEvent → Option Nat
  | .registered consumer => some consumer
  | _ => none

/-- The loop goes past the consumer without an `await`. -/
def Turn.passes : Turn → Bool
  | .skip => true
  | .mismatch _ => true
  | _ => false

/-- What the loop makes of a registered consumer. -/
def Emission.turn (em : Emission δ) (k : Nat) (c : RegisteredConsumer δ) : Turn :=
  c.consumer.turn em.producer k em.signal

/-- Version mismatches that the emission `k` reports. -/
def Mismatches (k : Nat) (notes : List BusEvent) : Prop :=
  ∀ e ∈ notes, ∃ consumer error, e = .versionMismatch k consumer error

theorem Mismatches.cons {k : Nat} {notes : List BusEvent} (h : Mismatches k notes)
    (consumer : Nat) (error : VersionMismatchError) :
    Mismatches k (.versionMismatch k consumer error :: notes) := by
  intro e he
  rcases List.mem_cons.1 he with rfl | he
  · exact ⟨consumer, error, rfl⟩
  · exact h e he

/-! ## The loop -/

/-- Where the loop over `cs` stops. -/
inductive Dispatched (em : Emission δ) (k : Nat) (cs : List (RegisteredConsumer δ)) :
    EmitStage × List BusEvent → Prop
  | resolved (notes : List BusEvent) (hnotes : Mismatches k notes)
      (hpass : ∀ c ∈ cs, (em.turn k c).passes = true) :
      Dispatched em k cs (.resolved, notes ++ [.resolved k])
  | awaiting (front : List (RegisteredConsumer δ)) (c : RegisteredConsumer δ)
      (back : List (RegisteredConsumer δ)) (notes : List BusEvent) (hnotes : Mismatches k notes)
      (hcs : cs = front ++ c :: back) (hpass : ∀ c ∈ front, (em.turn k c).passes = true)
      (hturn : em.turn k c = .handle) :
      Dispatched em k cs (.awaiting c.ref c.consumer.id, notes ++ [.handle k c.ref])
  | rejected (front : List (RegisteredConsumer δ)) (c : RegisteredConsumer δ)
      (back : List (RegisteredConsumer δ)) (notes : List BusEvent) (hnotes : Mismatches k notes)
      (hcs : cs = front ++ c :: back) (hpass : ∀ c ∈ front, (em.turn k c).passes = true)
      (hturn : em.turn k c = .throws) :
      Dispatched em k cs (.rejected, notes ++ [.filterThrew k c.ref, .rejected k])

theorem Dispatched.cons {em : Emission δ} {k : Nat} {cs : List (RegisteredConsumer δ)}
    {stage : EmitStage} {events : List BusEvent} (h : Dispatched em k cs (stage, events))
    {c : RegisteredConsumer δ} (hc : (em.turn k c).passes = true) {note : List BusEvent}
    (hnote : Mismatches k note) : Dispatched em k (c :: cs) (stage, note ++ events) := by
  have hpasses : ∀ {front : List (RegisteredConsumer δ)},
      (∀ c ∈ front, (em.turn k c).passes = true) →
        ∀ c' ∈ c :: front, (em.turn k c').passes = true := by
    intro front hfront c' hc'
    rcases List.mem_cons.1 hc' with rfl | hc'
    · exact hc
    · exact hfront c' hc'
  have hjoin : ∀ {notes : List BusEvent}, Mismatches k notes → Mismatches k (note ++ notes) :=
    fun hnotes e he => (List.mem_append.1 he).elim (hnote e) (hnotes e)
  cases h with
  | resolved notes hnotes hpass =>
      rw [← List.append_assoc]
      exact .resolved _ (hjoin hnotes) (hpasses hpass)
  | awaiting front c' back notes hnotes hcs hpass hturn =>
      rw [← List.append_assoc, hcs]
      exact .awaiting (c :: front) c' back _ (hjoin hnotes) rfl (hpasses hpass) hturn
  | rejected front c' back notes hnotes hcs hpass hturn =>
      rw [← List.append_assoc, hcs]
      exact .rejected (c :: front) c' back _ (hjoin hnotes) rfl (hpasses hpass) hturn

theorem dispatched (em : Emission δ) (k : Nat) (cs : List (RegisteredConsumer δ)) :
    Dispatched em k cs (dispatch em.producer k em.signal cs) := by
  have hnil : Mismatches k [] := fun _ h => absurd h List.not_mem_nil
  induction cs with
  | nil => exact .resolved [] hnil fun _ h => absurd h List.not_mem_nil
  | cons c cs ih =>
      have hturn : em.turn k c = c.consumer.turn em.producer k em.signal := rfl
      rw [dispatch]
      cases h : c.consumer.turn em.producer k em.signal with
      | skip => exact ih.cons (by rw [hturn, h]; rfl) hnil
      | mismatch error => exact ih.cons (by rw [hturn, h]; rfl) (hnil.cons c.ref error)
      | handle => exact .awaiting [] c cs [] hnil rfl (fun _ h => absurd h List.not_mem_nil) h
      | throws => exact .rejected [] c cs [] hnil rfl (fun _ h => absurd h List.not_mem_nil) h

/-- What the loop adds is about its emission. -/
theorem Dispatched.about {em : Emission δ} {k : Nat} {cs : List (RegisteredConsumer δ)}
    {result : EmitStage × List BusEvent} (h : Dispatched em k cs result) :
    ∀ e ∈ result.2, e.emission? = some k ∧ e.registered? = none := by
  have habout : ∀ notes last, Mismatches k notes →
      (∀ e ∈ last, BusEvent.emission? e = some k ∧ e.registered? = none) →
        ∀ e ∈ notes ++ last, e.emission? = some k ∧ e.registered? = none := by
    intro notes last hnotes hlast e he
    rcases List.mem_append.1 he with he | he
    · obtain ⟨consumer, error, rfl⟩ := hnotes e he
      exact ⟨rfl, rfl⟩
    · exact hlast e he
  cases h with
  | resolved notes hnotes _ =>
      exact habout notes _ hnotes (by simp [BusEvent.emission?, BusEvent.registered?])
  | awaiting front c back notes hnotes _ _ _ =>
      exact habout notes _ hnotes (by simp [BusEvent.emission?, BusEvent.registered?])
  | rejected front c back notes hnotes _ _ _ =>
      exact habout notes _ hnotes (by simp [BusEvent.emission?, BusEvent.registered?])

namespace MemorySignalBus

theorem advance_about (bus : MemorySignalBus δ) (k : Nat) (em : Emission δ) :
    ∀ e ∈ (bus.advance k em).2, e.emission? = some k ∧ e.registered? = none :=
  (dispatched em k (bus.ahead em.cursor)).about

/-- The registrations are numbered in order. -/
structure Numbered (bus : MemorySignalBus δ) : Prop where
  sorted : bus.consumers.Pairwise (·.ref < ·.ref)
  below : ∀ c ∈ bus.consumers, c.ref < bus.nextConsumer

theorem Numbered.eq_of_ref {bus : MemorySignalBus δ} (hbus : bus.Numbered)
    {c c' : RegisteredConsumer δ} (hc : c ∈ bus.consumers) (hc' : c' ∈ bus.consumers)
    (href : c.ref = c'.ref) : c = c' := by
  have hnodup : (bus.consumers.map (·.ref)).Nodup :=
    List.pairwise_map.2 (hbus.sorted.imp Nat.ne_of_lt)
  exact List.inj_on_of_nodup_map hnodup hc hc' href

/-- Where the loop of the emission `k` stops. -/
inductive Advanced (bus : MemorySignalBus δ) (k : Nat) (em : Emission δ) :
    Emission δ × List BusEvent → Prop
  | resolved (notes : List BusEvent) (hnotes : Mismatches k notes)
      (hpass : ∀ c ∈ bus.consumers, em.cursor ≤ c.ref → (em.turn k c).passes = true) :
      Advanced bus k em
        ({ em with cursor := bus.nextConsumer, stage := .resolved }, notes ++ [.resolved k])
  | awaiting (c : RegisteredConsumer δ) (notes : List BusEvent) (hnotes : Mismatches k notes)
      (hmem : c ∈ bus.consumers) (hcursor : em.cursor ≤ c.ref)
      (hpass : ∀ c' ∈ bus.consumers, em.cursor ≤ c'.ref → c'.ref < c.ref →
        (em.turn k c').passes = true)
      (hturn : em.turn k c = .handle) :
      Advanced bus k em
        ({ em with cursor := c.ref + 1, stage := .awaiting c.ref c.consumer.id },
          notes ++ [.handle k c.ref])
  | rejected (c : RegisteredConsumer δ) (notes : List BusEvent) (hnotes : Mismatches k notes)
      (hmem : c ∈ bus.consumers) (hcursor : em.cursor ≤ c.ref)
      (hpass : ∀ c' ∈ bus.consumers, em.cursor ≤ c'.ref → c'.ref < c.ref →
        (em.turn k c').passes = true)
      (hturn : em.turn k c = .throws) :
      Advanced bus k em
        ({ em with cursor := bus.nextConsumer, stage := .rejected },
          notes ++ [.filterThrew k c.ref, .rejected k])

theorem mem_ahead {bus : MemorySignalBus δ} {cursor : Nat} {c : RegisteredConsumer δ} :
    c ∈ bus.ahead cursor ↔ c ∈ bus.consumers ∧ cursor ≤ c.ref := by
  simp [ahead]

/-- In front of a consumer are those with a smaller number. -/
private theorem mem_front_of_lt {cs front back : List (RegisteredConsumer δ)}
    {c c' : RegisteredConsumer δ} (hsorted : cs.Pairwise (·.ref < ·.ref))
    (hcs : cs = front ++ c :: back) (hmem : c' ∈ cs) (hlt : c'.ref < c.ref) : c' ∈ front := by
  rw [hcs] at hsorted hmem
  have hback := (List.pairwise_append.1 hsorted).2.1
  rcases List.mem_append.1 hmem with h | h
  · exact h
  · rcases List.mem_cons.1 h with rfl | h
    · omega
    · have := (List.pairwise_cons.1 hback).1 c' h
      omega

theorem advanced {bus : MemorySignalBus δ} (hbus : bus.Numbered) (k : Nat) (em : Emission δ) :
    Advanced bus k em (bus.advance k em) := by
  have hsorted : (bus.ahead em.cursor).Pairwise (·.ref < ·.ref) :=
    hbus.sorted.sublist List.filter_sublist
  have h := dispatched em k (bus.ahead em.cursor)
  show Advanced bus k em
    ({ em with cursor := bus.cursorOf (dispatch em.producer k em.signal (bus.ahead em.cursor)).1,
               stage := (dispatch em.producer k em.signal (bus.ahead em.cursor)).1 },
      (dispatch em.producer k em.signal (bus.ahead em.cursor)).2)
  generalize dispatch em.producer k em.signal (bus.ahead em.cursor) = stopped at h ⊢
  cases h with
  | resolved notes hnotes hpass =>
      exact .resolved notes hnotes fun c hmem hcursor => hpass c (mem_ahead.2 ⟨hmem, hcursor⟩)
  | awaiting front c back notes hnotes hcs hpass hturn =>
      have hc := mem_ahead.1 (hcs ▸ List.mem_append_right front List.mem_cons_self)
      apply Advanced.awaiting c notes hnotes hc.1 hc.2 _ hturn
      intro c' hmem hcursor hlt
      exact hpass c' (mem_front_of_lt hsorted hcs (mem_ahead.2 ⟨hmem, hcursor⟩) hlt)
  | rejected front c back notes hnotes hcs hpass hturn =>
      have hc := mem_ahead.1 (hcs ▸ List.mem_append_right front List.mem_cons_self)
      apply Advanced.rejected c notes hnotes hc.1 hc.2 _ hturn
      intro c' hmem hcursor hlt
      exact hpass c' (mem_front_of_lt hsorted hcs (mem_ahead.2 ⟨hmem, hcursor⟩) hlt)

/-! ## Steps -/

/-- No loop goes on, and no consumer registers. -/
structure Quiet (bus bus' : MemorySignalBus δ) : Prop where
  emissions : bus'.emissions = bus.emissions
  nextConsumer : bus'.nextConsumer = bus.nextConsumer
  consumers : bus'.consumers.Sublist bus.consumers
  events : ∃ new, bus'.events = bus.events ++ new ∧
    ∀ e ∈ new, e.emission? = none ∧ e.registered? = none

structure Registers (bus bus' : MemorySignalBus δ) (consumer : SignalConsumer δ) : Prop where
  emissions : bus'.emissions = bus.emissions
  nextConsumer : bus'.nextConsumer = bus.nextConsumer + 1
  consumers : bus'.consumers = bus.consumers ++ [⟨bus.nextConsumer, consumer⟩]
  events : bus'.events = bus.events ++ [.registered bus.nextConsumer]

/-- Every consumer was registered before, or is the new one. -/
theorem Registers.mem_consumers {bus bus' : MemorySignalBus δ} {consumer : SignalConsumer δ}
    (h : Registers bus bus' consumer) :
    ∀ c ∈ bus'.consumers, c ∈ bus.consumers ∨ c = ⟨bus.nextConsumer, consumer⟩ := by
  intro c hc
  rw [h.consumers] at hc
  exact (List.mem_append.1 hc).imp id List.mem_singleton.1

theorem Registers.numbered {bus bus' : MemorySignalBus δ} {consumer : SignalConsumer δ}
    (h : Registers bus bus' consumer) (hnumbered : bus.Numbered) : bus'.Numbered := by
  refine ⟨?_, fun c hc => ?_⟩
  · rw [h.consumers, List.pairwise_append]
    refine ⟨hnumbered.sorted, List.pairwise_singleton _ _, fun c hc c' hc' => ?_⟩
    rw [List.mem_singleton.1 hc']
    exact hnumbered.below c hc
  · rw [h.nextConsumer]
    rcases h.mem_consumers c hc with hc | rfl
    · exact (hnumbered.below c hc).trans (Nat.lt_succ_self _)
    · exact Nat.lt_succ_self _

/-- The emission before its loop starts. -/
def firstEmission (p : Nat) (producer : SignalProducer) (signal : Signal δ) : Emission δ :=
  { registration := p
    producer := producer
    signal := stamp producer signal
    cursor := 0
    stage := .resolved }

structure Publishes (bus bus' : MemorySignalBus δ) (em : Emission δ) : Prop where
  cursor : em.cursor = 0
  emissions : bus'.emissions = bus.emissions ++ [(bus.advance bus.emissions.length em).1]
  nextConsumer : bus'.nextConsumer = bus.nextConsumer
  consumers : bus'.consumers = bus.consumers
  events : bus'.events = bus.events ++
    .published bus.emissions.length :: (bus.advance bus.emissions.length em).2

structure Settles (bus bus' : MemorySignalBus δ) (k : Nat) (em : Emission δ) (consumer : Nat)
    (consumerId : String) (threw : Bool) : Prop where
  found : bus.emissions[k]? = some em
  stage : em.stage = .awaiting consumer consumerId
  emissions : bus'.emissions = bus.emissions.set k (bus.advance k em).1
  nextConsumer : bus'.nextConsumer = bus.nextConsumer
  consumers : bus'.consumers = bus.consumers
  events : bus'.events = bus.events ++
    (.handled k consumer threw ::
      (if threw then [.handlerError k consumer consumerId] else []) ++ (bus.advance k em).2)

theorem Quiet.refl (bus : MemorySignalBus δ) : Quiet bus bus :=
  ⟨rfl, rfl, .refl _, [], (List.append_nil _).symm, fun _ h => absurd h List.not_mem_nil⟩

/-- The emission that the action makes go on, before it does. -/
def loops (bus : MemorySignalBus δ) : BusAction δ → Option (Nat × Emission δ)
  | .emit p signal sweptAt storedAt =>
      match bus.registrations[p]? with
      | some registration =>
          if bus.closed = false ∧ (RecentKeys.offer bus.opts.dedup bus.dedup
              { key := signal.signalId, sweptAt := sweptAt, storedAt := storedAt }).2 then
            some (bus.emissions.length, firstEmission p registration.producer signal)
          else none
      | none => none
  | .settle k _ => (bus.emissions[k]?).map fun em => (k, em)
  | _ => none

theorem step_cases {bus bus' : MemorySignalBus δ} {a : BusAction δ}
    (h : bus.step a = some bus') :
    (Quiet bus bus' ∧ bus.loops a = none) ∨
      (∃ consumer, a = .registerConsumer consumer ∧ Registers bus bus' consumer) ∨
      (∃ em, bus.loops a = some (bus.emissions.length, em) ∧ Publishes bus bus' em) ∨
      ∃ k em consumer consumerId threw, bus.loops a = some (k, em) ∧
        Settles bus bus' k em consumer consumerId threw := by
  cases a with
  | registerProducer producer =>
      refine .inl ⟨?_, rfl⟩
      cases h
      unfold registerProducer
      split
      · exact .refl bus
      · split
        · exact .refl bus
        · exact ⟨rfl, rfl, .refl _, [], (List.append_nil _).symm,
            fun _ h => absurd h List.not_mem_nil⟩
  | runDeferred =>
      refine .inl ⟨?_, rfl⟩
      change bus.runDeferred = some bus' at h
      unfold runDeferred at h
      split at h
      · cases h
      · split at h
        · cases h
        · dsimp only at h
          split at h
          · cases h
            exact ⟨rfl, rfl, .refl _, [], (List.append_nil _).symm,
              fun _ h => absurd h List.not_mem_nil⟩
          · cases h
            exact ⟨rfl, rfl, .refl _, _, rfl, by simp [BusEvent.emission?, BusEvent.registered?]⟩
  | startRejects p =>
      refine .inl ⟨?_, rfl⟩
      simp only [step] at h
      split at h
      · split at h
        · cases h
          exact ⟨rfl, rfl, .refl _, _, rfl, by simp [BusEvent.emission?, BusEvent.registered?]⟩
        · cases h
      · cases h
  | disposeProducer p =>
      refine .inl ⟨?_, rfl⟩
      change bus.disposeProducer p = some bus' at h
      unfold disposeProducer at h
      split at h
      · cases h
      · split at h
        · cases h
          exact .refl bus
        · cases h
          exact ⟨rfl, rfl, .refl _, _, rfl, by simp [BusEvent.emission?, BusEvent.registered?]⟩
  | registerConsumer consumer =>
      cases h
      show (Quiet bus (bus.unlessThrown (bus.registerConsumer consumer)) ∧ _) ∨ _
      unfold registerConsumer
      split
      · exact .inl ⟨.refl bus, rfl⟩
      · split
        · exact .inl ⟨.refl bus, rfl⟩
        · exact .inr (.inl ⟨consumer, rfl, rfl, rfl, rfl, rfl⟩)
  | disposeConsumer id =>
      cases h
      exact .inl ⟨⟨rfl, rfl, List.filter_sublist, [], (List.append_nil _).symm,
        fun _ h => absurd h List.not_mem_nil⟩, rfl⟩
  | emit p signal sweptAt storedAt =>
      simp only [step] at h
      split at h
      · rename_i registration hp
        split at h
        · cases h
          simp only [loops, hp]
          unfold emit
          split
          · rename_i hclosed
            exact .inl ⟨.refl bus, by simp [hclosed]⟩
          · rename_i hclosed
            dsimp only
            split
            · rename_i hadmitted
              refine .inr (.inr (.inl ⟨firstEmission p registration.producer signal, ?_, ?_⟩))
              · simp [hclosed, hadmitted]
              · exact ⟨rfl, rfl, rfl, rfl, rfl⟩
            · rename_i hadmitted
              refine .inl ⟨⟨rfl, rfl, .refl _, _, rfl, ?_⟩, by simp [hadmitted]⟩
              simp [BusEvent.emission?, BusEvent.registered?]
        · cases h
      · cases h
  | settle k threw =>
      change bus.settle k threw = some bus' at h
      unfold settle at h
      split at h
      · cases h
      · rename_i em hem
        split at h
        · rename_i consumer consumerId hstage
          cases h
          exact .inr (.inr (.inr ⟨k, em, consumer, consumerId, threw, by simp [loops, hem],
            hem, hstage, rfl, rfl, rfl, rfl⟩))
        · cases h
  | close =>
      refine .inl ⟨?_, rfl⟩
      cases h
      unfold close
      split
      · exact .refl bus
      · refine ⟨rfl, rfl, .refl _, _, rfl, ?_⟩
        intro e he
        obtain ⟨p, -, rfl⟩ := List.mem_map.1 he
        exact ⟨rfl, rfl⟩
  | clear =>
      refine .inl ⟨?_, rfl⟩
      change bus.clear = some bus' at h
      unfold clear at h
      split at h
      · cases h
        exact ⟨rfl, rfl, List.nil_sublist _, [], (List.append_nil _).symm,
          fun _ h => absurd h List.not_mem_nil⟩
      · cases h

end MemorySignalBus

end Ap3xSolana.Signals
