import Ap3xSolana.Lib.Run
import Ap3xSolana.Signals.BusSteps

/-!
# The order in which a consumer sees signals

Nothing makes the loop of one `emit` call wait for the loop of an earlier one, and
`wrapSource` does not await what it calls.  So a consumer that is still busy with a signal
is handed the next one, and a signal may overtake another while that one waits for a slower
consumer in front.  A producer that leaves enough room between its signals (`Spaced`) has
them handled in order (`handled_in_order`).
-/

namespace Ap3xSolana.Signals.ConsumerOrder

open Ap3xSolana.Lib Ap3xSolana.Lib.Run Ap3xSolana.Signals.MemorySignalBus

variable {δ : Type}

/-! ## The property -/

/-- Emission `k` is of the producer with this id. -/
def Of (bus : MemorySignalBus δ) (id : String) (k : Nat) : Prop :=
  (bus.emissions[k]?).map (·.producer.id) = some id

/-- When a consumer starts on a signal, those of the same producer that it started on before
were emitted earlier, and it has completed them. -/
def InOrder (bus : MemorySignalBus δ) : Prop :=
  ∀ before k consumer after, bus.events = before ++ .handle k consumer :: after →
    ∀ id k', Of bus id k → Of bus id k' → .handle k' consumer ∈ before →
      k' < k ∧ ∃ threw, .handled k' consumer threw ∈ before

/-! ## The condition -/

/-- The `emit` call has not returned. -/
def inFlight (em : Emission δ) : Bool :=
  match em.stage with
  | .awaiting _ _ => true
  | _ => false

/-- The consumer takes both signals. -/
def TakesBoth (c : RegisteredConsumer δ) (k k' : Nat) (em em' : Emission δ) : Prop :=
  em.turn k c = .handle ∧ em'.turn k' c = .handle

instance decidableOf (bus : MemorySignalBus δ) (id : String) (k : Nat) :
    Decidable (Of bus id k) := inferInstanceAs (Decidable (_ = _))

/-- No consumer that takes the signal which is emitted now has an earlier one of the
producer in hand or ahead of it, and none that registers takes two signals that are on
their way. -/
def Spaced (bus : MemorySignalBus δ) (a : BusAction δ) : Prop :=
  match a with
  | .emit .. =>
      ∀ loop ∈ bus.loops a, ∀ x ∈ bus.emissions.zipIdx, inFlight x.1 = true →
        x.1.producer.id = loop.2.producer.id → ∀ c ∈ bus.consumers, x.1.cursor ≤ c.ref + 1 →
          ¬ TakesBoth c x.2 loop.1 x.1 loop.2
  | .registerConsumer consumer =>
      ∀ x ∈ bus.emissions.zipIdx, ∀ y ∈ bus.emissions.zipIdx, x.2 < y.2 →
        inFlight x.1 = true → inFlight y.1 = true → x.1.producer.id = y.1.producer.id →
          ¬ TakesBoth ⟨bus.nextConsumer, consumer⟩ x.2 y.2 x.1 y.1
  | _ => True

instance decidableTakesBoth (c : RegisteredConsumer δ) (k k' : Nat) (em em' : Emission δ) :
    Decidable (TakesBoth c k k' em em') := inferInstanceAs (Decidable (_ ∧ _))

instance decidableSpaced (bus : MemorySignalBus δ) (a : BusAction δ) :
    Decidable (Spaced bus a) :=
  match a with
  | .emit p signal sweptAt storedAt =>
      inferInstanceAs (Decidable (∀ loop ∈ bus.loops (.emit p signal sweptAt storedAt),
        ∀ x ∈ bus.emissions.zipIdx, inFlight x.1 = true →
          x.1.producer.id = loop.2.producer.id → ∀ c ∈ bus.consumers, x.1.cursor ≤ c.ref + 1 →
            ¬ TakesBoth c x.2 loop.1 x.1 loop.2))
  | .registerConsumer consumer =>
      inferInstanceAs (Decidable (∀ x ∈ bus.emissions.zipIdx, ∀ y ∈ bus.emissions.zipIdx,
        x.2 < y.2 → inFlight x.1 = true → inFlight y.1 = true →
          x.1.producer.id = y.1.producer.id →
            ¬ TakesBoth ⟨bus.nextConsumer, consumer⟩ x.2 y.2 x.1 y.1))
  | .registerProducer .. | .runDeferred | .startRejects .. | .disposeProducer .. |
      .disposeConsumer .. | .settle .. | .close | .clear => inferInstanceAs (Decidable True)

/-- A producer that calls `emit` when its earlier calls have returned leaves room enough. -/
theorem spaced_of_returned {bus : MemorySignalBus δ} {p : Nat} {signal : Signal δ}
    {sweptAt storedAt : Int} {registration : ProducerRegistration}
    (hp : bus.registrations[p]? = some registration)
    (hreturned : ∀ em ∈ bus.emissions, em.producer.id = registration.producer.id →
      inFlight em = false) : Spaced bus (.emit p signal sweptAt storedAt) := by
  intro loop hloop x hx hflight hid
  have hproducer : loop.2.producer = registration.producer := by
    simp only [loops, hp] at hloop
    split at hloop
    · cases hloop
      rfl
    · cases hloop
  rw [hproducer] at hid
  rw [hreturned x.1 (List.fst_mem_of_mem_zipIdx hx) hid] at hflight
  cases hflight

/-! ## The invariant -/

/-- No consumer that an emission in flight has in hand or ahead of it takes a later signal of
the producer too, unless that one was over before the consumer registered. -/
def Apart (bus : MemorySignalBus δ) : Prop :=
  ∀ (k : Nat) (em : Emission δ), bus.emissions[k]? = some em → inFlight em = true →
    ∀ (k' : Nat) (em' : Emission δ), bus.emissions[k']? = some em' → k < k' →
      em.producer.id = em'.producer.id → ∀ c ∈ bus.consumers, em.cursor ≤ c.ref + 1 →
        inFlight em' = true ∨ c.ref < em'.cursor → ¬ TakesBoth c k k' em em'

structure Inv (bus : MemorySignalBus δ) : Prop where
  numbered : bus.Numbered
  below : ∀ (k : Nat) (em : Emission δ), bus.emissions[k]? = some em →
    em.cursor ≤ bus.nextConsumer
  took : ∀ k consumer, .handle k consumer ∈ bus.events → ∃ em, bus.emissions[k]? = some em ∧
    consumer < em.cursor ∧ ∀ c ∈ bus.consumers, c.ref = consumer → em.turn k c = .handle
  finished : ∀ k consumer, .handle k consumer ∈ bus.events →
    (∃ threw, .handled k consumer threw ∈ bus.events) ∨
      ∃ em id, bus.emissions[k]? = some em ∧ em.stage = .awaiting consumer id
  awaits : ∀ (k : Nat) (em : Emission δ), bus.emissions[k]? = some em →
    ∀ consumer id, em.stage = .awaiting consumer id → em.cursor = consumer + 1
  apart : Apart bus

theorem inv_init (opts : SignalBusOpts) : Inv (MemorySignalBus.init δ opts) where
  numbered := ⟨List.Pairwise.nil, fun _ h => absurd h List.not_mem_nil⟩
  below k em h := by cases (show ([] : List (Emission δ))[k]? = some em from h)
  took _ _ h := absurd h List.not_mem_nil
  finished _ _ h := absurd h List.not_mem_nil
  awaits k em h := by cases (show ([] : List (Emission δ))[k]? = some em from h)
  apart k em h := by cases (show ([] : List (Emission δ))[k]? = some em from h)

/-! ## Steps -/

/-- Where no loop goes on, no consumer starts on anything. -/
theorem Inv.idle {bus bus' : MemorySignalBus δ} (hinv : Inv bus) {new : List BusEvent}
    (hevents : bus'.events = bus.events ++ new) (hnew : ∀ e ∈ new, e.emission? = none)
    (hemissions : bus'.emissions = bus.emissions) (hnumbered : bus'.Numbered)
    (hnext : bus.nextConsumer ≤ bus'.nextConsumer)
    (hconsumers : ∀ c ∈ bus'.consumers, c ∈ bus.consumers ∨ bus.nextConsumer ≤ c.ref)
    (hapart : Apart bus') : Inv bus' := by
  have hold : ∀ e k, BusEvent.emission? e = some k → e ∈ bus'.events → e ∈ bus.events := by
    intro e k hk he
    rw [hevents] at he
    rcases List.mem_append.1 he with he | he
    · exact he
    · rw [hnew e he] at hk
      cases hk
  constructor
  · exact hnumbered
  · intro k em hem
    rw [hemissions] at hem
    exact (hinv.below k em hem).trans hnext
  · intro k consumer hmem
    obtain ⟨em, hem, hlt, htakes⟩ := hinv.took k consumer (hold _ k rfl hmem)
    refine ⟨em, hemissions ▸ hem, hlt, fun c hc href => ?_⟩
    rcases hconsumers c hc with hc | hge
    · exact htakes c hc href
    · have hbelow := hinv.below k em hem
      omega
  · intro k consumer hmem
    rw [hemissions]
    rcases hinv.finished k consumer (hold _ k rfl hmem) with ⟨threw, h⟩ | h
    · exact .inl ⟨threw, hevents ▸ List.mem_append_left _ h⟩
    · exact .inr h
  · intro k em hem
    rw [hemissions] at hem
    exact hinv.awaits k em hem
  · exact hapart

theorem inv_quiet {bus bus' : MemorySignalBus δ} (hinv : Inv bus) (h : Quiet bus bus') :
    Inv bus' := by
  obtain ⟨new, hevents, hnew⟩ := h.events
  apply hinv.idle hevents (fun e he => (hnew e he).1) h.emissions
    ⟨hinv.numbered.sorted.sublist h.consumers, fun c hc => ?_⟩ (le_of_eq h.nextConsumer.symm)
    (fun c hc => .inl (h.consumers.subset hc))
  · intro k em hem hflight k' em' hem' hlt hid c hc
    rw [h.emissions] at hem hem'
    exact hinv.apart k em hem hflight k' em' hem' hlt hid c (h.consumers.subset hc)
  · rw [h.nextConsumer]
    exact hinv.numbered.below c (h.consumers.subset hc)

theorem inv_registers {bus bus' : MemorySignalBus δ} {consumer : SignalConsumer δ}
    (hinv : Inv bus) (h : Registers bus bus' consumer)
    (hspaced : Spaced bus (.registerConsumer consumer)) : Inv bus' := by
  have hmem := h.mem_consumers
  apply hinv.idle h.events _ h.emissions (h.numbered hinv.numbered)
    (h.nextConsumer ▸ Nat.le_succ _)
  · intro c hc
    rcases hmem c hc with hc | rfl
    · exact .inl hc
    · exact .inr (le_refl _)
  · intro k em hem hflight k' em' hem' hlt hid c hc hcursor hreach
    rw [h.emissions] at hem hem'
    rcases hmem c hc with hc | rfl
    · exact hinv.apart k em hem hflight k' em' hem' hlt hid c hc hcursor hreach
    · rcases hreach with hflight' | hpast
      · exact hspaced (em, k) (List.mem_zipIdx_iff_getElem?.2 hem) (em', k')
          (List.mem_zipIdx_iff_getElem?.2 hem') hlt hflight hflight' hid
      · have hbelow := hinv.below k' em' hem'
        change bus.nextConsumer < em'.cursor at hpast
        omega
  · intro e he
    rw [List.mem_singleton.1 he]
    rfl

/-- The emission `k` goes on from `em`: what is recorded is `front`, and then `handle` if the
loop calls one.  Whatever it called before has completed by then. -/
structure GoesOn (bus bus' : MemorySignalBus δ) (k : Nat) (em : Emission δ)
    (front : List BusEvent) : Prop where
  found : bus'.emissions[k]? = some (bus.advance k em).1
  others : ∀ k', k' ≠ k → bus'.emissions[k']? = bus.emissions[k']?
  below : em.cursor ≤ bus.nextConsumer
  nextConsumer : bus'.nextConsumer = bus.nextConsumer
  consumers : bus'.consumers = bus.consumers
  events : bus'.events = bus.events ++ front ++ (bus.advance k em).2
  noCall : ∀ k' consumer, .handle k' consumer ∉ front
  same : ∀ em₀, bus.emissions[k]? = some em₀ → em₀ = em
  completed : ∀ consumer, .handle k consumer ∈ bus.events → consumer < em.cursor ∧
    ∃ threw, .handled k consumer threw ∈ bus.events ++ front

theorem Publishes.goesOn {bus bus' : MemorySignalBus δ} {em : Emission δ} (hinv : Inv bus)
    (h : Publishes bus bus' em) :
    GoesOn bus bus' bus.emissions.length em [.published bus.emissions.length] where
  found := by rw [h.emissions, List.getElem?_concat_length]
  others k' hne := by
    rw [h.emissions]
    rcases Nat.lt_or_gt_of_ne hne with hlt | hgt
    · exact List.getElem?_append_left hlt
    · rw [List.getElem?_eq_none_iff.2 (Nat.le_of_lt hgt), List.getElem?_eq_none_iff,
        List.length_append, List.length_singleton]
      exact hgt
  below := h.cursor ▸ Nat.zero_le _
  nextConsumer := h.nextConsumer
  consumers := h.consumers
  events := by rw [h.events, List.append_cons]
  noCall k' consumer := by simp
  same em₀ hem := by
    have hlt := (List.getElem?_eq_some_iff.1 hem).1
    omega
  completed consumer hmem := by
    obtain ⟨em₀, hem, -⟩ := hinv.took _ consumer hmem
    have hlt := (List.getElem?_eq_some_iff.1 hem).1
    omega

theorem Settles.goesOn {bus bus' : MemorySignalBus δ} {k consumer : Nat} {em : Emission δ}
    {consumerId : String} {threw : Bool} (hinv : Inv bus)
    (h : Settles bus bus' k em consumer consumerId threw) :
    GoesOn bus bus' k em (.handled k consumer threw ::
      (if threw then [.handlerError k consumer consumerId] else [])) where
  found := by
    rw [h.emissions, List.getElem?_set_self (List.getElem?_eq_some_iff.1 h.found).1]
  others k' hne := by rw [h.emissions, List.getElem?_set_ne (Ne.symm hne)]
  below := hinv.below k em h.found
  nextConsumer := h.nextConsumer
  consumers := h.consumers
  events := by rw [h.events, List.append_assoc]
  noCall k' consumer' := by cases threw <;> simp
  same em₀ hem := Option.some.inj (hem.symm.trans h.found)
  completed consumer' hmem := by
    obtain ⟨em₀, hem, hlt, -⟩ := hinv.took k consumer' hmem
    obtain rfl := Option.some.inj (hem.symm.trans h.found)
    refine ⟨hlt, ?_⟩
    rcases hinv.finished k consumer' hmem with ⟨threw', hhandled⟩ | ⟨em', id, hem', hstage⟩
    · exact ⟨threw', List.mem_append_left _ hhandled⟩
    · obtain rfl := Option.some.inj (hem'.symm.trans h.found)
      rw [h.stage] at hstage
      cases hstage
      exact ⟨threw, List.mem_append_right _ List.mem_cons_self⟩

/-- The `handle` that the loop calls, if it calls one. -/
def calls (k : Nat) (em : Emission δ) : List BusEvent :=
  match em.stage with
  | .awaiting consumer _ => [.handle k consumer]
  | _ => []

/-- What the emission is after its loop went on. -/
structure Result (bus : MemorySignalBus δ) (k : Nat) (em em' : Emission δ)
    (events : List BusEvent) : Prop where
  producer : em'.producer = em.producer
  signal : em'.signal = em.signal
  le : em.cursor ≤ em'.cursor
  below : em'.cursor ≤ bus.nextConsumer
  events : ∃ notes, (∀ k' consumer, .handle k' consumer ∉ notes) ∧ events = notes ++ calls k em'
  awaits : ∀ consumer id, em'.stage = .awaiting consumer id → em'.cursor = consumer + 1 ∧
    ∃ c ∈ bus.consumers, c.ref = consumer ∧ em.cursor ≤ c.ref ∧ em.turn k c = .handle

theorem Result.turn {bus : MemorySignalBus δ} {k : Nat} {em em' : Emission δ}
    {events : List BusEvent} (h : Result bus k em em' events) (c : RegisteredConsumer δ) :
    em'.turn k c = em.turn k c := by
  unfold Emission.turn
  rw [h.producer, h.signal]

theorem result {bus : MemorySignalBus δ} (hbus : bus.Numbered) {k : Nat} {em : Emission δ}
    (hbelow : em.cursor ≤ bus.nextConsumer) :
    Result bus k em (bus.advance k em).1 (bus.advance k em).2 := by
  have hnotes : ∀ {notes : List BusEvent}, Mismatches k notes →
      ∀ k' consumer, .handle k' consumer ∉ notes := by
    intro notes h k' consumer hmem
    obtain ⟨consumer', error, heq⟩ := h _ hmem
    cases heq
  have hadv := advanced hbus k em
  generalize bus.advance k em = result at hadv
  cases hadv with
  | resolved notes h hpass =>
      refine ⟨rfl, rfl, hbelow, le_refl _, ⟨_, fun k' consumer hmem => ?_,
        (List.append_nil _).symm⟩, fun _ _ h => by cases h⟩
      rcases List.mem_append.1 hmem with hmem | hmem
      · exact hnotes h k' consumer hmem
      · cases List.mem_singleton.1 hmem
  | awaiting c notes h hmem hcursor hpass hturn =>
      refine ⟨rfl, rfl, hcursor.trans (Nat.le_succ _), hbus.below c hmem, ⟨notes, hnotes h, rfl⟩,
        fun consumer id hstage => ?_⟩
      cases hstage
      exact ⟨rfl, c, hmem, rfl, hcursor, hturn⟩
  | rejected c notes h hmem hcursor hpass hturn =>
      refine ⟨rfl, rfl, hbelow, le_refl _, ⟨_, fun k' consumer hmem => ?_,
        (List.append_nil _).symm⟩, fun _ _ h => by cases h⟩
      rcases List.mem_append.1 hmem with hmem | hmem
      · exact hnotes h k' consumer hmem
      · simp at hmem

section GoesOn

variable {bus bus' : MemorySignalBus δ} {k : Nat} {em : Emission δ} {front : List BusEvent}

theorem GoesOn.result (hbus : bus.Numbered) (h : GoesOn bus bus' k em front) :
    Result bus k em (bus.advance k em).1 (bus.advance k em).2 :=
  ConsumerOrder.result hbus h.below

/-- The events of the step: none of them is a `handle`, apart from the last. -/
theorem GoesOn.split (hbus : bus.Numbered) (h : GoesOn bus bus' k em front) :
    ∃ new, (∀ k' consumer, .handle k' consumer ∉ new) ∧
      bus'.events = bus.events ++ new ++ calls k (bus.advance k em).1 ∧ front ⊆ new := by
  obtain ⟨notes, hnotes, heq⟩ := (h.result hbus).events
  refine ⟨front ++ notes, fun k' consumer hmem => ?_, ?_, List.subset_append_left _ _⟩
  · exact (List.mem_append.1 hmem).elim (h.noCall k' consumer) (hnotes k' consumer)
  · rw [h.events, heq]
    simp only [List.append_assoc]

theorem mem_calls {e : BusEvent} (hmem : e ∈ calls k em) :
    ∃ consumer id, e = .handle k consumer ∧ em.stage = .awaiting consumer id := by
  unfold calls at hmem
  split at hmem
  · rename_i consumer id hstage
    exact ⟨consumer, id, List.mem_singleton.1 hmem, hstage⟩
  · cases hmem

theorem GoesOn.mem_handle (hbus : bus.Numbered) (h : GoesOn bus bus' k em front)
    {k' consumer : Nat} (hmem : .handle k' consumer ∈ bus'.events) :
    .handle k' consumer ∈ bus.events ∨
      k' = k ∧ ∃ id, (bus.advance k em).1.stage = .awaiting consumer id := by
  obtain ⟨new, hnew, hevents, -⟩ := h.split hbus
  rw [hevents] at hmem
  rcases List.mem_append.1 hmem with hmem | hmem
  · exact .inl ((List.mem_append.1 hmem).resolve_right (hnew k' consumer))
  · obtain ⟨consumer', id, heq, hstage⟩ := mem_calls hmem
    cases heq
    exact .inr ⟨rfl, id, hstage⟩

theorem inv_goesOn (hinv : Inv bus) (h : GoesOn bus bus' k em front) (hapart : Apart bus') :
    Inv bus' := by
  have hres := h.result hinv.numbered
  constructor
  · refine ⟨h.consumers ▸ hinv.numbered.sorted, ?_⟩
    rw [h.consumers, h.nextConsumer]
    exact hinv.numbered.below
  · intro k' em' hem
    rw [h.nextConsumer]
    by_cases hk : k' = k
    · rw [hk, h.found] at hem
      cases hem
      exact hres.below
    · rw [h.others k' hk] at hem
      exact hinv.below k' em' hem
  · intro k' consumer hmem
    rw [h.consumers]
    by_cases hk : k' = k
    · subst hk
      refine ⟨_, h.found, ?_⟩
      rcases h.mem_handle hinv.numbered hmem with hold | ⟨-, id, hstage⟩
      · obtain ⟨em₀, hem, hlt, htakes⟩ := hinv.took k' consumer hold
        obtain rfl := h.same em₀ hem
        refine ⟨hlt.trans_le hres.le, fun c hc href => ?_⟩
        rw [hres.turn]
        exact htakes c hc href
      · obtain ⟨hcursor, c, hc, href, -, hturn⟩ := hres.awaits consumer id hstage
        refine ⟨by omega, fun c' hc' href' => ?_⟩
        rw [hinv.numbered.eq_of_ref hc' hc (href'.trans href.symm), hres.turn]
        exact hturn
    · rw [h.others k' hk]
      rcases h.mem_handle hinv.numbered hmem with hold | ⟨heq, -⟩
      · exact hinv.took k' consumer hold
      · exact absurd heq hk
  · intro k' consumer hmem
    obtain ⟨new, -, hevents, hfront⟩ := h.split hinv.numbered
    have hgrow : ∀ e ∈ bus.events ++ front, e ∈ bus'.events := by
      intro e he
      rw [hevents]
      refine List.mem_append_left _ ?_
      exact (List.mem_append.1 he).elim (List.mem_append_left _)
        fun he => List.mem_append_right _ (hfront he)
    rcases h.mem_handle hinv.numbered hmem with hold | ⟨rfl, id, hstage⟩
    · by_cases hk : k' = k
      · obtain ⟨-, threw, hthrew⟩ := h.completed consumer (hk ▸ hold)
        exact .inl ⟨threw, hk ▸ hgrow _ hthrew⟩
      · rw [h.others k' hk]
        refine (hinv.finished k' consumer hold).imp_left fun ⟨threw, hthrew⟩ => ?_
        exact ⟨threw, hgrow _ (List.mem_append_left _ hthrew)⟩
    · exact .inr ⟨_, id, h.found, hstage⟩
  · intro k' em' hem consumer id hstage
    by_cases hk : k' = k
    · rw [hk, h.found] at hem
      cases hem
      exact (hres.awaits consumer id hstage).1
    · rw [h.others k' hk] at hem
      exact hinv.awaits k' em' hem consumer id hstage
  · exact hapart

end GoesOn

theorem apart_publishes {bus bus' : MemorySignalBus δ} {em : Emission δ} (hinv : Inv bus)
    (h : Publishes bus bus' em)
    (hspaced : ∀ x ∈ bus.emissions.zipIdx, inFlight x.1 = true →
      x.1.producer.id = em.producer.id → ∀ c ∈ bus.consumers, x.1.cursor ≤ c.ref + 1 →
        ¬ TakesBoth c x.2 bus.emissions.length x.1 em) : Apart bus' := by
  have hgo := Publishes.goesOn hinv h
  have hres := hgo.result hinv.numbered
  have hlt : ∀ (k : Nat) (em₁ : Emission δ), bus'.emissions[k]? = some em₁ →
      k ≤ bus.emissions.length := by
    intro k em₁ hem
    have hlt := (List.getElem?_eq_some_iff.1 hem).1
    rw [h.emissions, List.length_append, List.length_singleton] at hlt
    omega
  intro k em₁ hem₁ hflight k' em₂ hem₂ hlt' hid c hc hcursor hreach
  have hk : k ≠ bus.emissions.length := by
    have := hlt k' em₂ hem₂
    omega
  rw [hgo.others k hk] at hem₁
  rw [h.consumers] at hc
  by_cases hk' : k' = bus.emissions.length
  · rw [hk', hgo.found] at hem₂
    cases hem₂
    rw [hres.producer] at hid
    intro htakes
    refine hspaced (em₁, k) (List.mem_zipIdx_iff_getElem?.2 hem₁) hflight hid c hc hcursor ?_
    exact ⟨htakes.1, by rw [← hres.turn, ← hk']; exact htakes.2⟩
  · rw [hgo.others k' hk'] at hem₂
    exact hinv.apart k em₁ hem₁ hflight k' em₂ hem₂ hlt' hid c hc hcursor hreach

theorem apart_settles {bus bus' : MemorySignalBus δ} {k consumer : Nat} {em : Emission δ}
    {consumerId : String} {threw : Bool} (hinv : Inv bus)
    (h : Settles bus bus' k em consumer consumerId threw) : Apart bus' := by
  have hgo := Settles.goesOn hinv h
  have hres := hgo.result hinv.numbered
  have hflying : inFlight em = true := by
    rw [inFlight, h.stage]
  -- an emission of `bus'` stems from one of `bus` that was in flight if it is, and not further
  have hold : ∀ (k₁ : Nat) (em₁ : Emission δ), bus'.emissions[k₁]? = some em₁ →
      ∃ em₀, bus.emissions[k₁]? = some em₀ ∧ em₁.producer = em₀.producer ∧
        em₀.cursor ≤ em₁.cursor ∧ (∀ c, em₁.turn k₁ c = em₀.turn k₁ c) ∧
        (inFlight em₁ = true → inFlight em₀ = true) ∧ (em₀ = em₁ ∨ inFlight em₀ = true) := by
    intro k₁ em₁ hem
    by_cases hk : k₁ = k
    · rw [hk, hgo.found] at hem
      cases hem
      rw [hk]
      exact ⟨em, h.found, hres.producer, hres.le, hres.turn, fun _ => hflying, .inr hflying⟩
    · rw [hgo.others k₁ hk] at hem
      exact ⟨em₁, hem, rfl, le_refl _, fun _ => rfl, id, .inl rfl⟩
  intro k₁ em₁ hem₁ hflight k₂ em₂ hem₂ hlt hid c hc hcursor hreach htakes
  obtain ⟨em₁', hem₁', hproducer₁, hle₁, hturn₁, hflight₁, -⟩ := hold k₁ em₁ hem₁
  obtain ⟨em₂', hem₂', hproducer₂, -, hturn₂, hflight₂, hsame⟩ := hold k₂ em₂ hem₂
  rw [h.consumers] at hc
  rw [hproducer₁, hproducer₂] at hid
  apply hinv.apart k₁ em₁' hem₁' (hflight₁ hflight) k₂ em₂' hem₂' hlt hid c hc (hle₁.trans hcursor)
  · rcases hreach with hreach | hreach
    · exact .inl (hflight₂ hreach)
    · rcases hsame with rfl | hfly
      · exact .inr hreach
      · exact .inl hfly
  · exact ⟨hturn₁ c ▸ htakes.1, hturn₂ c ▸ htakes.2⟩

/-! ## The order -/

/-- An entry that is not among the new ones has its place among the old ones. -/
private theorem split_append {α : Type*} {old new before after : List α} {x : α}
    (h : old ++ new = before ++ x :: after) (hx : x ∉ new) :
    ∃ after', old = before ++ x :: after' := by
  rcases List.append_eq_append_iff.1 h with ⟨mid, hbefore, hnew⟩ | ⟨mid, hold, hrest⟩
  · exact absurd (hnew ▸ List.mem_append_right mid List.mem_cons_self) hx
  · cases mid with
    | nil =>
        rw [List.nil_append] at hrest
        exact absurd (hrest ▸ List.mem_cons_self) hx
    | cons y mid =>
        rw [List.cons_append, List.cons.injEq] at hrest
        exact ⟨mid, by rw [hold, hrest.1]⟩

theorem InOrder.append {bus bus' : MemorySignalBus δ} (hinv : Inv bus) (h : InOrder bus)
    {old new before after : List BusEvent} {k consumer : Nat}
    (hids : ∀ id k, (∃ em, bus.emissions[k]? = some em) → Of bus' id k → Of bus id k)
    (hold : bus.events ++ new = old) (hnew : ∀ k' consumer, .handle k' consumer ∉ new)
    (heq : old = before ++ .handle k consumer :: after) {id : String} {k' : Nat}
    (hk : Of bus' id k) (hk' : Of bus' id k') (hmem : .handle k' consumer ∈ before) :
    k' < k ∧ ∃ threw, .handled k' consumer threw ∈ before := by
  obtain ⟨after', hsplit⟩ := split_append (hold.trans heq) (hnew k consumer)
  have hknown : ∀ k, .handle k consumer ∈ bus.events → ∃ em, bus.emissions[k]? = some em := by
    intro k hmem
    obtain ⟨em, hem, -⟩ := hinv.took k consumer hmem
    exact ⟨em, hem⟩
  refine h before k consumer after' hsplit id k' (hids id k (hknown k ?_) hk)
    (hids id k' (hknown k' ?_) hk') hmem
  · rw [hsplit]
    exact List.mem_append_right _ List.mem_cons_self
  · rw [hsplit]
    exact List.mem_append_left _ hmem

theorem inOrder_idle {bus bus' : MemorySignalBus δ} (hinv : Inv bus) (h : InOrder bus)
    {new : List BusEvent} (hevents : bus'.events = bus.events ++ new)
    (hnew : ∀ e ∈ new, e.emission? = none) (hemissions : bus'.emissions = bus.emissions) :
    InOrder bus' := by
  intro before k consumer after heq id k' hk hk' hmem
  apply h.append hinv _ hevents.symm _ heq hk hk' hmem
  · intro id k _ hof
    rw [Of, ← hemissions]
    exact hof
  · intro k' consumer hmem
    cases hnew _ hmem

/-- The last entry is new, or the entry has its place among the old ones. -/
private theorem split_concat {α : Type*} {old before after : List α} {x y : α}
    (h : old ++ [y] = before ++ x :: after) :
    (x = y ∧ before = old) ∨ ∃ after', old = before ++ x :: after' := by
  rcases List.eq_nil_or_concat after with rfl | ⟨after', z, rfl⟩
  · have hinj := List.append_inj' h rfl
    exact .inl ⟨(List.cons.inj hinj.2).1.symm, hinj.1.symm⟩
  · rw [List.concat_eq_append, ← List.cons_append, ← List.append_assoc] at h
    exact .inr ⟨after', (List.append_inj' h rfl).1⟩

/-- Whatever of the producer the consumer started on before was emitted earlier, and is
completed. -/
theorem GoesOn.starts {bus bus' : MemorySignalBus δ} {k : Nat} {em : Emission δ}
    {front : List BusEvent} (hinv : Inv bus) (hinv' : Inv bus') (hgo : GoesOn bus bus' k em front)
    {consumer : Nat} {cid : String} (hstage : (bus.advance k em).1.stage = .awaiting consumer cid)
    {id : String} {k' : Nat} (hk : Of bus' id k) (hk' : Of bus' id k')
    (hold : .handle k' consumer ∈ bus.events) :
    k' < k ∧ ∃ threw, .handled k' consumer threw ∈ bus.events := by
  have hres := hgo.result hinv.numbered
  obtain ⟨hcursor, c, hc, href, hle, hturn⟩ := hres.awaits consumer cid hstage
  have hne : k' ≠ k := by
    rintro rfl
    have hpast := (hgo.completed consumer hold).1
    omega
  obtain ⟨em', hem', hlt, htakes⟩ := hinv.took k' consumer hold
  have hfound' : bus'.emissions[k']? = some em' := (hgo.others k' hne).trans hem'
  have hid : (bus.advance k em).1.producer.id = em'.producer.id := by
    rw [Of, hgo.found] at hk
    rw [Of, hfound'] at hk'
    exact (Option.some.inj hk).trans (Option.some.inj hk').symm
  have hflight : inFlight (bus.advance k em).1 = true := by
    rw [inFlight, hstage]
  have hturn' : (bus.advance k em).1.turn k c = .handle := (hres.turn c).trans hturn
  have hc' : c ∈ bus'.consumers := hgo.consumers ▸ hc
  rcases Nat.lt_or_gt_of_ne hne with hlt' | hgt
  · refine ⟨hlt', ?_⟩
    rcases hinv.finished k' consumer hold with hthrew | ⟨em₂, cid', hem₂, hstage'⟩
    · exact hthrew
    · -- it is still in hand
      obtain rfl := Option.some.inj (hem₂.symm.trans hem')
      have hflight' : inFlight em₂ = true := by
        rw [inFlight, hstage']
      have hcursor' := hinv.awaits k' em₂ hem' consumer cid' hstage'
      exact absurd ⟨htakes c hc href, hturn'⟩ (hinv'.apart k' em₂ hfound' hflight' k _ hgo.found
        hlt' hid.symm c hc' (by omega) (.inl hflight))
  · -- it has overtaken this one
    exact absurd ⟨hturn', htakes c hc href⟩ (hinv'.apart k _ hgo.found hflight k' em' hfound'
      hgt hid c hc' (by omega) (.inr (by omega)))

theorem inOrder_goesOn {bus bus' : MemorySignalBus δ} {k : Nat} {em : Emission δ}
    {front : List BusEvent} (hinv : Inv bus) (hinv' : Inv bus') (h : InOrder bus)
    (hgo : GoesOn bus bus' k em front) : InOrder bus' := by
  have hres := hgo.result hinv.numbered
  obtain ⟨new, hnew, hevents, -⟩ := hgo.split hinv.numbered
  have hids : ∀ id k₁, (∃ em, bus.emissions[k₁]? = some em) → Of bus' id k₁ → Of bus id k₁ := by
    intro id k₁ ⟨em₁, hem₁⟩ hof
    by_cases hk : k₁ = k
    · rw [hk] at hem₁ hof ⊢
      rw [Of, hgo.found, Option.map_some, hres.producer] at hof
      rw [Of, hem₁, hgo.same em₁ hem₁]
      exact hof
    · rw [Of, hgo.others k₁ hk] at hof
      exact hof
  intro before k₁ consumer after heq id k' hk₁ hk' hmem
  rw [hevents] at heq
  cases hstage : (bus.advance k em).1.stage with
  | awaiting consumer' cid =>
      rw [calls, hstage] at heq
      rcases split_concat heq with ⟨hlast, hbefore⟩ | ⟨after', hsplit⟩
      · cases hlast
        rw [hbefore] at hmem ⊢
        have hold := (List.mem_append.1 hmem).resolve_right (hnew k' consumer)
        obtain ⟨hlt, threw, hthrew⟩ := hgo.starts hinv hinv' hstage hk₁ hk' hold
        exact ⟨hlt, threw, List.mem_append_left _ hthrew⟩
      · exact h.append hinv hids rfl hnew hsplit hk₁ hk' hmem
  | resolved =>
      rw [calls, hstage, List.append_nil] at heq
      exact h.append hinv hids rfl hnew heq hk₁ hk' hmem
  | rejected =>
      rw [calls, hstage, List.append_nil] at heq
      exact h.append hinv hids rfl hnew heq hk₁ hk' hmem

theorem spaced_step {bus bus' : MemorySignalBus δ} {a : BusAction δ}
    (hinv : Inv bus ∧ InOrder bus) (h : bus.step a = some bus') (hspaced : Spaced bus a) :
    Inv bus' ∧ InOrder bus' := by
  obtain ⟨hinv, horder⟩ := hinv
  rcases step_cases h with ⟨hquiet, -⟩ | ⟨consumer, rfl, hregisters⟩ |
    ⟨em, hloops, hpublishes⟩ | ⟨k, em, consumer, consumerId, threw, -, hsettles⟩
  · obtain ⟨new, hevents, hnew⟩ := hquiet.events
    exact ⟨inv_quiet hinv hquiet,
      inOrder_idle hinv horder hevents (fun e he => (hnew e he).1) hquiet.emissions⟩
  · refine ⟨inv_registers hinv hregisters hspaced,
      inOrder_idle hinv horder hregisters.events (fun e he => ?_) hregisters.emissions⟩
    rw [List.mem_singleton.1 he]
    rfl
  · have hinv' : Inv bus' := by
      apply inv_goesOn hinv (Publishes.goesOn hinv hpublishes)
      apply apart_publishes hinv hpublishes
      cases a with
      | emit => exact hspaced _ hloops
      | settle k threw =>
          simp only [loops, Option.map_eq_some_iff, Prod.mk.injEq] at hloops
          obtain ⟨em', hem, hk, -⟩ := hloops
          have hlt := (List.getElem?_eq_some_iff.1 hem).1
          omega
      | _ => cases hloops
    exact ⟨hinv', inOrder_goesOn hinv hinv' horder (Publishes.goesOn hinv hpublishes)⟩
  · have hgo := Settles.goesOn hinv hsettles
    have hinv' := inv_goesOn hinv hgo (apart_settles hinv hsettles)
    exact ⟨hinv', inOrder_goesOn hinv hinv' horder hgo⟩

/-- **Order.**  In a run whose signals are spaced, every consumer handles the signals of a
producer in the order of their emission, one at a time. -/
theorem handled_in_order (opts : SignalBusOpts) (acts : List (BusAction δ))
    (h : Along step (fun bus a _ => Spaced bus a) (MemorySignalBus.init δ opts) acts) :
    Along step (fun _ _ bus' => InOrder bus') (MemorySignalBus.init δ opts) acts := by
  refine along_of_inv (fun bus => Inv bus ∧ InOrder bus)
    (fun bus a bus' hinv hstep hspaced => ?_) acts _ ⟨inv_init opts, ?_⟩ h
  · have hinv' := spaced_step hinv hstep hspaced
    exact ⟨hinv'.2, hinv'⟩
  · intro before k consumer after heq
    have hmem : BusEvent.handle k consumer ∈ (MemorySignalBus.init δ opts).events := by
      rw [heq]
      exact List.mem_append_right _ List.mem_cons_self
    exact absurd hmem List.not_mem_nil

/-- A producer and a consumer; two signals, each of which is handled before the next. -/
def spacedSignals : List (BusAction Unit) :=
  [ .registerProducer { id := "p", source := "s", signalType := "swap", signalVersion := "v1" }
  , .runDeferred
  , .registerConsumer { id := "a" }
  , .emit 0 (bareSignal "x") 0 0
  , .settle 0 false
  , .emit 0 (bareSignal "y") 0 0
  , .settle 1 false ]

theorem spacedSignals_in_order :
    Along step (fun bus a _ => Spaced bus a) (MemorySignalBus.init Unit {}) spacedSignals ∧
      Along step (fun _ _ bus' => InOrder bus') (MemorySignalBus.init Unit {}) spacedSignals := by
  have hspaced : Along step (fun bus a _ => Spaced bus a) (MemorySignalBus.init Unit {})
      spacedSignals := by decide +kernel
  exact ⟨hspaced, handled_in_order {} spacedSignals hspaced⟩

/-- The same without awaiting the first `emit`. -/
def hurriedSignals : List (BusAction Unit) :=
  [ .registerProducer { id := "p", source := "s", signalType := "swap", signalVersion := "v1" }
  , .runDeferred
  , .registerConsumer { id := "a" }
  , .emit 0 (bareSignal "x") 0 0
  , .emit 0 (bareSignal "y") 0 0 ]

/-- The consumer starts on the second signal while it handles the first. -/
theorem hurriedSignals_not_in_order :
    ∃ bus, exec step (MemorySignalBus.init Unit {}) hurriedSignals = some bus ∧
      bus.events = [.started 0, .registered 0, .published 0, .handle 0 0, .published 1,
        .handle 1 0] ∧ ¬ InOrder bus := by
  have hrun : ∃ bus, exec step (MemorySignalBus.init Unit {}) hurriedSignals = some bus ∧
      bus.events = [.started 0, .registered 0, .published 0, .handle 0 0, .published 1,
        .handle 1 0] ∧ Of bus "p" 0 ∧ Of bus "p" 1 := by decide +kernel
  obtain ⟨bus, hbus, hevents, hfirst, hsecond⟩ := hrun
  refine ⟨bus, hbus, hevents, fun horder => ?_⟩
  have hsplit : bus.events = [.started 0, .registered 0, .published 0, .handle 0 0,
      .published 1] ++ .handle 1 0 :: [] := hevents
  obtain ⟨-, threw, hthrew⟩ := horder _ _ _ _ hsplit "p" 0 hsecond hfirst (by decide)
  simp at hthrew

end Ap3xSolana.Signals.ConsumerOrder
