import Ap3xSolana.Lib.Run
import Ap3xSolana.Signals.BusSteps

/-!
# Consumers that throw

The loop of `emit` catches what a `handle` throws and goes on with the next consumer.  It
does not catch what a `filter` throws: the `emit` call rejects, nobody reports it, and the
consumers behind that one never see the signal (`consumers_isolated`).
-/

namespace Ap3xSolana.Signals.Isolation

open Ap3xSolana.Lib Ap3xSolana.Lib.Run Ap3xSolana.Signals.MemorySignalBus

variable {δ : Type}

/-! ## The property -/

/-- A `handler-error` event for the consumer. -/
def reports (k consumer : Nat) : BusEvent → Bool
  | .handlerError k' consumer' _ => k' = k && consumer' = consumer
  | _ => false

/-- `received` is about the consumers that are there until the call resolves: whoever
takes the signal gets it once, the others do not. -/
structure Isolated (bus : MemorySignalBus δ) : Prop where
  running : ∀ k, .rejected k ∉ bus.events
  received : ∀ k em, bus.emissions[k]? = some em → ∀ c ∈ bus.consumers,
    [.registered c.ref, .resolved k].Sublist bus.events →
      bus.events.count (.handle k c.ref) = if em.turn k c = .handle then 1 else 0
  once : ∀ k consumer, bus.events.count (.handle k consumer) ≤ 1
  waits : ∀ k em, bus.emissions[k]? = some em → .resolved k ∈ bus.events ∨
    ∃ consumer, .handle k consumer ∈ bus.events ∧
      ∀ threw, .handled k consumer threw ∉ bus.events
  reported : ∀ k consumer, bus.events.countP (reports k consumer) =
    bus.events.count (.handled k consumer true) + bus.events.count (.filterThrew k consumer)
  named : ∀ k, ∀ c ∈ bus.consumers, ∀ id, .handlerError k c.ref id ∈ bus.events →
    id = c.consumer.id

/-- A filter that throws stands behind a consumer that takes the signal. -/
def Quietly (bus : MemorySignalBus δ) (k : Nat) (em : Emission δ) : Prop :=
  ∀ c ∈ bus.ahead em.cursor, em.turn k c = .throws →
    ∃ c' ∈ bus.ahead em.cursor, c'.ref < c.ref ∧ em.turn k c' = .handle

/-- The loop that goes on comes to no filter that throws. -/
def FiltersReturn (bus : MemorySignalBus δ) (a : BusAction δ) : Prop :=
  ∀ loop ∈ bus.loops a, Quietly bus loop.1 loop.2

instance decidableQuietly (bus : MemorySignalBus δ) (k : Nat) (em : Emission δ) :
    Decidable (Quietly bus k em) :=
  inferInstanceAs (Decidable (∀ c ∈ bus.ahead em.cursor, _))

instance decidableFiltersReturn (bus : MemorySignalBus δ) (a : BusAction δ) :
    Decidable (FiltersReturn bus a) :=
  inferInstanceAs (Decidable (∀ loop ∈ bus.loops a, _))

/-! ## The invariant -/

/-- The consumer whose `handle` an event is about. -/
def call? : BusEvent → Option (Nat × Nat)
  | .handle k consumer => some (k, consumer)
  | .handled k consumer _ => some (k, consumer)
  | .handlerError k consumer _ => some (k, consumer)
  | _ => none

/-- The loop of the emission `k` has dealt with the consumers below its cursor. -/
structure Loop (consumers : List (RegisteredConsumer δ)) (nextConsumer : Nat)
    (events : List BusEvent) (k : Nat) (em : Emission δ) : Prop where
  below : em.cursor ≤ nextConsumer
  called : ∀ e ∈ events, ∀ consumer, call? e = some (k, consumer) → consumer < em.cursor
  received : ∀ c ∈ consumers, c.ref < em.cursor →
    events.count (.handle k c.ref) = if em.turn k c = .handle then 1 else 0
  once : ∀ consumer, events.count (.handle k consumer) ≤ 1
  reported : ∀ consumer, events.countP (reports k consumer) =
    events.count (.handled k consumer true) + events.count (.filterThrew k consumer)
  named : ∀ c ∈ consumers, ∀ id, .handlerError k c.ref id ∈ events → id = c.consumer.id
  running : .rejected k ∉ events

/-- Where the loop stands, as the events tell it. -/
def Stands (consumers : List (RegisteredConsumer δ)) (events : List BusEvent) (k : Nat)
    (em : Emission δ) : Prop :=
  match em.stage with
  | .awaiting consumer id =>
      em.cursor = consumer + 1 ∧ .handle k consumer ∈ events ∧ .resolved k ∉ events ∧
        (∀ threw, .handled k consumer threw ∉ events) ∧
        ∀ c ∈ consumers, c.ref = consumer → id = c.consumer.id
  | .resolved =>
      .resolved k ∈ events ∧
        ∀ consumer, [.registered consumer, .resolved k].Sublist events → consumer < em.cursor
  | .rejected => False

structure Inv (bus : MemorySignalBus δ) : Prop where
  numbered : bus.Numbered
  registered : ∀ consumer, .registered consumer ∈ bus.events → consumer < bus.nextConsumer
  known : ∀ e ∈ bus.events, ∀ k, e.emission? = some k → k < bus.emissions.length
  loop : ∀ k em, bus.emissions[k]? = some em →
    Loop bus.consumers bus.nextConsumer bus.events k em ∧ Stands bus.consumers bus.events k em

/-! ## Events of other emissions -/

section Other

variable {events new : List BusEvent} {k : Nat} (hnew : ∀ e ∈ new, e.emission? ≠ some k)
include hnew

theorem count_append_other {e : BusEvent} (he : e.emission? = some k) :
    (events ++ new).count e = events.count e := by
  rw [List.count_append, List.count_eq_zero.2 fun hmem => hnew e hmem he, Nat.add_zero]

theorem mem_append_other {e : BusEvent} (he : e.emission? = some k) :
    e ∈ events ++ new ↔ e ∈ events := by
  rw [List.mem_append, or_iff_left fun hmem => hnew e hmem he]

theorem reports_append_other (consumer : Nat) :
    (events ++ new).countP (reports k consumer) = events.countP (reports k consumer) := by
  have hzero : new.countP (reports k consumer) = 0 := by
    rw [List.countP_eq_zero]
    intro e he hreports
    cases e with
    | handlerError k' consumer' id =>
        have hk : k' = k := by
          simp only [reports, Bool.and_eq_true, decide_eq_true_eq] at hreports
          exact hreports.1
        exact hnew _ he (congrArg some hk)
    | _ => cases hreports
  rw [List.countP_append, hzero, Nat.add_zero]

end Other

/-- What comes after the last event of a pair adds no such pair. -/
theorem pair_sublist_append {e e' : BusEvent} {events new : List BusEvent} (hnew : e' ∉ new)
    (h : [e, e'].Sublist (events ++ new)) : [e, e'].Sublist events := by
  obtain ⟨front, back, heq, hfront, hback⟩ := List.sublist_append_iff.1 h
  rcases List.eq_nil_or_concat back with rfl | ⟨back, last, rfl⟩
  · rw [heq, List.append_nil]
    exact hfront
  · have hlast : last = e' := by
      have h := congrArg List.getLast? heq
      simpa using h.symm
    exact absurd (hback.subset (by simp [hlast])) hnew

theorem Loop.frame {cs cs' : List (RegisteredConsumer δ)} {next next' : Nat}
    {events new : List BusEvent} {k : Nat} {em : Emission δ} (h : Loop cs next events k em)
    (hcs : ∀ c ∈ cs', c ∈ cs ∨ next ≤ c.ref) (hnext : next ≤ next')
    (hnew : ∀ e ∈ new, e.emission? ≠ some k) : Loop cs' next' (events ++ new) k em where
  below := h.below.trans hnext
  called e he consumer hcall := by
    have hem : e.emission? = some k := by
      cases e <;> simp only [call?, reduceCtorEq, Option.some.injEq, Prod.mk.injEq] at hcall <;>
        exact congrArg some hcall.1
    exact h.called e ((mem_append_other hnew hem).1 he) consumer hcall
  received c hc hlt := by
    rw [count_append_other hnew rfl]
    rcases hcs c hc with hc | hge
    · exact h.received c hc hlt
    · have := h.below
      omega
  once consumer := by
    rw [count_append_other hnew rfl]
    exact h.once consumer
  reported consumer := by
    rw [reports_append_other hnew, count_append_other hnew rfl, count_append_other hnew rfl]
    exact h.reported consumer
  named c hc id hid := by
    have hmem := (mem_append_other hnew rfl).1 hid
    rcases hcs c hc with hc | hge
    · exact h.named c hc id hmem
    · have hlt := h.called _ hmem c.ref rfl
      have := h.below
      omega
  running hmem := h.running ((mem_append_other hnew rfl).1 hmem)

theorem Stands.frame {cs cs' : List (RegisteredConsumer δ)} {next : Nat}
    {events new : List BusEvent} {k : Nat} {em : Emission δ} (h : Stands cs events k em)
    (hbelow : em.cursor ≤ next) (hcs : ∀ c ∈ cs', c ∈ cs ∨ next ≤ c.ref)
    (hnew : ∀ e ∈ new, e.emission? ≠ some k) : Stands cs' (events ++ new) k em := by
  unfold Stands at h ⊢
  cases hstage : em.stage with
  | awaiting consumer id =>
      rw [hstage] at h
      obtain ⟨hcursor, hhandle, hresolved, hhandled, hid⟩ := h
      refine ⟨hcursor, List.mem_append_left _ hhandle, ?_, ?_, ?_⟩
      · exact fun hmem => hresolved ((mem_append_other hnew rfl).1 hmem)
      · exact fun threw hmem => hhandled threw ((mem_append_other hnew rfl).1 hmem)
      · intro c hc href
        rcases hcs c hc with hc | hge
        · exact hid c hc href
        · omega
  | resolved =>
      rw [hstage] at h
      refine ⟨List.mem_append_left _ h.1, fun consumer hsub => h.2 consumer ?_⟩
      exact pair_sublist_append (fun hmem => hnew _ hmem rfl) hsub
  | rejected =>
      rw [hstage] at h
      exact h

/-! ## The loop goes on -/

/-- The loop moves its cursor and records `new`. -/
theorem Loop.grow {cs : List (RegisteredConsumer δ)} {next cursor : Nat}
    {events new : List BusEvent} {k : Nat} {em : Emission δ} {stage : EmitStage}
    (h : Loop cs next events k em) (hle : em.cursor ≤ cursor) (hbelow : cursor ≤ next)
    (hcalled : ∀ e ∈ new, ∀ consumer, call? e = some (k, consumer) → consumer < cursor)
    (hold : ∀ consumer < em.cursor, .handle k consumer ∉ new)
    (hreceived : ∀ c ∈ cs, em.cursor ≤ c.ref → c.ref < cursor →
      new.count (.handle k c.ref) = if em.turn k c = .handle then 1 else 0)
    (honce : ∀ consumer, new.count (.handle k consumer) ≤ 1)
    (hreported : ∀ consumer, new.countP (reports k consumer) =
      new.count (.handled k consumer true) + new.count (.filterThrew k consumer))
    (hnamed : ∀ c ∈ cs, ∀ id, .handlerError k c.ref id ∈ new → id = c.consumer.id)
    (hrunning : .rejected k ∉ new) :
    Loop cs next (events ++ new) k { em with cursor := cursor, stage := stage } where
  below := hbelow
  called e he consumer hcall := by
    show consumer < cursor
    rcases List.mem_append.1 he with he | he
    · exact (h.called e he consumer hcall).trans_le hle
    · exact hcalled e he consumer hcall
  received c hc hlt := by
    show _ = if em.turn k c = .handle then 1 else 0
    rw [List.count_append]
    by_cases hpast : c.ref < em.cursor
    · rw [h.received c hc hpast, List.count_eq_zero.2 (hold c.ref hpast), Nat.add_zero]
    · have hnone : events.count (.handle k c.ref) = 0 :=
        List.count_eq_zero.2 fun hmem => hpast (h.called _ hmem c.ref rfl)
      rw [hnone, Nat.zero_add, hreceived c hc (Nat.le_of_not_lt hpast) hlt]
  once consumer := by
    rw [List.count_append]
    by_cases hpast : consumer < em.cursor
    · rw [List.count_eq_zero.2 (hold consumer hpast), Nat.add_zero]
      exact h.once consumer
    · have hnone : events.count (.handle k consumer) = 0 :=
        List.count_eq_zero.2 fun hmem => hpast (h.called _ hmem consumer rfl)
      rw [hnone, Nat.zero_add]
      exact honce consumer
  reported consumer := by
    have hevents := h.reported consumer
    have hnew := hreported consumer
    rw [List.countP_append, List.count_append, List.count_append]
    omega
  named c hc id hid := (List.mem_append.1 hid).elim (h.named c hc id) (hnamed c hc id)
  running hmem := (List.mem_append.1 hmem).elim h.running hrunning

def isMismatch : BusEvent → Bool
  | .versionMismatch _ _ _ => true
  | _ => false

theorem mismatches_not_mem {k : Nat} {notes : List BusEvent} (h : Mismatches k notes)
    {e : BusEvent} (he : isMismatch e = false) : e ∉ notes := by
  intro hmem
  obtain ⟨consumer, error, rfl⟩ := h e hmem
  cases he

theorem mismatches_count {k : Nat} {notes : List BusEvent} (h : Mismatches k notes)
    {e : BusEvent} (he : isMismatch e = false) (last : BusEvent) :
    (notes ++ [last]).count e = if last = e then 1 else 0 := by
  rw [List.count_append, List.count_eq_zero.2 (mismatches_not_mem h he), Nat.zero_add,
    List.count_singleton]
  simp only [beq_iff_eq]

theorem mismatches_reports {k : Nat} {notes : List BusEvent} (h : Mismatches k notes)
    (consumer : Nat) : notes.countP (reports k consumer) = 0 := by
  rw [List.countP_eq_zero]
  intro e he
  obtain ⟨consumer', error, rfl⟩ := h e he
  exact Bool.false_ne_true

theorem mismatches_call {k : Nat} {notes : List BusEvent} (h : Mismatches k notes)
    {e : BusEvent} (he : e ∈ notes) : call? e = none := by
  obtain ⟨consumer, error, rfl⟩ := h e he
  rfl

theorem mismatches_mem {k : Nat} {notes : List BusEvent} (h : Mismatches k notes)
    {e last : BusEvent} (he : isMismatch e = false) (hmem : e ∈ notes ++ [last]) : e = last :=
  (List.mem_append.1 hmem).elim (fun hmem => absurd hmem (mismatches_not_mem h he))
    List.mem_singleton.1

section Advance

variable {bus : MemorySignalBus δ} {events notes : List BusEvent} {k : Nat} {em : Emission δ}

/-- The loop comes to its end. -/
theorem Loop.resolve (h : Loop bus.consumers bus.nextConsumer events k em)
    (hnotes : Mismatches k notes)
    (hpass : ∀ c ∈ bus.consumers, em.cursor ≤ c.ref → (em.turn k c).passes = true) :
    Loop bus.consumers bus.nextConsumer (events ++ (notes ++ [.resolved k])) k
      { em with cursor := bus.nextConsumer, stage := .resolved } := by
  have hnone : ∀ consumer, (notes ++ [BusEvent.resolved k]).count (.handle k consumer) = 0 :=
    fun consumer => mismatches_count hnotes rfl _
  apply h.grow h.below (le_refl _)
  · intro e he consumer hcall
    rcases List.mem_append.1 he with he | he
    · rw [mismatches_call hnotes he] at hcall
      cases hcall
    · rw [List.mem_singleton.1 he] at hcall
      cases hcall
  · exact fun consumer _ => List.count_eq_zero.1 (hnone consumer)
  · intro c hc hge _
    have hturn : em.turn k c ≠ .handle := by
      intro heq
      have hpasses := hpass c hc hge
      rw [heq] at hpasses
      cases hpasses
    rw [hnone, if_neg hturn]
  · exact fun consumer => (hnone consumer).trans_le (Nat.zero_le 1)
  · intro consumer
    rw [List.countP_append, mismatches_reports hnotes, mismatches_count hnotes rfl,
      mismatches_count hnotes rfl]
    rfl
  · intro c hc id hid
    cases mismatches_mem hnotes rfl hid
  · intro hmem
    cases mismatches_mem hnotes rfl hmem

theorem stands_resolved (hbus : ∀ consumer, .registered consumer ∈ events →
    consumer < bus.nextConsumer) (hnotes : Mismatches k notes) :
    Stands bus.consumers (events ++ (notes ++ [.resolved k])) k
      { em with cursor := bus.nextConsumer, stage := .resolved } := by
  refine ⟨List.mem_append_right _ (List.mem_append_right _ List.mem_cons_self), ?_⟩
  intro consumer hsub
  rcases List.mem_append.1 (hsub.subset List.mem_cons_self) with hmem | hmem
  · exact hbus consumer hmem
  · cases mismatches_mem hnotes rfl hmem

/-- The loop calls a `handle`. -/
theorem Loop.call (hbus : bus.Numbered)
    (h : Loop bus.consumers bus.nextConsumer events k em) (hnotes : Mismatches k notes)
    {c : RegisteredConsumer δ} (hmem : c ∈ bus.consumers) (hcursor : em.cursor ≤ c.ref)
    (hpass : ∀ c' ∈ bus.consumers, em.cursor ≤ c'.ref → c'.ref < c.ref →
      (em.turn k c').passes = true)
    (hturn : em.turn k c = .handle) :
    Loop bus.consumers bus.nextConsumer (events ++ (notes ++ [.handle k c.ref])) k
      { em with cursor := c.ref + 1, stage := .awaiting c.ref c.consumer.id } := by
  have hcount : ∀ consumer, (notes ++ [BusEvent.handle k c.ref]).count (.handle k consumer) =
      if c.ref = consumer then 1 else 0 := by
    intro consumer
    rw [mismatches_count hnotes rfl]
    simp only [BusEvent.handle.injEq, true_and]
  apply h.grow (hcursor.trans (Nat.le_succ _)) (hbus.below c hmem)
  · intro e he consumer hcall
    rcases List.mem_append.1 he with he | he
    · rw [mismatches_call hnotes he] at hcall
      cases hcall
    · rw [List.mem_singleton.1 he] at hcall
      cases hcall
      exact Nat.lt_succ_self _
  · intro consumer hlt
    rw [← List.count_eq_zero, hcount, if_neg (by omega)]
  · intro c' hc' hge hlt
    rw [hcount]
    by_cases href : c.ref = c'.ref
    · rw [if_pos href, ← hbus.eq_of_ref hmem hc' href, if_pos hturn]
    · have hpasses := hpass c' hc' hge (by omega)
      have hturn' : em.turn k c' ≠ .handle := by
        intro heq
        rw [heq] at hpasses
        cases hpasses
      rw [if_neg href, if_neg hturn']
  · intro consumer
    rw [hcount]
    split <;> omega
  · intro consumer
    rw [List.countP_append, mismatches_reports hnotes, mismatches_count hnotes rfl,
      mismatches_count hnotes rfl]
    rfl
  · intro c' hc' id hid
    cases mismatches_mem hnotes rfl hid
  · intro hmem
    cases mismatches_mem hnotes rfl hmem

theorem stands_awaiting (hbus : bus.Numbered)
    (h : Loop bus.consumers bus.nextConsumer events k em) (hnotes : Mismatches k notes)
    (hunresolved : .resolved k ∉ events) {c : RegisteredConsumer δ} (hmem : c ∈ bus.consumers)
    (hcursor : em.cursor ≤ c.ref) :
    Stands bus.consumers (events ++ (notes ++ [.handle k c.ref])) k
      { em with cursor := c.ref + 1, stage := .awaiting c.ref c.consumer.id } := by
  refine ⟨rfl, List.mem_append_right _ (List.mem_append_right _ List.mem_cons_self), ?_, ?_, ?_⟩
  · intro hresolved
    rcases List.mem_append.1 hresolved with hresolved | hresolved
    · exact hunresolved hresolved
    · cases mismatches_mem hnotes rfl hresolved
  · intro threw hhandled
    rcases List.mem_append.1 hhandled with hhandled | hhandled
    · have hlt := h.called _ hhandled c.ref rfl
      omega
    · cases mismatches_mem hnotes rfl hhandled
  · intro c' hc' href
    rw [hbus.eq_of_ref hc' hmem href]

/-- The loop stops without a throw. -/
theorem Loop.advance {result : Emission δ × List BusEvent} (hbus : bus.Numbered)
    (hregistered : ∀ consumer, .registered consumer ∈ events → consumer < bus.nextConsumer)
    (h : Loop bus.consumers bus.nextConsumer events k em) (hunresolved : .resolved k ∉ events)
    (hadv : Advanced bus k em result) (hstage : result.1.stage ≠ .rejected) :
    Loop bus.consumers bus.nextConsumer (events ++ result.2) k result.1 ∧
      Stands bus.consumers (events ++ result.2) k result.1 := by
  cases hadv with
  | resolved notes hnotes hpass =>
      exact ⟨h.resolve hnotes hpass, stands_resolved hregistered hnotes⟩
  | awaiting c notes hnotes hmem hcursor hpass hturn =>
      exact ⟨h.call hbus hnotes hmem hcursor hpass hturn,
        stands_awaiting hbus h hnotes hunresolved hmem hcursor⟩
  | rejected => exact absurd rfl hstage

end Advance

/-- The loop rejects exactly where a filter throws with nobody in front. -/
theorem rejected_iff {bus : MemorySignalBus δ} {k : Nat} {em : Emission δ}
    {result : Emission δ × List BusEvent} (hbus : bus.Numbered)
    (hadv : Advanced bus k em result) :
    result.1.stage ≠ .rejected ↔ Quietly bus k em := by
  cases hadv with
  | resolved notes hnotes hpass =>
      refine ⟨fun _ c hc hturn => ?_, fun _ => EmitStage.noConfusion⟩
      have hpasses := hpass c (mem_ahead.1 hc).1 (mem_ahead.1 hc).2
      rw [hturn] at hpasses
      cases hpasses
  | awaiting c notes hnotes hmem hcursor hpass hturn =>
      refine ⟨fun _ c' hc' hthrows => ?_, fun _ => EmitStage.noConfusion⟩
      refine ⟨c, mem_ahead.2 ⟨hmem, hcursor⟩, ?_, hturn⟩
      by_contra hge
      rcases Nat.lt_or_eq_of_le (Nat.le_of_not_lt hge) with hlt | href
      · have hpasses := hpass c' (mem_ahead.1 hc').1 (mem_ahead.1 hc').2 hlt
        rw [hthrows] at hpasses
        cases hpasses
      · rw [hbus.eq_of_ref (mem_ahead.1 hc').1 hmem href, hturn] at hthrows
        cases hthrows
  | rejected c notes hnotes hmem hcursor hpass hturn =>
      refine ⟨fun h => absurd rfl h, fun hquiet => ?_⟩
      obtain ⟨c', hc', hlt, htakes⟩ := hquiet c (mem_ahead.2 ⟨hmem, hcursor⟩) hturn
      have hpasses := hpass c' (mem_ahead.1 hc').1 (mem_ahead.1 hc').2 hlt
      rw [htakes] at hpasses
      cases hpasses

/-! ## Steps -/

/-- The events that a step adds are about one emission or none. -/
theorem Inv.grow {bus bus' : MemorySignalBus δ} (hinv : Inv bus) {new : List BusEvent}
    (hevents : bus'.events = bus.events ++ new) (hnumbered : bus'.Numbered)
    (hnext : bus.nextConsumer ≤ bus'.nextConsumer)
    (hlength : bus.emissions.length ≤ bus'.emissions.length)
    (hconsumers : ∀ c ∈ bus'.consumers, c ∈ bus.consumers ∨ bus.nextConsumer ≤ c.ref)
    (hregistered : ∀ e ∈ new, ∀ consumer, e.registered? = some consumer →
      consumer < bus'.nextConsumer)
    (hknown : ∀ e ∈ new, ∀ k, e.emission? = some k → k < bus'.emissions.length)
    (hloop : ∀ k em, bus'.emissions[k]? = some em →
      (bus.emissions[k]? = some em ∧ ∀ e ∈ new, e.emission? ≠ some k) ∨
        (Loop bus'.consumers bus'.nextConsumer bus'.events k em ∧
          Stands bus'.consumers bus'.events k em)) : Inv bus' where
  numbered := hnumbered
  registered consumer hmem := by
    rw [hevents] at hmem
    rcases List.mem_append.1 hmem with hmem | hmem
    · exact (hinv.registered consumer hmem).trans_le hnext
    · exact hregistered _ hmem consumer rfl
  known e he k hk := by
    rw [hevents] at he
    rcases List.mem_append.1 he with he | he
    · exact (hinv.known e he k hk).trans_le hlength
    · exact hknown e he k hk
  loop k em hem := by
    rcases hloop k em hem with ⟨hold, hnew⟩ | h
    · obtain ⟨hl, hs⟩ := hinv.loop k em hold
      rw [hevents]
      exact ⟨hl.frame hconsumers hnext hnew, hs.frame hl.below hconsumers hnew⟩
    · exact h

theorem inv_init (opts : SignalBusOpts) : Inv (MemorySignalBus.init δ opts) where
  numbered := ⟨List.Pairwise.nil, fun _ h => absurd h List.not_mem_nil⟩
  registered _ h := absurd h List.not_mem_nil
  known _ h := absurd h List.not_mem_nil
  loop k em h := by
    rw [show (MemorySignalBus.init δ opts).emissions = [] from rfl] at h
    cases h

theorem inv_quiet {bus bus' : MemorySignalBus δ} (hinv : Inv bus) (h : Quiet bus bus') :
    Inv bus' := by
  obtain ⟨new, hevents, hnew⟩ := h.events
  have hnumbered : bus'.Numbered := by
    refine ⟨hinv.numbered.sorted.sublist h.consumers, fun c hc => ?_⟩
    rw [h.nextConsumer]
    exact hinv.numbered.below c (h.consumers.subset hc)
  apply hinv.grow hevents hnumbered (le_of_eq h.nextConsumer.symm)
    (le_of_eq (congrArg List.length h.emissions.symm))
  · exact fun c hc => .inl (h.consumers.subset hc)
  · intro e he consumer hr
    rw [(hnew e he).2] at hr
    cases hr
  · intro e he k hk
    rw [(hnew e he).1] at hk
    cases hk
  · intro k em hem
    rw [h.emissions] at hem
    refine .inl ⟨hem, fun e he hk => ?_⟩
    rw [(hnew e he).1] at hk
    cases hk

theorem inv_registers {bus bus' : MemorySignalBus δ} {consumer : SignalConsumer δ}
    (hinv : Inv bus) (h : Registers bus bus' consumer) : Inv bus' := by
  apply hinv.grow h.events (h.numbered hinv.numbered) (h.nextConsumer ▸ Nat.le_succ _)
    (le_of_eq (congrArg List.length h.emissions.symm))
  · intro c hc
    rcases h.mem_consumers c hc with hc | rfl
    · exact .inl hc
    · exact .inr (le_refl _)
  · intro e he consumer' hr
    rw [List.mem_singleton.1 he] at hr
    cases hr
    rw [h.nextConsumer]
    exact Nat.lt_succ_self _
  · intro e he k hk
    rw [List.mem_singleton.1 he] at hk
    cases hk
  · intro k em hem
    rw [h.emissions] at hem
    refine .inl ⟨hem, fun e he hk => ?_⟩
    rw [List.mem_singleton.1 he] at hk
    cases hk

/-- An emission that nothing is recorded about has not started. -/
theorem loop_start {bus : MemorySignalBus δ} (hinv : Inv bus) {em : Emission δ}
    (hcursor : em.cursor = 0) :
    Loop bus.consumers bus.nextConsumer (bus.events ++ [.published bus.emissions.length])
      bus.emissions.length em := by
  have hnone : ∀ e ∈ bus.events, e.emission? ≠ some bus.emissions.length := by
    intro e he hk
    exact Nat.lt_irrefl _ (hinv.known e he _ hk)
  have hcount : ∀ e, BusEvent.emission? e = some bus.emissions.length →
      e ≠ BusEvent.published bus.emissions.length →
        (bus.events ++ [BusEvent.published bus.emissions.length]).count e = 0 := by
    intro e hk hne
    rw [List.count_eq_zero, List.mem_append, not_or]
    exact ⟨fun he => hnone e he hk, fun he => hne (List.mem_singleton.1 he)⟩
  have hmem : ∀ e, BusEvent.emission? e = some bus.emissions.length →
      e ≠ BusEvent.published bus.emissions.length →
        e ∉ bus.events ++ [BusEvent.published bus.emissions.length] :=
    fun e hk hne => List.count_eq_zero.1 (hcount e hk hne)
  constructor
  · exact hcursor ▸ Nat.zero_le _
  · intro e he consumer hcall
    have hk : e.emission? = some bus.emissions.length := by
      cases e <;> simp only [call?, reduceCtorEq, Option.some.injEq, Prod.mk.injEq] at hcall <;>
        exact congrArg some hcall.1
    refine absurd he (hmem e hk fun heq => ?_)
    rw [heq] at hcall
    cases hcall
  · intro c hc hlt
    omega
  · intro consumer
    rw [hcount (.handle _ consumer) rfl BusEvent.noConfusion]
    exact Nat.zero_le 1
  · intro consumer
    rw [hcount (.handled _ consumer true) rfl BusEvent.noConfusion,
      hcount (.filterThrew _ consumer) rfl BusEvent.noConfusion, List.countP_append]
    have hreports : bus.events.countP (reports bus.emissions.length consumer) = 0 := by
      rw [← List.nil_append bus.events, reports_append_other hnone]
      rfl
    rw [hreports]
    rfl
  · intro c hc id hid
    exact absurd hid (hmem _ rfl BusEvent.noConfusion)
  · exact hmem _ rfl BusEvent.noConfusion

theorem inv_publishes {bus bus' : MemorySignalBus δ} {em : Emission δ} (hinv : Inv bus)
    (h : Publishes bus bus' em) (hquiet : Quietly bus bus.emissions.length em) : Inv bus' := by
  have hadv := advanced hinv.numbered bus.emissions.length em
  have hstage := (rejected_iff hinv.numbered hadv).2 hquiet
  have habout := advance_about bus bus.emissions.length em
  have hnumbered : bus'.Numbered := ⟨h.consumers ▸ hinv.numbered.sorted, by
    rw [h.consumers, h.nextConsumer]
    exact hinv.numbered.below⟩
  have hlength : bus'.emissions.length = bus.emissions.length + 1 := by
    rw [h.emissions, List.length_append, List.length_singleton]
  have hnew : ∀ e ∈ BusEvent.published bus.emissions.length ::
      (bus.advance bus.emissions.length em).2,
        e.emission? = some bus.emissions.length ∧ e.registered? = none := by
    intro e he
    rcases List.mem_cons.1 he with rfl | he
    · exact ⟨rfl, rfl⟩
    · exact habout e he
  apply hinv.grow h.events hnumbered (le_of_eq h.nextConsumer.symm) (by omega)
  · exact fun c hc => .inl (h.consumers ▸ hc)
  · intro e he consumer hr
    rw [(hnew e he).2] at hr
    cases hr
  · intro e he k hk
    rw [(hnew e he).1] at hk
    cases hk
    omega
  · intro k em' hem
    rw [h.emissions] at hem
    by_cases hk : k < bus.emissions.length
    · rw [List.getElem?_append_left hk] at hem
      refine .inl ⟨hem, fun e he he' => ?_⟩
      rw [(hnew e he).1] at he'
      cases he'
      exact Nat.lt_irrefl _ hk
    · have hk' : k = bus.emissions.length := by
        have := (List.getElem?_eq_some_iff.1 hem).1
        rw [List.length_append, List.length_singleton] at this
        omega
      rw [hk', List.getElem?_concat_length] at hem
      cases hem
      rw [hk', h.consumers, h.nextConsumer, h.events, List.append_cons]
      refine .inr (Loop.advance hinv.numbered ?_ (loop_start hinv h.cursor) ?_ hadv hstage)
      · intro consumer hmem
        rcases List.mem_append.1 hmem with hmem | hmem
        · exact hinv.registered consumer hmem
        · cases List.mem_singleton.1 hmem
      · intro hmem
        rcases List.mem_append.1 hmem with hmem | hmem
        · exact Nat.lt_irrefl _ (hinv.known _ hmem _ rfl)
        · cases List.mem_singleton.1 hmem

/-- The awaited `handle` has settled, and an error is reported if it threw. -/
theorem Loop.settle {cs : List (RegisteredConsumer δ)} {next : Nat} {events : List BusEvent}
    {k consumer : Nat} {em : Emission δ} {id : String} (h : Loop cs next events k em)
    (hcursor : em.cursor = consumer + 1)
    (hid : ∀ c ∈ cs, c.ref = consumer → id = c.consumer.id) (threw : Bool) :
    Loop cs next (events ++ .handled k consumer threw ::
      (if threw then [.handlerError k consumer id] else [])) k em := by
  apply h.grow (le_refl _) h.below
  · intro e he consumer' hcall
    cases threw <;> simp at he
    · rw [he] at hcall
      cases hcall
      omega
    · rcases he with rfl | rfl
      · cases hcall
        omega
      · cases hcall
        omega
  · intro consumer' _ hmem
    cases threw <;> simp at hmem
  · intro c _ hge hlt
    omega
  · intro consumer'
    cases threw <;> simp
  · intro consumer'
    cases threw
    · simp [reports]
    · by_cases heq : consumer = consumer' <;> simp [reports, heq]
  · intro c hc id' hid'
    cases threw <;> simp at hid'
    rw [hid'.2]
    exact hid c hc hid'.1
  · intro hmem
    cases threw <;> simp at hmem

theorem inv_settles {bus bus' : MemorySignalBus δ} {k consumer : Nat} {em : Emission δ}
    {consumerId : String} {threw : Bool} (hinv : Inv bus)
    (h : Settles bus bus' k em consumer consumerId threw) (hquiet : Quietly bus k em) :
    Inv bus' := by
  have hadv := advanced hinv.numbered k em
  have hstage := (rejected_iff hinv.numbered hadv).2 hquiet
  have habout := advance_about bus k em
  obtain ⟨hloop, hstands⟩ := hinv.loop k em h.found
  unfold Stands at hstands
  rw [h.stage] at hstands
  obtain ⟨hcursor, -, hunresolved, -, hid⟩ := hstands
  have hk := (List.getElem?_eq_some_iff.1 h.found).1
  have hlength : bus'.emissions.length = bus.emissions.length := by
    rw [h.emissions, List.length_set]
  have hnumbered : bus'.Numbered := ⟨h.consumers ▸ hinv.numbered.sorted, by
    rw [h.consumers, h.nextConsumer]
    exact hinv.numbered.below⟩
  have hsettled : ∀ e ∈ BusEvent.handled k consumer threw ::
      (if threw then [BusEvent.handlerError k consumer consumerId] else []),
        e.emission? = some k ∧ e.registered? = none ∧ e ≠ .resolved k := by
    intro e he
    cases threw <;> simp at he
    · rw [he]
      exact ⟨rfl, rfl, BusEvent.noConfusion⟩
    · rcases he with rfl | rfl <;> exact ⟨rfl, rfl, BusEvent.noConfusion⟩
  have hnew : ∀ e ∈ (BusEvent.handled k consumer threw ::
      (if threw then [BusEvent.handlerError k consumer consumerId] else [])) ++
        (bus.advance k em).2, e.emission? = some k ∧ e.registered? = none := by
    intro e he
    rcases List.mem_append.1 he with he | he
    · exact ⟨(hsettled e he).1, (hsettled e he).2.1⟩
    · exact habout e he
  apply hinv.grow h.events hnumbered (le_of_eq h.nextConsumer.symm) (le_of_eq hlength.symm)
  · exact fun c hc => .inl (h.consumers ▸ hc)
  · intro e he consumer' hr
    rw [(hnew e he).2] at hr
    cases hr
  · intro e he k' hk'
    rw [(hnew e he).1] at hk'
    cases hk'
    omega
  · intro k' em' hem
    rw [h.emissions] at hem
    by_cases heq : k = k'
    · rw [← heq, List.getElem?_set_self hk] at hem
      cases hem
      rw [← heq, h.consumers, h.nextConsumer, h.events, ← List.append_assoc]
      refine .inr (Loop.advance hinv.numbered ?_ (hloop.settle hcursor hid threw) ?_ hadv hstage)
      · intro consumer' hmem
        rcases List.mem_append.1 hmem with hmem | hmem
        · exact hinv.registered consumer' hmem
        · cases (hsettled _ hmem).2.1
      · intro hmem
        rcases List.mem_append.1 hmem with hmem | hmem
        · exact hunresolved hmem
        · exact (hsettled _ hmem).2.2 rfl
    · rw [List.getElem?_set_ne heq] at hem
      refine .inl ⟨hem, fun e he hk' => heq ?_⟩
      rw [(hnew e he).1] at hk'
      exact Option.some.inj hk'

theorem inv_step {bus bus' : MemorySignalBus δ} {a : BusAction δ} (hinv : Inv bus)
    (h : bus.step a = some bus') (hcalm : FiltersReturn bus a) : Inv bus' := by
  rcases step_cases h with ⟨hquiet, -⟩ | ⟨consumer, -, hregisters⟩ | ⟨em, hloops, hpublishes⟩ |
    ⟨k, em, consumer, consumerId, threw, hloops, hsettles⟩
  · exact inv_quiet hinv hquiet
  · exact inv_registers hinv hregisters
  · exact inv_publishes hinv hpublishes (hcalm _ hloops)
  · exact inv_settles hinv hsettles (hcalm _ hloops)

theorem Inv.isolated {bus : MemorySignalBus δ} (hinv : Inv bus) : Isolated bus := by
  have hzero : ∀ k, bus.emissions[k]? = none → ∀ e ∈ bus.events, e.emission? ≠ some k := by
    intro k hk e he hem
    have hlt := hinv.known e he k hem
    rw [List.getElem?_eq_none_iff] at hk
    omega
  constructor
  · intro k hmem
    have hlt := hinv.known _ hmem k rfl
    exact (hinv.loop k _ (List.getElem?_eq_getElem hlt)).1.running hmem
  · intro k em hem c hc hsub
    obtain ⟨hloop, hstands⟩ := hinv.loop k em hem
    have hmem : .resolved k ∈ bus.events := hsub.subset (by simp)
    apply hloop.received c hc
    unfold Stands at hstands
    split at hstands
    · exact absurd hmem hstands.2.2.1
    · exact hstands.2 c.ref hsub
    · exact hstands.elim
  · intro k consumer
    cases hem : bus.emissions[k]? with
    | none =>
        rw [List.count_eq_zero.2 fun hmem => hzero k hem _ hmem rfl]
        exact Nat.zero_le 1
    | some em => exact (hinv.loop k em hem).1.once consumer
  · intro k em hem
    have hstands := (hinv.loop k em hem).2
    unfold Stands at hstands
    split at hstands
    · exact .inr ⟨_, hstands.2.1, hstands.2.2.2.1⟩
    · exact .inl hstands.1
    · exact hstands.elim
  · intro k consumer
    cases hem : bus.emissions[k]? with
    | none =>
        have hother : ([] ++ bus.events).countP (reports k consumer) = 0 :=
          reports_append_other (hzero k hem) consumer
        rw [List.nil_append] at hother
        rw [hother, List.count_eq_zero.2 fun hmem => hzero k hem _ hmem rfl,
          List.count_eq_zero.2 fun hmem => hzero k hem _ hmem rfl]
    | some em => exact (hinv.loop k em hem).1.reported consumer
  · intro k c hc id hid
    have hlt := hinv.known _ hid k rfl
    exact (hinv.loop k _ (List.getElem?_eq_getElem hlt)).1.named c hc id hid

/-- The loop that comes to a filter that throws rejects its `emit` call. -/
theorem Isolated.filtersReturn {bus bus' : MemorySignalBus δ} {a : BusAction δ}
    (hinv : Inv bus) (h : bus.step a = some bus') (hisolated : Isolated bus') :
    FiltersReturn bus a := by
  have hstage : ∀ k em, (∀ e ∈ (bus.advance k em).2, e ∈ bus'.events) →
      (bus.advance k em).1.stage ≠ .rejected := by
    intro k em hmem hrejected
    have hadv := advanced hinv.numbered k em
    apply hisolated.running k
    apply hmem
    generalize bus.advance k em = result at hadv hrejected ⊢
    cases hadv with
    | resolved => cases hrejected
    | awaiting => cases hrejected
    | rejected c notes => simp
  intro loop hloop
  rcases step_cases h with ⟨-, hnone⟩ | ⟨consumer, rfl, -⟩ | ⟨em, hloops, hpublishes⟩ |
    ⟨k, em, consumer, consumerId, threw, hloops, hsettles⟩
  · rw [hnone] at hloop
    cases hloop
  · cases hloop
  · rw [hloops] at hloop
    cases hloop
    apply (rejected_iff hinv.numbered (advanced hinv.numbered _ em)).1 (hstage _ em _)
    intro e he
    rw [hpublishes.events]
    exact List.mem_append_right _ (List.mem_cons_of_mem _ he)
  · rw [hloops] at hloop
    cases hloop
    apply (rejected_iff hinv.numbered (advanced hinv.numbered k em)).1 (hstage k em _)
    intro e he
    rw [hsettles.events]
    exact List.mem_append_right _ (List.mem_append_right _ he)

/-- **Isolation.**  Consumers are isolated from each other along a run exactly if no loop of
it comes to a filter that throws. -/
theorem consumers_isolated (opts : SignalBusOpts) (acts : List (BusAction δ)) :
    Along step (fun _ _ bus' => Isolated bus') (MemorySignalBus.init δ opts) acts ↔
      Along step (fun bus a _ => FiltersReturn bus a) (MemorySignalBus.init δ opts) acts :=
  along_iff_of_inv Inv
    (fun _ _ _ hinv h =>
      ⟨fun hisolated => hisolated.filtersReturn hinv h,
        fun hcalm => (inv_step hinv h hcalm).isolated⟩)
    (fun _ _ _ hinv h hcalm => inv_step hinv h hcalm) acts _ (inv_init opts)

/-! ## A filter that throws -/

/-- One producer and two consumers; the filter of the first throws on every signal. -/
def throwingFilter : List (BusAction Unit) :=
  [ .registerProducer { id := "p", source := "s", signalType := "swap", signalVersion := "v1" }
  , .runDeferred
  , .registerConsumer { id := "a", filter := some fun _ _ => .throws }
  , .registerConsumer { id := "b" }
  , .emit 0 (bareSignal "x") 0 0 ]

/-- The second consumer does not get the signal, and nothing is reported. -/
theorem throwingFilter_not_isolated :
    ∃ bus, exec step (MemorySignalBus.init Unit {}) throwingFilter = some bus ∧
      bus.events = [.started 0, .registered 0, .registered 1, .published 0, .filterThrew 0 0,
        .rejected 0] ∧ ¬ Isolated bus := by
  have hrun : ∃ bus, exec step (MemorySignalBus.init Unit {}) throwingFilter = some bus ∧
      bus.events = [.started 0, .registered 0, .registered 1, .published 0, .filterThrew 0 0,
        .rejected 0] := by decide +kernel
  obtain ⟨bus, hbus, hevents⟩ := hrun
  refine ⟨bus, hbus, hevents, fun hisolated => hisolated.running 0 ?_⟩
  rw [hevents]
  decide

end Ap3xSolana.Signals.Isolation
