import Ap3xSolana.Webhooks.CrashRecovery

/-!
# Where an event comes from

Rows come from requests and events from rows, whatever crashes in between.  `origin` is
anything that holds of every event a request of the run is taken apart into (`Admits`); it then
holds of every row, and all that reaches the consumer was normalised from such a row
(`Stems`).
-/

namespace Ap3xSolana.Webhooks.CrashRecovery

open Ap3xSolana.Lib.Run

variable {ε : Type} {opts : Options} {normalize : Normalize ε} {origin : WebhookEvent → Prop}

/-- What the receiver writes for the event, if it has no row yet. -/
def rowOf (opts : ReceiverOptions) (e : ParsedEvent) (json : String) (receivedAt : Int) :
    WebhookEvent :=
  { id := e.id, source := opts.driver.source, receivedAt := receivedAt, rawPayload := json }

/-- The events that are to be inserted. -/
def AllFrom (opts : ReceiverOptions) (origin : WebhookEvent → Prop) (todo : List ParsedEvent) :
    Prop :=
  ∀ e ∈ todo, ∀ json, e.json = .ok json → ∀ receivedAt, origin (rowOf opts e json receivedAt)

/-- A request that is let in carries only events with that origin. -/
def Admits (opts : ReceiverOptions) (origin : WebhookEvent → Prop) : Action ε → Prop
  | .act (.request req _) =>
      opts.driver.verifyRequest req = none → req.body.length ≤ opts.maxBytes →
        ∀ parsed, opts.driver.parseRawPayload req.body = .ok parsed → AllFrom opts origin parsed
  | _ => True

def DeliveryFrom (opts : ReceiverOptions) (origin : WebhookEvent → Prop) : Delivery → Prop
  | .inserting _ todo _ _ _ => AllFrom opts origin todo
  | .settled _ _ => True

/-- The consumer's event was normalised from something with that origin. -/
def SeenFrom (normalize : Normalize ε) (origin : WebhookEvent → Prop) (s : Seen ε) : Prop :=
  ∃ e events, origin e ∧ e.key = s.key ∧ normalize e = .ok events ∧
    events[s.position]? = some s.event

structure Stems (opts : Options) (normalize : Normalize ε) (origin : WebhookEvent → Prop)
    (st : State ε) : Prop where
  rows : ∀ key r, st.pipeline.outbox.find? key = some r → origin r.toWebhookEvent
  deliveries : ∀ d ∈ st.pipeline.deliveries, DeliveryFrom opts.receiver origin d
  seen : ∀ s ∈ st.seen, SeenFrom normalize origin s

theorem stems_init : Stems opts normalize origin ({} : State ε) where
  rows _ _ h := by cases h
  deliveries _ h := by cases h
  seen _ h := by cases h

/-! ## The receiver -/

theorem insertLoop_from {opts : ReceiverOptions} {keys : List Key} {todo : List ParsedEvent}
    (h : AllFrom opts origin todo) (receivedAt : Int) (inserted duplicates : Nat) :
    DeliveryFrom opts origin (insertLoop keys todo receivedAt inserted duplicates) := by
  unfold insertLoop
  split
  · trivial
  · exact h

theorem ingest_from {opts : ReceiverOptions} {req : IncomingRequest} {now : Int}
    (h : Admits opts origin (.act (.request req now) : Action ε)) (taken : Nat) :
    DeliveryFrom opts origin (ingest opts taken req now) := by
  unfold ingest
  split
  · trivial
  · next hverify =>
      split
      · trivial
      · next hsize =>
          split
          · trivial
          · split
            · trivial
            · next parsed hparsed =>
                exact insertLoop_from (h hverify (Nat.le_of_not_gt hsize) parsed hparsed) ..

theorem insertNext_from {opts : ReceiverOptions} {o : SqliteOutbox} {keys : List Key}
    {event : ParsedEvent} {todo : List ParsedEvent}
    (hrows : ∀ key r, o.find? key = some r → origin r.toWebhookEvent)
    (h : AllFrom opts origin (event :: todo)) (receivedAt : Int) (inserted duplicates : Nat)
    (statement : Option String) :
    (∀ key r,
      (insertNext opts o keys event todo receivedAt inserted duplicates statement).1.find? key =
        some r → origin r.toWebhookEvent) ∧
      DeliveryFrom opts origin
        (insertNext opts o keys event todo receivedAt inserted duplicates statement).2 := by
  have hrest : AllFrom opts origin todo := fun e he => h e (List.mem_cons_of_mem _ he)
  unfold insertNext
  cases hjson : event.json with
  | error message => exact ⟨hrows, trivial⟩
  | ok json =>
      cases statement with
      | some message => exact ⟨hrows, trivial⟩
      | none =>
          refine ⟨fun key r hr => ?_, ?_⟩
          · rw [SqliteOutbox.find?_insert, Option.or_eq_some_iff] at hr
            rcases hr with hold | ⟨-, hnew⟩
            · exact hrows key r hold
            · split at hnew
              · cases hnew
                exact h event List.mem_cons_self json hjson receivedAt
              · cases hnew
          · dsimp only
            split <;> exact insertLoop_from hrest ..

/-! ## The drainer -/

variable {st st' : State ε}

/-- A turn of a cycle changes no more of a row than what the drainer tracks. -/
theorem advance_rows (hinv : Inv opts normalize st) {i : Nat} {reply : Reply ε}
    {pipeline : Webhooks.State ε}
    (hstep : advanceStep opts st.pipeline i reply = some pipeline) :
    pipeline.deliveries = st.pipeline.deliveries ∧
      ∀ key r', pipeline.outbox.find? key = some r' →
        ∃ r, st.pipeline.outbox.find? key = some r ∧ r'.toWebhookEvent = r.toWebhookEvent := by
  unfold advanceStep at hstep
  split at hstep
  · cases hstep
  next c hi =>
  have hc := List.mem_of_getElem? hi
  obtain ⟨⟨o, entries, c'⟩, hadvance, rfl⟩ := Option.map_eq_some_iff.1 hstep
  refine ⟨rfl, ?_⟩
  have hsame : st.pipeline.outbox = o → ∀ key r', o.find? key = some r' →
      ∃ r, st.pipeline.outbox.find? key = some r ∧ r'.toWebhookEvent = r.toWebhookEvent :=
    fun heq key r' hr' => ⟨r', heq ▸ hr', rfl⟩
  have hturn : ∀ {row : OutboxRow} {left : Option (List ε)} {out : Outcome ε},
      row ∈ c.held → Went st.pipeline.outbox row left out → out.1 = o →
      ∀ key r', o.find? key = some r' →
        ∃ r, st.pipeline.outbox.find? key = some r ∧ r'.toWebhookEvent = r.toWebhookEvent := by
    rintro row left out hrow hwent rfl key
    obtain ⟨-, r, hr, -⟩ := hinv.held c hc row hrow
    exact (hwent.find? ⟨r, hr⟩ key).2.2
  unfold Cycle.advance at hadvance
  cases hphase : c.phase with
  | finished =>
      rw [hphase] at hadvance
      cases hadvance
  | rows todo =>
      rw [hphase] at hadvance
      cases todo with
      | nil => exact hsame (congrArg Prod.fst (Option.some.inj hadvance))
      | cons row rest =>
          dsimp only at hadvance
          split at hadvance
          · exact hsame (congrArg Prod.fst (Option.some.inj hadvance))
          · exact hturn (by simp [Cycle.held, hphase])
              (processOne_went opts.drainer st.pipeline.outbox row reply)
              (congrArg Prod.fst (Option.some.inj hadvance))
  | emitting row event todo rest =>
      rw [hphase] at hadvance
      exact hturn (by simp [Cycle.held, hphase])
        (emitSettled_went st.pipeline.outbox row todo reply)
        (congrArg Prod.fst (Option.some.inj hadvance))

theorem Stems.rows_kept (h : Stems opts normalize origin st)
    (hdeliveries : st'.pipeline.deliveries = st.pipeline.deliveries) (hseen : st'.seen = st.seen)
    (hrows : ∀ key r', st'.pipeline.outbox.find? key = some r' →
      ∃ r, st.pipeline.outbox.find? key = some r ∧ r'.toWebhookEvent = r.toWebhookEvent) :
    Stems opts normalize origin st' where
  rows := by
    intro key r' hr'
    obtain ⟨r, hr, hsame⟩ := hrows key r' hr'
    rw [hsame]
    exact h.rows key r hr
  deliveries := hdeliveries ▸ h.deliveries
  seen := hseen ▸ h.seen

/-- An event that reaches the consumer is one of those of the row its cycle holds. -/
theorem Stems.reach (h : Stems opts normalize origin st) (hinv : Inv opts normalize st)
    {c : Cycle ε} (hc : c ∈ st.pipeline.drainer.cycles) {s : Seen ε}
    (hs : awaited normalize c = some s) : SeenFrom normalize origin s := by
  cases hphase : c.phase with
  | rows todo => simp [awaited, hphase] at hs
  | finished => simp [awaited, hphase] at hs
  | emitting row event todo rest =>
      obtain ⟨before, hevents, -⟩ := hinv.emitting c hc row event todo rest hphase
      rw [awaited_eq hphase hevents] at hs
      cases hs
      obtain ⟨-, r, hr, hsame⟩ := hinv.held c hc row (by simp [Cycle.held, hphase])
      exact ⟨row.toWebhookEvent, _, hsame ▸ h.rows row.key r hr, rfl, hevents, by simp⟩

theorem Stems.pipeline (h : Stems opts normalize origin st) {a : Webhooks.Action ε}
    (hadmits : Admits opts.receiver origin (.act a))
    (ha : ∀ i reply, a ≠ .advance i reply) {pipeline : Webhooks.State ε}
    (hstep : Webhooks.step opts st.pipeline a = some pipeline) :
    Stems opts normalize origin { st with pipeline := pipeline } := by
  have hdrainer : pipeline.outbox = st.pipeline.outbox →
      pipeline.deliveries = st.pipeline.deliveries →
      Stems opts normalize origin { st with pipeline := pipeline } :=
    fun houtbox hdeliveries =>
      h.rows_kept hdeliveries rfl fun key r hr => ⟨r, houtbox ▸ hr, rfl⟩
  cases a with
  | request req now =>
      cases hstep
      refine ⟨h.rows, fun d hd => ?_, h.seen⟩
      rcases List.mem_append.1 hd with hold | hnew
      · exact h.deliveries d hold
      · rw [List.mem_singleton.1 hnew]
        exact ingest_from hadmits _
  | insert i statement =>
      simp only [Webhooks.step, insertStep] at hstep
      split at hstep
      · next keys event todo receivedAt inserted duplicates hi =>
          cases hstep
          have hfrom := h.deliveries _ (List.mem_of_getElem? hi)
          obtain ⟨hrows, hdelivery⟩ :=
            insertNext_from h.rows hfrom receivedAt inserted duplicates statement
          refine ⟨hrows, fun d hd => ?_, h.seen⟩
          rcases List.mem_or_eq_of_mem_set hd with hold | rfl
          · exact h.deliveries d hold
          · exact hdelivery
      · cases hstep
  | start =>
      cases hstep
      exact hdrainer rfl rfl
  | stop =>
      cases hstep
      exact hdrainer rfl rfl
  | stopped call =>
      obtain ⟨d, -, rfl⟩ := Option.map_eq_some_iff.1 hstep
      exact hdrainer rfl rfl
  | timer i now statement =>
      simp only [Webhooks.step, timerStep] at hstep
      split at hstep
      · split at hstep
        · cases hstep
          exact hdrainer rfl rfl
        · cases hstep
          exact hdrainer rfl rfl
      · cases hstep
  | drainOnce now statement =>
      cases hstep
      exact hdrainer rfl rfl
  | advance i reply => exact absurd rfl (ha i reply)

/-! ## Runs -/

theorem step_stems (hinv : Inv opts normalize st) (h : Stems opts normalize origin st)
    {a : Action ε} (hadmits : Admits opts.receiver origin a)
    (hstep : step opts normalize st a = some st') : Stems opts normalize origin st' := by
  cases a with
  | act a =>
      by_cases ha : ∃ i reply, a = .advance i reply
      · obtain ⟨i, reply, rfl⟩ := ha
        unfold step advance at hstep
        dsimp only at hstep
        split at hstep
        · cases hstep
        · split at hstep
          · obtain ⟨pipeline, hpipeline, rfl⟩ := Option.map_eq_some_iff.1 hstep
            obtain ⟨hdeliveries, hrows⟩ := advance_rows hinv hpipeline
            exact h.rows_kept hdeliveries rfl hrows
          · cases hstep
      · have hpipeline : (Webhooks.step opts st.pipeline a).map
            (fun pipeline => { st with pipeline := pipeline }) = some st' := by
          rw [← hstep]
          cases a with
          | advance i reply => exact absurd ⟨i, reply, rfl⟩ ha
          | _ => rfl
        obtain ⟨pipeline, hrun, rfl⟩ := Option.map_eq_some_iff.1 hpipeline
        exact h.pipeline hadmits (fun i reply heq => ha ⟨i, reply, heq⟩) hrun
  | answer i =>
      simp only [step] at hstep
      split at hstep
      · cases hstep
        exact ⟨h.rows, h.deliveries, h.seen⟩
      · cases hstep
  | reach i =>
      obtain ⟨s, hs, rfl⟩ := Option.map_eq_some_iff.1 hstep
      obtain ⟨c, hc, hawaited⟩ := Option.bind_eq_some_iff.1 hs
      refine ⟨h.rows, h.deliveries, fun s' hs' => ?_⟩
      dsimp only [consume] at hs'
      split at hs'
      · exact h.seen s' hs'
      · rcases List.mem_append.1 hs' with hold | hnew
        · exact h.seen s' hold
        · rw [List.mem_singleton.1 hnew]
          exact h.reach hinv (List.mem_of_getElem? hc) hawaited
  | crash =>
      cases hstep
      exact ⟨h.rows, fun _ hd => absurd hd List.not_mem_nil, h.seen⟩

/-- Whatever crashes in between: rows and what reaches the consumer stem from the requests. -/
theorem exec_stems {acts : List (Action ε)} (hadmits : ∀ a ∈ acts, Admits opts.receiver origin a)
    (hrun : exec (step opts normalize) {} acts = some st) : Stems opts normalize origin st := by
  have hkeep : ∀ s a s', Inv opts normalize s ∧ Stems opts normalize origin s →
      Admits opts.receiver origin a → step opts normalize s a = some s' →
      Inv opts normalize s' ∧ Stems opts normalize origin s' :=
    fun s a s' hs ha hstep => ⟨step_inv hs.1 hstep, step_stems hs.1 hs.2 ha hstep⟩
  exact (exec_inv_of hkeep ⟨inv_init opts normalize, stems_init⟩ hadmits hrun).2

end Ap3xSolana.Webhooks.CrashRecovery
