import Mathlib.Data.List.Perm.Basic
import Ap3xSolana.Connectivity.GeyserClient

/-!
# Every update is somewhere

As long as no `emit` throws, an update that has come is handed to the handler, dropped, queued,
or in hand while its gap is reported.  `Placed` says so of a subscription with `inHand` off its
queue; what is in hand when `#drain` awaits is what its stage holds.
-/

namespace Ap3xSolana.Connectivity.GeyserClient

open Ap3xSolana.Lib.Run

variable {υ : Type*}

/-! ## The property -/

/-- The updates handed to the handler, in order. -/
def handed (log : List (Event υ)) : List (Arrived υ) :=
  log.filterMap fun e =>
    match e with
    | .handled update => some update
    | _ => none

def settled (log : List (Event υ)) : List (Arrived υ) :=
  log.filterMap fun e =>
    match e with
    | .settled update => some update
    | _ => none

def dropped (log : List (Event υ)) : List (Arrived υ) :=
  log.filterMap fun e =>
    match e with
    | .dropped update _ => some update
    | _ => none

/-- The counts that the `dropped` events carry. -/
def droppedCounts (log : List (Event υ)) : List Nat :=
  log.filterMap fun e =>
    match e with
    | .dropped _ count => some count
    | _ => none

/-- The update whose gap is being reported. -/
def Stage.inHand : Stage υ → List (Arrived υ)
  | .gap update _ => [update]
  | _ => []

/-- The update that the handler has. -/
def Stage.inHandler : Stage υ → List (Arrived υ)
  | .handling update => [update]
  | _ => []

def InOrder (updates : List (Arrived υ)) : Prop := updates.Pairwise (·.arrival < ·.arrival)

instance (updates : List (Arrived υ)) : Decidable (InOrder updates) :=
  inferInstanceAs (Decidable (updates.Pairwise (·.arrival < ·.arrival)))

/-- Where the updates are, with `inHand` off the queue. -/
structure Placed (opts : GeyserClientOptions υ) (s : Subscription υ)
    (inHand : List (Arrived υ)) : Prop where
  places : (handed s.log ++ inHand ++ dropped s.log ++ s.queue).Perm s.received
  arrivals : s.received.map (·.arrival) = List.range s.received.length
  inOrder : InOrder (handed s.log ++ inHand ++ s.queue)
  /-- What is dropped is older than what stays queued. -/
  oldest : InOrder (dropped s.log ++ s.queue)
  bounded : s.queue.length ≤ opts.queueCapacity
  /-- The `dropped` events count from one, and so the last carries the number of drops. -/
  counts : droppedCounts s.log = List.range' 1 (dropped s.log).length
  drops : s.droppedCount = (dropped s.log).length

structure Accounted (opts : GeyserClientOptions υ) (s : Subscription υ) : Prop where
  placed : Placed opts s s.stage.inHand
  oneAtATime : handed s.log = settled s.log ++ s.stage.inHandler
  /-- What is queued is still to come, whatever has failed before it. -/
  goesOn : s.closed = false → s.queue ≠ [] → s.stage ≠ .idle

def Action.throws : Action υ → Throws
  | .data _ throws => throws
  | .loaded _ => {}
  | .gapSettled _ throws => throws
  | .handlerSettled _ throws => throws
  | .saveSettled _ throws => throws
  | .close => {}

/-- No listener throws, and `error` has one when it is emitted. -/
def NoThrow (_ : Subscription υ) (a : Action υ) (_ : Subscription υ) : Prop := a.throws = {}

instance (s : Subscription υ) (a : Action υ) (s' : Subscription υ) :
    Decidable (NoThrow s a s') :=
  inferInstanceAs (Decidable (a.throws = {}))

/-! ## The log -/

theorem handed_append (log log' : List (Event υ)) :
    handed (log ++ log') = handed log ++ handed log' := List.filterMap_append

theorem settled_append (log log' : List (Event υ)) :
    settled (log ++ log') = settled log ++ settled log' := List.filterMap_append

theorem dropped_append (log log' : List (Event υ)) :
    dropped (log ++ log') = dropped log ++ dropped log' := List.filterMap_append

theorem droppedCounts_append (log log' : List (Event υ)) :
    droppedCounts (log ++ log') = droppedCounts log ++ droppedCounts log' :=
  List.filterMap_append

/-! ## One turn -/

/-- Events that say nothing about where updates are. -/
theorem Placed.same {opts : GeyserClientOptions υ} {s s' : Subscription υ}
    {inHand : List (Arrived υ)} (h : Placed opts s inHand) (hqueue : s'.queue = s.queue)
    (hreceived : s'.received = s.received) (hdrops : s'.droppedCount = s.droppedCount)
    (hhanded : handed s'.log = handed s.log)
    (hdropped : dropped s'.log = dropped s.log)
    (hcounts : droppedCounts s'.log = droppedCounts s.log) : Placed opts s' inHand := by
  obtain ⟨hplaces, harrivals, hinOrder, holdest, hbounded, hcount, hlength⟩ := h
  refine ⟨?_, ?_, ?_, ?_, ?_, ?_, ?_⟩
  · rw [hhanded, hdropped, hqueue, hreceived]
    exact hplaces
  · rw [hreceived]
    exact harrivals
  · rw [hhanded, hqueue]
    exact hinOrder
  · rw [hdropped, hqueue]
    exact holdest
  · rw [hqueue]
    exact hbounded
  · rw [hcounts, hdropped]
    exact hcount
  · rw [hdrops, hdropped]
    exact hlength

theorem rest_accounted {opts : GeyserClientOptions υ} {s : Subscription υ}
    (h : Placed opts s []) (hhanded : handed s.log = settled s.log)
    (hdone : s.closed = true ∨ s.queue = []) : Accounted opts (rest s) where
  placed := h.same rfl rfl rfl rfl rfl rfl
  oneAtATime := by
    show handed s.log = settled s.log ++ []
    rw [List.append_nil, hhanded]
  goesOn hopen hqueue := by
    rcases hdone with hclosed | hnil
    · have hopen' : s.closed = false := hopen
      rw [hclosed] at hopen'
      cases hopen'
    · exact absurd hnil hqueue

theorem callHandler_accounted {opts : GeyserClientOptions υ} {s : Subscription υ}
    {update : Arrived υ} (h : Placed opts s [update]) (hhanded : handed s.log = settled s.log) :
    Accounted opts (callHandler s update) := by
  obtain ⟨hplaces, harrivals, hinOrder, holdest, hbounded, hcount, hlength⟩ := h
  have hlog : (callHandler s update).log = s.log ++ [.handled update] := rfl
  have hnew : handed (callHandler s update).log = handed s.log ++ [update] := by
    rw [hlog, handed_append]
    rfl
  have hdropped : dropped (callHandler s update).log = dropped s.log := by
    rw [hlog, dropped_append]
    exact List.append_nil _
  have hcounts : droppedCounts (callHandler s update).log = droppedCounts s.log := by
    rw [hlog, droppedCounts_append]
    exact List.append_nil _
  refine ⟨⟨?_, harrivals, ?_, ?_, hbounded, ?_, ?_⟩, ?_, fun _ _ h => by cases h⟩
  · show (handed _ ++ [] ++ dropped _ ++ s.queue).Perm s.received
    rw [hnew, hdropped, List.append_nil]
    exact hplaces
  · show InOrder (handed _ ++ [] ++ s.queue)
    rw [hnew, List.append_nil]
    exact hinOrder
  · rw [hdropped]
    exact holdest
  · rw [hcounts, hdropped]
    exact hcount
  · rw [hdropped]
    exact hlength
  · have hsettled : settled (callHandler s update).log = settled s.log := by
      rw [hlog, settled_append]
      exact List.append_nil _
    rw [hnew, hsettled, hhanded]
    rfl

theorem seeSlot_accounted {opts : GeyserClientOptions υ} {s : Subscription υ}
    {update : Arrived υ} {slot : Nat} (h : Placed opts s [update])
    (hhanded : handed s.log = settled s.log) : Accounted opts (seeSlot s update slot) :=
  callHandler_accounted (h.same rfl rfl rfl rfl rfl rfl) hhanded

theorem take_accounted {opts : GeyserClientOptions υ} {s : Subscription υ}
    {update : Arrived υ} (h : Placed opts s [update]) (hhanded : handed s.log = settled s.log) :
    Accounted opts (take opts {} s update) := by
  unfold take
  split
  · exact callHandler_accounted h hhanded
  · next slot _ =>
      split
      · have hlog : ∀ gap : Event υ, gap = .gap (s.lastSlot + 1) slot →
            handed (s.log ++ [gap]) = handed s.log ∧ settled (s.log ++ [gap]) = settled s.log ∧
              dropped (s.log ++ [gap]) = dropped s.log ∧
                droppedCounts (s.log ++ [gap]) = droppedCounts s.log := by
          rintro gap rfl
          rw [handed_append, settled_append, dropped_append, droppedCounts_append]
          exact ⟨List.append_nil _, List.append_nil _, List.append_nil _, List.append_nil _⟩
        obtain ⟨hh, hs, hd, hc⟩ := hlog _ rfl
        have hgap : Placed opts
            { s with log := s.log ++ [.gap (s.lastSlot + 1) slot] } [update] :=
          h.same rfl rfl rfl hh hd hc
        have hhanded' : handed (s.log ++ [.gap (s.lastSlot + 1) slot]) =
            settled (s.log ++ [.gap (s.lastSlot + 1) slot]) := by rw [hh, hs, hhanded]
        dsimp only
        rw [if_neg (by simp)]
        split
        · refine ⟨hgap.same rfl rfl rfl rfl rfl rfl, ?_, fun _ _ h => by cases h⟩
          show handed _ = settled _ ++ []
          rw [List.append_nil]
          exact hhanded'
        · exact seeSlot_accounted hgap hhanded'
      · exact seeSlot_accounted h hhanded

theorem drainLoop_accounted {opts : GeyserClientOptions υ} {s : Subscription υ}
    (h : Placed opts s []) (hhanded : handed s.log = settled s.log) :
    Accounted opts (drainLoop opts {} s) := by
  unfold drainLoop
  split
  · next hclosed => exact rest_accounted h hhanded (.inl hclosed)
  · split
    · next hnil => exact rest_accounted h hhanded (.inr hnil)
    · next update queue hqueue =>
        obtain ⟨hplaces, harrivals, hinOrder, holdest, hbounded, hcount, hlength⟩ := h
        rw [hqueue] at hplaces hinOrder holdest hbounded
        rw [List.append_nil] at hplaces hinOrder
        refine take_accounted ⟨?_, harrivals, ?_, ?_, ?_, hcount, hlength⟩ hhanded
        · refine List.Perm.trans ?_ hplaces
          show (handed s.log ++ [update] ++ dropped s.log ++ queue).Perm _
          simp only [List.append_assoc]
          refine List.Perm.append_left _ ?_
          show (update :: (dropped s.log ++ queue)).Perm _
          exact List.perm_middle.symm
        · show InOrder (handed s.log ++ [update] ++ queue)
          rw [List.append_assoc]
          exact hinOrder
        · exact List.Pairwise.sublist
            ((List.Sublist.refl _).append (List.sublist_cons_self _ _)) holdest
        · exact Nat.le_of_succ_le hbounded

/-- What a turn that is not a new update starts from. -/
theorem Accounted.awaited {opts : GeyserClientOptions υ} {s : Subscription υ}
    (h : Accounted opts s) (hhandler : s.stage.inHandler = []) :
    handed s.log = settled s.log := by
  rw [h.oneAtATime, hhandler, List.append_nil]

theorem gapSettled_accounted {opts : GeyserClientOptions υ} {s : Subscription υ}
    {update : Arrived υ} {slot : Nat} (h : Accounted opts s)
    (hstage : s.stage = .gap update slot) (failed : Bool) :
    Accounted opts (gapSettled s update slot failed {}) := by
  have hplaced := h.placed
  rw [hstage] at hplaced
  unfold gapSettled
  rw [Bool.and_false, if_neg Bool.false_ne_true]
  exact seeSlot_accounted hplaced (h.awaited (by rw [hstage]; rfl))

theorem handlerSettled_accounted {opts : GeyserClientOptions υ} {s : Subscription υ}
    {update : Arrived υ} (h : Accounted opts s) (hstage : s.stage = .handling update)
    (failed : Bool) : Accounted opts (handlerSettled opts s update failed {}) := by
  have hplaced := h.placed
  have hhandled := h.oneAtATime
  rw [hstage] at hplaced hhandled
  have hh : handed (s.log ++ [.settled update]) = handed s.log := by
    rw [handed_append]
    exact List.append_nil _
  have hs : settled (s.log ++ [.settled update]) = settled s.log ++ [update] := settled_append _ _
  have hd : dropped (s.log ++ [.settled update]) = dropped s.log := by
    rw [dropped_append]
    exact List.append_nil _
  have hc : droppedCounts (s.log ++ [.settled update]) = droppedCounts s.log := by
    rw [droppedCounts_append]
    exact List.append_nil _
  have hall : handed (s.log ++ [.settled update]) = settled (s.log ++ [.settled update]) := by
    rw [hh, hs]
    exact hhandled
  unfold handlerSettled
  dsimp only
  rw [Bool.and_false, if_neg Bool.false_ne_true, if_neg Bool.false_ne_true]
  split
  · refine ⟨hplaced.same rfl rfl rfl hh hd hc, ?_, fun _ _ h => by cases h⟩
    show handed _ = settled _ ++ []
    rw [List.append_nil]
    exact hall
  · exact drainLoop_accounted (hplaced.same rfl rfl rfl hh hd hc) hall

theorem saveSettled_accounted {opts : GeyserClientOptions υ} {s : Subscription υ}
    {checkpoint : Checkpoint} (h : Accounted opts s) (hstage : s.stage = .saving checkpoint)
    (failed : Bool) : Accounted opts (saveSettled opts s failed {}) := by
  have hplaced := h.placed
  rw [hstage] at hplaced
  unfold saveSettled
  rw [Bool.and_false, if_neg Bool.false_ne_true]
  exact drainLoop_accounted hplaced (h.awaited (by rw [hstage]; rfl))

/-! ## New updates -/

/-- The update that comes next. -/
def arriving (s : Subscription υ) (update : υ) : Arrived υ :=
  { arrival := s.received.length, update := update }

theorem Placed.older {opts : GeyserClientOptions υ} {s : Subscription υ}
    {inHand : List (Arrived υ)} (h : Placed opts s inHand) {u : Arrived υ}
    (hu : u ∈ handed s.log ++ inHand ++ dropped s.log ++ s.queue) :
    u.arrival < s.received.length := by
  have hmem : u.arrival ∈ s.received.map (·.arrival) :=
    List.mem_map_of_mem (h.places.mem_iff.1 hu)
  rw [h.arrivals] at hmem
  exact List.mem_range.1 hmem

theorem InOrder.concat {updates : List (Arrived υ)} {update : Arrived υ}
    (h : InOrder updates) (hlast : ∀ u ∈ updates, u.arrival < update.arrival) :
    InOrder (updates ++ [update]) :=
  List.pairwise_append.2 ⟨h, List.pairwise_singleton _ _, fun u hu _ hv =>
    List.mem_singleton.1 hv ▸ hlast u hu⟩

/-- An update is queued while there is room. -/
theorem Placed.push {opts : GeyserClientOptions υ} {s : Subscription υ}
    {inHand : List (Arrived υ)} (h : Placed opts s inHand)
    (hroom : s.queue.length < opts.queueCapacity) (update : υ) :
    Placed opts { s with
      received := s.received ++ [arriving s update]
      queue := s.queue ++ [arriving s update] } inHand where
  places := by
    show (_ ++ (s.queue ++ [_])).Perm (s.received ++ [_])
    rw [← List.append_assoc]
    exact h.places.append_right _
  arrivals := by
    show (s.received ++ [arriving s update]).map (·.arrival) = List.range _
    rw [List.map_append, h.arrivals, List.length_append, List.length_singleton,
      List.range_succ]
    rfl
  inOrder := by
    show InOrder (_ ++ (s.queue ++ [_]))
    rw [← List.append_assoc]
    refine h.inOrder.concat fun u hu => h.older ?_
    simp only [List.mem_append] at hu ⊢
    tauto
  oldest := by
    show InOrder (_ ++ (s.queue ++ [_]))
    rw [← List.append_assoc]
    refine h.oldest.concat fun u hu => h.older ?_
    simp only [List.mem_append] at hu ⊢
    tauto
  bounded := by
    show (s.queue ++ [_]).length ≤ _
    rw [List.length_append]
    exact hroom
  counts := h.counts
  drops := h.drops

/-- The oldest goes, and makes room. -/
theorem Placed.drop {opts : GeyserClientOptions υ} {s : Subscription υ}
    {inHand : List (Arrived υ)} (h : Placed opts s inHand) {oldest : Arrived υ}
    {queue : List (Arrived υ)} (hqueue : s.queue = oldest :: queue) :
    Placed opts { s with
      queue := queue
      droppedCount := s.droppedCount + 1
      log := s.log ++ [.dropped oldest (s.droppedCount + 1)] } inHand := by
  obtain ⟨hplaces, harrivals, hinOrder, holdest, hbounded, hcounts, hlength⟩ := h
  rw [hqueue] at hplaces hinOrder holdest hbounded
  have hh : handed (s.log ++ [.dropped oldest (s.droppedCount + 1)]) = handed s.log := by
    rw [handed_append]
    exact List.append_nil _
  have hd : dropped (s.log ++ [.dropped oldest (s.droppedCount + 1)]) =
      dropped s.log ++ [oldest] := dropped_append _ _
  have hc : droppedCounts (s.log ++ [.dropped oldest (s.droppedCount + 1)]) =
      droppedCounts s.log ++ [s.droppedCount + 1] := droppedCounts_append _ _
  refine ⟨?_, harrivals, ?_, ?_, Nat.le_of_succ_le hbounded, ?_, ?_⟩
  · show (handed _ ++ inHand ++ dropped _ ++ queue).Perm _
    rw [hh, hd]
    simpa using hplaces
  · show InOrder (handed _ ++ inHand ++ queue)
    rw [hh]
    exact hinOrder.sublist ((List.Sublist.refl _).append (List.sublist_cons_self _ _))
  · show InOrder (dropped _ ++ queue)
    rw [hd, List.append_assoc]
    exact holdest
  · show droppedCounts _ = List.range' 1 (dropped _).length
    rw [hc, hd, hcounts, hlength, List.length_append, List.length_singleton,
      List.range'_concat]
    simp [Nat.add_comm]
  · show s.droppedCount + 1 = (dropped _).length
    rw [hd, hlength, List.length_append, List.length_singleton]

/-- `#enqueue`: the update is queued, and the oldest dropped where the queue was full. -/
theorem enqueue_placed {opts : GeyserClientOptions υ} {s : Subscription υ}
    {inHand : List (Arrived υ)} (h : Placed opts s inHand) (update : υ) :
    ∃ s', enqueue opts {} { s with received := s.received ++ [arriving s update] }
        (arriving s update) = (s', true) ∧
      Placed opts s' inHand ∧ s'.stage = s.stage ∧ s'.closed = s.closed ∧
        handed s'.log = handed s.log ∧ settled s'.log = settled s.log := by
  unfold enqueue
  dsimp only
  cases hqueue : s.queue with
  | nil =>
      have hroom : s.queue.length < opts.queueCapacity := by
        rw [hqueue]
        exact opts.queueCapacity_pos
      have hpush := h.push hroom update
      rw [hqueue] at hpush
      exact ⟨_, rfl, hpush, rfl, rfl, rfl, rfl⟩
  | cons oldest queue =>
      dsimp only
      by_cases hfull : opts.queueCapacity ≤ (oldest :: queue).length
      · have hdrop := h.drop hqueue
        have hroom : queue.length < opts.queueCapacity := by
          have hbounded := h.bounded
          rw [hqueue] at hbounded
          exact hbounded
        rw [if_pos hfull, if_neg Bool.false_ne_true]
        refine ⟨_, rfl, hdrop.push hroom update, rfl, rfl, ?_, ?_⟩
        · show handed (s.log ++ _) = _
          rw [handed_append]
          exact List.append_nil _
        · show settled (s.log ++ _) = _
          rw [settled_append]
          exact List.append_nil _
      · rw [if_neg hfull]
        have hpush := h.push (by rw [hqueue]; exact not_le.1 hfull) update
        rw [hqueue] at hpush
        exact ⟨_, rfl, hpush, rfl, rfl, rfl, rfl⟩

theorem data_accounted {opts : GeyserClientOptions υ} {s : Subscription υ}
    (h : Accounted opts s) (update : υ) : Accounted opts (data opts {} s update) := by
  unfold data
  split
  · exact h
  · obtain ⟨s', henqueue, hplaced, hstage, hclosed, hhanded, hsettled⟩ :=
      enqueue_placed h.placed update
    unfold arriving at henqueue
    dsimp only
    rw [henqueue]
    dsimp only
    rw [if_pos rfl]
    unfold drain
    rw [hstage]
    have htimely : handed s'.log = settled s'.log ++ s.stage.inHandler := by
      rw [hhanded, hsettled]
      exact h.oneAtATime
    cases hs : s.stage with
    | idle =>
        rw [hs] at hplaced htimely
        exact drainLoop_accounted hplaced (by rw [htimely]; exact List.append_nil _)
    | _ =>
        refine ⟨by rw [hstage]; exact hplaced, by rw [hstage]; exact htimely, fun _ _ hidle => ?_⟩
        rw [hstage, hs] at hidle
        cases hidle

/-! ## Runs -/

theorem accounted_init (opts : GeyserClientOptions υ) :
    Accounted opts ({} : Subscription υ) where
  placed :=
    { places := List.Perm.refl _
      arrivals := rfl
      inOrder := List.Pairwise.nil
      oldest := List.Pairwise.nil
      bounded := Nat.zero_le _
      counts := rfl
      drops := rfl }
  oneAtATime := rfl
  goesOn := fun _ hqueue => absurd rfl hqueue

theorem step_accounted {opts : GeyserClientOptions υ} {s s' : Subscription υ} {a : Action υ}
    (h : Accounted opts s) (hstep : step opts s a = some s') (hthrows : a.throws = {}) :
    Accounted opts s' := by
  cases a with
  | data update throws =>
      cases hstep
      obtain rfl : throws = {} := hthrows
      exact data_accounted h update
  | loaded checkpoint =>
      cases hstep
      have hsame : (seed s checkpoint).queue = s.queue ∧
          (seed s checkpoint).received = s.received ∧
          (seed s checkpoint).droppedCount = s.droppedCount ∧
          (seed s checkpoint).log = s.log ∧ (seed s checkpoint).stage = s.stage ∧
          (seed s checkpoint).closed = s.closed := by
        cases checkpoint with
        | none => exact ⟨rfl, rfl, rfl, rfl, rfl, rfl⟩
        | some checkpoint =>
            unfold seed
            dsimp only
            split <;> exact ⟨rfl, rfl, rfl, rfl, rfl, rfl⟩
      obtain ⟨hqueue, hreceived, hdrops, hlog, hstage, hclosed⟩ := hsame
      refine ⟨?_, ?_, ?_⟩
      · rw [hstage]
        exact h.placed.same hqueue hreceived hdrops (by rw [hlog]) (by rw [hlog]) (by rw [hlog])
      · rw [hlog, hstage]
        exact h.oneAtATime
      · rw [hclosed, hqueue, hstage]
        exact h.goesOn
  | gapSettled failed throws =>
      obtain rfl : throws = {} := hthrows
      simp only [step] at hstep
      split at hstep
      · next hstage =>
          cases hstep
          exact gapSettled_accounted h hstage failed
      · cases hstep
  | handlerSettled failed throws =>
      obtain rfl : throws = {} := hthrows
      simp only [step] at hstep
      split at hstep
      · next hstage =>
          cases hstep
          exact handlerSettled_accounted h hstage failed
      · cases hstep
  | saveSettled failed throws =>
      obtain rfl : throws = {} := hthrows
      simp only [step] at hstep
      split at hstep
      · next hstage =>
          cases hstep
          exact saveSettled_accounted h hstage failed
      · cases hstep
  | close =>
      cases hstep
      exact ⟨h.placed.same rfl rfl rfl rfl rfl rfl, h.oneAtATime, fun hopen => by cases hopen⟩

/-- As long as no `emit` throws, every update is accounted for at every moment, and what fails
loses none. -/
theorem updates_accounted (opts : GeyserClientOptions υ) (acts : List (Action υ))
    (hthrows : Along (step opts) NoThrow {} acts) :
    Along (step opts) (fun _ _ s => Accounted opts s) {} acts :=
  along_of_inv (Accounted opts)
    (fun _ _ _ h hstep hok => ⟨step_accounted h hstep hok, step_accounted h hstep hok⟩) acts {}
    (accounted_init opts) hthrows

/-! ## An update in hand -/

/-- Updates are slot updates, of this slot. -/
def slots : GeyserClientOptions Nat :=
  { slotOf := some, queueCapacity := 2, checkpointEvery := 2 }

/-- The handler, the gap callback and `save` fail, and an update is dropped. -/
theorem updates_accounted_busy :
    Along (step slots) (fun _ _ s => Accounted slots s) {}
      [.data 10 {}, .data 15 {}, .handlerSettled true {}, .data 16 {}, .data 17 {}, .data 18 {},
        .gapSettled true {}, .handlerSettled false {}, .saveSettled true {},
        .gapSettled false {}, .handlerSettled false {}] :=
  updates_accounted slots _ (by decide)

/-- Every update that has come is handed to the handler, dropped or queued. -/
def Partitioned (s : Subscription υ) : Prop :=
  (handed s.log ++ dropped s.log ++ s.queue).Perm s.received

/-- While its gap is reported, the second update is nowhere. -/
theorem gap_in_hand :
    ∃ s, exec (step slots) {} [.data 10 {}, .handlerSettled false {}, .data 15 {}] = some s ∧
      ¬ Partitioned s := by
  refine ⟨_, rfl, fun h => ?_⟩
  have hlength := h.length_eq
  revert hlength
  decide

end Ap3xSolana.Connectivity.GeyserClient
