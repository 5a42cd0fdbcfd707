import Ap3xSolana.Connectivity.GeyserAccounting

/-!
# Gap coverage

Runs that share a checkpoint store.  A run starts its gap detector at the stored slot, which may
lag behind what was handled: some slots are then reported again, and none is missed.  Where
nothing is stored the detector starts afresh, and so does the coverage.
-/

namespace Ap3xSolana.Connectivity.GeyserClient

open Ap3xSolana.Lib.Run

variable {υ : Type*}

/-! ## Runs that share a store -/

structure History (υ : Type*) where
  sub : Subscription υ := {}
  checkpoint : Option Checkpoint := none
  /-- The events of the earlier runs. -/
  earlier : List (Event υ) := []
  /-- Those since the last start that found no checkpoint. -/
  since : List (Event υ) := []

inductive HistoryAction (υ : Type*) where
  | act (a : Action υ)
  /-- What `save` is given is stored. -/
  | persist
  /-- The next run starts, and has loaded what is stored. -/
  | start
  deriving DecidableEq, Repr

def historyStep (opts : GeyserClientOptions υ) (h : History υ) :
    HistoryAction υ → Option (History υ)
  -- the load has finished before the first update
  | .act (.loaded _) => none
  | .act a => (step opts h.sub a).map fun sub => { h with sub := sub }
  | .persist =>
      match h.sub.stage with
      | .saving checkpoint => some { h with checkpoint := some checkpoint }
      | _ => none
  | .start =>
      some {
        sub := seed {} h.checkpoint
        checkpoint := h.checkpoint
        earlier := h.earlier ++ h.sub.log
        since := if h.checkpoint.isSome then h.since ++ h.sub.log else [] }

/-! ## The property -/

/-- The slots of the slot updates handed to the handler. -/
def handledSlots (opts : GeyserClientOptions υ) (events : List (Event υ)) : List Nat :=
  (handed events).filterMap fun u => opts.slotOf u.update

def Reported (events : List (Event υ)) (slot : Nat) : Prop :=
  ∃ first next, Event.gap first next ∈ events ∧ first ≤ slot ∧ (slot : Int) < next

/-- From the first slot on, no slot up to one that was handled is missing. -/
def Covered (opts : GeyserClientOptions υ) (events : List (Event υ)) : Prop :=
  ∀ start ∈ (handledSlots opts events).head?, ∀ top ∈ handledSlots opts events,
    ∀ slot, start ≤ slot → slot ≤ top → slot ∈ handledSlots opts events ∨ Reported events slot

/-- A gap begins where the gaps and slots before it end. -/
def Before (opts : GeyserClientOptions υ) : Event υ → Event υ → Prop
  | .gap _ next, .gap first _ => next ≤ first
  | .handled u, .gap first _ => ∀ slot, opts.slotOf u.update = some slot → (slot : Int) < first
  | _, _ => True

structure GapsCover (opts : GeyserClientOptions υ) (h : History υ) : Prop where
  covered : Covered opts (h.since ++ h.sub.log)
  /-- Within a run gaps are disjoint, and hold no slot that was handled before. -/
  separate : h.sub.log.Pairwise (Before opts)
  nonempty : ∀ first next, Event.gap first next ∈ h.sub.log → first < next

/-- No listener throws, and `error` has one when it is emitted. -/
def QuietRun (_ : History υ) (a : HistoryAction υ) (_ : History υ) : Prop :=
  ∀ a', a = .act a' → a'.throws = {}

/-! ## The invariant -/

def SlotIn (opts : GeyserClientOptions υ) (events : List (Event υ)) (x : Int) : Prop :=
  ∃ slot ∈ handledSlots opts events, (slot : Int) = x

/-- What the gap detector knows, with `since` behind it. -/
structure Watched (opts : GeyserClientOptions υ) (since : List (Event υ))
    (s : Subscription υ) : Prop where
  covered : Covered opts (since ++ s.log)
  last : 0 ≤ s.lastSlot → SlotIn opts (since ++ s.log) s.lastSlot
  unseen : s.lastSlot < 0 → handledSlots opts (since ++ s.log) = []
  below : ∀ u slot, Event.handled u ∈ s.log → opts.slotOf u.update = some slot →
    (slot : Int) ≤ s.lastSlot
  separate : s.log.Pairwise (Before opts)
  nonempty : ∀ first next, Event.gap first next ∈ s.log → first < next

/-- The gaps end at `bound`. -/
def GapsBelow (bound : Int) (log : List (Event υ)) : Prop :=
  ∀ first next, Event.gap first next ∈ log → next ≤ bound

/-- What the awaited promise stands for. -/
structure StageOk (opts : GeyserClientOptions υ) (since : List (Event υ))
    (s : Subscription υ) : Prop where
  gaps : GapsBelow (match s.stage with | .gap _ slot => slot | _ => s.lastSlot + 1) s.log
  gap : ∀ u slot, s.stage = .gap u slot →
    opts.slotOf u.update = some slot ∧ 0 ≤ s.lastSlot ∧
      Event.gap (s.lastSlot + 1) slot ∈ s.log
  saving : ∀ c, s.stage = .saving c → SlotIn opts (since ++ s.log) c.lastSlot

structure HistoryInv (opts : GeyserClientOptions υ) (h : History υ) : Prop where
  watched : Watched opts h.since h.sub
  stage : StageOk opts h.since h.sub
  checkpoint : ∀ c, h.checkpoint = some c → SlotIn opts (h.since ++ h.sub.log) c.lastSlot

/-! ## The log -/

theorem handledSlots_append (opts : GeyserClientOptions υ) (events events' : List (Event υ)) :
    handledSlots opts (events ++ events') =
      handledSlots opts events ++ handledSlots opts events' := by
  unfold handledSlots
  rw [handed_append, List.filterMap_append]

theorem SlotIn.append {opts : GeyserClientOptions υ} {events : List (Event υ)} {x : Int}
    (h : SlotIn opts events x) (events' : List (Event υ)) :
    SlotIn opts (events ++ events') x := by
  obtain ⟨slot, hslot, hx⟩ := h
  refine ⟨slot, ?_, hx⟩
  rw [handledSlots_append]
  exact List.mem_append_left _ hslot

/-- An event that hands no slot to the handler. -/
theorem Covered.append {opts : GeyserClientOptions υ} {events : List (Event υ)}
    (h : Covered opts events) {e : Event υ} (he : handledSlots opts [e] = []) :
    Covered opts (events ++ [e]) := by
  intro start hstart top htop slot hle hge
  rw [handledSlots_append, he, List.append_nil] at hstart htop ⊢
  rcases h start hstart top htop slot hle hge with hmem | ⟨first, next, hgap, hbetween⟩
  · exact .inl hmem
  · exact .inr ⟨first, next, List.mem_append_left _ hgap, hbetween⟩

/-- A slot is handed to the handler that comes next, or after a gap up to it. -/
theorem Covered.handled {opts : GeyserClientOptions υ} {events : List (Event υ)}
    (h : Covered opts events) {u : Arrived υ} {slot : Nat} {last : Int}
    (hslot : opts.slotOf u.update = some slot)
    (hlast : 0 ≤ last → SlotIn opts events last)
    (hunseen : last < 0 → handledSlots opts events = [])
    (hnext : 0 ≤ last → (slot : Int) ≤ last + 1 ∨ Event.gap (last + 1) slot ∈ events) :
    Covered opts (events ++ [.handled u]) := by
  have hnew : handledSlots opts (events ++ [.handled u]) = handledSlots opts events ++ [slot] := by
    rw [handledSlots_append]
    congr 1
    show List.filterMap _ [u] = [slot]
    simp [hslot]
  intro start hstart top htop x hle hge
  rw [hnew] at hstart htop ⊢
  rcases lt_or_ge last 0 with hneg | hpos
  · rw [hunseen hneg] at hstart htop ⊢
    cases hstart
    obtain rfl := List.mem_singleton.1 htop
    obtain rfl : x = top := Nat.le_antisymm hge hle
    exact .inl List.mem_cons_self
  · obtain ⟨last', hlast', heq⟩ := hlast hpos
    have hstart' : start ∈ (handledSlots opts events).head? := by
      cases hall : handledSlots opts events with
      | nil =>
          rw [hall] at hlast'
          cases hlast'
      | cons first rest =>
          rw [hall] at hstart
          exact hstart
    have hold : ∀ top' ∈ handledSlots opts events, x ≤ top' →
        x ∈ handledSlots opts events ++ [slot] ∨ Reported (events ++ [.handled u]) x := by
      intro top' htop' hge'
      rcases h start hstart' top' htop' x hle hge' with hmem | ⟨first, next, hgap, hbetween⟩
      · exact .inl (List.mem_append_left _ hmem)
      · exact .inr ⟨first, next, List.mem_append_left _ hgap, hbetween⟩
    rcases List.mem_append.1 htop with htop' | htop'
    · exact hold top htop' hge
    · obtain rfl := List.mem_singleton.1 htop'
      rcases Nat.lt_or_ge last' x with hlt | hle'
      · rcases Nat.lt_or_ge x top with hlt' | hge'
        · rcases hnext hpos with hclose | hgap
          · omega
          · exact .inr ⟨_, _, List.mem_append_left _ hgap, by omega, by omega⟩
        · obtain rfl : x = top := Nat.le_antisymm hge hge'
          exact .inl (List.mem_append_right _ (List.mem_singleton.2 rfl))
      · exact hold last' hlast' hle'

/-- Neither a gap nor a slot that is handled. -/
def Quiet (opts : GeyserClientOptions υ) : Event υ → Prop
  | .gap _ _ => False
  | .handled u => opts.slotOf u.update = none
  | _ => True

theorem Quiet.handledSlots {opts : GeyserClientOptions υ} {e : Event υ} (h : Quiet opts e) :
    handledSlots opts [e] = [] := by
  cases e with
  | handled u =>
      show List.filterMap _ [u] = []
      have hslot : opts.slotOf u.update = none := h
      simp [hslot]
  | gap first next => cases h
  | dropped u count => rfl
  | settled u => rfl

theorem Quiet.before {opts : GeyserClientOptions υ} {e : Event υ} (h : Quiet opts e)
    (e' : Event υ) : Before opts e' e := by
  cases e with
  | gap first next => cases h
  | _ => cases e' <;> trivial

theorem Watched.same {opts : GeyserClientOptions υ} {since : List (Event υ)}
    {s s' : Subscription υ} (h : Watched opts since s) (hlog : s'.log = s.log)
    (hlast : s'.lastSlot = s.lastSlot) : Watched opts since s' := by
  obtain ⟨hcovered, hin, hunseen, hbelow, hseparate, hnonempty⟩ := h
  constructor <;> simpa only [hlog, hlast]

theorem Watched.quiet {opts : GeyserClientOptions υ} {since : List (Event υ)}
    {s s' : Subscription υ} {e : Event υ} (h : Watched opts since s)
    (hlog : s'.log = s.log ++ [e]) (hlast : s'.lastSlot = s.lastSlot) (he : Quiet opts e) :
    Watched opts since s' := by
  have hassoc : since ++ s'.log = (since ++ s.log) ++ [e] := by rw [hlog, List.append_assoc]
  refine ⟨?_, ?_, ?_, ?_, ?_, ?_⟩
  · rw [hassoc]
    exact h.covered.append he.handledSlots
  · rw [hassoc, hlast]
    exact fun hpos => (h.last hpos).append _
  · rw [hassoc, hlast, handledSlots_append, he.handledSlots, List.append_nil]
    exact h.unseen
  · rw [hlog, hlast]
    intro u slot hu hslot
    rcases List.mem_append.1 hu with hold | hnew
    · exact h.below u slot hold hslot
    · obtain rfl := List.mem_singleton.1 hnew
      have hnone : opts.slotOf u.update = none := he
      rw [hnone] at hslot
      cases hslot
  · rw [hlog]
    exact List.pairwise_append.2 ⟨h.separate, List.pairwise_singleton _ _,
      fun e' _ e'' he'' => List.mem_singleton.1 he'' ▸ he.before e'⟩
  · rw [hlog]
    intro first next hgap
    rcases List.mem_append.1 hgap with hold | hnew
    · exact h.nonempty first next hold
    · rw [← List.mem_singleton.1 hnew] at he
      cases he

/-- A gap is reported after the last slot. -/
theorem Watched.gap {opts : GeyserClientOptions υ} {since : List (Event υ)}
    {s : Subscription υ} {slot : Nat} (h : Watched opts since s)
    (hgaps : GapsBelow (s.lastSlot + 1) s.log) (hslot : s.lastSlot + 1 < slot) :
    Watched opts since { s with log := s.log ++ [.gap (s.lastSlot + 1) slot] } := by
  have hassoc : since ++ (s.log ++ [.gap (s.lastSlot + 1) slot]) =
      (since ++ s.log) ++ [.gap (s.lastSlot + 1) slot] := (List.append_assoc _ _ _).symm
  refine ⟨?_, ?_, ?_, ?_, ?_, ?_⟩
  · rw [hassoc]
    exact h.covered.append rfl
  · rw [hassoc]
    exact fun hpos => (h.last hpos).append _
  · rw [hassoc, handledSlots_append]
    intro hneg
    rw [h.unseen hneg]
    rfl
  · intro u slot' hu
    rcases List.mem_append.1 hu with hold | hnew
    · exact h.below u slot' hold
    · cases List.mem_singleton.1 hnew
  · refine List.pairwise_append.2 ⟨h.separate, List.pairwise_singleton _ _, ?_⟩
    intro e he e' he'
    obtain rfl := List.mem_singleton.1 he'
    cases e with
    | gap first next => exact hgaps first next he
    | handled u =>
        intro slot' hslot'
        exact Int.lt_add_one_of_le (h.below u slot' he hslot')
    | _ => trivial
  · intro first next hgap
    rcases List.mem_append.1 hgap with hold | hnew
    · exact h.nonempty first next hold
    · cases List.mem_singleton.1 hnew
      exact hslot

/-- A slot is handled, and is the last where it is the highest. -/
theorem Watched.see {opts : GeyserClientOptions υ} {since : List (Event υ)}
    {s : Subscription υ} {u : Arrived υ} {slot : Nat} (h : Watched opts since s)
    (hslot : opts.slotOf u.update = some slot)
    (hnext : 0 ≤ s.lastSlot →
      (slot : Int) ≤ s.lastSlot + 1 ∨ Event.gap (s.lastSlot + 1) slot ∈ s.log) :
    Watched opts since (seeSlot s u slot) := by
  have hassoc : since ++ (seeSlot s u slot).log = (since ++ s.log) ++ [.handled u] :=
    (List.append_assoc _ _ _).symm
  have hlast : (seeSlot s u slot).lastSlot = max s.lastSlot slot := rfl
  have hnew : SlotIn opts (since ++ s.log ++ [.handled u]) slot := by
    refine ⟨slot, ?_, rfl⟩
    rw [handledSlots_append]
    refine List.mem_append_right _ ?_
    show slot ∈ List.filterMap _ [u]
    simp [hslot]
  refine ⟨?_, ?_, ?_, ?_, ?_, ?_⟩
  · rw [hassoc]
    exact h.covered.handled hslot h.last h.unseen fun hpos =>
      (hnext hpos).imp id fun hgap => List.mem_append_right _ hgap
  · rw [hassoc, hlast]
    intro _
    rcases le_total s.lastSlot slot with hle | hge
    · rw [max_eq_right hle]
      exact hnew
    · rw [max_eq_left hge]
      exact (h.last (by omega)).append _
  · rw [hlast]
    omega
  · intro u' slot' hu' hslot'
    rw [hlast]
    rcases List.mem_append.1 hu' with hold | hthis
    · exact (h.below u' slot' hold hslot').trans (le_max_left _ _)
    · cases List.mem_singleton.1 hthis
      rw [hslot] at hslot'
      cases hslot'
      exact le_max_right _ _
  · refine List.pairwise_append.2 ⟨h.separate, List.pairwise_singleton _ _, ?_⟩
    intro e _ e' he'
    obtain rfl := List.mem_singleton.1 he'
    cases e <;> trivial
  · intro first next hgap
    rcases List.mem_append.1 hgap with hold | hthis
    · exact h.nonempty first next hold
    · cases List.mem_singleton.1 hthis

/-! ## One turn -/

theorem GapsBelow.mono {bound bound' : Int} {log : List (Event υ)} (h : GapsBelow bound log)
    (hle : bound ≤ bound') : GapsBelow bound' log :=
  fun first next hgap => (h first next hgap).trans hle

theorem GapsBelow.concat {bound : Int} {log : List (Event υ)} (h : GapsBelow bound log)
    {e : Event υ} (he : ∀ first next, e = .gap first next → next ≤ bound) :
    GapsBelow bound (log ++ [e]) := by
  intro first next hgap
  rcases List.mem_append.1 hgap with hold | hnew
  · exact h first next hold
  · exact he first next (List.mem_singleton.1 hnew).symm

theorem Quiet.gapsBelow {opts : GeyserClientOptions υ} {e : Event υ} (h : Quiet opts e)
    {bound : Int} {log : List (Event υ)} (hlog : GapsBelow bound log) :
    GapsBelow bound (log ++ [e]) :=
  hlog.concat fun first next he => by
    rw [he] at h
    cases h

theorem lt_max_add_one (x y : Int) : y < max x y + 1 := Int.lt_add_one_of_le (le_max_right x y)

/-- The gap detector and what is awaited. -/
def Detecting (opts : GeyserClientOptions υ) (since : List (Event υ))
    (s : Subscription υ) : Prop := Watched opts since s ∧ StageOk opts since s

theorem rest_detecting {opts : GeyserClientOptions υ} {since : List (Event υ)}
    {s : Subscription υ} (h : Watched opts since s) (hgaps : GapsBelow (s.lastSlot + 1) s.log) :
    Detecting opts since (rest s) :=
  ⟨h.same rfl rfl, hgaps, (fun _ _ hstage => by cases hstage), (fun _ hstage => by cases hstage)⟩

theorem callHandler_detecting {opts : GeyserClientOptions υ} {since : List (Event υ)}
    {s : Subscription υ} {u : Arrived υ} (h : Watched opts since s)
    (hgaps : GapsBelow (s.lastSlot + 1) s.log) (hslot : opts.slotOf u.update = none) :
    Detecting opts since (callHandler s u) :=
  have hquiet : Quiet opts (.handled u) := hslot
  ⟨h.quiet rfl rfl hquiet, hquiet.gapsBelow hgaps, (fun _ _ hstage => by cases hstage),
    (fun _ hstage => by cases hstage)⟩

theorem seeSlot_detecting {opts : GeyserClientOptions υ} {since : List (Event υ)}
    {s : Subscription υ} {u : Arrived υ} {slot : Nat} (h : Watched opts since s)
    (hgaps : GapsBelow (max s.lastSlot slot + 1) s.log)
    (hslot : opts.slotOf u.update = some slot)
    (hnext : 0 ≤ s.lastSlot →
      (slot : Int) ≤ s.lastSlot + 1 ∨ Event.gap (s.lastSlot + 1) slot ∈ s.log) :
    Detecting opts since (seeSlot s u slot) := by
  have hlog : GapsBelow (max s.lastSlot slot + 1) (s.log ++ [.handled u]) :=
    hgaps.concat fun _ _ he => by cases he
  exact ⟨h.see hslot hnext, hlog, (fun _ _ hstage => by cases hstage),
    (fun _ hstage => by cases hstage)⟩

theorem take_detecting {opts : GeyserClientOptions υ} {since : List (Event υ)}
    {s : Subscription υ} (h : Watched opts since s) (hgaps : GapsBelow (s.lastSlot + 1) s.log)
    (u : Arrived υ) : Detecting opts since (take opts {} s u) := by
  unfold take
  split
  · next hslot => exact callHandler_detecting h hgaps hslot
  · next slot hslot =>
      split
      · next hjump =>
          obtain ⟨hpos, hjump⟩ := hjump
          have hwatched := h.gap hgaps hjump
          have hgaps' : GapsBelow slot (s.log ++ [.gap (s.lastSlot + 1) slot]) :=
            (hgaps.mono hjump.le).concat fun first next he => by
              cases he
              exact le_rfl
          have hmem : Event.gap (s.lastSlot + 1) slot ∈
              s.log ++ [.gap (s.lastSlot + 1) slot] := List.mem_append_right _ (by simp)
          dsimp only
          rw [if_neg Bool.false_ne_true]
          split
          · refine ⟨hwatched.same rfl rfl, hgaps', ?_, fun _ hstage => by cases hstage⟩
            intro u' slot' hstage
            cases hstage
            exact ⟨hslot, hpos, hmem⟩
          · exact seeSlot_detecting hwatched
              (hgaps'.mono (lt_max_add_one _ _).le) hslot fun _ => .inr hmem
      · next hnear =>
          refine seeSlot_detecting h (hgaps.mono ?_) hslot fun hpos => .inl (by omega)
          exact Int.add_le_add_right (le_max_left _ _) 1

theorem drainLoop_detecting {opts : GeyserClientOptions υ} {since : List (Event υ)}
    {s : Subscription υ} (h : Watched opts since s)
    (hgaps : GapsBelow (s.lastSlot + 1) s.log) :
    Detecting opts since (drainLoop opts {} s) := by
  unfold drainLoop
  split
  · exact rest_detecting h hgaps
  · split
    · exact rest_detecting h hgaps
    · next u queue _ =>
        have hsame : Watched opts since { s with queue := queue } := h.same rfl rfl
        exact take_detecting hsame hgaps u

theorem gapSettled_detecting {opts : GeyserClientOptions υ} {since : List (Event υ)}
    {s : Subscription υ} {u : Arrived υ} {slot : Nat} (h : Detecting opts since s)
    (hstage : s.stage = .gap u slot) (failed : Bool) :
    Detecting opts since (gapSettled s u slot failed {}) := by
  obtain ⟨hwatched, hgaps, hgap, -⟩ := h
  obtain ⟨hslot, -, hmem⟩ := hgap u slot hstage
  rw [hstage] at hgaps
  unfold gapSettled
  rw [Bool.and_false, if_neg Bool.false_ne_true]
  exact seeSlot_detecting hwatched (hgaps.mono (lt_max_add_one _ _).le) hslot
    fun _ => .inr hmem

theorem handlerSettled_detecting {opts : GeyserClientOptions υ} {since : List (Event υ)}
    {s : Subscription υ} {u : Arrived υ} (h : Detecting opts since s)
    (hstage : s.stage = .handling u) (failed : Bool) :
    Detecting opts since (handlerSettled opts s u failed {}) := by
  obtain ⟨hwatched, hgaps, -, -⟩ := h
  rw [hstage] at hgaps
  have hquiet : Quiet opts (.settled u) := trivial
  unfold handlerSettled
  dsimp only
  rw [Bool.and_false, if_neg Bool.false_ne_true, if_neg Bool.false_ne_true]
  split
  · next hdue =>
      refine ⟨hwatched.quiet rfl rfl hquiet, hquiet.gapsBelow hgaps,
        (fun _ _ hstage => by cases hstage), fun c hstage => ?_⟩
      cases hstage
      show SlotIn opts (since ++ (s.log ++ [.settled u])) s.lastSlot
      rw [← List.append_assoc]
      exact (hwatched.last hdue.2.1).append _
  · exact drainLoop_detecting (hwatched.quiet rfl rfl hquiet) (hquiet.gapsBelow hgaps)

theorem saveSettled_detecting {opts : GeyserClientOptions υ} {since : List (Event υ)}
    {s : Subscription υ} {c : Checkpoint} (h : Detecting opts since s)
    (hstage : s.stage = .saving c) (failed : Bool) :
    Detecting opts since (saveSettled opts s failed {}) := by
  obtain ⟨hwatched, hgaps, -, -⟩ := h
  rw [hstage] at hgaps
  unfold saveSettled
  rw [Bool.and_false, if_neg Bool.false_ne_true]
  exact drainLoop_detecting hwatched hgaps

/-! ## New updates -/

/-- An event that says nothing about slots, whatever is awaited. -/
theorem Detecting.quiet {opts : GeyserClientOptions υ} {since : List (Event υ)}
    {s s' : Subscription υ} {e : Event υ} (h : Detecting opts since s)
    (hlog : s'.log = s.log ++ [e]) (hlast : s'.lastSlot = s.lastSlot)
    (hstage : s'.stage = s.stage) (he : Quiet opts e) : Detecting opts since s' := by
  obtain ⟨hwatched, hgaps, hgap, hsaving⟩ := h
  refine ⟨hwatched.quiet hlog hlast he, ?_, ?_, ?_⟩
  · rw [hstage, hlast, hlog]
    exact he.gapsBelow hgaps
  · rw [hstage, hlast, hlog]
    intro u slot hgapStage
    obtain ⟨hslot, hpos, hmem⟩ := hgap u slot hgapStage
    exact ⟨hslot, hpos, List.mem_append_left _ hmem⟩
  · rw [hstage, hlog, ← List.append_assoc]
    exact fun c hsavingStage => (hsaving c hsavingStage).append _

theorem Detecting.same {opts : GeyserClientOptions υ} {since : List (Event υ)}
    {s s' : Subscription υ} (h : Detecting opts since s) (hlog : s'.log = s.log)
    (hlast : s'.lastSlot = s.lastSlot) (hstage : s'.stage = s.stage) :
    Detecting opts since s' := by
  obtain ⟨hwatched, hgaps, hgap, hsaving⟩ := h
  refine ⟨hwatched.same hlog hlast, ?_, ?_, ?_⟩
  · rw [hstage, hlast, hlog]
    exact hgaps
  · rw [hstage, hlast, hlog]
    exact hgap
  · rw [hstage, hlog]
    exact hsaving

/-- `#enqueue`: what is dropped says nothing about slots. -/
theorem enqueue_detecting {opts : GeyserClientOptions υ} {since : List (Event υ)}
    {s : Subscription υ} (h : Detecting opts since s) (u : Arrived υ) :
    Detecting opts since (enqueue opts {} s u).1 := by
  unfold enqueue
  split
  · split
    · dsimp only
      rw [if_neg Bool.false_ne_true]
      exact h.quiet (e := .dropped _ _) rfl rfl rfl trivial
    · exact h.same rfl rfl rfl
  · exact h.same rfl rfl rfl

theorem drain_detecting {opts : GeyserClientOptions υ} {since : List (Event υ)}
    {s : Subscription υ} (h : Detecting opts since s) :
    Detecting opts since (drain opts {} s) := by
  unfold drain
  split
  · next hidle =>
      obtain ⟨hwatched, hgaps, -, -⟩ := h
      rw [hidle] at hgaps
      exact drainLoop_detecting hwatched hgaps
  · exact h

theorem data_detecting {opts : GeyserClientOptions υ} {since : List (Event υ)}
    {s : Subscription υ} (h : Detecting opts since s) (update : υ) :
    Detecting opts since (data opts {} s update) := by
  unfold data
  split
  · exact h
  · have hreceived : Detecting opts since
        { s with received := s.received ++ [arriving s update] } := h.same rfl rfl rfl
    have henqueue := enqueue_detecting hreceived (arriving s update)
    unfold arriving at henqueue
    dsimp only
    split
    · exact drain_detecting henqueue
    · exact henqueue

theorem step_detecting {opts : GeyserClientOptions υ} {since : List (Event υ)}
    {s s' : Subscription υ} {a : Action υ} (h : Detecting opts since s)
    (hstep : step opts s a = some s') (hload : ∀ c, a ≠ .loaded c) (hthrows : a.throws = {}) :
    Detecting opts since s' := by
  cases a with
  | data update throws =>
      cases hstep
      obtain rfl : throws = {} := hthrows
      exact data_detecting h update
  | loaded c => exact absurd rfl (hload c)
  | gapSettled failed throws =>
      obtain rfl : throws = {} := hthrows
      simp only [step] at hstep
      split at hstep
      · next hstage =>
          cases hstep
          exact gapSettled_detecting h hstage failed
      · cases hstep
  | handlerSettled failed throws =>
      obtain rfl : throws = {} := hthrows
      simp only [step] at hstep
      split at hstep
      · next hstage =>
          cases hstep
          exact handlerSettled_detecting h hstage failed
      · cases hstep
  | saveSettled failed throws =>
      obtain rfl : throws = {} := hthrows
      simp only [step] at hstep
      split at hstep
      · next hstage =>
          cases hstep
          exact saveSettled_detecting h hstage failed
      · cases hstep
  | close =>
      cases hstep
      exact h.same rfl rfl rfl

/-! ## The log only grows -/

theorem take_log (opts : GeyserClientOptions υ) (throws : Throws) (s : Subscription υ)
    (u : Arrived υ) : s.log <+: (take opts throws s u).log := by
  unfold take seeSlot callHandler rest
  have htwice : ∀ e e' : Event υ, s.log <+: s.log ++ [e] ++ [e'] := fun e e' =>
    (List.prefix_append _ _).trans (List.prefix_append _ _)
  split
  · exact List.prefix_append _ _
  · split
    · dsimp only
      split
      · exact List.prefix_append _ _
      · split
        · exact List.prefix_append _ _
        · exact htwice _ _
    · exact List.prefix_append _ _

theorem drainLoop_log (opts : GeyserClientOptions υ) (throws : Throws) (s : Subscription υ) :
    s.log <+: (drainLoop opts throws s).log := by
  unfold drainLoop
  split
  · exact List.prefix_refl _
  · split
    · exact List.prefix_refl _
    · next u queue _ => exact take_log opts throws { s with queue := queue } u

theorem handlerSettled_log (opts : GeyserClientOptions υ) (s : Subscription υ) (u : Arrived υ)
    (failed : Bool) (throws : Throws) :
    s.log <+: (handlerSettled opts s u failed throws).log := by
  unfold handlerSettled
  dsimp only
  split
  · exact List.prefix_append _ _
  · split
    · exact List.prefix_append _ _
    · split
      · exact List.prefix_append _ _
      · exact (List.prefix_append _ [.settled u]).trans (drainLoop_log opts throws
          { s with log := s.log ++ [.settled u], updateCount := s.updateCount + 1 })

theorem data_log (opts : GeyserClientOptions υ) (throws : Throws) (s : Subscription υ)
    (update : υ) : s.log <+: (data opts throws s update).log := by
  have henqueue : ∀ (s : Subscription υ) (u : Arrived υ),
      s.log <+: (enqueue opts throws s u).1.log := by
    intro s u
    unfold enqueue
    split
    · split
      · dsimp only
        split <;> exact List.prefix_append _ _
      · exact List.prefix_refl _
    · exact List.prefix_refl _
  unfold data
  split
  · exact List.prefix_refl _
  · dsimp only
    split
    · refine (henqueue { s with received := s.received ++ [arriving s update] }
        (arriving s update)).trans ?_
      unfold drain
      split
      · exact drainLoop_log opts throws _
      · exact List.prefix_refl _
    · exact henqueue { s with received := s.received ++ [arriving s update] }
        (arriving s update)

/-- Slots that were handled stay handled. -/
theorem step_log {opts : GeyserClientOptions υ} {s s' : Subscription υ} {a : Action υ}
    (hstep : step opts s a = some s') : s.log <+: s'.log := by
  cases a with
  | data update throws =>
      cases hstep
      exact data_log opts throws s update
  | loaded c =>
      cases hstep
      cases c with
      | none => exact List.prefix_refl _
      | some c =>
          unfold seed
          dsimp only
          split <;> exact List.prefix_refl _
  | gapSettled failed throws =>
      simp only [step] at hstep
      split at hstep
      · cases hstep
        unfold gapSettled
        split
        · exact List.prefix_refl _
        · exact List.prefix_append _ _
      · cases hstep
  | handlerSettled failed throws =>
      simp only [step] at hstep
      split at hstep
      · cases hstep
        exact handlerSettled_log opts s _ failed throws
      · cases hstep
  | saveSettled failed throws =>
      simp only [step] at hstep
      split at hstep
      · cases hstep
        unfold saveSettled
        split
        · exact List.prefix_refl _
        · exact drainLoop_log opts throws s
      · cases hstep
  | close =>
      cases hstep
      exact List.prefix_refl _

/-! ## Runs -/

/-- A run that starts at a slot that an earlier one handled, or afresh. -/
theorem seed_detecting {opts : GeyserClientOptions υ} {since : List (Event υ)}
    (hcovered : Covered opts since) {checkpoint : Option Checkpoint}
    (hslot : ∀ c, checkpoint = some c → SlotIn opts since c.lastSlot)
    (hfresh : checkpoint = none → handledSlots opts since = []) :
    Detecting opts since (seed {} checkpoint) := by
  have hlog : (seed ({} : Subscription υ) checkpoint).log = [] := by cases checkpoint <;> rfl
  have hstage : (seed ({} : Subscription υ) checkpoint).stage = .idle := by
    cases checkpoint <;> rfl
  refine ⟨⟨?_, ?_, ?_, ?_, ?_, ?_⟩, ⟨?_, ?_, ?_⟩⟩
  · rw [hlog, List.append_nil]
    exact hcovered
  · rw [hlog, List.append_nil]
    intro hpos
    cases checkpoint with
    | none => cases hpos
    | some c => exact hslot c rfl
  · rw [hlog, List.append_nil]
    intro hneg
    cases checkpoint with
    | none => exact hfresh rfl
    | some c =>
        obtain ⟨slot, -, heq⟩ := hslot c rfl
        have hlast : (c.lastSlot : Int) < 0 := hneg
        omega
  · rw [hlog]
    intro u slot hu
    cases hu
  · rw [hlog]
    exact List.Pairwise.nil
  · rw [hlog]
    intro first next hgap
    cases hgap
  · rw [hlog, hstage]
    intro first next hgap
    cases hgap
  · rw [hstage]
    intro u slot hgap
    cases hgap
  · rw [hstage]
    intro c hsaving
    cases hsaving

theorem covered_nil (opts : GeyserClientOptions υ) : Covered opts [] :=
  fun _ hstart => by cases hstart

theorem history_init (opts : GeyserClientOptions υ) : HistoryInv opts ({} : History υ) := by
  have hdetecting : Detecting opts [] (seed {} none) :=
    seed_detecting (covered_nil opts) (fun _ h => by cases h) fun _ => rfl
  obtain ⟨hwatched, hstage⟩ := hdetecting
  exact ⟨hwatched, hstage, fun _ h => by cases h⟩

theorem historyStep_inv {opts : GeyserClientOptions υ} {h h' : History υ}
    {a : HistoryAction υ} (hinv : HistoryInv opts h) (hstep : historyStep opts h a = some h')
    (hquiet : QuietRun h a h') : HistoryInv opts h' := by
  obtain ⟨hwatched, hstage, hcheckpoint⟩ := hinv
  cases a with
  | act a =>
      have hload : ∀ c, a ≠ .loaded c := by
        rintro c rfl
        cases hstep
      obtain ⟨sub, hsub, rfl⟩ :
          ∃ sub, step opts h.sub a = some sub ∧ { h with sub := sub } = h' := by
        cases a with
        | loaded c => exact absurd rfl (hload c)
        | _ => exact Option.map_eq_some_iff.1 hstep
      obtain ⟨hwatched', hstage'⟩ :=
        step_detecting ⟨hwatched, hstage⟩ hsub hload (hquiet a rfl)
      refine ⟨hwatched', hstage', fun c hc => ?_⟩
      obtain ⟨events, hevents⟩ := step_log hsub
      show SlotIn opts (h.since ++ sub.log) c.lastSlot
      rw [← hevents, ← List.append_assoc]
      exact (hcheckpoint c hc).append events
  | persist =>
      simp only [historyStep] at hstep
      split at hstep
      · next checkpoint hsaving =>
          cases hstep
          refine ⟨hwatched, hstage, fun c hc => ?_⟩
          cases hc
          exact hstage.saving checkpoint hsaving
      · cases hstep
  | start =>
      cases hstep
      have hdetecting : Detecting opts
          (if h.checkpoint.isSome then h.since ++ h.sub.log else []) (seed {} h.checkpoint) := by
        cases hc : h.checkpoint with
        | none =>
            exact seed_detecting (covered_nil opts) (fun _ h => by cases h) fun _ => rfl
        | some c =>
            refine seed_detecting hwatched.covered (fun c' hc' => ?_) fun h => by cases h
            cases hc'
            exact hcheckpoint c hc
      refine ⟨hdetecting.1, hdetecting.2, fun c hc => ?_⟩
      have hstored : h.checkpoint = some c := hc
      have hlog : (seed ({} : Subscription υ) h.checkpoint).log = [] := by
        rw [hstored]
        rfl
      show SlotIn opts ((if h.checkpoint.isSome then _ else _) ++ _) c.lastSlot
      rw [hlog, hstored, List.append_nil]
      exact hcheckpoint c hstored

/-- Since the last start that found no checkpoint no slot is missed, and the gaps of a run are
disjoint. -/
theorem gaps_cover (opts : GeyserClientOptions υ) (acts : List (HistoryAction υ))
    (hquiet : Along (historyStep opts) QuietRun {} acts) :
    Along (historyStep opts) (fun _ _ h => GapsCover opts h) {} acts :=
  along_of_inv (HistoryInv opts)
    (fun _ _ _ hinv hstep hok =>
      have hinv' := historyStep_inv hinv hstep hok
      ⟨⟨hinv'.watched.covered, hinv'.watched.separate, hinv'.watched.nonempty⟩, hinv'⟩)
    acts {} (history_init opts) hquiet

instance (h : History υ) (a : HistoryAction υ) (h' : History υ) : Decidable (QuietRun h a h') :=
  match a with
  | .act a => decidable_of_iff (a.throws = {})
      ⟨fun hthrows _ heq => by cases heq; exact hthrows, fun hquiet => hquiet a rfl⟩
  | .persist => .isTrue fun _ heq => by cases heq
  | .start => .isTrue fun _ heq => by cases heq

/-- The checkpoint of slot 12 is saved, and that of slot 14 is not. -/
theorem gaps_cover_restarted :
    Along (historyStep slots) (fun _ _ h => GapsCover slots h) {}
      [.act (.data 10 {}), .act (.handlerSettled false {}), .act (.data 12 {}),
        .act (.gapSettled true {}), .act (.handlerSettled false {}), .persist,
        .act (.saveSettled false {}), .act (.data 14 {}), .act (.gapSettled false {}), .start,
        .act (.data 15 {}), .act (.gapSettled false {}), .act (.handlerSettled false {})] :=
  gaps_cover slots _ (by decide)

/-- No slot between the first and the highest that were handled is missing. -/
def EverCovered (opts : GeyserClientOptions υ) (h : History υ) : Prop :=
  Covered opts (h.earlier ++ h.sub.log)

/-- The first run ends before it has saved a checkpoint: slot 11 is neither handled nor in a
gap. -/
theorem restart_misses :
    ∃ h, exec (historyStep slots) {} [.act (.data 10 {}), .act (.handlerSettled false {}),
        .start, .act (.data 20 {})] = some h ∧ ¬ EverCovered slots h := by
  refine ⟨_, rfl, fun hcovered => ?_⟩
  rcases hcovered 10 rfl 20 (by decide) 11 (by decide) (by decide) with hmem | ⟨_, _, hgap, -⟩
  · revert hmem
    decide
  · have hevents :
        ∀ e ∈ ([.handled ⟨0, 10⟩, .settled ⟨0, 10⟩, .handled ⟨0, 20⟩] : List (Event Nat)),
          ∀ first next, e ≠ .gap first next := by simp
    exact hevents _ hgap _ _ rfl

end Ap3xSolana.Connectivity.GeyserClient
