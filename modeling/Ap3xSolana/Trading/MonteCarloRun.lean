import Ap3xSolana.Trading.MonteCarlo

/-!
# The money of one run

A slot is free where its `busyUntil` is zero, and a stake lies in every other one.  A trade taken
at time zero and held for no time leaves its stake in a slot that counts as free; every other
stake is paid out once.
-/

namespace Ap3xSolana.Trading.Backtester

open Ap3xSolana.Lib

/-! ## What happens to the stakes -/

section Events

variable {slots : ℕ}

/-- The stakes of the trades taken. -/
def stakes (events : List (Event slots)) : List Stake :=
  (events.filter fun e => decide (e.kind = .staked)).map (·.stake)

def slotEvents (i : Fin slots) (events : List (Event slots)) : List (EventKind × Stake) :=
  (events.filter fun e => decide (e.slot = i)).map fun e => (e.kind, e.stake)

/-- Stakes of which each one is paid out before the next one. -/
def settled (stakes : List Stake) : List (EventKind × Stake) :=
  stakes.flatMap fun stake => [(.staked, stake), (.paid, stake)]

theorem settled_concat (stakes : List Stake) (stake : Stake) :
    settled (stakes ++ [stake]) = settled stakes ++ [(.staked, stake), (.paid, stake)] := by
  simp [settled]

theorem stakes_staked (events : List (Event slots)) (i : Fin slots) (stake : Stake)
    (bankroll : ℚ) :
    stakes (events ++ [⟨.staked, i, stake, bankroll⟩]) = stakes events ++ [stake] := by
  simp [stakes]

theorem stakes_paid (events : List (Event slots)) (i : Fin slots) (stake : Stake)
    (bankroll : ℚ) : stakes (events ++ [⟨.paid, i, stake, bankroll⟩]) = stakes events := by
  simp [stakes]

theorem slotEvents_self (events : List (Event slots)) {e : Event slots} {i : Fin slots}
    (h : e.slot = i) :
    slotEvents i (events ++ [e]) = slotEvents i events ++ [(e.kind, e.stake)] := by
  simp [slotEvents, h]

theorem slotEvents_of_ne (events : List (Event slots)) {e : Event slots} {i : Fin slots}
    (h : e.slot ≠ i) : slotEvents i (events ++ [e]) = slotEvents i events := by
  simp [slotEvents, h]

/-- What the trades with these stakes earn. -/
def earned (tradeSize : ℚ) (stakes : List Stake) : ℚ :=
  (stakes.map fun stake => tradeSize * (stake.roi - 1)).sum

theorem earned_concat (tradeSize : ℚ) (stakes : List Stake) (stake : Stake) :
    earned tradeSize (stakes ++ [stake]) =
      earned tradeSize stakes + tradeSize * (stake.roi - 1) := by
  simp [earned]

end Events

/-- A run that conserves money. -/
structure Conserves (config : MonteCarloConfig) (alerts : ℕ)
    (s : RunState config.maxConcurrent) : Prop where
  final : s.result.final = config.startCapital + earned config.tradeSize (stakes s.events)
  taken : s.result.taken = (stakes s.events).length
  counted : s.result.taken + s.result.skipped = alerts
  paidOnce : ∀ i, ∃ stakes, slotEvents i s.events = settled stakes
  bankroll : ∀ e ∈ s.events, 0 ≤ e.bankroll

/-! ## The books -/

/-- The books of a run with a stake in each slot of `isOpen`. -/
structure SlotBooks (config : MonteCarloConfig) (isOpen : Fin config.maxConcurrent → Prop)
    (s : RunState config.maxConcurrent) : Prop where
  money : s.bankroll + ∑ i, s.pendingAmount i * s.pendingRoi i =
    config.startCapital + earned config.tradeSize (stakes s.events)
  taken : s.taken = (stakes s.events).length
  free : ∀ i, ¬ isOpen i → s.pendingAmount i = 0 ∧ ∃ stakes, slotEvents i s.events = settled stakes
  staked : ∀ i, isOpen i → 0 ≤ s.pendingAmount i ∧ 0 ≤ s.pendingRoi i ∧
    ∃ stakes, slotEvents i s.events = settled stakes ++ [(.staked, s.stake i)]
  bankroll : 0 ≤ s.bankroll
  events : ∀ e ∈ s.events, 0 ≤ e.bankroll

namespace SlotBooks

variable {config : MonteCarloConfig} {isOpen isOpen' : Fin config.maxConcurrent → Prop}
  {s s' : RunState config.maxConcurrent} {i : Fin config.maxConcurrent}

theorem congr (h : SlotBooks config isOpen s) (hiff : ∀ i, isOpen i ↔ isOpen' i) :
    SlotBooks config isOpen' s := by
  have heq : isOpen = isOpen' := funext fun i => propext (hiff i)
  rwa [← heq]

theorem mark (h : SlotBooks config isOpen s) : SlotBooks config isOpen s.mark :=
  ⟨h.money, h.taken, h.free, h.staked, h.bankroll, h.events⟩

theorem sum_update {slots : ℕ} (f : Fin slots → ℚ) (i : Fin slots) (b : ℚ) :
    ∑ j, Function.update f i b j = ∑ j, f j - f i + b := by
  rw [Finset.sum_update_of_mem (Finset.mem_univ i),
    Finset.sum_eq_add_sum_sdiff_singleton_of_mem (Finset.mem_univ i) f]
  ring

/-- Slot `i` is paid out. -/
theorem pay (h : SlotBooks config isOpen s) (hi : isOpen i) (hbankroll : s'.bankroll = s.proceeds i)
    (hamount : s'.pendingAmount = Function.update s.pendingAmount i 0)
    (hroi : ∀ j, j ≠ i → s'.pendingRoi j = s.pendingRoi j) (htaken : s'.taken = s.taken)
    (hevents : s'.events = s.events ++ [⟨.paid, i, s.stake i, s.proceeds i⟩]) :
    SlotBooks config (fun j => isOpen j ∧ j ≠ i) s' := by
  obtain ⟨hnonneg, hroinonneg, stakes, hstakes⟩ := h.staked i hi
  have hproceeds : 0 ≤ s.proceeds i :=
    add_nonneg h.bankroll (mul_nonneg hnonneg hroinonneg)
  have hamountOf {j : Fin config.maxConcurrent} (hj : j ≠ i) :
      s'.pendingAmount j = s.pendingAmount j := by
    rw [hamount, Function.update_of_ne hj]
  have hslot {j : Fin config.maxConcurrent} (hj : j ≠ i) :
      slotEvents j s'.events = slotEvents j s.events := by
    rw [hevents]
    exact slotEvents_of_ne _ hj.symm
  constructor
  · have hsum : (fun j => s'.pendingAmount j * s'.pendingRoi j) =
        Function.update (fun j => s.pendingAmount j * s.pendingRoi j) i 0 := by
      funext j
      by_cases hj : j = i
      · rw [hj, hamount, Function.update_self, Function.update_self, zero_mul]
      · rw [Function.update_of_ne hj, hamountOf hj, hroi j hj]
    rw [hsum, sum_update, hbankroll, hevents, stakes_paid, ← h.money, RunState.proceeds]
    ring
  · rw [htaken, hevents, stakes_paid, h.taken]
  · intro j hj
    by_cases hji : j = i
    · refine ⟨by rw [hji, hamount, Function.update_self], stakes ++ [s.stake i], ?_⟩
      rw [hji, hevents, settled_concat]
      refine Eq.trans (slotEvents_self _ rfl) ?_
      rw [hstakes, List.append_assoc]
      rfl
    · obtain ⟨hzero, stakes', hstakes'⟩ := h.free j fun hopen => hj ⟨hopen, hji⟩
      exact ⟨by rw [hamountOf hji, hzero], stakes', by rw [hslot hji, hstakes']⟩
  · rintro j ⟨hopen, hji⟩
    obtain ⟨ha, hr, stakes', hstakes'⟩ := h.staked j hopen
    rw [RunState.stake, hamountOf hji, hroi j hji, hslot hji]
    exact ⟨ha, hr, stakes', hstakes'⟩
  · rw [hbankroll]
    exact hproceeds
  · rw [hevents, List.forall_mem_append, List.forall_mem_singleton]
    exact ⟨h.events, hproceeds⟩

/-- A trade goes into a free slot. -/
theorem take (h : SlotBooks config isOpen s) (hsize : 0 ≤ config.tradeSize)
    (hbankroll : ¬ s.bankroll < config.tradeSize) (hi : ¬ isOpen i) {t hold roi : ℚ}
    (hroi : 0 ≤ roi) :
    SlotBooks config (fun j => isOpen j ∨ j = i) (s.take config.tradeSize t i hold roi) := by
  obtain ⟨hzero, stakes, hstakes⟩ := h.free i hi
  have hleft : 0 ≤ s.bankroll - config.tradeSize := sub_nonneg.2 (not_lt.1 hbankroll)
  refine mark ⟨?_, ?_, ?_, ?_, hleft, ?_⟩
  · have hsum : (fun j => Function.update s.pendingAmount i config.tradeSize j *
          Function.update s.pendingRoi i roi j) =
        Function.update (fun j => s.pendingAmount j * s.pendingRoi j) i
          (config.tradeSize * roi) := by
      funext j
      by_cases hj : j = i
      · rw [hj, Function.update_self, Function.update_self, Function.update_self]
      · rw [Function.update_of_ne hj, Function.update_of_ne hj, Function.update_of_ne hj]
    have hmoney := h.money
    dsimp only
    rw [hsum, sum_update, stakes_staked, earned_concat, hzero]
    linarith
  · dsimp only
    rw [stakes_staked, List.length_append, h.taken]
    rfl
  · intro j hj
    obtain ⟨hopen, hji⟩ := not_or.1 hj
    obtain ⟨hj0, stakes', hstakes'⟩ := h.free j hopen
    refine ⟨(Function.update_of_ne hji _ _).trans hj0, stakes', ?_⟩
    exact (slotEvents_of_ne _ (Ne.symm hji)).trans hstakes'
  · intro j hj
    by_cases hji : j = i
    · subst hji
      refine ⟨?_, ?_, stakes, ?_⟩
      · dsimp only
        rwa [Function.update_self]
      · dsimp only
        rwa [Function.update_self]
      · refine Eq.trans (slotEvents_self _ rfl) ?_
        rw [hstakes, RunState.stake]
        dsimp only
        rw [Function.update_self, Function.update_self]
    · obtain ⟨ha, hr, stakes', hstakes'⟩ := h.staked j (hj.resolve_right hji)
      rw [RunState.stake]
      dsimp only
      rw [Function.update_of_ne hji, Function.update_of_ne hji]
      exact ⟨ha, hr, stakes', (slotEvents_of_ne _ (Ne.symm hji)).trans hstakes'⟩
  · dsimp only
    rw [List.forall_mem_append, List.forall_mem_singleton]
    exact ⟨h.events, hleft⟩

end SlotBooks

/-- A stake in every slot that is busy, and none in the others. -/
structure SoundRun (config : MonteCarloConfig) (s : RunState config.maxConcurrent) : Prop where
  busy : ∀ i, 0 ≤ s.busyUntil i
  books : SlotBooks config (fun i => 0 < s.busyUntil i) s

namespace SoundRun

variable {config : MonteCarloConfig} {s : RunState config.maxConcurrent}

theorem start (hstart : 0 ≤ config.startCapital) (drawn : ℕ) :
    SoundRun config (.start config.startCapital config.maxConcurrent drawn) where
  busy := fun _ => le_rfl
  books :=
    { money := by simp [RunState.start, stakes, earned]
      taken := rfl
      free := fun _ _ => ⟨rfl, [], rfl⟩
      staked := fun _ h => absurd h (lt_irrefl _)
      bankroll := hstart
      events := nofun }

theorem skip (h : SoundRun config s) : SoundRun config s.skip :=
  ⟨h.busy, ⟨h.books.money, h.books.taken, h.books.free, h.books.staked, h.books.bankroll,
    h.books.events⟩⟩

theorem close (h : SoundRun config s) (t : ℚ) (i : Fin config.maxConcurrent) :
    SoundRun config (s.close t i) := by
  unfold RunState.close
  split
  · rename_i hdue
    constructor
    · intro j
      show 0 ≤ Function.update s.busyUntil i 0 j
      by_cases hj : j = i
      · rw [hj, Function.update_self]
      · rw [Function.update_of_ne hj]
        exact h.busy j
    · refine SlotBooks.congr (h.books.pay hdue.1 rfl rfl (fun j hj => ?_) rfl rfl) fun j => ?_
      · exact Function.update_of_ne hj _ _
      · show _ ↔ 0 < Function.update s.busyUntil i 0 j
        by_cases hj : j = i
        · rw [hj, Function.update_self]
          exact ⟨fun hopen => absurd rfl hopen.2, fun hlt => absurd hlt (lt_irrefl _)⟩
        · rw [Function.update_of_ne hj]
          exact and_iff_left hj
  · exact h

theorem closeCompleted (h : SoundRun config s) (t : ℚ) : SoundRun config (s.closeCompleted t) := by
  unfold RunState.closeCompleted
  induction List.finRange config.maxConcurrent generalizing s with
  | nil => exact h
  | cons i is ih => exact ih (h.close t i)

theorem take (h : SoundRun config s) (hsize : 0 ≤ config.tradeSize) {i : Fin config.maxConcurrent}
    (hfree : s.busyUntil i = 0) (hbankroll : ¬ s.bankroll < config.tradeSize) {t hold roi : ℚ}
    (hroi : 0 ≤ roi) (hlate : 0 < t + hold) :
    SoundRun config (s.take config.tradeSize t i hold roi) := by
  have hnot : ¬ 0 < s.busyUntil i := by
    rw [hfree]
    exact lt_irrefl 0
  constructor
  · intro j
    show 0 ≤ Function.update s.busyUntil i (t + hold) j
    by_cases hj : j = i
    · rw [hj, Function.update_self]
      exact hlate.le
    · rw [Function.update_of_ne hj]
      exact h.busy j
  · refine (h.books.take hsize hbankroll hnot hroi).congr fun j => ?_
    show _ ↔ 0 < Function.update s.busyUntil i (t + hold) j
    by_cases hj : j = i
    · rw [hj, Function.update_self]
      exact iff_of_true (.inr rfl) hlate
    · rw [Function.update_of_ne hj]
      exact or_iff_left hj

/-- The last loop leaves no stake in a slot. -/
theorem finish (h : SoundRun config s) : SlotBooks config (fun _ => False) s.finish := by
  have hloop : ∀ (is : List (Fin config.maxConcurrent)) (s : RunState config.maxConcurrent),
      is.Nodup → SlotBooks config (fun i => 0 < s.busyUntil i ∧ i ∈ is) s →
        SlotBooks config (fun _ => False) (is.foldl RunState.closeRemaining s) := by
    intro is
    induction is with
    | nil =>
        intro s _ hs
        exact hs.congr fun i => by simp
    | cons i is ih =>
        intro s hnodup hs
        obtain ⟨hi, hrest⟩ := List.nodup_cons.1 hnodup
        refine ih _ hrest ?_
        unfold RunState.closeRemaining
        split
        · rename_i hbusy
          refine SlotBooks.congr
            (hs.pay ⟨hbusy, List.mem_cons_self⟩ rfl rfl (fun _ _ => rfl) rfl rfl) fun j => ?_
          show (0 < s.busyUntil j ∧ j ∈ i :: is) ∧ j ≠ i ↔ 0 < s.busyUntil j ∧ j ∈ is
          rw [List.mem_cons]
          exact ⟨fun ⟨⟨hj, hmem⟩, hji⟩ => ⟨hj, hmem.resolve_left hji⟩,
            fun ⟨hj, hmem⟩ => ⟨⟨hj, .inr hmem⟩, fun heq => hi (heq ▸ hmem)⟩⟩
        · rename_i hbusy
          refine hs.congr fun j => and_congr_right fun hj => ?_
          rw [List.mem_cons]
          exact or_iff_right fun heq => hbusy (heq ▸ hj)
  refine hloop _ s (List.nodup_finRange _) (h.books.congr fun i => ?_)
  exact (and_iff_left (List.mem_finRange i)).symm

end SoundRun

/-! ## What a visit does -/

namespace RunState

variable {slots : ℕ}

theorem close_drawn (t : ℚ) (s : RunState slots) (i : Fin slots) :
    (s.close t i).taken = s.taken ∧ (s.close t i).skipped = s.skipped := by
  unfold close
  split <;> exact ⟨rfl, rfl⟩

theorem closeCompleted_counts (t : ℚ) (s : RunState slots) :
    (s.closeCompleted t).taken = s.taken ∧ (s.closeCompleted t).skipped = s.skipped := by
  unfold closeCompleted
  induction List.finRange slots generalizing s with
  | nil => exact ⟨rfl, rfl⟩
  | cons i is ih =>
      obtain ⟨htaken, hskipped⟩ := close_drawn t s i
      exact ⟨(ih _).1.trans htaken, (ih _).2.trans hskipped⟩

theorem finish_counts (s : RunState slots) :
    s.finish.taken = s.taken ∧ s.finish.skipped = s.skipped := by
  unfold finish
  induction List.finRange slots generalizing s with
  | nil => exact ⟨rfl, rfl⟩
  | cons i is ih =>
      have hone : (s.closeRemaining i).taken = s.taken ∧
          (s.closeRemaining i).skipped = s.skipped := by
        unfold closeRemaining
        split <;> exact ⟨rfl, rfl⟩
      exact ⟨(ih _).1.trans hone.1, (ih _).2.trans hone.2⟩

/-- At time zero nothing is due. -/
theorem closeCompleted_zero (s : RunState slots) : s.closeCompleted 0 = s := by
  unfold closeCompleted
  induction List.finRange slots with
  | nil => rfl
  | cons i is ih =>
      rw [List.foldl_cons]
      have hclose : s.close 0 i = s := if_neg fun h => absurd h.1 (not_lt.2 h.2)
      rwa [hclose]

theorem freeSlot_eq_some {s : RunState slots} {i : Fin slots} :
    s.freeSlot = some i ↔ s.busyUntil i = 0 ∧ ∀ j < i, s.busyUntil j ≠ 0 := by
  simp only [freeSlot, Fin.find?_eq_some_iff, decide_eq_true_iff, decide_eq_false_iff_not, ne_eq]

theorem freeSlot_eq_none {s : RunState slots} :
    s.freeSlot = none ↔ ∀ i, s.busyUntil i ≠ 0 := by
  simp only [freeSlot, Fin.find?_eq_none_iff, decide_eq_false_iff_not, ne_eq]

end RunState

/-- The hold time that is sampled with the number of call `k`, from a pool of `n` trades. -/
def sampledHold (rng : ℕ → ℚ) (holdHoursPool : List ℚ) (n k : ℕ) : Option ℚ :=
  holdHoursPool[(sampleIndex (rng k) n).toNat]?

section Visits

variable {rng : ℕ → ℚ} {roiPool holdHoursPool : List ℚ} {config : MonteCarloConfig}
  {s : RunState config.maxConcurrent}

/-- The trade at the index sampled with call `k`. -/
theorem exists_sampled (hrng : ∀ k, InUnit (rng k)) (hn : 0 < roiPool.length)
    (hlen : roiPool.length ≤ holdHoursPool.length) (k drawn : ℕ) :
    ∃ hold ∈ holdHoursPool, ∃ roi ∈ roiPool,
      sampledHold rng holdHoursPool roiPool.length k = some hold ∧
      element holdHoursPool (sampleIndex (rng k) roiPool.length) drawn = .ok hold ∧
      element roiPool (sampleIndex (rng k) roiPool.length) drawn = .ok roi := by
  obtain ⟨h0, h1⟩ := sampleIndex_bounds (hrng k) hn
  obtain ⟨roi, hroi, hroiEq⟩ := element_ok h0 h1 drawn
  have hlt : (sampleIndex (rng k) roiPool.length).toNat < holdHoursPool.length := by omega
  refine ⟨_, List.getElem_mem hlt, roi, hroi, List.getElem?_eq_getElem hlt, ?_, hroiEq⟩
  rw [element, if_pos h0, List.getElem?_eq_getElem hlt]

variable (config) in
/-- What a visit does: it skips the alert, or takes the trade that is sampled. -/
theorem visitAlert_cases (hrng : ∀ k, InUnit (rng k)) (hn : 0 < roiPool.length)
    (hlen : roiPool.length ≤ holdHoursPool.length) (s : RunState config.maxConcurrent) (t : ℚ) :
    ((∀ i, (s.closeCompleted t).busyUntil i ≠ 0) ∨
        (s.closeCompleted t).bankroll < config.tradeSize) ∧
      visitAlert rng roiPool holdHoursPool config s t = .ok (s.closeCompleted t).skip ∨
    ∃ idx, ∃ hold ∈ holdHoursPool, ∃ roi ∈ roiPool,
      ((s.closeCompleted t).busyUntil idx = 0 ∧
        ∀ j < idx, (s.closeCompleted t).busyUntil j ≠ 0) ∧
      ¬ (s.closeCompleted t).bankroll < config.tradeSize ∧
      sampledHold rng holdHoursPool roiPool.length (s.closeCompleted t).drawn = some hold ∧
      visitAlert rng roiPool holdHoursPool config s t =
        .ok ((s.closeCompleted t).take config.tradeSize t idx hold roi) := by
  unfold visitAlert
  dsimp only
  cases hfree : (s.closeCompleted t).freeSlot with
  | none => exact .inl ⟨.inl (RunState.freeSlot_eq_none.1 hfree), rfl⟩
  | some idx =>
      dsimp only
      by_cases hbankroll : (s.closeCompleted t).bankroll < config.tradeSize
      · rw [if_pos hbankroll]
        exact .inl ⟨.inr hbankroll, rfl⟩
      · rw [if_neg hbankroll]
        obtain ⟨hold, hhold, roi, hroi, hsampled, hholdEq, hroiEq⟩ :=
          exists_sampled hrng hn hlen (s.closeCompleted t).drawn ((s.closeCompleted t).drawn + 1)
        refine .inr ⟨idx, hold, hhold, roi, hroi, RunState.freeSlot_eq_some.1 hfree, hbankroll,
          hsampled, ?_⟩
        rw [hholdEq, hroiEq]
        rfl

variable (hrng : ∀ k, InUnit (rng k)) (hn : 0 < roiPool.length)
  (hlen : roiPool.length ≤ holdHoursPool.length)

include hrng hn hlen

/-- Every alert is counted. -/
theorem counted_visits (times : List ℚ) (s : RunState config.maxConcurrent) :
    Throwing.Gives (fun s' => s'.taken + s'.skipped = s.taken + s.skipped + times.length)
      (times.foldlM (visitAlert rng roiPool holdHoursPool config) s) := by
  induction times generalizing s with
  | nil => exact rfl
  | cons t times ih =>
      obtain ⟨htaken, hskipped⟩ := RunState.closeCompleted_counts t s
      rw [List.foldlM_cons, List.length_cons]
      rcases visitAlert_cases config hrng hn hlen s t with
        ⟨-, hvisit⟩ | ⟨idx, hold, -, roi, -, -, -, -, hvisit⟩
      all_goals
        rw [hvisit]
        refine (ih _).mono fun s' hs' => hs'.trans ?_
      · show (s.closeCompleted t).taken + ((s.closeCompleted t).skipped + 1) + _ = _
        omega
      · show (s.closeCompleted t).taken + 1 + (s.closeCompleted t).skipped + _ = _
        omega

/-- After time zero every slot with a stake is busy. -/
theorem sound_visits (hsize : 0 ≤ config.tradeSize) (hroi : ∀ roi ∈ roiPool, 0 ≤ roi)
    (hhold : ∀ hold ∈ holdHoursPool, 0 ≤ hold) {times : List ℚ} (htimes : ∀ t ∈ times, 0 < t)
    {s : RunState config.maxConcurrent} (hs : SoundRun config s) :
    Throwing.Gives (SoundRun config)
      (times.foldlM (visitAlert rng roiPool holdHoursPool config) s) := by
  refine Throwing.Ensures.foldlM _ (fun s t ht hs => ?_) hs
  rcases visitAlert_cases config hrng hn hlen s t with
    ⟨-, hvisit⟩ | ⟨idx, hold, hholdMem, roi, hroiMem, ⟨hfree, -⟩, hbankroll, -, hvisit⟩
  · rw [hvisit]
    exact (hs.closeCompleted t).skip
  · rw [hvisit]
    exact (hs.closeCompleted t).take hsize hfree hbankroll (hroi roi hroiMem)
      (add_pos_of_pos_of_nonneg (htimes t ht) (hhold hold hholdMem))

end Visits

/-! ## The alerts at time zero -/

/-- The variables after some alerts at time zero, with `base` numbers drawn before: the trades
taken fill the first slots. -/
structure AtZero (config : MonteCarloConfig) (base : ℕ) (s : RunState config.maxConcurrent) :
    Prop where
  drawn : s.drawn = base + s.taken
  bankroll : s.bankroll = config.startCapital - s.taken * config.tradeSize
  busy : ∀ i, s.busyUntil i = 0 ↔ s.taken ≤ i
  unused : ∀ i : Fin config.maxConcurrent, s.taken ≤ i → slotEvents i s.events = []

namespace AtZero

variable {config : MonteCarloConfig} {base : ℕ} {s : RunState config.maxConcurrent}

theorem start (config : MonteCarloConfig) (base : ℕ) :
    AtZero config base (.start config.startCapital config.maxConcurrent base) where
  drawn := rfl
  bankroll := by simp [RunState.start]
  busy := fun i => iff_of_true rfl (Nat.zero_le i)
  unused := fun _ _ => rfl

theorem skip (h : AtZero config base s) : AtZero config base s.skip :=
  ⟨h.drawn, h.bankroll, h.busy, h.unused⟩

theorem take (h : AtZero config base s) {i : Fin config.maxConcurrent} (hi : (i : ℕ) = s.taken)
    {hold roi : ℚ} (hhold : hold ≠ 0) :
    AtZero config base (s.take config.tradeSize 0 i hold roi) := by
  constructor
  · show s.drawn + 1 = base + (s.taken + 1)
    rw [h.drawn, Nat.add_assoc]
  · show s.bankroll - config.tradeSize = config.startCapital - ↑(s.taken + 1) * config.tradeSize
    rw [h.bankroll]
    push_cast
    ring
  · intro j
    show Function.update s.busyUntil i (0 + hold) j = 0 ↔ s.taken + 1 ≤ j
    by_cases hj : j = i
    · rw [hj, Function.update_self, zero_add, hi]
      exact iff_of_false hhold (Nat.not_succ_le_self _)
    · have hne : (j : ℕ) ≠ s.taken := fun heq => hj (Fin.ext (heq.trans hi.symm))
      rw [Function.update_of_ne hj, h.busy]
      omega
  · intro j hj
    have hji : i ≠ j := by
      rintro rfl
      exact Nat.not_succ_le_self _ (hi ▸ hj)
    exact (slotEvents_of_ne _ hji).trans (h.unused j (Nat.le_of_succ_le hj))

/-- The next trade goes into the first slot that is not used. -/
theorem eq_taken (h : AtZero config base s) {i : Fin config.maxConcurrent}
    (hfree : s.busyUntil i = 0) (hfirst : ∀ j < i, s.busyUntil j ≠ 0) : (i : ℕ) = s.taken := by
  have hle := (h.busy i).1 hfree
  refine le_antisymm (not_lt.1 fun hlt => ?_) hle
  exact hfirst ⟨s.taken, hlt.trans i.isLt⟩ hlt ((h.busy _).2 le_rfl)

theorem enough_iff (h : AtZero config base s) :
    ¬ s.bankroll < config.tradeSize ↔
      (s.taken + 1 : ℕ) * config.tradeSize ≤ config.startCapital := by
  rw [not_lt, h.bankroll, le_sub_iff_add_le]
  push_cast
  rw [add_mul, one_mul, add_comm]

end AtZero

section Zeros

variable {rng : ℕ → ℚ} {roiPool holdHoursPool : List ℚ} {config : MonteCarloConfig} {base : ℕ}
  {s : RunState config.maxConcurrent}

/-- The alert at time zero takes a trade if there is a slot and the money for it. -/
theorem AtZero.visit (hrng : ∀ k, InUnit (rng k)) (hn : 0 < roiPool.length)
    (hlen : roiPool.length ≤ holdHoursPool.length) (h : AtZero config base s) :
    ¬ (s.taken < config.maxConcurrent ∧
        (s.taken + 1 : ℕ) * config.tradeSize ≤ config.startCapital) ∧
      visitAlert rng roiPool holdHoursPool config s 0 = .ok s.skip ∨
    ∃ idx : Fin config.maxConcurrent, ∃ hold ∈ holdHoursPool, ∃ roi ∈ roiPool,
      (idx : ℕ) = s.taken ∧ (s.taken + 1 : ℕ) * config.tradeSize ≤ config.startCapital ∧
      sampledHold rng holdHoursPool roiPool.length (base + s.taken) = some hold ∧
      visitAlert rng roiPool holdHoursPool config s 0 =
        .ok (s.take config.tradeSize 0 idx hold roi) := by
  have hcases := visitAlert_cases config hrng hn hlen s 0
  rw [RunState.closeCompleted_zero] at hcases
  rcases hcases with ⟨hrefused, hvisit⟩ | ⟨idx, hold, hholdMem, roi, hroiMem, ⟨hfree, hfirst⟩,
    hbankroll, hsampled, hvisit⟩
  · refine .inl ⟨fun ⟨hlt, henough⟩ => ?_, hvisit⟩
    rcases hrefused with hbusy | hpoor
    · exact hbusy ⟨s.taken, hlt⟩ ((h.busy _).2 le_rfl)
    · exact h.enough_iff.2 henough hpoor
  · rw [h.drawn] at hsampled
    exact .inr ⟨idx, hold, hholdMem, roi, hroiMem, h.eq_taken hfree hfirst,
      h.enough_iff.1 hbankroll, hsampled, hvisit⟩

/-- As long as no trade is held for no time, the stakes are where slots are busy. -/
theorem sound_zeros (hrng : ∀ k, InUnit (rng k)) (hn : 0 < roiPool.length)
    (hlen : roiPool.length ≤ holdHoursPool.length) (hsize : 0 ≤ config.tradeSize)
    (hroi : ∀ roi ∈ roiPool, 0 ≤ roi) (hhold : ∀ hold ∈ holdHoursPool, 0 ≤ hold) {zeros : ℕ}
    (hok : ∀ j < zeros, j < config.maxConcurrent →
      (j + 1 : ℕ) * config.tradeSize ≤ config.startCapital →
        sampledHold rng holdHoursPool roiPool.length (base + j) ≠ some 0)
    (n : ℕ) {s : RunState config.maxConcurrent} (h : AtZero config base s)
    (hs : SoundRun config s) (hle : s.taken + n ≤ zeros) :
    Throwing.Gives (SoundRun config)
      ((List.replicate n 0).foldlM (visitAlert rng roiPool holdHoursPool config) s) := by
  induction n generalizing s with
  | zero => exact hs
  | succ n ih =>
      rw [List.replicate_succ, List.foldlM_cons]
      rcases h.visit hrng hn hlen with
        ⟨-, hvisit⟩ | ⟨idx, hold, hholdMem, roi, hroiMem, hidx, henough, hsampled, hvisit⟩
      · rw [hvisit]
        refine ih h.skip hs.skip ?_
        show s.taken + n ≤ zeros
        omega
      · have hne : hold ≠ 0 := by
          rintro rfl
          exact hok s.taken (by omega) (hidx ▸ idx.isLt) henough hsampled
        have hpos : 0 < hold := lt_of_le_of_ne (hhold hold hholdMem) hne.symm
        have hfree : s.busyUntil idx = 0 := (h.busy idx).2 hidx.ge
        rw [hvisit]
        refine ih (h.take hidx hne) (hs.take hsize hfree (h.enough_iff.2 henough)
          (hroi roi hroiMem) (by rwa [zero_add])) ?_
        show s.taken + 1 + n ≤ zeros
        omega

/-- As long as there are slots and money, and no trade is held for no time, each alert at time
zero takes a trade. -/
theorem taken_zeros (hrng : ∀ k, InUnit (rng k)) (hn : 0 < roiPool.length)
    (hlen : roiPool.length ≤ holdHoursPool.length) (n : ℕ)
    {s : RunState config.maxConcurrent} (h : AtZero config base s)
    (hok : ∀ j < n, s.taken + j < config.maxConcurrent ∧
      (s.taken + j + 1 : ℕ) * config.tradeSize ≤ config.startCapital ∧
      sampledHold rng holdHoursPool roiPool.length (base + (s.taken + j)) ≠ some 0) :
    Throwing.Gives (fun s' => AtZero config base s' ∧ s'.taken = s.taken + n)
      ((List.replicate n 0).foldlM (visitAlert rng roiPool holdHoursPool config) s) := by
  induction n generalizing s with
  | zero => exact ⟨h, rfl⟩
  | succ n ih =>
      obtain ⟨hlt, henough, hsampled⟩ := hok 0 (Nat.succ_pos n)
      rw [List.replicate_succ, List.foldlM_cons]
      rcases h.visit hrng hn hlen with
        ⟨hrefused, -⟩ | ⟨idx, hold, -, roi, -, hidx, -, hsampled', hvisit⟩
      · exact absurd ⟨hlt, henough⟩ hrefused
      · have hne : hold ≠ 0 := by
          rintro rfl
          exact hsampled hsampled'
        rw [hvisit]
        have hafter : (s.take config.tradeSize 0 idx hold roi).taken = s.taken + 1 := rfl
        refine (ih (h.take hidx hne) fun j hj => ?_).mono fun s' hs' => ⟨hs'.1, ?_⟩
        · rw [hafter, Nat.add_assoc s.taken 1 j, Nat.add_comm 1 j]
          exact hok (j + 1) (Nat.succ_lt_succ hj)
        · rw [hs'.2, hafter]
          omega

end Zeros

/-! ## A stake that is lost -/

/-- The first stake of slot `i` is not paid out: the slot counts as free, or the next stake lies
over it. -/
def Lost {slots : ℕ} (i : Fin slots) (s : RunState slots) : Prop :=
  (∃ stake, slotEvents i s.events = [(.staked, stake)] ∧ s.busyUntil i = 0) ∨
    ∃ stake stake' rest,
      slotEvents i s.events = (.staked, stake) :: (.staked, stake') :: rest

namespace Lost

variable {slots : ℕ} {i : Fin slots} {s s' : RunState slots}

theorem not_settled (h : Lost i s) (stakes : List Stake) :
    slotEvents i s.events ≠ settled stakes := by
  rcases h with ⟨stake, heq, -⟩ | ⟨stake, stake', rest, heq⟩ <;> rw [heq] <;>
    cases stakes <;> simp [settled]

/-- A slot that is not free is not paid out after its first stake is lost. -/
theorem pay (h : Lost i s) {j : Fin slots} (hbusy : 0 < s.busyUntil j)
    (hbusyEq : j ≠ i → s'.busyUntil i = s.busyUntil i) {stake : Stake} {bankroll : ℚ}
    (hevents : s'.events = s.events ++ [⟨.paid, j, stake, bankroll⟩]) : Lost i s' := by
  by_cases hji : j = i
  · subst hji
    have hslot : slotEvents j s'.events = slotEvents j s.events ++ [(.paid, stake)] := by
      rw [hevents]
      exact slotEvents_self _ rfl
    rcases h with ⟨-, -, hfree⟩ | ⟨first, second, rest, heq⟩
    · exact absurd hfree hbusy.ne'
    · exact .inr ⟨first, second, rest ++ [(.paid, stake)], by rw [hslot, heq]; rfl⟩
  · have hslot : slotEvents i s'.events = slotEvents i s.events := by
      rw [hevents]
      exact slotEvents_of_ne _ hji
    rw [Lost, hslot, hbusyEq hji]
    exact h

theorem close (h : Lost i s) (t : ℚ) (j : Fin slots) : Lost i (s.close t j) := by
  unfold RunState.close
  split
  · rename_i hdue
    exact h.pay hdue.1 (fun hji => Function.update_of_ne (Ne.symm hji) _ _) rfl
  · exact h

theorem closeCompleted (h : Lost i s) (t : ℚ) : Lost i (s.closeCompleted t) := by
  unfold RunState.closeCompleted
  induction List.finRange slots generalizing s with
  | nil => exact h
  | cons j js ih => exact ih (h.close t j)

theorem finish (h : Lost i s) : Lost i s.finish := by
  unfold RunState.finish
  induction List.finRange slots generalizing s with
  | nil => exact h
  | cons j js ih =>
      refine ih ?_
      unfold RunState.closeRemaining
      split
      · rename_i hbusy
        exact h.pay hbusy (fun _ => rfl) rfl
      · exact h

theorem take (h : Lost i s) (tradeSize t : ℚ) (j : Fin slots) (hold roi : ℚ) :
    Lost i (s.take tradeSize t j hold roi) := by
  by_cases hji : j = i
  · subst hji
    have hslot : slotEvents j (s.take tradeSize t j hold roi).events =
        slotEvents j s.events ++ [(.staked, ⟨tradeSize, roi⟩)] := slotEvents_self _ rfl
    rcases h with ⟨first, heq, -⟩ | ⟨first, second, rest, heq⟩
    · exact .inr ⟨first, _, [], by rw [hslot, heq]; rfl⟩
    · exact .inr ⟨first, second, rest ++ [(.staked, ⟨tradeSize, roi⟩)], by rw [hslot, heq]; rfl⟩
  · have hslot : slotEvents i (s.take tradeSize t j hold roi).events = slotEvents i s.events :=
      slotEvents_of_ne _ hji
    have hbusy : (s.take tradeSize t j hold roi).busyUntil i = s.busyUntil i :=
      Function.update_of_ne (Ne.symm hji) _ _
    rw [Lost, hslot, hbusy]
    exact h

end Lost

theorem lost_visits {rng : ℕ → ℚ} {roiPool holdHoursPool : List ℚ} {config : MonteCarloConfig}
    (hrng : ∀ k, InUnit (rng k)) (hn : 0 < roiPool.length)
    (hlen : roiPool.length ≤ holdHoursPool.length) (times : List ℚ)
    {i : Fin config.maxConcurrent} {s : RunState config.maxConcurrent} (h : Lost i s) :
    Throwing.Gives (Lost i) (times.foldlM (visitAlert rng roiPool holdHoursPool config) s) := by
  refine Throwing.Ensures.foldlM _ (fun s t _ hs => ?_) h
  rcases visitAlert_cases config hrng hn hlen s t with
    ⟨-, hvisit⟩ | ⟨idx, hold, -, roi, -, -, -, -, hvisit⟩
  · rw [hvisit]
    exact hs.closeCompleted t
  · rw [hvisit]
    exact (hs.closeCompleted t).take _ _ _ _ _

/-! ## The whole run -/

/-- How many alerts come at time zero. -/
def zeroDraws (rng : ℕ → ℚ) (drawn n : ℕ) : ℕ :=
  (List.range n).countP fun i => decide (rng (drawn + i) = 0)

section Whole

variable {rng : ℕ → ℚ} {roiPool holdHoursPool : List ℚ} {alertsPerDay : ℚ}
  {config : MonteCarloConfig} {drawn : ℕ}

theorem sorted_split {l : List ℚ} (hsorted : l.Pairwise (· ≤ ·)) (h0 : ∀ x ∈ l, 0 ≤ x) :
    ∃ ps, l = List.replicate (l.count 0) 0 ++ ps ∧ ∀ p ∈ ps, 0 < p := by
  induction l with
  | nil => exact ⟨[], rfl, nofun⟩
  | cons x xs ih =>
      obtain ⟨hx, hxs⟩ := List.pairwise_cons.1 hsorted
      obtain ⟨hx0, hxs0⟩ := List.forall_mem_cons.1 h0
      rcases hx0.eq_or_lt with rfl | hpos
      · obtain ⟨ps, hps, hpos⟩ := ih hxs hxs0
        refine ⟨ps, ?_, hpos⟩
        rw [List.count_cons_self, List.replicate_succ, List.cons_append, ← hps]
      · have hall : ∀ p ∈ x :: xs, 0 < p :=
          List.forall_mem_cons.2 ⟨hpos, fun p hp => hpos.trans_le (hx p hp)⟩
        have hcount : (x :: xs).count 0 = 0 :=
          List.count_eq_zero.2 fun hmem => lt_irrefl _ (hall 0 hmem)
        exact ⟨x :: xs, by rw [hcount]; rfl, hall⟩

theorem days_pos (hrate : 0 ≤ alertsPerDay) (h : 0 < nAlerts alertsPerDay config) :
    0 < config.days := by
  have hfloor : 1 ≤ ⌊alertsPerDay * config.days + 1 / 2⌋ := by
    unfold nAlerts at h
    omega
  have hle := Int.le_floor.1 hfloor
  push_cast at hle
  by_contra hnot
  have := mul_nonpos_of_nonneg_of_nonpos hrate (not_lt.1 hnot)
  linarith

theorem alertTimes_sorted : (alertTimes rng alertsPerDay config drawn).Pairwise (· ≤ ·) := by
  refine List.Pairwise.imp (fun h => of_decide_eq_true h) (List.pairwise_mergeSort ?_ ?_ _)
  · intro a b c hab hbc
    exact decide_eq_true ((of_decide_eq_true hab).trans (of_decide_eq_true hbc))
  · intro a b
    simpa using le_total a b

variable (config drawn) in
/-- The times are zeros, and then the others. -/
theorem alertTimes_split (hrng : ∀ k, InUnit (rng k)) (hrate : 0 ≤ alertsPerDay) :
    ∃ ps, alertTimes rng alertsPerDay config drawn =
        List.replicate (zeroDraws rng drawn (nAlerts alertsPerDay config)) 0 ++ ps ∧
      ∀ p ∈ ps, 0 < p := by
  rcases Nat.eq_zero_or_pos (nAlerts alertsPerDay config) with hnone | hsome
  · refine ⟨[], ?_, nofun⟩
    rw [alertTimes, hnone]
    exact List.mergeSort_nil
  have hdays := days_pos hrate hsome
  have hperm := List.mergeSort_perm ((List.range (nAlerts alertsPerDay config)).map fun i =>
    rng (drawn + i) * config.days * 24) fun a b => decide (a ≤ b)
  have hcount : (alertTimes rng alertsPerDay config drawn).count 0 =
      zeroDraws rng drawn (nAlerts alertsPerDay config) := by
    rw [alertTimes, hperm.count_eq, List.count_eq_countP, List.countP_map, zeroDraws]
    refine List.countP_congr fun i _ => ?_
    simp [hdays.ne']
  rw [← hcount]
  refine sorted_split alertTimes_sorted fun x hx => ?_
  · obtain ⟨i, -, rfl⟩ := List.mem_map.1 (hperm.subset hx)
    have := (hrng (drawn + i)).1
    positivity

/-- No trade of an alert at time zero is held for no time.  There are slots and money for the
first ones of these alerts, and they sample with the first numbers after the times. -/
def NoInstantTrade (rng : ℕ → ℚ) (roiPool holdHoursPool : List ℚ) (alertsPerDay : ℚ)
    (config : MonteCarloConfig) (drawn : ℕ) : Prop :=
  ∀ j < zeroDraws rng drawn (nAlerts alertsPerDay config), j < config.maxConcurrent →
    (j + 1 : ℕ) * config.tradeSize ≤ config.startCapital →
      sampledHold rng holdHoursPool roiPool.length
        (drawn + nAlerts alertsPerDay config + j) ≠ some 0

def RunConservesMoney (rng : ℕ → ℚ) (roiPool holdHoursPool : List ℚ) (alertsPerDay : ℚ)
    (config : MonteCarloConfig) (drawn : ℕ) : Prop :=
  ∃ s, simulated rng roiPool holdHoursPool alertsPerDay config drawn = .ok s ∧
    Conserves config (nAlerts alertsPerDay config) s

theorem SlotBooks.conserves {s : RunState config.maxConcurrent} {alerts : ℕ}
    (h : SlotBooks config (fun _ => False) s) (hcounted : s.taken + s.skipped = alerts) :
    Conserves config alerts s where
  final := by
    have hzero : ∑ i, s.pendingAmount i * s.pendingRoi i = 0 :=
      Finset.sum_eq_zero fun i _ => by rw [(h.free i not_false).1, zero_mul]
    have hmoney := h.money
    rwa [hzero, add_zero] at hmoney
  taken := h.taken
  counted := hcounted
  paidOnce := fun i => (h.free i not_false).2
  bankroll := h.events

theorem conservesMoney_of_noInstantTrade (hrng : ∀ k, InUnit (rng k)) (hn : 0 < roiPool.length)
    (hlen : roiPool.length ≤ holdHoursPool.length) (hroi : ∀ roi ∈ roiPool, 0 ≤ roi)
    (hhold : ∀ hold ∈ holdHoursPool, 0 ≤ hold) (hrate : 0 ≤ alertsPerDay)
    (hstart : 0 ≤ config.startCapital) (hsize : 0 ≤ config.tradeSize)
    (h : NoInstantTrade rng roiPool holdHoursPool alertsPerDay config drawn) :
    RunConservesMoney rng roiPool holdHoursPool alertsPerDay config drawn := by
  obtain ⟨ps, htimes, hps⟩ := alertTimes_split config drawn hrng hrate
  have hsound : Throwing.Gives (SoundRun config)
      ((alertTimes rng alertsPerDay config drawn).foldlM
        (visitAlert rng roiPool holdHoursPool config)
        (.start config.startCapital config.maxConcurrent
          (drawn + nAlerts alertsPerDay config))) := by
    rw [htimes, List.foldlM_append]
    refine (sound_zeros hrng hn hlen hsize hroi hhold h _ (AtZero.start config _)
      (SoundRun.start hstart _) (Nat.le_of_eq (Nat.zero_add _))).bind fun s hs => ?_
    exact sound_visits hrng hn hlen hsize hroi hhold hps hs
  obtain ⟨s, hs, hsoundEnd⟩ := hsound.exists_ok
  have hcounted := (counted_visits hrng hn hlen _ _).of_eq hs
  refine ⟨s.finish, ?_, hsoundEnd.finish.conserves ?_⟩
  · rw [simulated, hs]
    rfl
  · obtain ⟨htaken, hskipped⟩ := s.finish_counts
    rw [htaken, hskipped, hcounted, alertTimes, List.length_mergeSort, List.length_map,
      List.length_range]
    exact Nat.zero_add _

/-- The first trade that is held for no time loses its stake. -/
theorem lost_of_instantTrade (hrng : ∀ k, InUnit (rng k)) (hn : 0 < roiPool.length)
    (hlen : roiPool.length ≤ holdHoursPool.length) (hrate : 0 ≤ alertsPerDay)
    (hsize : 0 ≤ config.tradeSize)
    (h : ¬ NoInstantTrade rng roiPool holdHoursPool alertsPerDay config drawn) :
    ∃ i, Throwing.Gives (Lost i)
      (simulated rng roiPool holdHoursPool alertsPerDay config drawn) := by
  obtain ⟨ps, htimes, -⟩ := alertTimes_split config drawn hrng hrate
  let Instant : ℕ → Prop := fun j =>
    j < zeroDraws rng drawn (nAlerts alertsPerDay config) ∧ j < config.maxConcurrent ∧
      (j + 1 : ℕ) * config.tradeSize ≤ config.startCapital ∧
        sampledHold rng holdHoursPool roiPool.length
          (drawn + nAlerts alertsPerDay config + j) = some 0
  have hex : ∃ j, Instant j := by
    by_contra hnone
    refine h fun j hz hj henough hhold => hnone ⟨j, hz, hj, henough, hhold⟩
  -- the first of them: the alerts before it take trades that are held for some time
  obtain ⟨j, ⟨hz, hj, henough, hhold⟩, hfirst⟩ :
      ∃ j, Instant j ∧ ∀ i < j, ¬ Instant i :=
    ⟨_, Nat.find_spec hex, fun i hi => Nat.find_min hex hi⟩
  refine ⟨⟨j, hj⟩, ?_⟩
  obtain ⟨more, hmore⟩ := Nat.exists_eq_add_of_lt hz
  have htimes' : alertTimes rng alertsPerDay config drawn =
      List.replicate j 0 ++ 0 :: (List.replicate more 0 ++ ps) := by
    rw [htimes, hmore, Nat.add_assoc, List.replicate_add, List.replicate_succ, List.append_assoc]
    rfl
  have hbefore := taken_zeros hrng hn hlen j
    (AtZero.start config (drawn + nAlerts alertsPerDay config)) fun i hi => by
      have hle : (i + 1 : ℕ) * config.tradeSize ≤ config.startCapital := by
        refine le_trans (mul_le_mul_of_nonneg_right ?_ hsize) henough
        exact_mod_cast Nat.succ_le_succ hi.le
      rw [show (RunState.start config.startCapital config.maxConcurrent _).taken = 0 from rfl,
        Nat.zero_add]
      exact ⟨hi.trans hj, hle, fun hzero => hfirst i hi ⟨hi.trans hz, hi.trans hj, hle, hzero⟩⟩
  unfold simulated
  rw [htimes', List.foldlM_append]
  refine Throwing.Ensures.bind (Q := Lost ⟨j, hj⟩) (hbefore.bind fun s hs => ?_) fun s hs => ?_
  case refine_2 => exact Lost.finish hs
  obtain ⟨hzero, htaken⟩ := hs
  have htaken' : s.taken = j := htaken.trans (Nat.zero_add j)
  rw [List.foldlM_cons]
  rcases hzero.visit hrng hn hlen with
    ⟨hrefused, -⟩ | ⟨idx, hold, -, roi, -, hidx, -, hsampled, hvisit⟩
  · rw [htaken'] at hrefused
    exact absurd ⟨hj, henough⟩ hrefused
  · rw [htaken', hhold] at hsampled
    cases hsampled
    have hidxEq : idx = ⟨j, hj⟩ := Fin.ext (hidx.trans htaken')
    rw [hvisit, ← hidxEq]
    refine lost_visits hrng hn hlen _ (.inl ⟨⟨config.tradeSize, roi⟩, ?_, ?_⟩)
    · refine Eq.trans (slotEvents_self _ rfl) ?_
      rw [hzero.unused idx hidx.ge]
      rfl
    · show Function.update s.busyUntil idx (0 + 0) idx = 0
      rw [Function.update_self, add_zero]

/-- **A Monte Carlo run conserves money** exactly if no trade is taken at time zero and held for
no time.  A stake whose slot counts as free is lost also where no other one lies over it. -/
theorem run_conserves_money_iff (hrng : ∀ k, 0 ≤ rng k ∧ rng k < 1) (hn : roiPool ≠ [])
    (hlen : roiPool.length ≤ holdHoursPool.length) (hroi : ∀ roi ∈ roiPool, 0 ≤ roi)
    (hhold : ∀ hold ∈ holdHoursPool, 0 ≤ hold) (hrate : 0 ≤ alertsPerDay)
    (hstart : 0 ≤ config.startCapital) (hsize : 0 ≤ config.tradeSize) :
    RunConservesMoney rng roiPool holdHoursPool alertsPerDay config drawn ↔
      NoInstantTrade rng roiPool holdHoursPool alertsPerDay config drawn := by
  have hpos := List.length_pos_iff.2 hn
  refine ⟨fun ⟨s, hs, hconserves⟩ => ?_, conservesMoney_of_noInstantTrade hrng hpos hlen hroi hhold
    hrate hstart hsize⟩
  by_contra hinstant
  obtain ⟨i, hlost⟩ := lost_of_instantTrade hrng hpos hlen hrate hsize hinstant
  obtain ⟨stakes, hstakes⟩ := hconserves.paidOnce i
  exact (hlost.of_eq hs).not_settled stakes hstakes

end Whole

theorem half_conserves_money_iff :
    RunConservesMoney (fun _ => 1 / 2) [2, 3] [1, 0] 1 ⟨1, 1, 100, 10, 1, 7⟩ 0 ↔
      NoInstantTrade (fun _ => 1 / 2) [2, 3] [1, 0] 1 ⟨1, 1, 100, 10, 1, 7⟩ 0 :=
  run_conserves_money_iff (fun _ => by norm_num) (by decide) le_rfl (by decide +kernel)
    (by decide +kernel) (by decide +kernel) (by decide +kernel) (by decide +kernel)

/-- An alert at time zero and a trade that is held for no time: its stake is not paid out. -/
theorem stake_at_time_zero :
    ¬ ∀ (rng : ℕ → ℚ) (roiPool holdHoursPool : List ℚ) (alertsPerDay : ℚ)
      (config : MonteCarloConfig), (∀ k, 0 ≤ rng k ∧ rng k < 1) → roiPool ≠ [] →
      holdHoursPool.length = roiPool.length → (∀ roi ∈ roiPool, 0 ≤ roi) →
      (∀ hold ∈ holdHoursPool, 0 ≤ hold) → 0 ≤ alertsPerDay → 0 ≤ config.startCapital →
      0 ≤ config.tradeSize →
        ∃ s, simulated rng roiPool holdHoursPool alertsPerDay config 0 = .ok s ∧
          s.result.final = config.startCapital + earned config.tradeSize (stakes s.events) := by
  intro hall
  let config : MonteCarloConfig := ⟨1, 1, 100, 10, 1, 7⟩
  obtain ⟨s, hs, hfinal⟩ := hall (fun _ => 0) [2] [0] 1 config (fun _ => by norm_num) (by decide)
    rfl (by decide +kernel) (by decide +kernel) (by decide +kernel) (by decide +kernel)
    (by decide +kernel)
  have htimes : alertTimes (fun _ => 0) 1 config 0 = [0] := by
    have hn : nAlerts 1 config = 1 := by decide +kernel
    rw [alertTimes, hn]
    exact (List.mergeSort_singleton _).trans (by decide +kernel)
  have hrun : (simulated (fun _ => 0) [2] [0] 1 config 0).toOption.map
      (fun s => (s.result.final, stakes s.events)) = some (90, [⟨10, 2⟩]) := by
    unfold simulated
    rw [htimes]
    decide +kernel
  rw [hs] at hrun
  obtain ⟨hninety, hstakes⟩ := Prod.mk.inj (Option.some.inj hrun)
  rw [hninety, hstakes] at hfinal
  revert hfinal
  decide +kernel

end Ap3xSolana.Trading.Backtester
