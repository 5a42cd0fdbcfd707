import Ap3xSolana.Lib.Interpolation
import Ap3xSolana.Tx.PriorityFee

/-!
# The window of the fee estimator

A run of updates is recorded next to the estimator's state: every slot that was observed
and every sample that was ingested.  The state then holds what of that record lies in the
window below the highest slot, also where pruning is skipped because the window reaches
below slot zero.

Each tier reads the sorted rates of that window at a fractional position that grows with
its percentile, and interpolation in a sorted list never falls: the tiers are ordered.
-/

namespace Ap3xSolana.Tx.PriorityFee

open Ap3xSolana.Lib.Compaction

/-- `(lastSlot - windowSlots, lastSlot]`. -/
def InWindow (cfg : Config) (lastSlot slot : Int) : Prop :=
  lastSlot - cfg.windowSlots < slot ∧ slot ≤ lastSlot

instance (cfg : Config) (lastSlot slot : Int) : Decidable (InWindow cfg lastSlot slot) :=
  inferInstanceAs (Decidable (_ ∧ _))

/-! ## The record of a run -/

structure Record where
  observed : List Int := []
  ingested : List FeeSample := []
  deriving DecidableEq, Repr

/-- The slots that an update makes the estimator observe. -/
def observedBy (sample? : Option FeeSample) (update : GeyserUpdate) : List Int :=
  ((slotOf update).filter (0 ≤ ·)).toList ++ (sample?.map (·.slot)).toList

def record (cfg : Config) (s : State) (r : Record) (update : GeyserUpdate) : Record :=
  let sample? := sampleOfUpdate (observe cfg s update).lastSlot update
  { observed := r.observed ++ observedBy sample? update
    ingested := r.ingested ++ sample?.toList }

def runStep (cfg : Config) (sr : State × Record) (update : GeyserUpdate) : State × Record :=
  (onUpdate cfg sr.1 update, record cfg sr.1 sr.2 update)

/-- The estimator after a sequence of updates, and its record. -/
def run (cfg : Config) (updates : List GeyserUpdate) : State × Record :=
  updates.foldl (runStep cfg) ({}, {})

/-! ## Pruning -/

/-- Every slot that is kept lies between zero and the highest slot. -/
structure Bounded (s : State) : Prop where
  samples : ∀ x ∈ s.samples, 0 ≤ x.slot ∧ x.slot ≤ s.lastSlot
  slotsSeen : ∀ slot ∈ s.slotsSeen, 0 ≤ slot ∧ slot ≤ s.lastSlot

/-- Whether the loops run or not, what stays is what lies in the window. -/
theorem pruneWindow_eq (cfg : Config) {s : State} (h : Bounded s) :
    pruneWindow cfg s =
      { s with
        samples := s.samples.filter fun x => InWindow cfg s.lastSlot x.slot
        slotsSeen := s.slotsSeen.filter (InWindow cfg s.lastSlot) } := by
  have hkept : (∀ slot, 0 ≤ slot ∧ slot ≤ s.lastSlot → InWindow cfg s.lastSlot slot) →
      s = { s with
        samples := s.samples.filter fun x => InWindow cfg s.lastSlot x.slot
        slotsSeen := s.slotsSeen.filter (InWindow cfg s.lastSlot) } := by
    intro hall
    have hsamples : (s.samples.filter fun x => InWindow cfg s.lastSlot x.slot) = s.samples :=
      List.filter_eq_self.2 fun x hx => decide_eq_true (hall _ (h.samples x hx))
    have hseen : s.slotsSeen.filter (InWindow cfg s.lastSlot) = s.slotsSeen :=
      Finset.filter_eq_self.2 fun slot hslot => hall _ (h.slotsSeen slot hslot)
    rw [hsamples, hseen]
  unfold pruneWindow
  by_cases hempty : s.lastSlot < 0
  · rw [if_pos hempty]
    apply hkept
    intro slot hslot
    omega
  · rw [if_neg hempty]
    by_cases hshort : s.lastSlot - cfg.windowSlots + 1 ≤ 0
    · rw [if_pos hshort]
      apply hkept
      intro slot hslot
      exact ⟨by omega, hslot.2⟩
    · rw [if_neg hshort]
      have hsamples : compact (fun x => s.lastSlot - cfg.windowSlots + 1 ≤ x.slot) s.samples =
          s.samples.filter fun x => InWindow cfg s.lastSlot x.slot := by
        rw [compact_eq_filter]
        apply List.filter_congr
        intro x hx
        have hle := (h.samples x hx).2
        rw [decide_eq_decide, InWindow]
        omega
      have hseen : (s.slotsSeen.filter fun slot => ¬ slot < s.lastSlot - cfg.windowSlots + 1) =
          s.slotsSeen.filter (InWindow cfg s.lastSlot) := by
        apply Finset.filter_congr
        intro slot hslot
        have hle := (h.slotsSeen slot hslot).2
        rw [InWindow]
        omega
      rw [hsamples, hseen]

/-! ## The invariant -/

/-- The state is the part of the record that lies in the window. -/
structure Tracks (cfg : Config) (r : Record) (s : State) : Prop where
  observed : ∀ slot ∈ r.observed, 0 ≤ slot ∧ slot ≤ s.lastSlot
  last : s.lastSlot = -1 ∨ s.lastSlot ∈ r.observed
  ingested : ∀ x ∈ r.ingested, x.slot ∈ r.observed ∧ 0 ≤ x.microLamportsPerCu
  samples : s.samples = r.ingested.filter fun x => InWindow cfg s.lastSlot x.slot
  slotsSeen : s.slotsSeen = r.observed.toFinset.filter (InWindow cfg s.lastSlot)

theorem tracks_empty (cfg : Config) : Tracks cfg {} {} where
  observed _ h := absurd h List.not_mem_nil
  last := .inl rfl
  ingested _ h := absurd h List.not_mem_nil
  samples := rfl
  slotsSeen := rfl

theorem Tracks.bounded {cfg : Config} {r : Record} {s : State} (h : Tracks cfg r s) :
    Bounded s where
  samples x hx := by
    rw [h.samples] at hx
    exact h.observed _ (h.ingested x (List.mem_filter.1 hx).1).1
  slotsSeen slot hslot := by
    rw [h.slotsSeen] at hslot
    exact h.observed _ (List.mem_toFinset.1 (Finset.mem_filter.1 hslot).1)

/-- A higher slot only moves the window up. -/
theorem InWindow.of_le {cfg : Config} {last last' slot : Int} (h : InWindow cfg last' slot)
    (hle : last ≤ last') (hslot : slot ≤ last) : InWindow cfg last slot := by
  unfold InWindow at h ⊢
  omega

theorem lastSlot_pruneWindow (cfg : Config) (s : State) :
    (pruneWindow cfg s).lastSlot = s.lastSlot := by
  unfold pruneWindow
  split
  · rfl
  · dsimp only
    split
    · rfl
    · rfl

theorem observeSlot_tracks {cfg : Config} {r : Record} {s : State} (h : Tracks cfg r s)
    {slot : Int} (hslot : 0 ≤ slot) :
    Tracks cfg { r with observed := r.observed ++ [slot] } (observeSlot cfg s slot) ∧
      s.lastSlot ≤ (observeSlot cfg s slot).lastSlot ∧
      slot ≤ (observeSlot cfg s slot).lastSlot := by
  have hge : -1 ≤ s.lastSlot := by
    rcases h.last with h' | h'
    · omega
    · have := (h.observed _ h').1
      omega
  generalize hlast : (if slot > s.lastSlot then slot else s.lastSlot) = last
  have hsle : s.lastSlot ≤ last := by
    rw [← hlast]
    split
    · omega
    · omega
  have hslotle : slot ≤ last := by
    rw [← hlast]
    split
    · omega
    · omega
  have hbounded : Bounded { s with slotsSeen := insert slot s.slotsSeen, lastSlot := last } := by
    constructor
    · intro x hx
      have := h.bounded.samples x hx
      exact ⟨this.1, le_trans this.2 hsle⟩
    · intro n hn
      rcases Finset.mem_insert.1 hn with rfl | hn
      · exact ⟨hslot, hslotle⟩
      · have := h.bounded.slotsSeen n hn
        exact ⟨this.1, le_trans this.2 hsle⟩
  have heq : observeSlot cfg s slot =
      pruneWindow cfg { s with slotsSeen := insert slot s.slotsSeen, lastSlot := last } := by
    rw [observeSlot, if_neg (by omega), hlast]
  rw [heq, pruneWindow_eq cfg hbounded]
  refine ⟨?_, hsle, hslotle⟩
  constructor
  case observed =>
    intro n hn
    rcases List.mem_append.1 hn with hn | hn
    · have := h.observed n hn
      exact ⟨this.1, le_trans this.2 hsle⟩
    · rw [List.mem_singleton.1 hn]
      exact ⟨hslot, hslotle⟩
  case last =>
    right
    show last ∈ r.observed ++ [slot]
    rw [← hlast]
    split
    · exact List.mem_append_right _ (List.mem_singleton.2 rfl)
    · rcases h.last with h' | h'
      · omega
      · exact List.mem_append_left _ h'
  case ingested =>
    intro x hx
    exact ⟨List.mem_append_left _ (h.ingested x hx).1, (h.ingested x hx).2⟩
  case samples =>
    show s.samples.filter _ = _
    rw [h.samples, List.filter_filter]
    apply List.filter_congr
    intro x hx
    have hx' := h.observed _ (h.ingested x hx).1
    rw [← Bool.decide_and, decide_eq_decide, and_iff_left_iff_imp]
    exact fun hin => hin.of_le hsle hx'.2
  case slotsSeen =>
    show (insert slot s.slotsSeen).filter _ = _
    ext n
    rw [h.slotsSeen]
    simp only [Finset.mem_filter, Finset.mem_insert, List.mem_toFinset, List.mem_append,
      List.mem_singleton]
    constructor
    · rintro ⟨rfl | ⟨hn, -⟩, hin⟩
      · exact ⟨.inr rfl, hin⟩
      · exact ⟨.inl hn, hin⟩
    · rintro ⟨hn | rfl, hin⟩
      · exact ⟨.inr ⟨hn, hin.of_le hsle (h.observed n hn).2⟩, hin⟩
      · exact ⟨.inl rfl, hin⟩

theorem ingestSample_tracks {cfg : Config} {r : Record} {s : State} (h : Tracks cfg r s)
    {sample : FeeSample} (hslot : 0 ≤ sample.slot) (hrate : 0 ≤ sample.microLamportsPerCu) :
    Tracks cfg { observed := r.observed ++ [sample.slot], ingested := r.ingested ++ [sample] }
        (ingestSample cfg s sample) ∧
      s.lastSlot ≤ (ingestSample cfg s sample).lastSlot := by
  obtain ⟨htracks, hsle, hslotle⟩ := observeSlot_tracks h hslot
  unfold ingestSample
  rw [if_neg (not_lt.2 hrate)]
  dsimp only
  generalize observeSlot cfg s sample.slot = s' at htracks hsle hslotle
  have hbounded : Bounded { s' with samples := s'.samples ++ [sample] } := by
    constructor
    · intro x hx
      rcases List.mem_append.1 hx with hx | hx
      · exact htracks.bounded.samples x hx
      · rw [List.mem_singleton.1 hx]
        exact ⟨hslot, hslotle⟩
    · exact htracks.bounded.slotsSeen
  rw [pruneWindow_eq cfg hbounded]
  refine ⟨?_, hsle⟩
  constructor
  case observed => exact htracks.observed
  case last => exact htracks.last
  case ingested =>
    intro x hx
    rcases List.mem_append.1 hx with hx | hx
    · exact htracks.ingested x hx
    · rw [List.mem_singleton.1 hx]
      exact ⟨List.mem_append_right _ (List.mem_singleton.2 rfl), hrate⟩
  case samples =>
    show (s'.samples ++ [sample]).filter _ = _
    rw [htracks.samples, List.filter_append, List.filter_filter]
    simp only [Bool.and_self]
    rw [← List.filter_append]
  case slotsSeen =>
    show s'.slotsSeen.filter _ = _
    rw [htracks.slotsSeen, Finset.filter_filter]
    simp only [and_self]

theorem sampleOf_nonneg {lastSlot : Int} {tx : TransactionUpdate} {sample : FeeSample}
    (h : sampleOf lastSlot tx = some sample) :
    0 ≤ sample.slot ∧ 0 ≤ sample.microLamportsPerCu := by
  unfold sampleOf at h
  cases htx : tx.info with
  | none =>
      rw [htx] at h
      cases h
  | some info =>
      rw [htx] at h
      dsimp only at h
      split at h
      · cases h
      · split at h
        · rename_i fee units _ _
          split at h
          · cases h
          · rename_i hunits
            split at h
            · cases h
            · rename_i hfee
              split at h
              · cases h
              · rename_i hslot
                cases h
                refine ⟨not_lt.1 hslot, div_nonneg (mul_nonneg (not_lt.1 hfee) ?_)
                  (le_of_lt (not_le.1 hunits))⟩
                rw [microlamportsPerLamport]
                decide
        · cases h

/-- Reading an update keeps the state in step with the record, and the highest slot never
falls. -/
theorem onUpdate_tracks {cfg : Config} {r : Record} {s : State} (h : Tracks cfg r s)
    (update : GeyserUpdate) :
    Tracks cfg (record cfg s r update) (onUpdate cfg s update) ∧
      s.lastSlot ≤ (onUpdate cfg s update).lastSlot := by
  have hobserve : Tracks cfg
        { r with observed := r.observed ++ ((slotOf update).filter (0 ≤ ·)).toList }
        (observe cfg s update) ∧
      s.lastSlot ≤ (observe cfg s update).lastSlot := by
    unfold observe
    cases slotOf update with
    | none =>
        dsimp only [Option.filter, Option.toList]
        rw [List.append_nil]
        exact ⟨h, le_refl _⟩
    | some slot =>
        by_cases hslot : 0 ≤ slot
        · obtain ⟨htracks, hle, -⟩ := observeSlot_tracks h hslot
          have hkeep : ((some slot).filter (0 ≤ ·)).toList = [slot] := by
            rw [Option.filter_some_pos (by simpa using hslot)]
            rfl
          rw [hkeep]
          exact ⟨htracks, hle⟩
        · have hdrop : ((some slot).filter (0 ≤ ·)).toList = ([] : List Int) := by
            rw [Option.filter_some_neg (by simpa using hslot)]
            rfl
          have hsame : observeSlot cfg s slot = s := by
            rw [observeSlot, if_pos (by omega)]
          rw [hdrop, List.append_nil]
          dsimp only
          rw [hsame]
          exact ⟨h, le_refl _⟩
  obtain ⟨htracks, hle⟩ := hobserve
  unfold onUpdate record observedBy
  dsimp only
  cases hsample : sampleOfUpdate (observe cfg s update).lastSlot update with
  | none =>
      rw [Option.map_none]
      show Tracks cfg { observed := r.observed ++ (_ ++ []), ingested := r.ingested ++ [] } _ ∧ _
      rw [List.append_nil, List.append_nil]
      exact ⟨htracks, hle⟩
  | some sample =>
      have hnonneg : 0 ≤ sample.slot ∧ 0 ≤ sample.microLamportsPerCu := by
        unfold sampleOfUpdate at hsample
        split at hsample
        · cases hsample
        · obtain ⟨tx, -, htx⟩ := Option.bind_eq_some_iff.1 hsample
          exact sampleOf_nonneg htx
      obtain ⟨hingest, hle'⟩ := ingestSample_tracks htracks hnonneg.1 hnonneg.2
      show Tracks cfg { observed := r.observed ++ (_ ++ [sample.slot])
                        ingested := r.ingested ++ [sample] } _ ∧ _
      rw [← List.append_assoc]
      exact ⟨hingest, le_trans hle hle'⟩

theorem run_tracks (cfg : Config) (updates : List GeyserUpdate) :
    Tracks cfg (run cfg updates).2 (run cfg updates).1 := by
  induction updates using List.reverseRecOn with
  | nil => exact tracks_empty cfg
  | append_singleton updates update ih =>
      rw [run, List.foldl_append]
      exact (onUpdate_tracks ih update).1

open Ap3xSolana.Lib.Interpolation

/-! ## The quantile -/

/-- Inside `(0, 1)` the quantile interpolates at `p * (n - 1)`. -/
theorem quantile_eq {xs : List Rat} (hne : xs ≠ []) {p : Rat} (hp : 0 < p) (hp1 : p < 1) :
    quantile xs p = some (interpolate xs (p * ((xs.length : Rat) - 1))) := by
  have hlen : xs.length ≠ 0 := fun h => hne (List.length_eq_zero_iff.1 h)
  unfold quantile
  rw [if_neg hlen, if_neg (not_le.2 hp), if_neg (not_le.2 hp1)]
  dsimp only
  by_cases hwhole : ⌊p * ((xs.length : Rat) - 1)⌋₊ = ⌈p * ((xs.length : Rat) - 1)⌉₊
  · rw [if_pos hwhole, interpolate, ← hwhole]
    congr 1
    ring
  · rw [if_neg hwhole]
    rfl

/-- The position of a percentile lies between the first and the last element. -/
theorem position_bounds {n : Nat} (hn : 0 < n) {p : Rat} (hp : 0 ≤ p) (hp1 : p ≤ 1) :
    0 ≤ p * ((n : Rat) - 1) ∧ ⌈p * ((n : Rat) - 1)⌉₊ < n := by
  have hone : (1 : Rat) ≤ n := by exact_mod_cast hn
  have hlast : 0 ≤ (n : Rat) - 1 := by linarith
  refine ⟨mul_nonneg hp hlast, ?_⟩
  have hle : p * ((n : Rat) - 1) ≤ ((n - 1 : Nat) : Rat) := by
    rw [Nat.cast_sub hn, Nat.cast_one]
    calc
      p * ((n : Rat) - 1) ≤ 1 * ((n : Rat) - 1) := mul_le_mul_of_nonneg_right hp1 hlast
      _ = (n : Rat) - 1 := one_mul _
  have hceil := Nat.ceil_le.2 hle
  omega

section Sorted

variable {xs : List Rat} (hsorted : xs.Pairwise (· ≤ ·)) (hne : xs ≠ [])
include hsorted hne

theorem quantile_mono {p q : Rat} (hp : 0 < p) (hpq : p ≤ q) (hq : q < 1) {a b : Rat}
    (ha : quantile xs p = some a) (hb : quantile xs q = some b) : a ≤ b := by
  rw [quantile_eq hne hp (lt_of_le_of_lt hpq hq)] at ha
  rw [quantile_eq hne (lt_of_lt_of_le hp hpq) hq] at hb
  cases ha
  cases hb
  have hpos : 0 < xs.length := List.length_pos_of_ne_nil hne
  have hone : (1 : Rat) ≤ xs.length := by exact_mod_cast hpos
  apply interpolate_mono hsorted (position_bounds hpos hp.le (hpq.trans hq.le)).1
  · exact mul_le_mul_of_nonneg_right hpq (by linarith)
  · exact (position_bounds hpos (hp.le.trans hpq) hq.le).2

/-- A quantile lies between two elements of the list. -/
theorem quantile_between {p : Rat} (hp : 0 < p) (hp1 : p < 1) {a : Rat}
    (ha : quantile xs p = some a) : (∃ x ∈ xs, x ≤ a) ∧ ∃ x ∈ xs, a ≤ x := by
  rw [quantile_eq hne hp hp1] at ha
  cases ha
  have hpos : 0 < xs.length := List.length_pos_of_ne_nil hne
  obtain ⟨hx, hceil⟩ := position_bounds hpos hp.le hp1.le
  have hmem : ∀ i, i < xs.length → xs.getD i 0 ∈ xs := by
    intro i hi
    rw [List.getD_eq_getElem _ _ hi]
    exact List.getElem_mem hi
  have hfloor := lt_of_le_of_lt (Nat.floor_le_ceil (p * ((xs.length : Rat) - 1))) hceil
  exact ⟨⟨_, hmem _ hfloor, floor_le_interpolate hsorted hx hceil⟩,
    ⟨_, hmem _ hceil, interpolate_le_ceil hsorted hceil⟩⟩

end Sorted

/-! ## The tiers -/

theorem sortedRates_sorted (s : State) : (sortedRates s).Pairwise (· ≤ ·) := by
  have h : (sortedRates s).Pairwise fun a b => decide (a ≤ b) = true := by
    apply List.pairwise_mergeSort
    · intro a b c hab hbc
      rw [decide_eq_true_eq] at *
      exact le_trans hab hbc
    · intro a b
      rw [Bool.or_eq_true, decide_eq_true_eq, decide_eq_true_eq]
      exact le_total a b
  exact h.imp fun hab => of_decide_eq_true hab

theorem mem_sortedRates {s : State} {x : Rat} :
    x ∈ sortedRates s ↔ ∃ sample ∈ s.samples, sample.microLamportsPerCu = x := by
  rw [sortedRates, List.mem_mergeSort, List.mem_map]

/-- A percentile of a non-empty window. -/
theorem quantile_isSome {xs : List Rat} (hne : xs ≠ []) (t : FeeTier) :
    ∃ a, quantile xs (tierPercentile t) = some a := by
  rw [quantile_eq hne]
  · exact ⟨_, rfl⟩
  · cases t <;> norm_num [tierPercentile]
  · cases t <;> norm_num [tierPercentile]

/-- The tiers before their samples: during warm-up, and when the window has none. -/
theorem tier_default {cfg : Config} {s : State}
    (h : isWarmup cfg s = true ∨ sortedRates s = []) (t : FeeTier) :
    tier cfg s t = warmupDefaults t := by
  unfold tier
  rcases h with h | h
  · rw [if_pos h]
  · rw [h]
    split
    · rfl
    · rfl

theorem tier_of_quantile {cfg : Config} {s : State} (hwarm : isWarmup cfg s = false)
    {t : FeeTier} {a : Rat} (ha : quantile (sortedRates s) (tierPercentile t) = some a) :
    tier cfg s t = if t = .turbo then a * (11 / 10) else a := by
  unfold tier
  rw [hwarm, ha]
  rfl

/-- `low ≤ med ≤ high ≤ turbo`, if no rate is negative. -/
theorem tiers_ordered (cfg : Config) {s : State}
    (hrates : ∀ x ∈ s.samples, 0 ≤ x.microLamportsPerCu) :
    tier cfg s .low ≤ tier cfg s .med ∧ tier cfg s .med ≤ tier cfg s .high ∧
      tier cfg s .high ≤ tier cfg s .turbo := by
  by_cases hlive : isWarmup cfg s = false ∧ sortedRates s ≠ []
  · obtain ⟨hwarm, hne⟩ := hlive
    obtain ⟨low, hlow⟩ := quantile_isSome hne .low
    obtain ⟨med, hmed⟩ := quantile_isSome hne .med
    obtain ⟨high, hhigh⟩ := quantile_isSome hne .high
    obtain ⟨top, htop⟩ := quantile_isSome hne .turbo
    have hsorted := sortedRates_sorted s
    have hlm : low ≤ med := quantile_mono hsorted hne (by norm_num [tierPercentile])
      (by norm_num [tierPercentile]) (by norm_num [tierPercentile]) hlow hmed
    have hmh : med ≤ high := quantile_mono hsorted hne (by norm_num [tierPercentile])
      (by norm_num [tierPercentile]) (by norm_num [tierPercentile]) hmed hhigh
    have hht : high ≤ top := quantile_mono hsorted hne (by norm_num [tierPercentile])
      (by norm_num [tierPercentile]) (by norm_num [tierPercentile]) hhigh htop
    have hnonneg : 0 ≤ top := by
      obtain ⟨⟨x, hx, hle⟩, -⟩ := quantile_between hsorted hne
        (by norm_num [tierPercentile]) (by norm_num [tierPercentile]) htop
      obtain ⟨sample, hsample, rfl⟩ := mem_sortedRates.1 hx
      exact le_trans (hrates sample hsample) hle
    rw [tier_of_quantile hwarm hlow, tier_of_quantile hwarm hmed, tier_of_quantile hwarm hhigh,
      tier_of_quantile hwarm htop]
    refine ⟨hlm, hmh, ?_⟩
    show high ≤ top * (11 / 10)
    linarith
  · have hdefault : isWarmup cfg s = true ∨ sortedRates s = [] := by
      by_contra hnot
      rw [not_or, Bool.not_eq_true] at hnot
      exact hlive hnot
    rw [tier_default hdefault, tier_default hdefault, tier_default hdefault,
      tier_default hdefault]
    refine ⟨?_, ?_, ?_⟩ <;> norm_num [warmupDefaults]

/-- After warm-up the tiers below turbo lie between two retained rates. -/
theorem tier_between {cfg : Config} {s : State} (hwarm : isWarmup cfg s = false)
    (hsamples : s.samples ≠ []) {t : FeeTier} (ht : t ≠ .turbo) :
    (∃ x ∈ s.samples, x.microLamportsPerCu ≤ tier cfg s t) ∧
      ∃ x ∈ s.samples, tier cfg s t ≤ x.microLamportsPerCu := by
  have hne : sortedRates s ≠ [] := by
    intro h
    obtain ⟨x, hx⟩ := List.exists_mem_of_ne_nil _ hsamples
    have hin : x.microLamportsPerCu ∈ sortedRates s := mem_sortedRates.2 ⟨x, hx, rfl⟩
    rw [h] at hin
    cases hin
  obtain ⟨a, ha⟩ := quantile_isSome hne t
  rw [tier_of_quantile hwarm ha, if_neg ht]
  obtain ⟨⟨x, hx, hle⟩, y, hy, hge⟩ := quantile_between (sortedRates_sorted s) hne
    (by cases t <;> norm_num [tierPercentile]) (by cases t <;> norm_num [tierPercentile]) ha
  obtain ⟨sample, hsample, rfl⟩ := mem_sortedRates.1 hx
  obtain ⟨sample', hsample', rfl⟩ := mem_sortedRates.1 hy
  exact ⟨⟨sample, hsample, hle⟩, sample', hsample', hge⟩

/-- After every sequence of updates the window is exact, the highest slot does not fall
with the next update, and the tiers are ordered and, after warm-up, within the retained
rates. -/
theorem fee_window_exact (cfg : Config) (updates : List GeyserUpdate) :
    (run cfg updates).1.samples = (run cfg updates).2.ingested.filter
      (fun x => InWindow cfg (run cfg updates).1.lastSlot x.slot) ∧
    (∀ slot, slot ∈ (run cfg updates).1.slotsSeen ↔
      slot ∈ (run cfg updates).2.observed ∧
        InWindow cfg (run cfg updates).1.lastSlot slot) ∧
    ((run cfg updates).1.lastSlot = -1 ∧ (run cfg updates).2.observed = [] ∨
      (run cfg updates).1.lastSlot ∈ (run cfg updates).2.observed ∧
        ∀ slot ∈ (run cfg updates).2.observed, slot ≤ (run cfg updates).1.lastSlot) ∧
    (∀ update, (run cfg updates).1.lastSlot ≤ (run cfg (updates ++ [update])).1.lastSlot) ∧
    (tier cfg (run cfg updates).1 .low ≤ tier cfg (run cfg updates).1 .med ∧
      tier cfg (run cfg updates).1 .med ≤ tier cfg (run cfg updates).1 .high ∧
      tier cfg (run cfg updates).1 .high ≤ tier cfg (run cfg updates).1 .turbo) ∧
    (isWarmup cfg (run cfg updates).1 = false → (run cfg updates).1.samples ≠ [] →
      ∀ t, t ≠ FeeTier.turbo →
        (∃ x ∈ (run cfg updates).1.samples,
          x.microLamportsPerCu ≤ tier cfg (run cfg updates).1 t) ∧
        ∃ x ∈ (run cfg updates).1.samples,
          tier cfg (run cfg updates).1 t ≤ x.microLamportsPerCu) := by
  have h := run_tracks cfg updates
  refine ⟨h.samples, ?_, ?_, ?_, ?_, fun hwarm hsamples t ht => tier_between hwarm hsamples ht⟩
  · intro slot
    rw [h.slotsSeen, Finset.mem_filter, List.mem_toFinset]
  · rcases h.last with hnone | hlast
    · left
      refine ⟨hnone, List.eq_nil_iff_forall_not_mem.2 fun slot hslot => ?_⟩
      have hbounds := h.observed slot hslot
      omega
    · exact .inr ⟨hlast, fun slot hslot => (h.observed slot hslot).2⟩
  · intro update
    have hstep := (onUpdate_tracks h update).2
    have hrun : run cfg (updates ++ [update]) = runStep cfg (run cfg updates) update := by
      rw [run, List.foldl_append]
      rfl
    rw [hrun]
    exact hstep
  · apply tiers_ordered
    intro x hx
    rw [h.samples] at hx
    exact (h.ingested x (List.mem_filter.1 hx).1).2

end Ap3xSolana.Tx.PriorityFee
