import Ap3xSolana.Executor.BundleDelivery
import Ap3xSolana.Lib.Table

/-!
# Each entry is delivered once

`DeliveryInv` accounts for the calls of `add`: every one has its entry in a batch or in
a group (`placed`), group by group in the order of the calls (`inOrder`).
-/

namespace Ap3xSolana.Executor

open Ap3xSolana.Lib Ap3xSolana.Lib.Run

/-! ## Where the entries are -/

/-- The entries that were added to a group, in order. -/
def added (calls : List AddCall) (group : String) : List PendingEntry :=
  (calls.map fun c => (c.group, c.entry)).zipIdx.filterMap fun p =>
    if p.1.1 = group then some { entry := p.1.2, owner := p.2 } else none

/-- The entries of a group that were flushed, batch by batch. -/
def flushedOf (batches : List Batch) (group : String) : List PendingEntry :=
  batches.flatMap fun b => if b.group = group then b.entries else []

/-- All entries that were flushed. -/
def allFlushed (batches : List Batch) : List PendingEntry :=
  batches.flatMap (·.entries)

theorem added_append (calls : List AddCall) (c : AddCall) (group : String) :
    added (calls ++ [c]) group = added calls group ++
      if c.group = group then [{ entry := c.entry, owner := calls.length }] else [] := by
  unfold added
  rw [List.map_append, List.zipIdx_append, List.filterMap_append, List.length_map,
    Nat.zero_add]
  congr 1
  simp only [List.map_cons, List.map_nil, List.zipIdx_cons, List.zipIdx_nil,
    List.filterMap_cons, List.filterMap_nil]
  by_cases hgroup : c.group = group
  · simp only [hgroup, if_true]
  · simp only [hgroup, if_false]

theorem mem_added {calls : List AddCall} {group : String} {e : PendingEntry}
    (h : e ∈ added calls group) :
    ∃ c, calls[e.owner]? = some c ∧ c.group = group ∧ c.entry = e.entry := by
  obtain ⟨p, hp, hmatch⟩ := List.mem_filterMap.1 h
  rw [List.mem_zipIdx_iff_getElem?, List.getElem?_map] at hp
  obtain ⟨c, hc, heq⟩ := Option.map_eq_some_iff.1 hp
  split at hmatch
  · rename_i hgroup
    cases hmatch
    rw [← heq] at hgroup
    exact ⟨c, hc, hgroup, by rw [← heq]⟩
  · cases hmatch

theorem flushedOf_append (batches : List Batch) (b : Batch) (group : String) :
    flushedOf (batches ++ [b]) group =
      flushedOf batches group ++ if b.group = group then b.entries else [] := by
  unfold flushedOf
  rw [List.flatMap_append, List.flatMap_singleton]

theorem allFlushed_append (batches : List Batch) (b : Batch) :
    allFlushed (batches ++ [b]) = allFlushed batches ++ b.entries := by
  unfold allFlushed
  rw [List.flatMap_append, List.flatMap_singleton]

theorem mem_pending_of_waiting {b : BundleAccumulator} {group : String} {e : PendingEntry}
    (h : e ∈ b.waiting group) : e ∈ b.pending := by
  unfold BundleAccumulator.waiting at h
  cases hacc : b.groups.get? group with
  | none =>
      rw [hacc] at h
      cases h
  | some acc =>
      rw [hacc] at h
      exact List.mem_flatMap.2 ⟨acc, OrderedMap.mem_values_of_get? hacc, h⟩

theorem exists_waiting_of_pending {b : BundleAccumulator} {e : PendingEntry}
    (h : e ∈ b.pending) : ∃ group, e ∈ b.waiting group := by
  obtain ⟨acc, hacc, he⟩ := List.mem_flatMap.1 h
  obtain ⟨group, hget⟩ := OrderedMap.exists_get?_of_mem_values hacc
  apply Exists.intro group
  unfold BundleAccumulator.waiting
  rw [hget]
  exact he

/-! ## Settling -/

private theorem settle_from (outcome : Except String (List String))
    (entries : List PendingEntry) : ∀ (n : Nat) (calls : List AddCall),
      ((entries.zipIdx n).foldl (settleCall outcome) calls).map
          (fun c => (c.group, c.entry)) = calls.map (fun c => (c.group, c.entry)) ∧
      (∀ k, (∀ e ∈ entries, e.owner ≠ k) →
        ((entries.zipIdx n).foldl (settleCall outcome) calls)[k]? = calls[k]?) ∧
      ((entries.map (·.owner)).Nodup → ∀ (i : Nat) (e : PendingEntry) (c : AddCall),
        entries[i]? = some e → calls[e.owner]? = some c →
          ((entries.zipIdx n).foldl (settleCall outcome) calls)[e.owner]? =
            some { c with outcome := some (settledWith outcome (n + i)) }) := by
  induction entries with
  | nil => exact fun n calls => ⟨rfl, fun _ _ => rfl, fun _ i e c h => by simp at h⟩
  | cons e entries ih =>
      intro n calls
      obtain ⟨hmap, hothers, hown⟩ := ih (n + 1) (settleCall outcome calls (e, n))
      refine ⟨hmap.trans ?_, fun k hk => ?_, fun hnodup i e' c he' hc => ?_⟩
      · apply List.ext_getElem?
        intro k
        rw [settleCall, List.getElem?_map, List.getElem?_map, List.getElem?_modify]
        cases calls[k]? with
        | none => rfl
        | some c =>
            by_cases hk : e.owner = k
            · simp [hk]
            · simp [hk]
      · have hne : e.owner ≠ k := hk e List.mem_cons_self
        refine (hothers k fun e' he' => hk e' (List.mem_cons_of_mem _ he')).trans ?_
        exact List.getElem?_modify_ne _ _ hne
      · rw [List.map_cons, List.nodup_cons] at hnodup
        cases i with
        | zero =>
            cases he'
            refine (hothers e.owner fun e' he' heq => ?_).trans ?_
            · exact hnodup.1 (heq ▸ List.mem_map_of_mem he')
            · rw [settleCall, List.getElem?_modify_eq, hc]
              rfl
        | succ i =>
            rw [List.getElem?_cons_succ] at he'
            have hne : e.owner ≠ e'.owner := fun heq =>
              hnodup.1 (heq ▸ List.mem_map_of_mem (List.mem_of_getElem? he'))
            have hc' : (settleCall outcome calls (e, n))[e'.owner]? = some c := by
              rw [settleCall, List.getElem?_modify_ne _ _ hne]
              exact hc
            have hsettled := hown hnodup.2 i e' c he' hc'
            rw [Nat.add_assoc, Nat.add_comm 1 i] at hsettled
            exact hsettled

theorem settleCalls_map (calls : List AddCall) (entries : List PendingEntry)
    (outcome : Except String (List String)) :
    (settleCalls calls entries outcome).map (fun c => (c.group, c.entry)) =
      calls.map fun c => (c.group, c.entry) :=
  (settle_from outcome entries 0 calls).1

/-- Calls without an entry in the batch are left alone. -/
theorem getElem?_settleCalls_of_ne {calls : List AddCall} {entries : List PendingEntry}
    {outcome : Except String (List String)} {k : Nat} (h : ∀ e ∈ entries, e.owner ≠ k) :
    (settleCalls calls entries outcome)[k]? = calls[k]? :=
  (settle_from outcome entries 0 calls).2.1 k h

/-- Every call gets the result at the position of its entry. -/
theorem getElem?_settleCalls {calls : List AddCall} {entries : List PendingEntry}
    {outcome : Except String (List String)} (hnodup : (entries.map (·.owner)).Nodup)
    {i : Nat} {e : PendingEntry} {c : AddCall} (he : entries[i]? = some e)
    (hc : calls[e.owner]? = some c) :
    (settleCalls calls entries outcome)[e.owner]? =
      some { c with outcome := some (settledWith outcome i) } := by
  have hsettled := (settle_from outcome entries 0 calls).2.2 hnodup i e c he hc
  rw [Nat.zero_add] at hsettled
  exact hsettled

/-! ## The invariant -/

structure DeliveryInv (maxPerBundle : Int) (st : DeliveryState) : Prop where
  timed : st.accumulator.Timed
  placed : ((allFlushed st.batches ++ st.accumulator.pending).map (·.owner)).Perm
    (List.range st.calls.length)
  inOrder : ∀ group, flushedOf st.batches group ++ st.accumulator.waiting group =
    added st.calls group
  sizes : ∀ b ∈ st.batches, b.entries ≠ [] ∧ (b.entries.length : Int) ≤ maxPerBundle
  room : ∀ group, ((st.accumulator.waiting group).length : Int) < maxPerBundle
  settled : ∀ b ∈ st.batches, ∀ i e, b.entries[i]? = some e →
    ∃ c, st.calls[e.owner]? = some c ∧ c.outcome = b.outcome.map (settledWith · i)
  unsettled : ∀ e ∈ st.accumulator.pending,
    ∃ c, st.calls[e.owner]? = some c ∧ c.outcome = none
  arming : st.armedBy.length = st.accumulator.nextTimer
  /-- The timer of a group was armed by its first entry. -/
  armed : ∀ group t, st.accumulator.timerOf group = some t →
    ∃ k, st.armedBy[t]? = some k ∧
      (st.accumulator.waiting group).head?.map (·.owner) = some k
  timers : ∀ b ∈ st.batches, ∀ t, b.timer = some t →
    ∃ k, st.armedBy[t]? = some k ∧ b.entries.head?.map (·.owner) = some k

theorem deliveryInv_init {maxPerBundle : Int} (hmax : 1 ≤ maxPerBundle) :
    DeliveryInv maxPerBundle {} where
  timed := BundleAccumulator.timed_init
  placed := List.Perm.refl _
  inOrder _ := rfl
  sizes := List.forall_mem_nil _
  room _ := hmax
  settled := List.forall_mem_nil _
  unsettled := List.forall_mem_nil _
  arming := rfl
  armed group t h := by cases h
  timers := List.forall_mem_nil _

theorem DeliveryInv.fire {maxPerBundle : Int} {st st' : DeliveryState} {timer : Nat}
    (h : DeliveryInv maxPerBundle st) (hfire : fireTimer st timer = some st') :
    DeliveryInv maxPerBundle st' := by
  unfold fireTimer at hfire
  split at hfire
  swap
  · cases hfire
  rename_i t group accumulator batch hfind hfired
  cases hfire
  obtain ⟨htimed, group', hmem, htimer, hsome, rfl, hflushed⟩ := h.timed.fire hfired
  have hgroup : group' = group := by
    have hfind' := h.timed.find?_of_mem hmem
    rw [hfind] at hfind'
    exact (congrArg Prod.snd (Option.some.inj hfind')).symm
  subst hgroup
  have hperm := fire_perm hfired
  rw [Option.getD_some] at hperm
  refine ⟨htimed, ?_, fun g => ?_, fun b hb => ?_, fun g => ?_, fun b hb i e he => ?_,
    fun e he => ?_, ?_, fun g t htg => ?_, fun b hb t ht => ?_⟩
  · simp only [Option.map_some, Option.toList_some]
    rw [allFlushed_append, List.append_assoc]
    exact ((List.Perm.append_left _ hperm).map _).trans h.placed
  · simp only [Option.map_some, Option.toList_some]
    rw [flushedOf_append, hflushed.waiting, ← h.inOrder g]
    by_cases hg : g = group'
    · rw [if_pos hg, if_pos hg.symm, List.append_nil, hg]
    · rw [if_neg hg, if_neg (Ne.symm hg), List.append_nil]
  · rcases List.mem_append.1 hb with hold | hnew
    · exact h.sizes b hold
    · cases List.mem_singleton.1 hnew
      exact ⟨hsome, (h.room group').le⟩
  · rw [hflushed.waiting]
    split
    · exact lt_of_le_of_lt (Int.natCast_nonneg _) (h.room group')
    · exact h.room g
  · rcases List.mem_append.1 hb with hold | hnew
    · exact h.settled b hold i e he
    · cases List.mem_singleton.1 hnew
      exact h.unsettled e (mem_pending_of_waiting (List.mem_of_getElem? he))
  · exact h.unsettled e (hperm.subset (List.mem_append_right _ he))
  · rw [hflushed.nextTimer]
    exact h.arming
  · rw [hflushed.timerOf] at htg
    split at htg
    · cases htg
    · rename_i hg
      rw [hflushed.waiting, if_neg hg]
      exact h.armed g t htg
  · rcases List.mem_append.1 hb with hold | hnew
    · exact h.timers b hold t ht
    · cases List.mem_singleton.1 hnew
      obtain rfl : timer = t := Option.some.inj ht
      exact h.armed group' timer htimer

theorem DeliveryInv.add {maxPerBundle : Int} {st : DeliveryState}
    (h : DeliveryInv maxPerBundle st) (group : String) (entry : BundleEntry) :
    DeliveryInv maxPerBundle (addCall maxPerBundle st group entry) := by
  have hperm := add_perm maxPerBundle st.accumulator group
    { entry := entry, owner := st.calls.length }
  obtain ⟨hadded, htimed⟩ := h.timed.add maxPerBundle group
    { entry := entry, owner := st.calls.length }
  unfold addCall
  dsimp only
  generalize hb' : (st.accumulator.add maxPerBundle group
    { entry := entry, owner := st.calls.length }).1 = b' at *
  generalize (st.accumulator.add maxPerBundle group
    { entry := entry, owner := st.calls.length }).2 = batch at *
  have hkeep : ∀ (k : Nat) (c : AddCall), st.calls[k]? = some c →
      (st.calls ++ [{ group := group, entry := entry }])[k]? = some c := by
    intro k c hc
    rw [List.getElem?_append_left (List.getElem?_eq_some_iff.1 hc).1]
    exact hc
  have hold : ∀ e : PendingEntry, ∀ o : Option (Except String String),
      (∃ c, st.calls[e.owner]? = some c ∧ c.outcome = o) →
        ∃ c, (st.calls ++ [{ group := group, entry := entry }])[e.owner]? = some c ∧
          c.outcome = o := by
    intro e o ⟨c, hc, ho⟩
    exact ⟨c, hkeep e.owner c hc, ho⟩
  -- the entries that wait or are flushed now, and the calls they belong to
  have hnew : ∀ e : PendingEntry, e ∈ batch.getD [] ++ b'.pending →
      ∃ c, (st.calls ++ [{ group := group, entry := entry }])[e.owner]? = some c ∧
        c.outcome = none := by
    intro e he
    rcases List.mem_cons.1 (hperm.subset he) with rfl | he
    · exact ⟨{ group := group, entry := entry }, List.getElem?_concat_length, rfl⟩
    · exact hold e none (h.unsettled e he)
  have hplaced : ((allFlushed st.batches ++ (batch.getD [] ++ b'.pending)).map
      (·.owner)).Perm (List.range (st.calls ++
        [({ group := group, entry := entry } : AddCall)]).length) := by
    rw [List.length_append, List.length_singleton, List.range_succ]
    refine ((List.Perm.append_left _ hperm).map _).trans ?_
    refine (List.perm_middle.map _).trans ?_
    exact (List.Perm.cons _ h.placed).trans (List.perm_append_singleton _ _).symm
  cases hadded with
  | full hsize hwaiting htimerOf hnext =>
      rw [Option.getD_some] at hnew hplaced
      refine ⟨htimed, ?_, fun g => ?_, fun b hb => ?_, fun g => ?_, fun b hb i e he => ?_,
        fun e he => hnew e (List.mem_append_right _ he), ?_, fun g t htg => ?_,
        fun b hb t ht => ?_⟩
      · simp only [Option.map_some, Option.toList_some]
        rw [allFlushed_append, List.append_assoc]
        exact hplaced
      · simp only [Option.map_some, Option.toList_some]
        rw [flushedOf_append, added_append, hwaiting, ← h.inOrder g]
        by_cases hg : g = group
        · subst hg
          simp only [if_true, List.append_nil, List.append_assoc]
        · rw [if_neg hg, if_neg (Ne.symm hg), if_neg (Ne.symm hg), List.append_nil,
            List.append_nil]
      · rcases List.mem_append.1 hb with hold | hnew
        · exact h.sizes b hold
        · cases List.mem_singleton.1 hnew
          refine ⟨List.append_ne_nil_of_right_ne_nil _ (List.cons_ne_nil _ _), ?_⟩
          have hroom := h.room group
          rw [List.length_append, List.length_singleton]
          push_cast
          omega
      · rw [hwaiting]
        split
        · exact lt_of_le_of_lt (Int.natCast_nonneg _) (h.room group)
        · exact h.room g
      · rcases List.mem_append.1 hb with hb | hb
        · exact hold e _ (h.settled b hb i e he)
        · cases List.mem_singleton.1 hb
          exact hnew e (List.mem_append_left _ (List.mem_of_getElem? he))
      · rw [if_pos hnext, List.append_nil, hnext]
        exact h.arming
      · rw [htimerOf] at htg
        split at htg
        · cases htg
        · rename_i hg
          rw [if_pos hnext, List.append_nil, hwaiting, if_neg hg]
          exact h.armed g t htg
      · rw [if_pos hnext, List.append_nil]
        rcases List.mem_append.1 hb with hb | hb
        · exact h.timers b hb t ht
        · cases List.mem_singleton.1 hb
          cases ht
  | waits t hsize hwaiting htimerOf htimer =>
      rw [Option.getD_none, List.nil_append] at hplaced
      have hkeptArming : ∀ (n k : Nat), st.armedBy[n]? = some k →
          (st.armedBy ++ if b'.nextTimer = st.accumulator.nextTimer then []
            else [st.calls.length])[n]? = some k := by
        intro n k hk
        rw [List.getElem?_append_left (List.getElem?_eq_some_iff.1 hk).1]
        exact hk
      simp only [Option.map_none, Option.toList_none, List.append_nil]
      refine ⟨htimed, hplaced, fun g => ?_, h.sizes, fun g => ?_,
        fun b hb i e he => hold e _ (h.settled b hb i e he),
        fun e he => hnew e (List.mem_append_right _ he), ?_, fun g t' htg => ?_,
        fun b hb t' ht => ?_⟩
      · rw [added_append, hwaiting, ← h.inOrder g]
        by_cases hg : g = group
        · subst hg
          simp only [if_true, List.append_assoc]
        · rw [if_neg hg, if_neg (Ne.symm hg), List.append_nil]
      · rw [hwaiting]
        split
        · rw [List.length_append, List.length_singleton]
          push_cast
          exact hsize
        · exact h.room g
      · show (st.armedBy ++ _).length = b'.nextTimer
        rcases htimer with ⟨-, hnext⟩ | ⟨-, -, hnext⟩
        · rw [if_pos hnext, List.append_nil, hnext]
          exact h.arming
        · rw [if_neg (by omega), List.length_append, List.length_singleton, h.arming, hnext]
      · rw [htimerOf] at htg
        rw [hwaiting]
        split at htg
        · rename_i hg
          obtain rfl : t = t' := Option.some.inj htg
          rw [if_pos hg]
          rcases htimer with ⟨hown, -⟩ | ⟨hnone, rfl, hnext⟩
          · obtain ⟨k, hk, hhead⟩ := h.armed group t hown
            refine ⟨k, hkeptArming t k hk, ?_⟩
            obtain ⟨e, he, howner⟩ := Option.map_eq_some_iff.1 hhead
            rw [List.head?_append, he]
            exact congrArg some howner
          · -- the first entry of the group armed the timer
            rw [h.timed.waiting_eq_nil hnone, if_neg (by omega)]
            refine ⟨st.calls.length, ?_, rfl⟩
            rw [← h.arming, List.getElem?_concat_length]
        · rename_i hg
          rw [if_neg hg]
          obtain ⟨k, hk, hhead⟩ := h.armed g t' htg
          exact ⟨k, hkeptArming t' k hk, hhead⟩
      · obtain ⟨k, hk, hhead⟩ := h.timers b hb t' ht
        exact ⟨k, hkeptArming t' k hk, hhead⟩

/-! ## Settling a batch -/

theorem DeliveryInv.nodup {maxPerBundle : Int} {st : DeliveryState}
    (h : DeliveryInv maxPerBundle st) :
    (st.batches.flatMap fun b => b.entries.map (·.owner)).Nodup ∧
      ∀ b ∈ st.batches, ∀ e ∈ b.entries, ∀ e' ∈ st.accumulator.pending,
        e.owner ≠ e'.owner := by
  have hnodup := h.placed.nodup_iff.2 List.nodup_range
  rw [List.map_append, List.nodup_append] at hnodup
  obtain ⟨hflushed, -, hdisjoint⟩ := hnodup
  rw [allFlushed, List.map_flatMap] at hflushed
  refine ⟨hflushed, fun b hb e he e' he' => ?_⟩
  apply hdisjoint
  · exact List.mem_map_of_mem (List.mem_flatMap.2 ⟨b, hb, he⟩)
  · exact List.mem_map_of_mem he'

theorem DeliveryInv.settle {maxPerBundle : Int} {st st' : DeliveryState} {k : Nat}
    {outcome : Except String (List String)} (h : DeliveryInv maxPerBundle st)
    (hsettle : batchSettles st k outcome = some st') : DeliveryInv maxPerBundle st' := by
  unfold batchSettles at hsettle
  split at hsettle
  swap
  · cases hsettle
  rename_i batch hbatch
  split at hsettle
  · cases hsettle
  cases hsettle
  have hmem := List.mem_of_getElem? hbatch
  obtain ⟨hnodup, hdisjoint⟩ := h.nodup
  have hmembers : ∀ b ∈ st.batches.set k { batch with outcome := some outcome },
      ∃ b' ∈ st.batches, b.entries = b'.entries ∧ b.timer = b'.timer := by
    intro b hb
    rcases List.mem_or_eq_of_mem_set hb with hb | rfl
    · exact ⟨b, hb, rfl, rfl⟩
    · exact ⟨batch, hmem, rfl, rfl⟩
  have hcalls := settleCalls_map st.calls batch.entries outcome
  have hlength : (settleCalls st.calls batch.entries outcome).length = st.calls.length := by
    simpa only [List.length_map] using congrArg List.length hcalls
  have hall : allFlushed (st.batches.set k { batch with outcome := some outcome }) =
      allFlushed st.batches := Table.flatMap_replaced hbatch rfl
  have hgroups : ∀ group,
      flushedOf (st.batches.set k { batch with outcome := some outcome }) group =
        flushedOf st.batches group :=
    fun group => Table.flatMap_replaced hbatch rfl
  refine ⟨h.timed, ?_, fun group => ?_, fun b hb => ?_, h.room, fun b hb i e he => ?_,
    fun e he => ?_, h.arming, h.armed, fun b hb t ht => ?_⟩
  · rw [hlength, hall]
    exact h.placed
  · rw [hgroups, added, hcalls]
    exact h.inOrder group
  · obtain ⟨b', hb', hentries, -⟩ := hmembers b hb
    rw [hentries]
    exact h.sizes b' hb'
  · obtain ⟨j, hj⟩ := List.mem_iff_getElem?.1 hb
    rw [Table.getElem?_replaced hbatch] at hj
    split at hj
    · cases hj
      obtain ⟨c, hc, -⟩ := h.settled batch hmem i e he
      have hown := (List.nodup_flatMap.1 hnodup).1 batch hmem
      exact ⟨_, getElem?_settleCalls hown he hc, rfl⟩
    · rename_i hne
      obtain ⟨c, hc, houtcome⟩ := h.settled b (List.mem_of_getElem? hj) i e he
      refine ⟨c, ?_, houtcome⟩
      rw [getElem?_settleCalls_of_ne]
      · exact hc
      · intro e' he' heq
        apply hne
        apply Table.eq_of_mem_flatMap_nodup hnodup hj hbatch
        · exact List.mem_map_of_mem (List.mem_of_getElem? he)
        · rw [← heq]
          exact List.mem_map_of_mem he'
  · obtain ⟨c, hc, houtcome⟩ := h.unsettled e he
    refine ⟨c, ?_, houtcome⟩
    rw [getElem?_settleCalls_of_ne fun e' he' => hdisjoint batch hmem e' he' e he]
    exact hc
  · obtain ⟨b', hb', hentries, htimer⟩ := hmembers b hb
    rw [hentries]
    exact h.timers b' hb' t (htimer ▸ ht)

theorem deliveryStep_inv {maxPerBundle : Int} {st st' : DeliveryState}
    {a : DeliveryAction} (h : DeliveryInv maxPerBundle st)
    (hstep : deliveryStep maxPerBundle st a = some st') : DeliveryInv maxPerBundle st' := by
  cases a with
  | add group entry =>
      cases hstep
      exact h.add group entry
  | fire timer => exact h.fire hstep
  | flushed batch outcome => exact h.settle hstep

/-! ## Every reachable state -/

/-- The entry of call `call` is at position `p.2` of batch `p.1`. -/
def InBatch (st : DeliveryState) (call : Nat) (p : Nat × Nat) : Prop :=
  ∃ b e, st.batches[p.1]? = some b ∧ b.entries[p.2]? = some e ∧ e.owner = call

/-- The entry of call `call` still waits in its group. -/
def StillWaits (st : DeliveryState) (call : Nat) : Prop :=
  ∃ group, ∃ e ∈ st.accumulator.waiting group, e.owner = call

structure DeliveredOnce (maxPerBundle : Int) (st : DeliveryState) : Prop where
  once : ∀ call, call < st.calls.length →
    (∃! p, InBatch st call p) ∧ ¬ StillWaits st call ∨
      (∀ p, ¬ InBatch st call p) ∧ StillWaits st call
  /-- The batches of a group, and then what waits in it, are what was added to it. -/
  inOrder : ∀ group, flushedOf st.batches group ++ st.accumulator.waiting group =
    added st.calls group
  sizes : ∀ b ∈ st.batches, b.entries ≠ [] ∧ (b.entries.length : Int) ≤ maxPerBundle
  /-- A call settles with what is at the position of its entry, or with the error. -/
  settled : ∀ b ∈ st.batches, ∀ i e, b.entries[i]? = some e →
    ∃ c, st.calls[e.owner]? = some c ∧ c.group = b.group ∧ c.entry = e.entry ∧
      c.outcome = b.outcome.map (settledWith · i)
  unsettled : ∀ group, ∀ e ∈ st.accumulator.waiting group,
    ∃ c, st.calls[e.owner]? = some c ∧ c.outcome = none
  /-- A batch that a timer flushed starts with the entry that armed the timer. -/
  timers : ∀ b ∈ st.batches, ∀ t, b.timer = some t →
    ∃ call, st.armedBy[t]? = some call ∧ b.entries.head?.map (·.owner) = some call
  /-- What waits has a timer of its group to flush it. -/
  flushable : ∀ group, st.accumulator.waiting group ≠ [] →
    ∃ t, (t, group) ∈ st.accumulator.timers

theorem DeliveryInv.inBatch_unique {maxPerBundle : Int} {st : DeliveryState}
    (h : DeliveryInv maxPerBundle st) {call : Nat} {p q : Nat × Nat}
    (hp : InBatch st call p) (hq : InBatch st call q) : p = q := by
  obtain ⟨b, e, hb, he, howner⟩ := hp
  obtain ⟨b', e', hb', he', howner'⟩ := hq
  obtain ⟨hnodup, -⟩ := h.nodup
  have hmem : call ∈ b.entries.map (·.owner) :=
    howner ▸ List.mem_map_of_mem (List.mem_of_getElem? he)
  have hmem' : call ∈ b'.entries.map (·.owner) :=
    howner' ▸ List.mem_map_of_mem (List.mem_of_getElem? he')
  have hbatch : p.1 = q.1 := Table.eq_of_mem_flatMap_nodup hnodup hb hb' hmem hmem'
  rw [← hbatch, hb] at hb'
  cases hb'
  have hown := (List.nodup_flatMap.1 hnodup).1 b (List.mem_of_getElem? hb)
  have hpos : (b.entries.map (·.owner))[p.2]? = some call := by
    rw [List.getElem?_map, he, ← howner]
    rfl
  have hpos' : (b.entries.map (·.owner))[q.2]? = some call := by
    rw [List.getElem?_map, he', ← howner']
    rfl
  have hlt := (List.getElem?_eq_some_iff.1 hpos).1
  have hentry : p.2 = q.2 :=
    (List.getElem?_inj hlt hown).1 (hpos.trans hpos'.symm)
  exact Prod.ext hbatch hentry

theorem DeliveryInv.deliveredOnce {maxPerBundle : Int} {st : DeliveryState}
    (h : DeliveryInv maxPerBundle st) : DeliveredOnce maxPerBundle st where
  once call hcall := by
    obtain ⟨-, hdisjoint⟩ := h.nodup
    have hnot : ∀ p, InBatch st call p → ¬ StillWaits st call := by
      rintro p ⟨b, e, hb, he, rfl⟩ ⟨group, e', he', howner⟩
      exact hdisjoint b (List.mem_of_getElem? hb) e (List.mem_of_getElem? he) e'
        (mem_pending_of_waiting he') howner.symm
    have hmem : call ∈ (allFlushed st.batches ++ st.accumulator.pending).map (·.owner) :=
      h.placed.symm.subset (List.mem_range.2 hcall)
    obtain ⟨e, he, howner⟩ := List.mem_map.1 hmem
    rcases List.mem_append.1 he with hflushed | hpending
    · obtain ⟨b, hb, heb⟩ := List.mem_flatMap.1 hflushed
      obtain ⟨k, hk⟩ := List.mem_iff_getElem?.1 hb
      obtain ⟨i, hi⟩ := List.mem_iff_getElem?.1 heb
      have hin : InBatch st call (k, i) := ⟨b, e, hk, hi, howner⟩
      exact .inl ⟨⟨(k, i), hin, fun q hq => h.inBatch_unique hq hin⟩, hnot _ hin⟩
    · obtain ⟨group, hwaits⟩ := exists_waiting_of_pending hpending
      have hstill : StillWaits st call := ⟨group, e, hwaits, howner⟩
      exact .inr ⟨fun p hp => hnot p hp hstill, hstill⟩
  inOrder := h.inOrder
  sizes := h.sizes
  settled b hb i e he := by
    obtain ⟨c, hc, houtcome⟩ := h.settled b hb i e he
    have hmem : e ∈ added st.calls b.group := by
      rw [← h.inOrder b.group]
      apply List.mem_append_left
      refine List.mem_flatMap.2 ⟨b, hb, ?_⟩
      rw [if_pos rfl]
      exact List.mem_of_getElem? he
    obtain ⟨c', hc', hgroup, hentry⟩ := mem_added hmem
    rw [hc] at hc'
    cases hc'
    exact ⟨c, hc, hgroup, hentry, houtcome⟩
  unsettled group e he := h.unsettled e (mem_pending_of_waiting he)
  timers := h.timers
  flushable group hwaits := by
    obtain ⟨t, -, ht⟩ := h.timed.exists_timer hwaits
    exact ⟨t, ht⟩

/-! ## Nothing waits for ever -/

/-- Batches stay where they are, and a settled one stays as it is. -/
theorem deliveryStep_batches {maxPerBundle : Int} {st st' : DeliveryState}
    {a : DeliveryAction} (hstep : deliveryStep maxPerBundle st a = some st') {k : Nat}
    {b : Batch} (hb : st.batches[k]? = some b) :
    ∃ b', st'.batches[k]? = some b' ∧ b'.entries = b.entries := by
  have happended : ∀ bs : List Batch, (st.batches ++ bs)[k]? = some b := by
    intro bs
    rw [List.getElem?_append_left (List.getElem?_eq_some_iff.1 hb).1]
    exact hb
  cases a with
  | add group entry =>
      cases hstep
      exact ⟨b, happended _, rfl⟩
  | fire timer =>
      simp only [deliveryStep, fireTimer] at hstep
      split at hstep
      · cases hstep
        exact ⟨b, happended _, rfl⟩
      · cases hstep
  | flushed j outcome =>
      simp only [deliveryStep, batchSettles] at hstep
      split at hstep
      · rename_i batch hbatch
        split at hstep
        · cases hstep
        · cases hstep
          by_cases hk : k = j
          · subst hk
            rw [hb] at hbatch
            cases hbatch
            exact ⟨{ b with outcome := some outcome },
              by rw [Table.getElem?_replaced hb, if_pos rfl], rfl⟩
          · exact ⟨b, by rw [Table.getElem?_replaced hbatch, if_neg hk]; exact hb, rfl⟩
      · cases hstep

theorem inBatch_step {maxPerBundle : Int} {st st' : DeliveryState} {a : DeliveryAction}
    (hstep : deliveryStep maxPerBundle st a = some st') {call : Nat} {p : Nat × Nat}
    (h : InBatch st call p) : InBatch st' call p := by
  obtain ⟨b, e, hb, he, howner⟩ := h
  obtain ⟨b', hb', hentries⟩ := deliveryStep_batches hstep hb
  exact ⟨b', e, hb', hentries ▸ he, howner⟩

/-- An entry that waits goes on waiting for the same timer, or is in a batch. -/
theorem DeliveryInv.waits_step {maxPerBundle : Int} {st st' : DeliveryState}
    {a : DeliveryAction} (h : DeliveryInv maxPerBundle st)
    (hstep : deliveryStep maxPerBundle st a = some st') {group : String} {e : PendingEntry}
    {t : Nat} (he : e ∈ st.accumulator.waiting group)
    (ht : st.accumulator.timerOf group = some t) :
    e ∈ st'.accumulator.waiting group ∧ st'.accumulator.timerOf group = some t ∨
      ∃ p, InBatch st' e.owner p := by
  -- the batch that a step adds has the position after the last one
  have hlast : ∀ b : Batch, st'.batches = st.batches ++ [b] → e ∈ b.entries →
      ∃ p, InBatch st' e.owner p := by
    intro b hb hmem
    obtain ⟨i, hi⟩ := List.mem_iff_getElem?.1 hmem
    exact ⟨(st.batches.length, i), b, e, by rw [hb, List.getElem?_concat_length], hi, rfl⟩
  cases a with
  | add group' entry =>
      have hadded := (h.timed.add maxPerBundle group'
        { entry := entry, owner := st.calls.length }).1
      cases hstep
      unfold addCall at hlast ⊢
      dsimp only at hlast ⊢
      generalize (st.accumulator.add maxPerBundle group'
        { entry := entry, owner := st.calls.length }).1 = b' at *
      generalize (st.accumulator.add maxPerBundle group'
        { entry := entry, owner := st.calls.length }).2 = batch at *
      cases hadded with
      | full hsize hwaiting htimerOf hnext =>
          by_cases hg : group = group'
          · subst hg
            exact .inr (hlast _ rfl (List.mem_append_left _ he))
          · rw [hwaiting, htimerOf, if_neg hg, if_neg hg]
            exact .inl ⟨he, ht⟩
      | waits t' hsize hwaiting htimerOf htimer =>
          rw [hwaiting, htimerOf]
          by_cases hg : group = group'
          · subst hg
            rw [if_pos rfl, if_pos rfl]
            rcases htimer with ⟨hown, -⟩ | ⟨hnone, -⟩
            · exact .inl ⟨List.mem_append_left _ he, hown.symm.trans ht⟩
            · rw [hnone] at ht
              cases ht
          · rw [if_neg hg, if_neg hg]
            exact .inl ⟨he, ht⟩
  | fire timer =>
      simp only [deliveryStep, fireTimer] at hstep
      split at hstep
      · rename_i t' group' accumulator batch hfind hfired
        cases hstep
        obtain ⟨-, group'', -, -, -, rfl, hflushed⟩ := h.timed.fire hfired
        by_cases hg : group = group''
        · subst hg
          exact .inr (hlast _ rfl he)
        · rw [hflushed.waiting, hflushed.timerOf, if_neg hg, if_neg hg]
          exact .inl ⟨he, ht⟩
      · cases hstep
  | flushed j outcome =>
      simp only [deliveryStep, batchSettles] at hstep
      split at hstep
      · split at hstep
        · cases hstep
        · cases hstep
          exact .inl ⟨he, ht⟩
      · cases hstep

variable {maxPerBundle : Int} {f : ℕ → DeliveryState} {a : ℕ → DeliveryAction}

theorem deliveryInv_endless (hmax : 1 ≤ maxPerBundle) (hinit : f 0 = {})
    (hrun : Endless (deliveryStep maxPerBundle) f a) (n : ℕ) :
    DeliveryInv maxPerBundle (f n) :=
  hrun.inv (DeliveryInv maxPerBundle) (hinit ▸ deliveryInv_init hmax)
    (fun _ hinv hstep => deliveryStep_inv hinv hstep) (Nat.zero_le n)

/-- Where every window timer fires or is cleared, every entry gets into a batch. -/
theorem eventually_inBatch (hmax : 1 ≤ maxPerBundle) (hinit : f 0 = {})
    (hrun : Endless (deliveryStep maxPerBundle) f a)
    (htimers : ∀ n, ∀ t ∈ (f n).accumulator.timers,
      ∃ m, n ≤ m ∧ t ∉ (f m).accumulator.timers)
    {n call : ℕ} (hcall : call < (f n).calls.length) :
    ∃ m, n ≤ m ∧ ∃! p, InBatch (f m) call p := by
  have hinv := deliveryInv_endless hmax hinit hrun
  have hunique : ∀ m, n ≤ m → (∃ p, InBatch (f m) call p) → ∃! p, InBatch (f m) call p :=
    fun m _ ⟨p, hp⟩ => ⟨p, hp, fun q hq => (hinv m).inBatch_unique hq hp⟩
  rcases (hinv n).deliveredOnce.once call hcall with ⟨hin, -⟩ | ⟨-, hwaits⟩
  · exact ⟨n, Nat.le_refl _, hin⟩
  obtain ⟨group, e, he, rfl⟩ := hwaits
  obtain ⟨t, ht, hmem⟩ := (hinv n).timed.exists_timer (List.ne_nil_of_mem he)
  obtain ⟨m, hnm, hgone⟩ := htimers n (t, group) hmem
  have hlater : ∀ k, n ≤ k → e ∈ (f k).accumulator.waiting group ∧
      (f k).accumulator.timerOf group = some t ∨ ∃ p, InBatch (f k) e.owner p := by
    intro k hle
    induction k, hle using Nat.le_induction with
    | base => exact .inl ⟨he, ht⟩
    | succ k _ ih =>
        rcases ih with ⟨he, ht⟩ | ⟨p, hp⟩
        · exact (hinv k).waits_step (hrun k) he ht
        · exact .inr ⟨p, inBatch_step (hrun k) hp⟩
  rcases hlater m hnm with ⟨he', ht'⟩ | hin
  · obtain ⟨t', ht'', hmem'⟩ := (hinv m).timed.exists_timer (List.ne_nil_of_mem he')
    rw [ht'] at ht''
    cases ht''
    exact absurd hmem' hgone
  · exact ⟨m, hnm, hunique m hnm hin⟩

/-- Whatever the order of `add`, of timers and of settling flushes: every entry is in
one batch of its group or still waits, in the order of the calls, and every call settles
with its own part of its batch's outcome.  If every window timer fires or is cleared,
every entry gets into a batch, and if every `onFlush` settles, every call does. -/
theorem bundles_delivered_once (maxPerBundle : Int) (hmax : 1 ≤ maxPerBundle) :
    (∀ acts st, exec (deliveryStep maxPerBundle) {} acts = some st →
      DeliveredOnce maxPerBundle st) ∧
    ∀ (f : ℕ → DeliveryState) (a : ℕ → DeliveryAction), f 0 = {} →
      Endless (deliveryStep maxPerBundle) f a →
      (∀ n, ∀ t ∈ (f n).accumulator.timers, ∃ m, n ≤ m ∧ t ∉ (f m).accumulator.timers) →
      (∀ n call, call < (f n).calls.length → ∃ m, n ≤ m ∧ ∃! p, InBatch (f m) call p) ∧
      ((∀ n k, k < (f n).batches.length →
          ∃ m, n ≤ m ∧ ∃ b, (f m).batches[k]? = some b ∧ b.outcome.isSome) →
        ∀ n call, call < (f n).calls.length →
          ∃ m, n ≤ m ∧ ∃ c, (f m).calls[call]? = some c ∧ c.outcome.isSome) := by
  constructor
  · intro acts st hrun
    have hinv : DeliveryInv maxPerBundle st :=
      exec_inv (fun _ _ _ h hstep => deliveryStep_inv h hstep) (deliveryInv_init hmax) hrun
    exact hinv.deliveredOnce
  · intro f a hinit hrun htimers
    refine ⟨fun n call hcall => eventually_inBatch hmax hinit hrun htimers hcall, ?_⟩
    intro hflushes n call hcall
    obtain ⟨m, hnm, p, ⟨b, e, hb, he, howner⟩, -⟩ :=
      eventually_inBatch hmax hinit hrun htimers hcall
    obtain ⟨m', hmm', b', hb', hsettled⟩ :=
      hflushes m p.1 (List.getElem?_eq_some_iff.1 hb).1
    have hkept : ∀ k, m ≤ k → InBatch (f k) call p := by
      intro k hle
      induction k, hle using Nat.le_induction with
      | base => exact ⟨b, e, hb, he, howner⟩
      | succ k _ ih => exact inBatch_step (hrun k) ih
    obtain ⟨b'', e', hb'', he', howner'⟩ := hkept m' hmm'
    rw [hb'] at hb''
    cases hb''
    obtain ⟨c, hc, -, -, houtcome⟩ := (deliveryInv_endless hmax hinit hrun
      m').deliveredOnce.settled b' (List.mem_of_getElem? hb') p.2 e' he'
    refine ⟨m', hnm.trans hmm', c, howner' ▸ hc, ?_⟩
    rw [houtcome, Option.isSome_map]
    exact hsettled

/-! ## A full batch, a timer, and bundles of one -/

section Runs

/-- The first batch is full while the timers of both groups run; the second is flushed
by a timer and fails. -/
def fullAndTimed : List DeliveryAction :=
  [.add "g" { signedTx := [1], tipped := true }, .add "h" { signedTx := [2], tipped := true },
    .add "g" { signedTx := [3], tipped := false }, .add "g" { signedTx := [4], tipped := true },
    .fire 2, .flushed 1 (.error "rate limited"), .flushed 0 (.ok ["s1"])]

def oneTx : BundleEntry := { signedTx := [1], tipped := true }

/-- Bundles of one: each is accepted before the next call. -/
def oneByOneActs (n : ℕ) : DeliveryAction :=
  if n % 2 = 0 then .add "g" oneTx else .flushed (n / 2) (.ok ["s"])

def acceptedBatch (k : ℕ) : Batch :=
  { group := "g", entries := [{ entry := oneTx, owner := k }], outcome := some (.ok ["s"]) }

/-- `n` calls are over. -/
def callsOver (n : ℕ) : DeliveryState :=
  { calls := List.replicate n { group := "g", entry := oneTx, outcome := some (.ok "s") }
    batches := (List.range n).map acceptedBatch }

/-- And one more is flushed. -/
def callFlushed (n : ℕ) : DeliveryState :=
  { calls := (callsOver n).calls ++ [{ group := "g", entry := oneTx }]
    batches := (callsOver n).batches ++ [{ acceptedBatch n with outcome := none }] }

def oneByOneRun (n : ℕ) : DeliveryState :=
  if n % 2 = 0 then callsOver (n / 2) else callFlushed (n / 2)

theorem add_callsOver (n : ℕ) :
    addCall 1 (callsOver n) "g" oneTx = callFlushed n := by
  have hlen : (callsOver n).calls.length = n := List.length_replicate
  unfold addCall
  rw [hlen]
  rfl

theorem flushed_callFlushed (n : ℕ) :
    batchSettles (callFlushed n) n (.ok ["s"]) = some (callsOver (n + 1)) := by
  have hbatches : (callsOver n).batches.length = n := by
    rw [callsOver, List.length_map, List.length_range]
  have hcalls : (callsOver n).calls.length = n := List.length_replicate
  have hlast : (callFlushed n).batches[n]? = some { acceptedBatch n with outcome := none } := by
    rw [callFlushed, List.getElem?_append_right hbatches.le, hbatches, Nat.sub_self]
    rfl
  have hset : (callFlushed n).batches.set n (acceptedBatch n) = (callsOver (n + 1)).batches := by
    rw [callFlushed, List.set_append_right n _ hbatches.le, hbatches, Nat.sub_self, callsOver,
      callsOver, List.range_succ, List.map_append]
    rfl
  have hsettled : settleCalls (callFlushed n).calls [{ entry := oneTx, owner := n }]
      (.ok ["s"]) = (callsOver (n + 1)).calls := by
    show (callFlushed n).calls.modify n _ = _
    apply List.ext_getElem?
    intro k
    rw [List.getElem?_modify, callFlushed, Table.getElem?_added, hcalls, callsOver, callsOver,
      List.getElem?_replicate, List.getElem?_replicate]
    by_cases hk : k = n
    · subst hk
      simp [settledWith, Except.map]
    · have hne : ¬ n = k := Ne.symm hk
      rw [if_neg hk]
      by_cases hlt : k < n
      · simp [hlt, hne, Nat.lt_succ_of_lt hlt]
      · have hge : ¬ k < n + 1 := by omega
        simp [hlt, hge]
  unfold batchSettles
  rw [hlast]
  show some { callFlushed n with
    calls := settleCalls (callFlushed n).calls [{ entry := oneTx, owner := n }] (.ok ["s"])
    batches := (callFlushed n).batches.set n (acceptedBatch n) } = _
  rw [hset, hsettled]
  rfl

theorem endless_oneByOneRun : Endless (deliveryStep 1) oneByOneRun oneByOneActs := by
  intro n
  unfold oneByOneRun oneByOneActs
  by_cases heven : n % 2 = 0
  · have hodd : (n + 1) % 2 ≠ 0 := by omega
    have hhalf : (n + 1) / 2 = n / 2 := by omega
    rw [if_pos heven, if_pos heven, if_neg hodd, hhalf]
    exact congrArg some (add_callsOver (n / 2))
  · have hnext : (n + 1) % 2 = 0 := by omega
    have hhalf : (n + 1) / 2 = n / 2 + 1 := by omega
    rw [if_neg heven, if_neg heven, if_pos hnext, hhalf]
    exact flushed_callFlushed (n / 2)

theorem bundles_delivered_once_runs :
    (∃ st, exec (deliveryStep 2) {} fullAndTimed = some st ∧ DeliveredOnce 2 st ∧
      st.calls.map (·.outcome) =
        [some (.ok "s1"), none, some (.ok ""), some (.error "rate limited")]) ∧
    ∀ n call, call < (oneByOneRun n).calls.length →
      ∃ m, n ≤ m ∧ ∃ c, (oneByOneRun m).calls[call]? = some c ∧ c.outcome.isSome := by
  constructor
  · obtain ⟨st, hrun, hcalls⟩ : ∃ st, exec (deliveryStep 2) {} fullAndTimed = some st ∧
        st.calls.map (·.outcome) =
          [some (.ok "s1"), none, some (.ok ""), some (.error "rate limited")] := by
      decide +kernel
    exact ⟨st, hrun, (bundles_delivered_once 2 (by decide)).1 _ st hrun, hcalls⟩
  · have htimers : ∀ n, (oneByOneRun n).accumulator.timers = [] := by
      intro n
      unfold oneByOneRun
      split <;> rfl
    refine ((bundles_delivered_once 1 (by decide)).2 oneByOneRun oneByOneActs rfl
      endless_oneByOneRun ?_).2 ?_
    · intro n t ht
      rw [htimers] at ht
      cases ht
    · intro n k hk
      -- after the state `2 * (n + k + 1)` the batch has settled
      refine ⟨2 * (n + k + 1), by omega, acceptedBatch k, ?_, rfl⟩
      have heven : 2 * (n + k + 1) % 2 = 0 := by omega
      have hhalf : 2 * (n + k + 1) / 2 = n + k + 1 := by omega
      rw [oneByOneRun, if_pos heven, hhalf, callsOver, List.getElem?_map,
        List.getElem?_range (by omega)]
      rfl

end Runs

end Ap3xSolana.Executor
