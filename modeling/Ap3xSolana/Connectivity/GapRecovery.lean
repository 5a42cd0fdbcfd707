import Mathlib.Algebra.Order.BigOperators.Group.List
import Mathlib.Algebra.Order.Group.Nat
import Mathlib.Algebra.Ring.Nat
import Ap3xSolana.Connectivity.HistoryOnce

/-!
# Gap recovery and shared transactions

`gapBackfill` walks the history of one subscribed program after the other, and a
transaction that touches two of them is in both histories: its events are delivered twice.
`gap_once_iff` says that this is the only way to deliver an event more than once, and that
none is missed.
-/

namespace Ap3xSolana.Connectivity

/-- Two lists of counts agree term by term if their sums do and one is below the other. -/
theorem eq_of_sum_eq {α : Type} {f g : α → Nat} {xs : List α} (hle : ∀ x ∈ xs, f x ≤ g x)
    (hsum : (xs.map f).sum = (xs.map g).sum) : ∀ x ∈ xs, f x = g x := by
  induction xs with
  | nil => exact fun x hx => absurd hx List.not_mem_nil
  | cons y xs ih =>
      simp only [List.map_cons, List.sum_cons] at hsum
      have hy := hle y List.mem_cons_self
      have hrest : ∀ x ∈ xs, f x ≤ g x := fun x hx => hle x (List.mem_cons_of_mem _ hx)
      have hsums := List.sum_le_sum hrest
      intro x hx
      rcases List.mem_cons.1 hx with rfl | hx
      · omega
      · exact ih hrest (by omega) x hx

variable {τ δ ε : Type}

/-! ## The ledger -/

structure LedgerEntry where
  info : SignatureInfo
  /-- The programs that the transaction touches. -/
  programIds : List String

/-- All transactions, newest first. -/
structure Ledger where
  entries : List LedgerEntry
  distinct : (entries.map (·.info.signature)).Nodup
  newestFirst : entries.Pairwise fun newer older => older.info.slot ≤ newer.info.slot

def LedgerEntry.touches (e : LedgerEntry) (programId : String) : Bool := programId ∈ e.programIds

/-- The history of a program has the transactions that touch it. -/
def Ledger.history (l : Ledger) (programId : String) : History where
  entries := (l.entries.filter (·.touches programId)).map (·.info)
  distinct := by
    have h := (List.filter_sublist (l := l.entries)
      (p := (·.touches programId))).map (·.info.signature) |>.nodup l.distinct
    rwa [List.map_map]
  newestFirst := List.pairwise_map.2 (l.newestFirst.filter _)

/-- The available, successful transactions of a range of slots. -/
def Ledger.transactionsIn (l : Ledger) (available : String → Option τ) (range : SlotRange) :
    List (LedgerEntry × τ) :=
  (l.entries.reverse.filter fun e => range.has e.info && !e.info.failed).filterMap fun e =>
    (available e.info.signature).map fun tx => (e, tx)

/-- How many of the subscribed histories the transaction is in. -/
def LedgerEntry.copies (programIds : List String) (e : LedgerEntry) : Nat :=
  programIds.countP e.touches

/-- The slots that a gap has lost: the last one was delivered live. -/
def gapRange (fromSlot toSlot : Int) : SlotRange :=
  { fromSlot := fromSlot, toSlot := toSlot - 1 }

/-- What the stream has missed: transactions that touch a subscribed program. -/
def Ledger.missed (l : Ledger) (available : String → Option τ) (programIds : List String)
    (fromSlot toSlot : Int) : List (LedgerEntry × τ) :=
  (l.transactionsIn available (gapRange fromSlot toSlot)).filter fun p =>
    0 < p.1.copies programIds

/-- The recovery ends, with each event of each missed transaction once. -/
def DeliversOnce (rpc : RpcMethods τ ε) (l : Ledger) (available : String → Option τ)
    (programIds : List String) (events : τ → Produced δ) (fromSlot toSlot : Int) (fuel : Nat) :
    Prop :=
  (gapBackfill rpc (fun tx => .ok (events tx)) fromSlot toSlot fuel programIds).ending =
      .returned ∧
    (gapBackfill rpc (fun tx => .ok (events tx)) fromSlot toSlot fuel programIds).yielded.Perm
      ((l.missed available programIds fromSlot toSlot).flatMap fun p => (events p.2).results)

/-! ## What is delivered -/

theorem Ledger.history_transactionsIn (l : Ledger) (available : String → Option τ)
    (range : SlotRange) (programId : String) :
    (l.history programId).transactionsIn available range =
      ((l.transactionsIn available range).filter (·.1.touches programId)).map fun p =>
        (p.1.info, p.2) := by
  unfold History.transactionsIn Ledger.transactionsIn Ledger.history
  rw [← List.map_reverse, ← List.filter_reverse]
  induction l.entries.reverse with
  | nil => rfl
  | cons e entries ih =>
      by_cases htouches : e.touches programId = true
      · by_cases hrange : (range.has e.info && !e.info.failed) = true
        · cases htx : available e.info.signature <;>
            simp_all
        · simp_all
      · by_cases hrange : (range.has e.info && !e.info.failed) = true
        · cases htx : available e.info.signature <;>
            simp_all
        · simp_all

theorem Ledger.history_length (l : Ledger) (programId : String) :
    (l.history programId).entries.length ≤ l.entries.length := by
  unfold Ledger.history
  rw [List.length_map]
  exact List.length_filter_le _ _

/-- One walk after the other. -/
theorem gapBackfill_eq {rpc : RpcMethods τ ε} {cap : Nat} {l : Ledger}
    {available : String → Option τ} (havailable : Available rpc available)
    (hcap : DEFAULT_SIG_LIMIT ≤ cap) (events : τ → Produced δ) (fromSlot toSlot : Int)
    {fuel : Nat} (hfuel : l.entries.length < fuel) {programIds : List String}
    (hserves : ∀ p ∈ programIds, Serves rpc cap p (l.history p)) :
    gapBackfill rpc (fun tx => .ok (events tx)) fromSlot toSlot fuel programIds =
      { yielded := programIds.flatMap fun programId =>
          ((l.transactionsIn available (gapRange fromSlot toSlot)).filter
            (·.1.touches programId)).flatMap fun p => (events p.2).results
        ending := .returned } := by
  induction programIds with
  | nil => rfl
  | cons programId programIds ih =>
      have hrest := ih fun p hp => hserves p (List.mem_cons_of_mem _ hp)
      have hone : fetchEventsForProgram rpc programId
          { fromSlot := fromSlot, toSlot := toSlot - 1 } (fun tx => .ok (events tx)) fuel =
          { yielded := ((l.transactionsIn available (gapRange fromSlot toSlot)).filter
              (·.1.touches programId)).flatMap fun p => (events p.2).results
            ending := .returned } := by
        rw [fetchEvents_eq (hserves programId List.mem_cons_self) havailable hcap _ _
          (Nat.lt_of_le_of_lt (l.history_length programId) hfuel), l.history_transactionsIn,
          List.flatMap_map]
        rfl
      unfold gapBackfill
      dsimp only
      rw [hone, hrest, List.flatMap_cons]
      rfl

/-! ## Counting -/

theorem count_flatMap {α β : Type} [BEq β] [LawfulBEq β] (b : β) (f : α → List β) (xs : List α) :
    (xs.flatMap f).count b = (xs.map fun x => (f x).count b).sum := by
  induction xs with
  | nil => rfl
  | cons x xs ih => rw [List.flatMap_cons, List.count_append, List.map_cons, List.sum_cons, ih]

theorem count_filter_flatMap {α β : Type} [BEq β] [LawfulBEq β] (b : β) (keep : α → Bool)
    (f : α → List β) (xs : List α) :
    ((xs.filter keep).flatMap f).count b =
      (xs.map fun x => (if keep x then 1 else 0) * (f x).count b).sum := by
  induction xs with
  | nil => rfl
  | cons x xs ih =>
      rw [List.map_cons, List.sum_cons, ← ih]
      by_cases hkeep : keep x = true
      · rw [List.filter_cons_of_pos hkeep, List.flatMap_cons, List.count_append, if_pos hkeep,
          one_mul]
      · rw [List.filter_cons_of_neg hkeep, if_neg hkeep, zero_mul, zero_add]

/-- Each transaction comes once for each history that it is in. -/
theorem count_walks {β : Type} [BEq β] [LawfulBEq β] (b : β) (f : LedgerEntry × τ → List β)
    (txs : List (LedgerEntry × τ)) (programIds : List String) :
    (programIds.flatMap fun programId =>
        (txs.filter (·.1.touches programId)).flatMap f).count b =
      (txs.map fun p => p.1.copies programIds * (f p).count b).sum := by
  induction programIds with
  | nil => simp [LedgerEntry.copies]
  | cons programId programIds ih =>
      rw [List.flatMap_cons, List.count_append, ih, count_filter_flatMap, ← List.sum_map_add]
      congr 1
      apply List.map_congr_left
      intro p _
      rw [LedgerEntry.copies, LedgerEntry.copies, List.countP_cons, add_comm, add_mul]

/-! ## The condition -/

theorem gap_once_iff {rpc : RpcMethods τ ε} {cap : Nat} {l : Ledger}
    {available : String → Option τ} (havailable : Available rpc available)
    (hcap : DEFAULT_SIG_LIMIT ≤ cap) {programIds : List String}
    (hserves : ∀ p ∈ programIds, Serves rpc cap p (l.history p)) (events : τ → Produced δ)
    (fromSlot toSlot : Int) {fuel : Nat} (hfuel : l.entries.length < fuel) :
    DeliversOnce rpc l available programIds events fromSlot toSlot fuel ↔
      ∀ p ∈ l.missed available programIds fromSlot toSlot, (events p.2).results ≠ [] →
        p.1.copies programIds = 1 := by
  classical
  have hrun := gapBackfill_eq havailable hcap events fromSlot toSlot hfuel hserves
  unfold DeliversOnce Ledger.missed
  rw [hrun, List.perm_iff_count]
  have hcounts : ∀ r : EventDecodeResult δ,
      (List.count r (programIds.flatMap fun programId =>
          ((l.transactionsIn available (gapRange fromSlot toSlot)).filter
            (·.1.touches programId)).flatMap fun p => (events p.2).results) =
        List.count r (((l.transactionsIn available (gapRange fromSlot toSlot)).filter
          fun p => 0 < p.1.copies programIds).flatMap fun p => (events p.2).results)) ↔
      ((l.transactionsIn available (gapRange fromSlot toSlot)).map fun p =>
          p.1.copies programIds * ((events p.2).results).count r).sum =
        ((l.transactionsIn available (gapRange fromSlot toSlot)).map fun p =>
          (if 0 < p.1.copies programIds then 1 else 0) * ((events p.2).results).count r).sum := by
    intro r
    rw [count_walks, count_filter_flatMap]
    simp only [decide_eq_true_eq]
  simp only [hcounts, true_and]
  constructor
  · intro hsums p hp hsome
    obtain ⟨hp, hcopies⟩ := List.mem_filter.1 hp
    obtain ⟨r, hr⟩ := List.exists_mem_of_ne_nil _ hsome
    have hpos : 0 < ((events p.2).results).count r := List.count_pos_iff.2 hr
    have heq := eq_of_sum_eq (fun q _ => by
      apply Nat.mul_le_mul_right
      split <;> omega) (hsums r).symm p hp
    have hcopies' : 0 < p.1.copies programIds := by simpa using hcopies
    rw [if_pos hcopies'] at heq
    exact (Nat.eq_of_mul_eq_mul_right hpos heq).symm
  · intro hone r
    congr 1
    apply List.map_congr_left
    intro p hp
    by_cases hcopies : 0 < p.1.copies programIds
    · rw [if_pos hcopies]
      by_cases hnone : (events p.2).results = []
      · rw [hnone]
        rfl
      · rw [hone p (List.mem_filter.2 ⟨hp, by simpa using hcopies⟩) hnone]
    · rw [if_neg hcopies, Nat.eq_zero_of_not_pos hcopies]

/-! ## One transaction, two programs -/

/-- A router and a pool in one transaction. -/
def sharedLedger : Ledger where
  entries := [{ info := { signature := "s", slot := 3 }, programIds := ["router", "pool"] }]
  distinct := by decide
  newestFirst := by decide

def swapEvent : Unit → Produced String := fun _ => .one (.decoded 3 "s" "router" "swap")

theorem gap_once_iff_router :
    DeliversOnce (nodeOf sharedLedger.history fun _ => some ()) sharedLedger
        (fun _ => some ()) ["router"] swapEvent 1 5 2 ↔
      ∀ p ∈ sharedLedger.missed (fun _ => some ()) ["router"] 1 5,
        (swapEvent p.2).results ≠ [] → p.1.copies ["router"] = 1 :=
  gap_once_iff (fun _ => rfl) (Nat.le_refl _) (fun p _ => serves_nodeOf _ _ _ p) swapEvent 1 5
    (by decide)

/-- The event of a transaction that touches both programs is delivered twice. -/
theorem shared_transaction_twice :
    ¬ ∀ (rpc : RpcMethods Unit Unit) (cap : Nat) (l : Ledger) (available : String → Option Unit),
      Available rpc available → DEFAULT_SIG_LIMIT ≤ cap →
      ∀ (programIds : List String) (events : Unit → Produced String) (fromSlot toSlot : Int)
        (fuel : Nat), (∀ p ∈ programIds, Serves rpc cap p (l.history p)) →
      l.entries.length < fuel →
      DeliversOnce rpc l available programIds events fromSlot toSlot fuel := by
  intro hall
  have honce := hall (nodeOf sharedLedger.history fun _ => some ()) DEFAULT_SIG_LIMIT sharedLedger
    (fun _ => some ()) (fun _ => rfl) (Nat.le_refl _) ["router", "pool"] swapEvent 1 5 2
    (fun p _ => serves_nodeOf _ _ _ p) (by decide)
  exact absurd honce.2.length_eq (by decide)

end Ap3xSolana.Connectivity
