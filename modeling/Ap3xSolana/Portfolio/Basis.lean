import Ap3xSolana.Lib.Run
import Ap3xSolana.Portfolio.Accounting

/-!
# Conservation of cost basis

FIFO and LIFO split the basis of at most one lot, and what they take out of it is
what they report.  Average cost reports the sold part of the pooled basis, rounded
once, but takes each lot's part out of that lot, rounded twice; `heldBack` is what
this rounding leaves in a lot.
-/

namespace Ap3xSolana.Portfolio.Accounting

open Ap3xSolana.Lib.ProRata Ap3xSolana.Lib.Run

/-- The basis of the input is what remains and what the sale reports. -/
structure ConservesBasis (lots : List Lot) (res : ReduceResult) : Prop where
  total : totalBasis res.remaining + res.costBasis = totalBasis lots
  nonneg : ∀ l ∈ res.remaining, 0 ≤ l.costBasisLamports

@[simp] theorem totalBasis_nil : totalBasis [] = 0 := rfl

@[simp] theorem totalBasis_cons (l : Lot) (lots : List Lot) :
    totalBasis (l :: lots) = l.costBasisLamports + totalBasis lots := rfl

@[simp] theorem totalBasis_append (xs ys : List Lot) :
    totalBasis (xs ++ ys) = totalBasis xs + totalBasis ys := by
  simp [totalBasis]

theorem totalBasis_nonneg {lots : List Lot} (h : ∀ l ∈ lots, 0 ≤ l.costBasisLamports) :
    0 ≤ totalBasis lots :=
  List.sum_nonneg (by simpa using h)

theorem totalBasis_saleOrder (method : AccountingMethod) (lots : List Lot) :
    totalBasis (saleOrder method lots) = totalBasis lots := by
  unfold saleOrder
  split <;> simp [totalBasis, List.sum_reverse]

/-! ## FIFO and LIFO -/

/-- A lot that is sold whole gives up its whole basis. -/
theorem planBasis_all {l : Lot} (hl : 0 < l.amount) :
    planBasis (l, l.amount) = l.costBasisLamports :=
  Int.mul_tdiv_cancel _ hl.ne'

theorem totalBasis_leftover (ls : List Lot) :
    ∀ toTake : Int, (∀ l ∈ ls, 0 < l.amount) →
    totalBasis (leftover ls toTake) + ((salePlan ls toTake).map planBasis).sum =
      totalBasis ls := by
  induction ls with
  | nil => intro _ _; rfl
  | cons l ls ih =>
      intro toTake hpos
      by_cases hz : toTake = 0
      · simp [hz]
      · have hrest := ih (toTake - tokensTaken l toTake)
          (fun l' h => hpos l' (List.mem_cons_of_mem _ h))
        have hle := tokensTaken_le_amount l toTake
        simp only [leftover, salePlan, hz, if_false, List.map_cons, List.sum_cons]
        split
        · simp only [totalBasis_cons, Lot.reduceBy, planBasis]
          omega
        · -- the lot is used up
          have hall : tokensTaken l toTake = l.amount := by omega
          rw [hall] at hrest ⊢
          rw [planBasis_all (hpos l List.mem_cons_self), totalBasis_cons]
          omega

theorem leftover_basis_nonneg (ls : List Lot) :
    ∀ toTake : Int, 0 ≤ toTake → (∀ l ∈ ls, 0 < l.amount) →
    (∀ l ∈ ls, 0 ≤ l.costBasisLamports) →
    ∀ l ∈ leftover ls toTake, 0 ≤ l.costBasisLamports := by
  induction ls with
  | nil => simp [leftover]
  | cons l ls ih =>
      intro toTake h0 hpos hbasis l' hl'
      by_cases hz : toTake = 0
      · exact hbasis l' (by simpa [hz] using hl')
      · have htake := tokensTaken_le l toTake
        have hrest := ih (toTake - tokensTaken l toTake) (by omega)
          (fun l' h => hpos l' (List.mem_cons_of_mem _ h))
          (fun l' h => hbasis l' (List.mem_cons_of_mem _ h))
        simp only [leftover, hz, if_false] at hl'
        split at hl'
        · rcases List.mem_cons.1 hl' with rfl | hmem
          · have hl := hpos l List.mem_cons_self
            have htaken := (tokensTaken_pos hl (by omega : 0 < toTake)).le
            have hshare := share_le_of_le (hbasis l List.mem_cons_self) hl htaken
              (tokensTaken_le_amount l toTake)
            simp only [share] at hshare
            simp only [Lot.reduceBy]
            omega
          · exact hrest l' hmem
        · exact hrest l' hl'

theorem reduceOrdered_conservesBasis {lots : List Lot} {amount : Int}
    (proceedsLamports : Int) (method : AccountingMethod)
    (hpos : ∀ l ∈ lots, 0 < l.amount) (hbasis : ∀ l ∈ lots, 0 ≤ l.costBasisLamports)
    (hamt : 0 < amount) (hle : amount ≤ totalAmount lots) :
    ∃ res, reduceOrdered lots amount proceedsLamports method = .ok res ∧
      ConservesBasis lots res := by
  have hord : ∀ l ∈ saleOrder method lots, 0 < l.amount :=
    fun l hl => hpos l (mem_saleOrder.1 hl)
  refine ⟨_, reduceOrdered_eq proceedsLamports method hpos hamt hle, ?_, ?_⟩
  · show totalBasis (saleOrder method _) + _ = _
    rw [totalBasis_saleOrder, totalBasis_leftover _ _ hord, totalBasis_saleOrder]
  · intro l hl
    exact leftover_basis_nonneg _ amount hamt.le hord
      (fun l' hl' => hbasis l' (mem_saleOrder.1 hl')) l (mem_saleOrder.1 hl)

/-! ## Average cost -/

/-- Basis that the average-cost branch takes out of `l`. -/
def avgCostBasisTaken (amount totalAmt : Int) (l : Lot) : Int :=
  share l.costBasisLamports l.amount (avgCostTake amount totalAmt l)

/-- What rounding leaves of the sold part of a lot's basis, in `totalAmt`-ths of a
lamport. -/
def heldBack (amount totalAmt : Int) (l : Lot) : Int :=
  l.costBasisLamports * amount - avgCostBasisTaken amount totalAmt l * totalAmt

/-- Over all lots less than one lamport is held back. -/
def HoldsBackLessThanOne (lots : List Lot) (amount : Int) : Prop :=
  (lots.map (heldBack amount (totalAmount lots))).sum < totalAmount lots

instance (lots : List Lot) (amount : Int) : Decidable (HoldsBackLessThanOne lots amount) :=
  inferInstanceAs (Decidable (_ < _))

theorem avgCostLot_basis (amount totalAmt : Int) (l : Lot) :
    (avgCostLot amount totalAmt l).costBasisLamports =
      l.costBasisLamports - avgCostBasisTaken amount totalAmt l := by
  simp only [avgCostLot, avgCostBasisTaken, share]
  split
  · rename_i hzero
    rw [hzero, mul_zero, Int.zero_tdiv, sub_zero]
  · rfl

/-- A lot that is used up has no basis left, so dropping it loses none. -/
theorem totalBasis_avgCost {amount total : Int} (hamt : 0 ≤ amount) (hle : amount ≤ total)
    (ht : 0 < total) (lots : List Lot) (hpos : ∀ l ∈ lots, 0 < l.amount) :
    totalBasis ((lots.map (avgCostLot amount total)).filter (0 < ·.amount)) +
        (lots.map (avgCostBasisTaken amount total)).sum = totalBasis lots := by
  induction lots with
  | nil => rfl
  | cons l ls ih =>
      have hrest := ih fun l' h => hpos l' (List.mem_cons_of_mem _ h)
      have hl := hpos l List.mem_cons_self
      have htake := avgCostTake_le (l := l) hamt hle ht hl
      simp only [List.map_cons, List.filter_cons, List.sum_cons, totalBasis_cons]
      split
      · rw [totalBasis_cons, avgCostLot_basis]
        omega
      · rename_i hgone
        rw [decide_eq_true_eq, avgCostLot_amount] at hgone
        have hall : avgCostTake amount total l = l.amount := by omega
        have htaken : avgCostBasisTaken amount total l = l.costBasisLamports := by
          rw [avgCostBasisTaken, hall]
          exact Int.mul_tdiv_cancel _ hl.ne'
        omega

/-- What is held back is the sold part of the pooled basis without what is taken. -/
theorem sum_heldBack (amount total : Int) (lots : List Lot) :
    (lots.map (heldBack amount total)).sum = totalBasis lots * amount -
      (lots.map (avgCostBasisTaken amount total)).sum * total := by
  induction lots with
  | nil => simp
  | cons l ls ih =>
      simp only [List.map_cons, List.sum_cons, totalBasis_cons, ih, heldBack, Int.add_mul]
      omega

theorem heldBack_nonneg {amount total : Int} {l : Lot} (hamt : 0 ≤ amount)
    (ht : 0 < total) (hl : 0 < l.amount) (hbasis : 0 ≤ l.costBasisLamports) :
    0 ≤ heldBack amount total l := by
  have h := share_share_mul_le hbasis hamt ht hl
  simp only [heldBack, avgCostBasisTaken, avgCostTake]
  omega

section AvgCost

variable {lots : List Lot} {amount : Int} (hpos : ∀ l ∈ lots, 0 < l.amount)
  (hbasis : ∀ l ∈ lots, 0 ≤ l.costBasisLamports) (hamt : 0 < amount)
  (hle : amount ≤ totalAmount lots)

include hpos hbasis hamt hle

theorem avgCostLot_basis_nonneg {l : Lot} (hl : l ∈ lots) :
    0 ≤ (avgCostLot amount (totalAmount lots) l).costBasisLamports := by
  have ht : 0 < totalAmount lots := by omega
  have htake := avgCostTake_nonneg (l := l) hamt.le ht (hpos l hl)
  have hshare := share_le_of_le (hbasis l hl) (hpos l hl) htake
    (avgCostTake_le hamt.le hle ht (hpos l hl))
  rw [avgCostLot_basis, avgCostBasisTaken]
  omega

/-- Average cost reports what it takes out of the lots exactly when less than one
lamport is held back. -/
theorem costBasis_eq_taken_iff :
    (totalBasis lots * amount).tdiv (totalAmount lots) =
        (lots.map (avgCostBasisTaken amount (totalAmount lots))).sum ↔
      HoldsBackLessThanOne lots amount := by
  have ht : 0 < totalAmount lots := by omega
  have hsum := sum_heldBack amount (totalAmount lots) lots
  have hheld : 0 ≤ (lots.map (heldBack amount (totalAmount lots))).sum := by
    apply List.sum_nonneg
    intro x hx
    obtain ⟨l, hl, rfl⟩ := List.mem_map.1 hx
    exact heldBack_nonneg hamt.le ht (hpos l hl) (hbasis l hl)
  have hfits := share_eq_iff (k := (lots.map (avgCostBasisTaken amount
    (totalAmount lots))).sum) (totalBasis_nonneg hbasis) ht hamt.le (by omega)
  rw [share] at hfits
  rw [hfits, HoldsBackLessThanOne, Int.add_mul]
  omega

theorem reduceAvgCost_conservesBasis_iff (proceedsLamports : Int) :
    (∃ res, reduceAvgCost lots amount proceedsLamports = .ok res ∧
      ConservesBasis lots res) ↔ HoldsBackLessThanOne lots amount := by
  have ht : 0 < totalAmount lots := by omega
  have heq := reduceAvgCost_eq proceedsLamports hpos hamt hle
  have htotal := totalBasis_avgCost hamt.le hle ht lots hpos
  rw [← costBasis_eq_taken_iff hpos hbasis hamt hle]
  constructor
  · rintro ⟨res, hres, hcons⟩
    have hsum := hcons.total
    rw [heq] at hres
    cases hres
    dsimp only at hsum
    omega
  · intro hcost
    refine ⟨_, heq, ?_, ?_⟩
    · dsimp only
      omega
    · intro l hl
      obtain ⟨l₀, hl₀, rfl⟩ := List.mem_map.1 (List.mem_filter.1 hl).1
      exact avgCostLot_basis_nonneg hpos hbasis hamt hle hl₀

end AvgCost

/-- What `reduceLots` conserves, for a sale of at most what is held. -/
theorem reduceLots_conservesBasis_iff {lots : List Lot} {amount : Int}
    (proceedsLamports : Int) (method : AccountingMethod)
    (hpos : ∀ l ∈ lots, 0 < l.amount) (hbasis : ∀ l ∈ lots, 0 ≤ l.costBasisLamports)
    (hamt : 0 < amount) (hle : amount ≤ totalAmount lots) :
    (∃ res, reduceLots lots amount proceedsLamports method = .ok res ∧
      ConservesBasis lots res) ↔
    (method = .avgCost → HoldsBackLessThanOne lots amount) := by
  by_cases hm : method = .avgCost
  · simp only [reduceLots, hamt.not_ge, if_false, hm, if_true, true_imp_iff]
    exact reduceAvgCost_conservesBasis_iff hpos hbasis hamt hle proceedsLamports
  · simp only [reduceLots, hamt.not_ge, if_false, hm, false_imp_iff, iff_true]
    exact reduceOrdered_conservesBasis proceedsLamports method hpos hbasis hamt hle

/-- A sale of at most what is held succeeds, and leaves positive lots whose basis is
not negative. -/
theorem reduceLots_sound {lots : List Lot} {amount : Int} (proceedsLamports : Int)
    (method : AccountingMethod) (hpos : ∀ l ∈ lots, 0 < l.amount)
    (hbasis : ∀ l ∈ lots, 0 ≤ l.costBasisLamports) (hamt : 0 < amount)
    (hle : amount ≤ totalAmount lots) :
    ∃ res, reduceLots lots amount proceedsLamports method = .ok res ∧
      (∀ l ∈ res.remaining, 0 < l.amount) ∧
      ∀ l ∈ res.remaining, 0 ≤ l.costBasisLamports := by
  by_cases hm : method = .avgCost
  · simp only [reduceLots, hamt.not_ge, if_false, hm, if_true]
    refine ⟨_, reduceAvgCost_eq proceedsLamports hpos hamt hle, ?_, ?_⟩
    · intro l hl
      simpa using (List.mem_filter.1 hl).2
    · intro l hl
      obtain ⟨l₀, hl₀, rfl⟩ := List.mem_map.1 (List.mem_filter.1 hl).1
      exact avgCostLot_basis_nonneg hpos hbasis hamt hle hl₀
  · simp only [reduceLots, hamt.not_ge, if_false, hm]
    obtain ⟨res, hres, htokens⟩ :=
      reduceOrdered_conserves proceedsLamports method hpos hamt hle
    obtain ⟨res', hres', hcons⟩ :=
      reduceOrdered_conservesBasis proceedsLamports method hpos hbasis hamt hle
    obtain rfl : res = res' := by
      rw [hres] at hres'
      exact Except.ok.inj hres'
    exact ⟨res, hres, htokens.positive, hcons.nonneg⟩

/-! ## Buys and sells -/

inductive Trade where
  | buy (lot : Lot)
  | sell (amount proceedsLamports : Int) (method : AccountingMethod)
  deriving DecidableEq, Repr

/-- The lots held, what the buys cost and what the sells reported as cost basis. -/
structure Book where
  lots : List Lot := []
  bought : Int := 0
  returned : Int := 0
  deriving DecidableEq, Repr

/-- A buy appends a lot, a sell reduces the lots; `none` where `reduceLots` throws. -/
def Book.step (b : Book) : Trade → Option Book
  | .buy lot =>
      some { b with lots := b.lots ++ [lot], bought := b.bought + lot.costBasisLamports }
  | .sell amount proceedsLamports method =>
      match reduceLots b.lots amount proceedsLamports method with
      | .ok res =>
          some { b with lots := res.remaining, returned := b.returned + res.costBasis }
      | .error _ => none

/-- A buy of tokens, for nothing or more; a sell of at most what is held. -/
def Trade.Valid (b : Book) : Trade → Prop
  | .buy lot => 0 < lot.amount ∧ 0 ≤ lot.costBasisLamports
  | .sell amount _ _ => 0 < amount ∧ amount ≤ totalAmount b.lots

/-- The sale is not an average-cost sale that holds a lamport back. -/
def Trade.HoldsNothingBack (b : Book) : Trade → Prop
  | .sell amount _ .avgCost => HoldsBackLessThanOne b.lots amount
  | _ => True

instance (b : Book) : (t : Trade) → Decidable (t.Valid b)
  | .buy lot => inferInstanceAs (Decidable (0 < lot.amount ∧ 0 ≤ lot.costBasisLamports))
  | .sell amount _ _ => inferInstanceAs (Decidable (0 < amount ∧ amount ≤ totalAmount b.lots))

instance (b : Book) : (t : Trade) → Decidable (t.HoldsNothingBack b)
  | .sell amount _ .avgCost => inferInstanceAs (Decidable (HoldsBackLessThanOne b.lots amount))
  | .sell _ _ .fifo => inferInstanceAs (Decidable True)
  | .sell _ _ .lifo => inferInstanceAs (Decidable True)
  | .buy _ => inferInstanceAs (Decidable True)

structure Book.Sound (b : Book) : Prop where
  positive : ∀ l ∈ b.lots, 0 < l.amount
  nonneg : ∀ l ∈ b.lots, 0 ≤ l.costBasisLamports

/-- The cost of the buys is in the lots or was reported by a sell. -/
def Book.Balanced (b : Book) : Prop := b.returned + totalBasis b.lots = b.bought

theorem Book.sound_buy {b : Book} {lot : Lot} (h : b.Sound)
    (hlot : 0 < lot.amount ∧ 0 ≤ lot.costBasisLamports) :
    Book.Sound { b with
      lots := b.lots ++ [lot], bought := b.bought + lot.costBasisLamports } where
  positive l hl := by
    rcases List.mem_append.1 hl with hl | hl
    · exact h.positive l hl
    · exact List.mem_singleton.1 hl ▸ hlot.1
  nonneg l hl := by
    rcases List.mem_append.1 hl with hl | hl
    · exact h.nonneg l hl
    · exact List.mem_singleton.1 hl ▸ hlot.2

/-- A valid trade goes through, and keeps the balance exactly when it holds nothing
back. -/
theorem Book.step_valid {b : Book} {t : Trade} (h : b.Sound) (ht : t.Valid b) :
    ∃ b', b.step t = some b' ∧ b'.Sound ∧
      (b.Balanced → (b'.Balanced ↔ t.HoldsNothingBack b)) := by
  cases t with
  | buy lot =>
      refine ⟨_, rfl, Book.sound_buy h ht, fun hbal => ?_⟩
      simp only [Book.Balanced] at hbal
      simp only [Book.Balanced, Trade.HoldsNothingBack, totalBasis_append, totalBasis_cons,
        totalBasis_nil, iff_true]
      omega
  | sell amount proceedsLamports method =>
      obtain ⟨res, hres, hpos, hnonneg⟩ :=
        reduceLots_sound proceedsLamports method h.positive h.nonneg ht.1 ht.2
      have hiff := reduceLots_conservesBasis_iff proceedsLamports method h.positive
        h.nonneg ht.1 ht.2
      refine ⟨{ b with lots := res.remaining, returned := b.returned + res.costBasis },
        by simp only [Book.step, hres], ⟨hpos, hnonneg⟩, fun hbal => ?_⟩
      have hback : Trade.HoldsNothingBack b (.sell amount proceedsLamports method) ↔
          (method = .avgCost → HoldsBackLessThanOne b.lots amount) := by
        cases method <;> simp [Trade.HoldsNothingBack]
      rw [hback, ← hiff]
      simp only [Book.Balanced] at hbal ⊢
      constructor
      · intro hbal'
        exact ⟨res, hres, by omega, hnonneg⟩
      · rintro ⟨res', hres', hcons⟩
        obtain rfl : res = res' := by
          rw [hres] at hres'
          exact Except.ok.inj hres'
        have := hcons.total
        omega

theorem Book.step_of_valid {b b' : Book} {t : Trade} (h : b.Sound) (ht : t.Valid b)
    (hstep : b.step t = some b') :
    b'.Sound ∧ (b.Balanced → (b'.Balanced ↔ t.HoldsNothingBack b)) := by
  obtain ⟨b'', hb'', hfacts⟩ := Book.step_valid h ht
  rw [hstep] at hb''
  cases hb''
  exact hfacts

/-- `reduceLots` conserves cost basis except in the average-cost sales that hold a
lamport back; and a book of buys and sells stays balanced exactly as long as it has
no such sale, so that without one the sells of an emptied book have reported what
the buys cost. -/
theorem reduceLots_basis_iff (lots : List Lot) (amount proceedsLamports : Int)
    (method : AccountingMethod) (trades : List Trade) :
    ((∀ l ∈ lots, 0 < l.amount) → (∀ l ∈ lots, 0 ≤ l.costBasisLamports) →
      0 < amount → amount ≤ totalAmount lots →
      ((∃ res, reduceLots lots amount proceedsLamports method = .ok res ∧
          ConservesBasis lots res) ↔
        (method = .avgCost → HoldsBackLessThanOne lots amount))) ∧
    (Permitted Book.step (fun b t => t.Valid b) {} trades →
      (Along Book.step (fun _ _ b => b.Balanced) {} trades ↔
        Along Book.step (fun b t _ => t.HoldsNothingBack b) {} trades) ∧
      (Along Book.step (fun b t _ => t.HoldsNothingBack b) {} trades →
        ∃ b, exec Book.step {} trades = some b ∧ b.Balanced ∧
          (b.lots = [] → b.returned = b.bought))) := by
  refine ⟨reduceLots_conservesBasis_iff proceedsLamports method, ?_⟩
  intro hvalid
  have hinit : Book.Sound {} ∧ Book.Balanced {} := by
    refine ⟨⟨fun l hl => ?_, fun l hl => ?_⟩, rfl⟩ <;> cases hl
  constructor
  · refine hvalid.along_iff (fun b => b.Sound ∧ b.Balanced) ?_ hinit
    intro b t b' hb ht hstep
    obtain ⟨hsound, hiff⟩ := Book.step_of_valid hb.1 ht hstep
    exact ⟨hiff hb.2, fun hback => ⟨hsound, (hiff hb.2).2 hback⟩⟩
  · intro hback
    obtain ⟨b, hb⟩ := hback.exec
    have hbook : b.Sound ∧ b.Balanced := by
      refine Along.inv (fun b => b.Sound ∧ b.Balanced) (fun b t b' hb hstep ht => ?_)
        (hvalid.along hback) hinit hb
      obtain ⟨hsound, hiff⟩ := Book.step_of_valid hb.1 ht.1 hstep
      exact ⟨hsound, (hiff hb.2).2 ht.2⟩
    refine ⟨b, hb, hbook.2, fun hempty => ?_⟩
    have hbal := hbook.2
    simp only [Book.Balanced, hempty, totalBasis_nil, add_zero] at hbal
    exact hbal

/-- Two buys, an average-cost sale of half, and a sale of the rest. -/
theorem reduceLots_basis_two_buys :
    (∃ res, reduceLots [tradeLot 2 10 "a", tradeLot 4 30 "b"] 3 90 .avgCost = .ok res ∧
      ConservesBasis [tradeLot 2 10 "a", tradeLot 4 30 "b"] res) ∧
    ∃ b, exec Book.step {}
        [.buy (tradeLot 2 10 "a"), .buy (tradeLot 4 30 "b"), .sell 3 90 .avgCost,
          .sell 3 60 .lifo] = some b ∧ b.Balanced ∧ (b.lots = [] → b.returned = b.bought) :=
  ⟨((reduceLots_basis_iff [tradeLot 2 10 "a", tradeLot 4 30 "b"] 3 90 .avgCost []).1
      (by decide) (by decide) (by decide) (by decide)).2 fun _ => by decide,
    ((reduceLots_basis_iff [] 0 0 .fifo
      [.buy (tradeLot 2 10 "a"), .buy (tradeLot 4 30 "b"), .sell 3 90 .avgCost,
        .sell 3 60 .lifo]).2 (by decide)).2 (by decide)⟩

/-- Two lots of one token each that cost 10 lamports: the sale of one reports a basis
of 10 and takes nothing out of the lots. -/
theorem reduceLots_avgCost_reports_basis_twice :
    (∀ l ∈ [tradeLot 1 10 "a", tradeLot 1 10 "b"], 0 < l.amount) ∧
    (∀ l ∈ [tradeLot 1 10 "a", tradeLot 1 10 "b"], 0 ≤ l.costBasisLamports) ∧
    0 < (1 : Int) ∧ 1 ≤ totalAmount [tradeLot 1 10 "a", tradeLot 1 10 "b"] ∧
    ¬ ∃ res, reduceLots [tradeLot 1 10 "a", tradeLot 1 10 "b"] 1 30 .avgCost = .ok res ∧
      ConservesBasis [tradeLot 1 10 "a", tradeLot 1 10 "b"] res := by
  refine ⟨by decide, by decide, by decide, by decide, ?_⟩
  rintro ⟨res, hres, hcons⟩
  have hrun : reduceLots [tradeLot 1 10 "a", tradeLot 1 10 "b"] 1 30 .avgCost =
      .ok { remaining := [tradeLot 1 10 "a", tradeLot 1 10 "b"], realized := 20,
            costBasis := 10, proceeds := 30, basisUnresolved := false } := by
    decide
  rw [hrun] at hres
  cases hres
  exact absurd hcons.total (by decide)

end Ap3xSolana.Portfolio.Accounting
