import Ap3xSolana.Lib.Throwing
import Ap3xSolana.Portfolio.Accounting

/-!
# When `reduceLots` throws

A sale of more tokens than the lots hold is to be refused, and nothing else is.  The FIFO
and LIFO loop divides by the amount of every lot it sells from, so an empty lot that comes
before the sale is covered ends it with a `RangeError`; the average-cost branch returns
early for a pool without tokens and sells from it whatever is asked.
`reduceLots_refuses_iff` says that these are the only exceptions.
-/

namespace Ap3xSolana.Portfolio.Oversell

open Ap3xSolana.Lib.Throwing Ap3xSolana.Portfolio.Accounting

/-- It throws if and only if the sale exceeds the lots, and never over a division. -/
def RefusesOversells (lots : List Lot) (amount proceedsLamports : Int)
    (method : AccountingMethod) : Prop :=
  ((∃ e, reduceLots lots amount proceedsLamports method = .error e) ↔
      totalAmount lots < amount) ∧
    reduceLots lots amount proceedsLamports method ≠ .error .divisionByZero

/-- In this order an empty lot comes before `amount` tokens are sold. -/
def SellsEmptyLot (ordered : List Lot) (amount : Int) : Prop :=
  ∃ sold l rest, ordered = sold ++ l :: rest ∧ l.amount = 0 ∧ totalAmount sold < amount

/-- The lots that each method can sell from. -/
def Sellable (lots : List Lot) (amount : Int) (method : AccountingMethod) : Prop :=
  if method = .avgCost then totalAmount lots ≠ 0
  else ¬ SellsEmptyLot (saleOrder method lots) amount

theorem totalAmount_nonneg_of {lots : List Lot} (h : ∀ l ∈ lots, 0 ≤ l.amount) :
    0 ≤ totalAmount lots := by
  apply List.sum_nonneg
  simpa using h

/-! ## FIFO and LIFO -/

theorem sellsEmptyLot_nil (amount : Int) : ¬ SellsEmptyLot [] amount := by
  rintro ⟨sold, l, rest, h, -⟩
  exact List.append_ne_nil_of_right_ne_nil sold (List.cons_ne_nil l rest) h.symm

theorem sellsEmptyLot_cons {l : Lot} {ls : List Lot} {amount : Int} :
    SellsEmptyLot (l :: ls) amount ↔
      l.amount = 0 ∧ 0 < amount ∨ SellsEmptyLot ls (amount - l.amount) := by
  constructor
  · rintro ⟨sold, l', rest, heq, hempty, hlt⟩
    cases sold with
    | nil =>
        cases heq
        exact .inl ⟨hempty, hlt⟩
    | cons m sold =>
        cases heq
        rw [totalAmount_cons] at hlt
        exact .inr ⟨sold, l', rest, rfl, hempty, by omega⟩
  · rintro (⟨hempty, hpos⟩ | ⟨sold, l', rest, rfl, hempty, hlt⟩)
    · exact ⟨[], l, ls, rfl, hempty, hpos⟩
    · refine ⟨l :: sold, l', rest, rfl, hempty, ?_⟩
      rw [totalAmount_cons]
      omega

/-- Once the sale is covered no lot is sold from. -/
theorem not_sellsEmptyLot {ls : List Lot} {amount : Int} (h : ∀ l ∈ ls, 0 ≤ l.amount)
    (hcovered : amount ≤ 0) : ¬ SellsEmptyLot ls amount := by
  rintro ⟨sold, l, rest, rfl, -, hlt⟩
  have hsold : 0 ≤ totalAmount sold :=
    totalAmount_nonneg_of fun m hm => h m (List.mem_append_left _ hm)
  omega

/-- One turn that sells from a lot with tokens. -/
theorem consumeLot_takes (proceedsLamports : Int) {amount : Int} (hamount : 0 < amount)
    {st : Consumed} {l : Lot} (hl : 0 < l.amount) (htake : 0 < st.toTake) :
    ∃ st', consumeLot amount proceedsLamports st l = .ok st' ∧
      st'.toTake = st.toTake - min st.toTake l.amount := by
  have hne : st.toTake ≠ 0 := by omega
  have htaken : tokensTaken l st.toTake = min st.toTake l.amount := by
    unfold tokensTaken
    split <;> omega
  simp only [consumeLot, hne, if_false, bigintDiv_of_pos _ hl,
    bigintDiv_of_pos _ (proceedsDenom_pos hamount l), bind, Except.bind, pure, Except.pure]
  exact ⟨_, rfl, by rw [htaken]⟩

/-- The loop divides by zero at an empty lot, and else takes what there is. -/
theorem foldlM_consumeLot_takes (proceedsLamports : Int) {amount : Int} (hamount : 0 < amount)
    (ls : List Lot) (h : ∀ l ∈ ls, 0 ≤ l.amount) :
    ∀ st : Consumed, 0 ≤ st.toTake →
    (SellsEmptyLot ls st.toTake ∧
        ls.foldlM (consumeLot amount proceedsLamports) st = .error .divisionByZero) ∨
      (¬ SellsEmptyLot ls st.toTake ∧
        ∃ st', ls.foldlM (consumeLot amount proceedsLamports) st = .ok st' ∧
          st'.toTake = st.toTake - min st.toTake (totalAmount ls)) := by
  induction ls with
  | nil =>
      intro st hst
      refine .inr ⟨sellsEmptyLot_nil _, st, rfl, ?_⟩
      rw [totalAmount_nil]
      omega
  | cons l ls ih =>
      intro st hst
      have hl : 0 ≤ l.amount := h l List.mem_cons_self
      have hls : ∀ m ∈ ls, 0 ≤ m.amount := fun m hm => h m (List.mem_cons_of_mem _ hm)
      have htotal := totalAmount_nonneg_of hls
      rw [List.foldlM_cons, sellsEmptyLot_cons, totalAmount_cons]
      by_cases hdone : st.toTake = 0
      · -- the sale is covered, and the lot is copied
        have hstep : consumeLot amount proceedsLamports st l =
            .ok { st with out := st.out ++ [l] } := by
          simp [consumeLot, hdone, pure, Except.pure]
        have hnot : ¬ SellsEmptyLot ls st.toTake := not_sellsEmptyLot hls (by omega)
        have hnot' : ¬ SellsEmptyLot ls (st.toTake - l.amount) :=
          not_sellsEmptyLot hls (by omega)
        rw [hstep]
        rcases ih hls { st with out := st.out ++ [l] } hst with ⟨hmeets, -⟩ | ⟨-, st', hrun, hst'⟩
        · exact absurd hmeets hnot
        · refine .inr ⟨?_, st', hrun, ?_⟩
          · rintro (⟨-, hpos⟩ | hmeets)
            · omega
            · exact hnot' hmeets
          · show st'.toTake = _
            have : ({ st with out := st.out ++ [l] } : Consumed).toTake = st.toTake := rfl
            omega
      · by_cases hempty : l.amount = 0
        · refine .inl ⟨.inl ⟨hempty, by omega⟩, ?_⟩
          simp [consumeLot, hdone, hempty, bigintDiv, bind, Except.bind]
        · obtain ⟨st', hstep, hst'⟩ := consumeLot_takes proceedsLamports
            hamount (by omega : 0 < l.amount) (by omega : 0 < st.toTake)
          have hsame : SellsEmptyLot ls (st.toTake - l.amount) ↔ SellsEmptyLot ls st'.toTake := by
            by_cases hmore : l.amount ≤ st.toTake
            · rw [hst', min_eq_right hmore]
            · have hzero : st'.toTake = 0 := by omega
              exact iff_of_false (not_sellsEmptyLot hls (by omega))
                (not_sellsEmptyLot hls (by omega))
          rw [hstep, hsame]
          rcases ih hls st' (by omega) with ⟨hmeets, hrun⟩ | ⟨hnot, st'', hrun, hst''⟩
          · exact .inl ⟨.inr hmeets, hrun⟩
          · refine .inr ⟨?_, st'', hrun, by omega⟩
            rintro (⟨h0, -⟩ | hmeets)
            · exact hempty h0
            · exact hnot hmeets

theorem reduceOrdered_refuses_iff {lots : List Lot} {amount : Int} (proceedsLamports : Int)
    (method : AccountingMethod) (h : ∀ l ∈ lots, 0 ≤ l.amount) (hamount : 0 < amount) :
    (((∃ e, reduceOrdered lots amount proceedsLamports method = .error e) ↔
        totalAmount lots < amount) ∧
      reduceOrdered lots amount proceedsLamports method ≠ .error .divisionByZero) ↔
    ¬ SellsEmptyLot (saleOrder method lots) amount := by
  have hordered : ∀ l ∈ saleOrder method lots, 0 ≤ l.amount := fun l hl =>
    h l (mem_saleOrder.1 hl)
  have hloop := foldlM_consumeLot_takes proceedsLamports hamount
    (saleOrder method lots) hordered
    { toTake := amount, costBasis := 0, allocatedProceeds := 0,
      basisUnresolved := false, out := [] } hamount.le
  rw [totalAmount_saleOrder] at hloop
  rcases hloop with ⟨hmeets, hrun⟩ | ⟨hnot, st, hrun, hst⟩
  · have hthrows : reduceOrdered lots amount proceedsLamports method =
        .error .divisionByZero := by
      unfold reduceOrdered consumeAll
      rw [hrun]
      rfl
    exact iff_of_false (fun hprop => hprop.2 hthrows) (fun hnot => hnot hmeets)
  · refine iff_of_true ?_ hnot
    have hrest : 0 < st.toTake ↔ totalAmount lots < amount := by
      simp only at hst
      omega
    unfold reduceOrdered consumeAll
    rw [hrun]
    by_cases hleft : 0 < st.toTake
    · simp [bind, Except.bind, hleft, hrest.1 hleft, throw, throwThe, MonadExceptOf.throw]
    · simp [bind, Except.bind, pure, Except.pure, hleft, mt hrest.2 hleft]

/-! ## Average cost -/

/-- A lot gives up tokens only if it has some. -/
theorem reduceProportionally_ok (amount : Int) {totalAmt : Int} (htotal : 0 < totalAmt) (l : Lot) :
    ∃ l', reduceProportionally amount totalAmt l = .ok l' := by
  by_cases htake : (l.amount * amount).tdiv totalAmt = 0
  · simp [reduceProportionally, bigintDiv_of_pos _ htotal, htake, bind, Except.bind, pure,
      Except.pure]
  · have hl : l.amount ≠ 0 := by
      intro h0
      rw [h0, zero_mul, Int.zero_tdiv] at htake
      exact htake rfl
    have hbasis : bigintDiv (l.costBasisLamports * (l.amount * amount).tdiv totalAmt) l.amount =
        .ok ((l.costBasisLamports * (l.amount * amount).tdiv totalAmt).tdiv l.amount) :=
      if_neg hl
    simp [reduceProportionally, bigintDiv_of_pos _ htotal, htake, hbasis, bind, Except.bind,
      pure, Except.pure]

theorem reduceAvgCost_refuses_iff {lots : List Lot} {amount : Int} (proceedsLamports : Int)
    (h : ∀ l ∈ lots, 0 ≤ l.amount) (hamount : 0 < amount) :
    (((∃ e, reduceAvgCost lots amount proceedsLamports = .error e) ↔
        totalAmount lots < amount) ∧
      reduceAvgCost lots amount proceedsLamports ≠ .error .divisionByZero) ↔
    totalAmount lots ≠ 0 := by
  have htotal := totalAmount_nonneg_of h
  unfold reduceAvgCost
  by_cases hzero : totalAmount lots = 0
  · simp [hzero, hamount, pure, Except.pure]
  · have hpos : 0 < totalAmount lots := by omega
    by_cases hover : totalAmount lots < amount
    · simp [hzero, hover, throw, throwThe, MonadExceptOf.throw, bind, Except.bind]
    · obtain ⟨remaining, hremaining⟩ := exists_mapM_ok fun l (_ : l ∈ lots) =>
        reduceProportionally_ok amount hpos l
      simp [hzero, hover, bigintDiv_of_pos _ hpos, hremaining, bind, Except.bind, pure,
        Except.pure]

/-! ## All methods -/

theorem reduceLots_refuses_iff (lots : List Lot) (amount proceedsLamports : Int)
    (method : AccountingMethod) (h : ∀ l ∈ lots, 0 ≤ l.amount ∧ 0 ≤ l.costBasisLamports)
    (hamount : 0 < amount) :
    RefusesOversells lots amount proceedsLamports method ↔ Sellable lots amount method := by
  have hamounts : ∀ l ∈ lots, 0 ≤ l.amount := fun l hl => (h l hl).1
  unfold RefusesOversells Sellable reduceLots
  rw [if_neg (not_le.2 hamount)]
  by_cases hmethod : method = .avgCost
  · rw [if_pos hmethod, if_pos hmethod]
    exact reduceAvgCost_refuses_iff proceedsLamports hamounts hamount
  · rw [if_neg hmethod, if_neg hmethod]
    exact reduceOrdered_refuses_iff proceedsLamports method hamounts hamount

def emptyLot : Lot :=
  { amount := 0, costBasisLamports := 0, acquiredSlot := 1, acquiredSig := "s1",
    source := .trade }

def lotOfTen : Lot :=
  { amount := 10, costBasisLamports := 100, acquiredSlot := 2, acquiredSig := "s2",
    source := .trade }

theorem reduceLots_refuses_iff_empty_lot :
    (∀ l ∈ [emptyLot, lotOfTen], 0 ≤ l.amount ∧ 0 ≤ l.costBasisLamports) ∧
      (RefusesOversells [emptyLot, lotOfTen] 5 50 .lifo ↔
        Sellable [emptyLot, lotOfTen] 5 .lifo) :=
  ⟨by decide, reduceLots_refuses_iff [emptyLot, lotOfTen] 5 50 .lifo (by decide) (by decide)⟩

/-- The empty lot comes first, and the sale of half of what there is fails. -/
theorem reduceLots_fifo_divides_by_zero :
    ¬ ∀ (lots : List Lot) (amount proceedsLamports : Int) (method : AccountingMethod),
      (∀ l ∈ lots, 0 ≤ l.amount ∧ 0 ≤ l.costBasisLamports) → 0 < amount →
      RefusesOversells lots amount proceedsLamports method := by
  intro hall
  have hprop := hall [emptyLot, lotOfTen] 5 50 .fifo (by decide) (by decide)
  exact hprop.2 (by decide)

end Ap3xSolana.Portfolio.Oversell
