import Ap3xSolana.Lib.ProRata
import Mathlib.Algebra.Order.BigOperators.Group.List

/-!
# Lot accounting: `reduceLots`

A position is a list of lots, newest last.  Selling reduces the lots by FIFO,
LIFO or average cost.  `bigint` is `Int`, and `bigint` division truncates and
throws on zero, so every division below goes through `bigintDiv`.

The FIFO and LIFO branches are one loop over an ordered list.  `salePlan` says
which lots the loop touches and how many tokens it takes from each, `leftover`
what it leaves behind; `consumeAll_eq` is the only place the loop is unfolded.
-/

namespace Ap3xSolana.Portfolio.Accounting

open Ap3xSolana.Lib.ProRata

inductive LotSource where
  | trade
  | airdrop
  | transferIn
  | coldStartReconstructed
  | coldStartUnresolved
  deriving DecidableEq, Repr

/-- What a field declared as text holds.  Reading a store file back takes some texts
for a `bigint`. -/
inductive TextField where
  | text (s : String)
  | bigint (n : Int)
  deriving DecidableEq, Repr

instance : Coe String TextField := ⟨.text⟩

structure Lot where
  amount : Int
  costBasisLamports : Int
  acquiredSlot : Nat
  acquiredSig : TextField
  source : LotSource
  reconstructedAt : Option Int := none
  basisUnresolved : Option Bool := none
  deriving DecidableEq, Repr

inductive AccountingMethod where
  | fifo
  | lifo
  | avgCost
  deriving DecidableEq, Repr

structure ReduceResult where
  remaining : List Lot
  realized : Int
  costBasis : Int
  proceeds : Int
  basisUnresolved : Bool
  deriving DecidableEq, Repr

/-- What `reduceLots` can throw: its own oversell error, or the `RangeError` of
a `bigint` division by zero. -/
inductive ReduceError where
  | insufficientAmount (tried available : Int)
  | divisionByZero
  deriving DecidableEq, Repr

def ReduceError.message : ReduceError → String
  | .insufficientAmount tried available =>
      s!"insufficient amount: tried to reduce {tried}, only {available} available"
  | .divisionByZero => "Division by zero"

/-- `a / b` on `bigint`. -/
def bigintDiv (a b : Int) : Except ReduceError Int :=
  if b = 0 then .error .divisionByZero else .ok (a.tdiv b)

theorem bigintDiv_of_pos (a : Int) {b : Int} (hb : 0 < b) :
    bigintDiv a b = .ok (a.tdiv b) := if_neg hb.ne'

/-- `lots.reduce((s, l) => s + l.amount, 0n)`. -/
def totalAmount (lots : List Lot) : Int := (lots.map Lot.amount).sum

/-- `lots.reduce((s, l) => s + l.costBasisLamports, 0n)`. -/
def totalBasis (lots : List Lot) : Int := (lots.map Lot.costBasisLamports).sum

@[simp] theorem totalAmount_nil : totalAmount [] = 0 := rfl

@[simp] theorem totalAmount_cons (l : Lot) (lots : List Lot) :
    totalAmount (l :: lots) = l.amount + totalAmount lots := rfl

@[simp] theorem totalAmount_append (xs ys : List Lot) :
    totalAmount (xs ++ ys) = totalAmount xs + totalAmount ys := by
  simp [totalAmount]

@[simp] theorem totalAmount_reverse (lots : List Lot) :
    totalAmount lots.reverse = totalAmount lots := by
  simp [totalAmount, List.sum_reverse]

theorem totalAmount_nonneg {lots : List Lot} (h : ∀ l ∈ lots, 0 < l.amount) :
    0 ≤ totalAmount lots :=
  List.sum_nonneg (by simpa using fun l hl => (h l hl).le)

/-! ## The three branches -/

/-- `{ ...l, amount, costBasisLamports }`. -/
def Lot.reduceBy (l : Lot) (tokens basis : Int) : Lot :=
  { l with
    amount := l.amount - tokens
    costBasisLamports := l.costBasisLamports - basis }

/-- The body of the average-cost `map`: the lot gives up its proportional part
of the sale, rounded down. -/
def reduceProportionally (amount totalAmt : Int) (l : Lot) :
    Except ReduceError Lot := do
  let take ← bigintDiv (l.amount * amount) totalAmt
  if take = 0 then return l
  let basisTaken ← bigintDiv (l.costBasisLamports * take) l.amount
  return l.reduceBy take basisTaken

def reduceAvgCost (lots : List Lot) (amount proceedsLamports : Int) :
    Except ReduceError ReduceResult := do
  let totalAmt := totalAmount lots
  if totalAmt = 0 then
    return { remaining := lots, realized := 0, costBasis := 0,
             proceeds := proceedsLamports, basisUnresolved := false }
  if amount > totalAmt then
    throw (.insufficientAmount amount totalAmt)
  let avgBasis ← bigintDiv (totalBasis lots * amount) totalAmt
  let remaining ← lots.mapM (reduceProportionally amount totalAmt)
  return { remaining := remaining.filter (0 < ·.amount)
           realized := proceedsLamports - avgBasis
           costBasis := avgBasis
           proceeds := proceedsLamports
           basisUnresolved := lots.any (·.basisUnresolved == some true) }

/-- The variables the FIFO / LIFO loop updates. -/
structure Consumed where
  toTake : Int
  costBasis : Int
  allocatedProceeds : Int
  basisUnresolved : Bool
  out : List Lot
  deriving DecidableEq, Repr

/-- Tokens the loop takes from `l` when `toTake` are still to be sold. -/
def tokensTaken (l : Lot) (toTake : Int) : Int :=
  if l.amount ≤ toTake then l.amount else toTake

/-- Denominator of the per-lot proceeds: the larger of the lot and the sale. -/
def proceedsDenom (amount : Int) (l : Lot) : Int :=
  if l.amount > amount then l.amount else amount

/-- One turn of the FIFO / LIFO loop. -/
def consumeLot (amount proceedsLamports : Int) (st : Consumed) (l : Lot) :
    Except ReduceError Consumed := do
  if st.toTake = 0 then return { st with out := st.out ++ [l] }
  let taken := tokensTaken l st.toTake
  let partialBasis ← bigintDiv (l.costBasisLamports * taken) l.amount
  let lotProceeds ← bigintDiv (proceedsLamports * taken) (proceedsDenom amount l)
  return { toTake := st.toTake - taken
           costBasis := st.costBasis + partialBasis
           allocatedProceeds := st.allocatedProceeds + lotProceeds
           basisUnresolved := st.basisUnresolved || l.basisUnresolved == some true
           out := if taken < l.amount then
                    st.out ++ [l.reduceBy taken partialBasis]
                  else st.out }

def consumeAll (ordered : List Lot) (amount proceedsLamports : Int) :
    Except ReduceError Consumed :=
  ordered.foldlM (consumeLot amount proceedsLamports)
    { toTake := amount, costBasis := 0, allocatedProceeds := 0,
      basisUnresolved := false, out := [] }

/-- The order in which FIFO and LIFO sell. -/
def saleOrder (method : AccountingMethod) (lots : List Lot) : List Lot :=
  if method = .fifo then lots else lots.reverse

def reduceOrdered (lots : List Lot) (amount proceedsLamports : Int)
    (method : AccountingMethod) : Except ReduceError ReduceResult := do
  let st ← consumeAll (saleOrder method lots) amount proceedsLamports
  if st.toTake > 0 then
    throw (.insufficientAmount amount (amount - st.toTake))
  return { remaining := saleOrder method st.out
           realized := st.allocatedProceeds - st.costBasis
           costBasis := st.costBasis
           proceeds := proceedsLamports
           basisUnresolved := st.basisUnresolved }

def reduceLots (lots : List Lot) (amount proceedsLamports : Int)
    (method : AccountingMethod) : Except ReduceError ReduceResult :=
  if amount ≤ 0 then
    .ok { remaining := lots, realized := 0, costBasis := 0,
          proceeds := proceedsLamports, basisUnresolved := false }
  else if method = .avgCost then reduceAvgCost lots amount proceedsLamports
  else reduceOrdered lots amount proceedsLamports method

/-! ## What the FIFO / LIFO loop computes -/

/-- The lots a sale touches, in order, with the tokens it takes from each. -/
def salePlan : List Lot → Int → List (Lot × Int)
  | [], _ => []
  | l :: ls, toTake =>
      if toTake = 0 then []
      else (l, tokensTaken l toTake) :: salePlan ls (toTake - tokensTaken l toTake)

/-- The lots a sale leaves behind: the unsold rest of the last lot it touches,
then every lot after it. -/
def leftover : List Lot → Int → List Lot
  | [], _ => []
  | l :: ls, toTake =>
      if toTake = 0 then l :: ls
      else
        let taken := tokensTaken l toTake
        let rest := leftover ls (toTake - taken)
        if taken < l.amount then
          l.reduceBy taken ((l.costBasisLamports * taken).tdiv l.amount) :: rest
        else rest

theorem tokensTaken_le_amount (l : Lot) (toTake : Int) :
    tokensTaken l toTake ≤ l.amount := by
  unfold tokensTaken; split <;> omega

theorem tokensTaken_le (l : Lot) (toTake : Int) :
    tokensTaken l toTake ≤ toTake := by
  unfold tokensTaken; split <;> omega

theorem tokensTaken_pos {l : Lot} {toTake : Int} (hl : 0 < l.amount)
    (ht : 0 < toTake) : 0 < tokensTaken l toTake := by
  unfold tokensTaken; split <;> omega

@[simp] theorem salePlan_zero (ls : List Lot) : salePlan ls 0 = [] := by
  cases ls <;> simp [salePlan]

@[simp] theorem leftover_zero (ls : List Lot) : leftover ls 0 = ls := by
  cases ls <;> simp [leftover]

/-- Proceeds the loop allocates to one entry of the plan. -/
def planProceeds (amount proceedsLamports : Int) (p : Lot × Int) : Int :=
  share proceedsLamports (proceedsDenom amount p.1) p.2

/-- Basis the loop takes out with one entry of the plan. -/
def planBasis (p : Lot × Int) : Int := (p.1.costBasisLamports * p.2).tdiv p.1.amount

theorem proceedsDenom_pos {amount : Int} (h : 0 < amount) (l : Lot) :
    0 < proceedsDenom amount l := by
  unfold proceedsDenom; split <;> omega

theorem le_proceedsDenom (amount : Int) (l : Lot) :
    amount ≤ proceedsDenom amount l := by
  unfold proceedsDenom; split <;> omega

/-- Nothing left to take: the rest of the loop only copies lots over. -/
private theorem foldlM_consumeLot_done (amount proceedsLamports : Int)
    (ls : List Lot) : ∀ st : Consumed, st.toTake = 0 →
    ls.foldlM (consumeLot amount proceedsLamports) st =
      .ok { st with out := st.out ++ ls } := by
  induction ls with
  | nil => intro st _; simp [pure, Except.pure]
  | cons l ls ih =>
      intro st h
      have hstep : consumeLot amount proceedsLamports st l =
          .ok { st with out := st.out ++ [l] } := by
        simp [consumeLot, h, pure, Except.pure]
      rw [List.foldlM_cons, hstep]
      simpa [bind, Except.bind] using ih { st with out := st.out ++ [l] } h

/-- The loop over positive lots, in closed form. -/
private theorem foldlM_consumeLot (amount proceedsLamports : Int)
    (hamt : 0 < amount) (ls : List Lot) (hpos : ∀ l ∈ ls, 0 < l.amount) :
    ∀ st : Consumed, 0 ≤ st.toTake →
    ls.foldlM (consumeLot amount proceedsLamports) st = .ok
      { toTake := st.toTake - ((salePlan ls st.toTake).map Prod.snd).sum
        costBasis := st.costBasis + ((salePlan ls st.toTake).map planBasis).sum
        allocatedProceeds := st.allocatedProceeds +
          ((salePlan ls st.toTake).map (planProceeds amount proceedsLamports)).sum
        basisUnresolved := st.basisUnresolved ||
          (salePlan ls st.toTake).any (·.1.basisUnresolved == some true)
        out := st.out ++ leftover ls st.toTake } := by
  induction ls with
  | nil => intro st _; simp [salePlan, leftover, pure, Except.pure]
  | cons l ls ih =>
      intro st hst
      by_cases h0 : st.toTake = 0
      · rw [foldlM_consumeLot_done amount proceedsLamports (l :: ls) st h0]
        simp [h0]
      · have hl : 0 < l.amount := hpos l (by simp)
        have hden := proceedsDenom_pos hamt l
        have htake := tokensTaken_le l st.toTake
        rw [List.foldlM_cons]
        simp only [consumeLot, h0, if_false, bigintDiv_of_pos _ hl,
          bigintDiv_of_pos _ hden, bind, Except.bind, pure, Except.pure]
        rw [ih (fun l' hl' => hpos l' (by simp [hl'])) _ (by simp only; omega)]
        simp only [salePlan, h0, if_false, leftover, List.map_cons,
          List.sum_cons, List.any_cons, planBasis, planProceeds, share,
          Int.add_assoc, Int.sub_sub, Bool.or_assoc]
        congr 2
        split <;> simp

/-- The whole loop, in closed form. -/
theorem consumeAll_eq {amount : Int} (hamt : 0 < amount) (proceedsLamports : Int)
    (ls : List Lot) (hpos : ∀ l ∈ ls, 0 < l.amount) :
    consumeAll ls amount proceedsLamports = .ok
      { toTake := amount - ((salePlan ls amount).map Prod.snd).sum
        costBasis := ((salePlan ls amount).map planBasis).sum
        allocatedProceeds :=
          ((salePlan ls amount).map (planProceeds amount proceedsLamports)).sum
        basisUnresolved :=
          (salePlan ls amount).any (·.1.basisUnresolved == some true)
        out := leftover ls amount } := by
  rw [consumeAll, foldlM_consumeLot amount proceedsLamports hamt ls hpos _ hamt.le]
  simp

/-! ### The plan and what it leaves -/

/-- What is left to take after a lot can be taken from the lots behind it. -/
theorem sub_tokensTaken_le {l : Lot} {ls : List Lot} {toTake : Int}
    (hpos : ∀ l' ∈ ls, 0 < l'.amount) (hle : toTake ≤ totalAmount (l :: ls)) :
    toTake - tokensTaken l toTake ≤ totalAmount ls := by
  have hnonneg := totalAmount_nonneg hpos
  rw [totalAmount_cons] at hle
  unfold tokensTaken
  split <;> omega

theorem salePlan_taken_sum (ls : List Lot) :
    ∀ toTake : Int, 0 ≤ toTake → (∀ l ∈ ls, 0 < l.amount) →
    toTake ≤ totalAmount ls → ((salePlan ls toTake).map Prod.snd).sum = toTake := by
  induction ls with
  | nil =>
      intro toTake h0 _ hle
      simp only [totalAmount_nil] at hle
      simp [salePlan]; omega
  | cons l ls ih =>
      intro toTake h0 hpos hle
      by_cases hz : toTake = 0
      · simp [hz]
      · have hls : ∀ l' ∈ ls, 0 < l'.amount := fun l' h => hpos l' (by simp [h])
        have htake := tokensTaken_le l toTake
        have hrest := sub_tokensTaken_le hls hle
        simp only [salePlan, hz, if_false, List.map_cons, List.sum_cons]
        rw [ih _ (by omega) hls hrest]
        omega

theorem salePlan_snd_pos {ls : List Lot} (hpos : ∀ l ∈ ls, 0 < l.amount) :
    ∀ toTake : Int, 0 ≤ toTake → ∀ p ∈ salePlan ls toTake, 0 < p.2 := by
  induction ls with
  | nil => simp [salePlan]
  | cons l ls ih =>
      intro toTake h0 p hp
      by_cases hz : toTake = 0
      · simp [hz] at hp
      · have htake := tokensTaken_le l toTake
        simp only [salePlan, hz, if_false, List.mem_cons] at hp
        rcases hp with rfl | hp
        · exact tokensTaken_pos (hpos l (by simp)) (by omega)
        · exact ih (fun l' h => hpos l' (by simp [h])) _ (by omega) p hp

theorem salePlan_snd_nonneg {ls : List Lot} (hpos : ∀ l ∈ ls, 0 < l.amount)
    (toTake : Int) (h0 : 0 ≤ toTake) : ∀ p ∈ salePlan ls toTake, 0 ≤ p.2 :=
  fun p hp => (salePlan_snd_pos hpos toTake h0 p hp).le

theorem totalAmount_leftover (ls : List Lot) :
    ∀ toTake : Int, 0 ≤ toTake → (∀ l ∈ ls, 0 < l.amount) →
    toTake ≤ totalAmount ls →
    totalAmount (leftover ls toTake) = totalAmount ls - toTake := by
  induction ls with
  | nil =>
      intro toTake h0 _ hle
      simp only [totalAmount_nil] at hle
      simp [leftover]; omega
  | cons l ls ih =>
      intro toTake h0 hpos hle
      by_cases hz : toTake = 0
      · simp [hz]
      · have hls : ∀ l' ∈ ls, 0 < l'.amount := fun l' h => hpos l' (by simp [h])
        have htake := tokensTaken_le l toTake
        have hamt := tokensTaken_le_amount l toTake
        have hrest := sub_tokensTaken_le hls hle
        have hih := ih _ (by omega) hls hrest
        simp only [leftover, hz, if_false]
        split
        · simp only [totalAmount_cons, Lot.reduceBy, hih]; omega
        · simp only [totalAmount_cons, hih]; omega

theorem leftover_pos (ls : List Lot) :
    ∀ toTake : Int, (∀ l ∈ ls, 0 < l.amount) →
    ∀ l ∈ leftover ls toTake, 0 < l.amount := by
  induction ls with
  | nil => simp [leftover]
  | cons l ls ih =>
      intro toTake hpos l' hl'
      have hls : ∀ l' ∈ ls, 0 < l'.amount := fun l' h => hpos l' (by simp [h])
      by_cases hz : toTake = 0
      · exact hpos l' (by simpa [hz] using hl')
      · simp only [leftover, hz, if_false] at hl'
        split at hl'
        · rcases List.mem_cons.1 hl' with rfl | h
          · simp only [Lot.reduceBy]; omega
          · exact ih _ hls l' h
        · exact ih _ hls l' hl'

/-! ## Lots that descend from lots -/

/-- `Descends lots remaining`: `remaining` arises from `lots`, in order, by
dropping lots and lowering the amount (and setting the basis) of others. -/
inductive Descends : List Lot → List Lot → Prop where
  | nil : Descends [] []
  | drop (l : Lot) {ls rs : List Lot} : Descends ls rs → Descends (l :: ls) rs
  | keep (l : Lot) (amount basis : Int) {ls rs : List Lot} :
      amount ≤ l.amount → Descends ls rs →
      Descends (l :: ls)
        ({ l with amount := amount, costBasisLamports := basis } :: rs)

theorem Descends.refl (ls : List Lot) : Descends ls ls := by
  induction ls with
  | nil => exact .nil
  | cons l ls ih => exact .keep l l.amount l.costBasisLamports le_rfl ih

theorem Descends.append {xs rs ys ss : List Lot} (h : Descends xs rs)
    (h' : Descends ys ss) : Descends (xs ++ ys) (rs ++ ss) := by
  induction h with
  | nil => exact h'
  | drop l _ ih => exact .drop l ih
  | keep l a b hle _ ih => exact .keep l a b hle ih

theorem Descends.reverse {ls rs : List Lot} (h : Descends ls rs) :
    Descends ls.reverse rs.reverse := by
  induction h with
  | nil => exact .nil
  | drop l _ ih =>
      rw [List.reverse_cons]
      simpa using ih.append (.drop l .nil)
  | keep l a b hle _ ih =>
      rw [List.reverse_cons, List.reverse_cons]
      exact ih.append (.keep l a b hle .nil)

theorem leftover_descends (ls : List Lot) :
    ∀ toTake : Int, 0 ≤ toTake → (∀ l ∈ ls, 0 < l.amount) →
    Descends ls (leftover ls toTake) := by
  induction ls with
  | nil => intro _ _ _; exact .nil
  | cons l ls ih =>
      intro toTake h0 hpos
      by_cases hz : toTake = 0
      · simpa [hz] using Descends.refl (l :: ls)
      · have htake := tokensTaken_le l toTake
        have hl := tokensTaken_pos (hpos l (by simp)) (by omega : 0 < toTake)
        have hrest := ih (toTake - tokensTaken l toTake) (by omega)
          (fun l' h => hpos l' (by simp [h]))
        simp only [leftover, hz, if_false]
        split
        · exact .keep l _ _ (by omega) hrest
        · exact .drop l hrest

/-! ## The average-cost branch -/

/-- Tokens the average-cost branch takes from `l`. -/
def avgCostTake (amount totalAmt : Int) (l : Lot) : Int :=
  share amount totalAmt l.amount

theorem avgCostTake_nonneg {amount totalAmt : Int} {l : Lot} (ha : 0 ≤ amount)
    (ht : 0 < totalAmt) (hl : 0 < l.amount) : 0 ≤ avgCostTake amount totalAmt l :=
  share_nonneg ha ht hl.le

/-- No lot gives up more than it holds. -/
theorem avgCostTake_le {amount totalAmt : Int} {l : Lot} (ha : 0 ≤ amount)
    (hle : amount ≤ totalAmt) (ht : 0 < totalAmt) (hl : 0 < l.amount) :
    avgCostTake amount totalAmt l ≤ l.amount := by
  have h := share_le_of_le hl.le ht ha hle
  rwa [share, Int.mul_comm] at h

/-- The average-cost `map` on one positive lot. -/
def avgCostLot (amount totalAmt : Int) (l : Lot) : Lot :=
  let take := avgCostTake amount totalAmt l
  if take = 0 then l
  else l.reduceBy take ((l.costBasisLamports * take).tdiv l.amount)

theorem avgCostLot_amount (amount totalAmt : Int) (l : Lot) :
    (avgCostLot amount totalAmt l).amount =
      l.amount - avgCostTake amount totalAmt l := by
  simp only [avgCostLot]
  split
  · omega
  · rfl

theorem reduceProportionally_eq {amount totalAmt : Int} {l : Lot}
    (ht : 0 < totalAmt) (hl : 0 < l.amount) :
    reduceProportionally amount totalAmt l = .ok (avgCostLot amount totalAmt l) := by
  simp only [reduceProportionally, avgCostLot, avgCostTake, share,
    bigintDiv_of_pos _ ht, bigintDiv_of_pos _ hl, Int.mul_comm amount,
    bind, Except.bind, pure, Except.pure]
  split <;> rfl

private theorem mapM_reduceProportionally {amount totalAmt : Int}
    (ht : 0 < totalAmt) (ls : List Lot) (hpos : ∀ l ∈ ls, 0 < l.amount) :
    ls.mapM (reduceProportionally amount totalAmt) =
      .ok (ls.map (avgCostLot amount totalAmt)) := by
  induction ls with
  | nil => rfl
  | cons l ls ih =>
      rw [List.mapM_cons, reduceProportionally_eq ht (hpos l (by simp)),
        ih (fun l' h => hpos l' (by simp [h]))]
      rfl

theorem reduceAvgCost_eq {lots : List Lot} {amount : Int} (proceedsLamports : Int)
    (hpos : ∀ l ∈ lots, 0 < l.amount) (hamt : 0 < amount)
    (hle : amount ≤ totalAmount lots) :
    reduceAvgCost lots amount proceedsLamports = .ok
      { remaining := (lots.map (avgCostLot amount (totalAmount lots))).filter
          (0 < ·.amount)
        realized := proceedsLamports -
          (totalBasis lots * amount).tdiv (totalAmount lots)
        costBasis := (totalBasis lots * amount).tdiv (totalAmount lots)
        proceeds := proceedsLamports
        basisUnresolved := lots.any (·.basisUnresolved == some true) } := by
  have ht : 0 < totalAmount lots := by omega
  have hgt : ¬ amount > totalAmount lots := by omega
  simp only [reduceAvgCost, ht.ne', if_false, hgt, bigintDiv_of_pos _ ht,
    mapM_reduceProportionally ht lots hpos, bind, Except.bind, pure, Except.pure]

private theorem totalAmount_filter_pos (ls : List Lot)
    (h : ∀ l ∈ ls, 0 ≤ l.amount) :
    totalAmount (ls.filter (0 < ·.amount)) = totalAmount ls := by
  induction ls with
  | nil => rfl
  | cons l ls ih =>
      have hl : 0 ≤ l.amount := h l (by simp)
      have hrest := ih (fun l' h' => h l' (by simp [h']))
      by_cases hz : 0 < l.amount
      · simp [hz, hrest]
      · have : l.amount = 0 := by omega
        simp [hrest, this]

private theorem avgCost_descends (amount totalAmt : Int) (ha : 0 ≤ amount)
    (ht : 0 < totalAmt) (ls : List Lot) (hpos : ∀ l ∈ ls, 0 < l.amount) :
    Descends ls ((ls.map (avgCostLot amount totalAmt)).filter (0 < ·.amount)) := by
  induction ls with
  | nil => exact .nil
  | cons l ls ih =>
      have hrest := ih (fun l' h => hpos l' (by simp [h]))
      have hle := avgCostTake_nonneg (l := l) ha ht (hpos l (by simp))
      rw [List.map_cons, List.filter_cons]
      split
      · have hshape : avgCostLot amount totalAmt l =
            { l with
              amount := (avgCostLot amount totalAmt l).amount
              costBasisLamports :=
                (avgCostLot amount totalAmt l).costBasisLamports } := by
          simp only [avgCostLot]
          split <;> rfl
        rw [hshape]
        exact .keep l _ _ (by rw [avgCostLot_amount]; omega) hrest
      · exact .drop l hrest

/-- What the average-cost branch leaves, in total. -/
theorem totalAmount_avgCost {amount : Int} {lots : List Lot}
    (hpos : ∀ l ∈ lots, 0 < l.amount) (ha : 0 ≤ amount)
    (hle : amount ≤ totalAmount lots) (ht : 0 < totalAmount lots) :
    totalAmount ((lots.map (avgCostLot amount (totalAmount lots))).filter
        (0 < ·.amount)) =
      totalAmount lots - (lots.map (avgCostTake amount (totalAmount lots))).sum := by
  rw [totalAmount_filter_pos]
  · have hsum : ∀ ls : List Lot,
        totalAmount (ls.map (avgCostLot amount (totalAmount lots))) =
          totalAmount ls - (ls.map (avgCostTake amount (totalAmount lots))).sum := by
      intro ls
      induction ls with
      | nil => rfl
      | cons l ls ih =>
          simp only [List.map_cons, totalAmount_cons, List.sum_cons, ih,
            avgCostLot_amount]
          omega
    exact hsum lots
  · intro l hl
    obtain ⟨l₀, hl₀, rfl⟩ := List.mem_map.1 hl
    have := avgCostTake_le ha hle ht (hpos l₀ hl₀)
    rw [avgCostLot_amount]
    omega

/-! ## Conservation of tokens -/

/-- `res` leaves exactly the unsold tokens, in positive lots, in input order. -/
structure ConservesTokens (lots : List Lot) (amount : Int) (res : ReduceResult) :
    Prop where
  total : totalAmount res.remaining = totalAmount lots - amount
  positive : ∀ l ∈ res.remaining, 0 < l.amount
  ordered : Descends lots res.remaining

theorem totalAmount_saleOrder (method : AccountingMethod) (lots : List Lot) :
    totalAmount (saleOrder method lots) = totalAmount lots := by
  unfold saleOrder; split <;> simp

theorem mem_saleOrder {method : AccountingMethod} {lots : List Lot} {l : Lot} :
    l ∈ saleOrder method lots ↔ l ∈ lots := by
  unfold saleOrder; split <;> simp

theorem Descends.saleOrder {ls rs : List Lot} (method : AccountingMethod)
    (h : Descends ls rs) :
    Descends (saleOrder method ls) (saleOrder method rs) := by
  unfold Accounting.saleOrder; split
  · exact h
  · exact h.reverse

@[simp] theorem saleOrder_saleOrder (method : AccountingMethod) (lots : List Lot) :
    saleOrder method (saleOrder method lots) = lots := by
  unfold saleOrder; split <;> simp

/-- FIFO and LIFO in closed form: both reverse the list twice or not at all. -/
theorem reduceOrdered_eq {lots : List Lot} {amount : Int} (proceedsLamports : Int)
    (method : AccountingMethod) (hpos : ∀ l ∈ lots, 0 < l.amount)
    (hamt : 0 < amount) (hle : amount ≤ totalAmount lots) :
    reduceOrdered lots amount proceedsLamports method = .ok
      { remaining := saleOrder method (leftover (saleOrder method lots) amount)
        realized :=
          ((salePlan (saleOrder method lots) amount).map
            (planProceeds amount proceedsLamports)).sum -
          ((salePlan (saleOrder method lots) amount).map planBasis).sum
        costBasis := ((salePlan (saleOrder method lots) amount).map planBasis).sum
        proceeds := proceedsLamports
        basisUnresolved := (salePlan (saleOrder method lots) amount).any
          (·.1.basisUnresolved == some true) } := by
  have hord : ∀ l ∈ saleOrder method lots, 0 < l.amount :=
    fun l hl => hpos l (mem_saleOrder.1 hl)
  have hsum := salePlan_taken_sum (saleOrder method lots) amount hamt.le hord
    (by rw [totalAmount_saleOrder]; exact hle)
  simp only [reduceOrdered, consumeAll_eq hamt proceedsLamports _ hord, hsum,
    bind, Except.bind, pure, Except.pure, sub_self, lt_irrefl, if_false]

/-- FIFO and LIFO conserve tokens. -/
theorem reduceOrdered_conserves {lots : List Lot} {amount : Int}
    (proceedsLamports : Int) (method : AccountingMethod)
    (hpos : ∀ l ∈ lots, 0 < l.amount) (hamt : 0 < amount)
    (hle : amount ≤ totalAmount lots) :
    ∃ res, reduceOrdered lots amount proceedsLamports method = .ok res ∧
      ConservesTokens lots amount res := by
  have hord : ∀ l ∈ saleOrder method lots, 0 < l.amount :=
    fun l hl => hpos l (mem_saleOrder.1 hl)
  refine ⟨_, reduceOrdered_eq proceedsLamports method hpos hamt hle, ?_, ?_, ?_⟩
  · rw [totalAmount_saleOrder, totalAmount_leftover _ _ hamt.le hord
      (by rw [totalAmount_saleOrder]; exact hle), totalAmount_saleOrder]
  · intro l hl
    exact leftover_pos _ _ hord l (mem_saleOrder.1 hl)
  · have h := (leftover_descends _ amount hamt.le hord).saleOrder method
    rwa [saleOrder_saleOrder] at h

/-- The average-cost branch conserves tokens exactly when no lot's part of the
sale is rounded. -/
theorem reduceAvgCost_conserves_iff {lots : List Lot} {amount : Int}
    (proceedsLamports : Int) (hpos : ∀ l ∈ lots, 0 < l.amount)
    (hamt : 0 < amount) (hle : amount ≤ totalAmount lots) :
    (∃ res, reduceAvgCost lots amount proceedsLamports = .ok res ∧
      ConservesTokens lots amount res) ↔
    ∀ l ∈ lots, totalAmount lots ∣ l.amount * amount := by
  have ht : 0 < totalAmount lots := by omega
  have heq := reduceAvgCost_eq proceedsLamports hpos hamt hle
  have htotal := totalAmount_avgCost hpos hamt.le hle ht
  have hround := sum_share_eq_iff amount (totalAmount lots) lots Lot.amount
    hamt.le ht (fun l hl => (hpos l hl).le)
  simp only [Int.mul_comm amount] at hround
  rw [← hround]
  change _ ↔ (lots.map (avgCostTake amount (totalAmount lots))).sum * _ =
    totalAmount lots * amount
  constructor
  · rintro ⟨res, hres, hcons⟩
    have hsum := hcons.total
    rw [heq] at hres
    cases hres
    rw [htotal] at hsum
    have htakes : (lots.map (avgCostTake amount (totalAmount lots))).sum =
        amount := by omega
    rw [htakes, Int.mul_comm]
  · intro hsum
    have htakes : (lots.map (avgCostTake amount (totalAmount lots))).sum =
        amount := by
      rw [Int.mul_comm (totalAmount lots)] at hsum
      exact Int.eq_of_mul_eq_mul_right ht.ne' hsum
    refine ⟨_, heq, ?_, ?_, avgCost_descends _ _ hamt.le ht lots hpos⟩
    · rw [htotal, htakes]
    · intro l hl
      simpa using (List.mem_filter.1 hl).2

/-- `reduceLots` conserves tokens except where average cost rounds. -/
theorem reduceLots_conserves_iff (lots : List Lot) (amount proceedsLamports : Int)
    (method : AccountingMethod) (hpos : ∀ l ∈ lots, 0 < l.amount)
    (h0 : 0 ≤ amount) (hle : amount ≤ totalAmount lots) :
    (∃ res, reduceLots lots amount proceedsLamports method = .ok res ∧
      ConservesTokens lots amount res) ↔
    (method = .avgCost → ∀ l ∈ lots, totalAmount lots ∣ l.amount * amount) := by
  rcases h0.eq_or_lt with rfl | hamt
  · simp only [reduceLots, le_refl, if_true, mul_zero, dvd_zero, implies_true,
      iff_true]
    exact ⟨_, rfl, by simp, hpos, Descends.refl lots⟩
  · by_cases hm : method = .avgCost
    · simp only [reduceLots, hamt.not_ge, if_false, hm, if_true, true_imp_iff]
      exact reduceAvgCost_conserves_iff proceedsLamports hpos hamt hle
    · simp only [reduceLots, hamt.not_ge, if_false, hm, false_imp_iff, iff_true]
      exact reduceOrdered_conserves proceedsLamports method hpos hamt hle

/-- One lot of `amount` tokens bought for `costBasisLamports`. -/
def tradeLot (amount costBasisLamports : Int) (acquiredSig : String) : Lot :=
  { amount := amount
    costBasisLamports := costBasisLamports
    acquiredSlot := 1
    acquiredSig := acquiredSig
    source := .trade }

theorem reduceLots_conserves_two_even :
    ∃ res, reduceLots [tradeLot 2 10 "a", tradeLot 4 30 "b"] 3 90 .avgCost =
        .ok res ∧
      ConservesTokens [tradeLot 2 10 "a", tradeLot 4 30 "b"] 3 res :=
  (reduceLots_conserves_iff _ 3 90 .avgCost (by decide) (by decide)
    (by decide)).2 fun _ => by decide

/-- Two lots of one token each: average cost takes `⌊1 * 1 / 2⌋ = 0` from both,
so selling one token leaves two. -/
theorem reduceLots_avgCost_keeps_sold_token :
    (∀ l ∈ [tradeLot 1 10 "a", tradeLot 1 10 "b"], 0 < l.amount) ∧
    0 ≤ (1 : Int) ∧ 1 ≤ totalAmount [tradeLot 1 10 "a", tradeLot 1 10 "b"] ∧
    ¬ ∃ res, reduceLots [tradeLot 1 10 "a", tradeLot 1 10 "b"] 1 30 .avgCost =
        .ok res ∧
      ConservesTokens [tradeLot 1 10 "a", tradeLot 1 10 "b"] 1 res := by
  refine ⟨by decide, by decide, by decide, ?_⟩
  rintro ⟨res, hres, hcons⟩
  have hrun : reduceLots [tradeLot 1 10 "a", tradeLot 1 10 "b"] 1 30 .avgCost =
      .ok { remaining := [tradeLot 1 10 "a", tradeLot 1 10 "b"], realized := 20,
            costBasis := 10, proceeds := 30, basisUnresolved := false } := by
    decide
  rw [hrun] at hres
  cases hres
  exact absurd hcons.total (by decide)

/-! ## Attribution of the proceeds -/

/-- The lots a sale touches.  For FIFO and LIFO these are the lots that start
before the sale is used up; average cost touches every lot whose part of the
sale does not round to zero. -/
def touchedLots (method : AccountingMethod) (lots : List Lot) (amount : Int) :
    List Lot :=
  if method = .avgCost then
    lots.filter (avgCostTake amount (totalAmount lots) · ≠ 0)
  else (salePlan (saleOrder method lots) amount).map Prod.fst

/-- The sale's proceeds come back as realized gain plus cost basis, short of at
most one lamport for each lot touched. -/
def AttributesSale (lots : List Lot) (amount proceedsLamports : Int)
    (method : AccountingMethod) : Prop :=
  ∃ res, reduceLots lots amount proceedsLamports method = .ok res ∧
    proceedsLamports - (touchedLots method lots amount).length ≤
      res.realized + res.costBasis ∧
    res.realized + res.costBasis ≤ proceedsLamports

/-- Average cost attributes every lamport. -/
theorem reduceAvgCost_attributes {lots : List Lot} {amount : Int}
    (proceedsLamports : Int) (hpos : ∀ l ∈ lots, 0 < l.amount)
    (hamt : 0 < amount) (hle : amount ≤ totalAmount lots) :
    AttributesSale lots amount proceedsLamports .avgCost := by
  have heq := reduceAvgCost_eq proceedsLamports hpos hamt hle
  simp only [AttributesSale, reduceLots, hamt.not_ge, if_false, if_true, heq,
    Except.ok.injEq, exists_eq_left', sub_add_cancel, le_refl, and_true]
  omega

/-- For FIFO and LIFO the attributed lamports are what the plan allocates. -/
theorem attributesSale_ordered_iff {lots : List Lot} {amount : Int}
    (proceedsLamports : Int) {method : AccountingMethod} (hm : method ≠ .avgCost)
    (hpos : ∀ l ∈ lots, 0 < l.amount) (hamt : 0 < amount)
    (hle : amount ≤ totalAmount lots) :
    AttributesSale lots amount proceedsLamports method ↔
    proceedsLamports - (salePlan (saleOrder method lots) amount).length ≤
        ((salePlan (saleOrder method lots) amount).map
          (planProceeds amount proceedsLamports)).sum ∧
      ((salePlan (saleOrder method lots) amount).map
          (planProceeds amount proceedsLamports)).sum ≤ proceedsLamports := by
  simp only [AttributesSale, reduceLots, hamt.not_ge, if_false, hm, touchedLots,
    reduceOrdered_eq proceedsLamports method hpos hamt hle, Except.ok.injEq,
    exists_eq_left', sub_add_cancel, List.length_map]

section Plan

variable {ls : List Lot} {amount proceedsLamports : Int}
  (hpos : ∀ l ∈ ls, 0 < l.amount) (hamt : 0 < amount)
  (hle : amount ≤ totalAmount ls) (hproc : 0 ≤ proceedsLamports)

include hpos hamt hle hproc

/-- The plan never allocates more than the proceeds. -/
theorem planProceeds_sum_le :
    ((salePlan ls amount).map (planProceeds amount proceedsLamports)).sum ≤
      proceedsLamports := by
  have h := sum_share_mul_le proceedsLamports amount (salePlan ls amount)
    (fun p => proceedsDenom amount p.1) Prod.snd hproc hamt
    (fun p _ => le_proceedsDenom amount p.1)
    (salePlan_snd_nonneg hpos amount hamt.le)
  rw [salePlan_taken_sum ls amount hamt.le hpos hle] at h
  exact Int.le_of_mul_le_mul_right h hamt

/-- With no touched lot above the sale amount every part is a part of the whole
sale, and rounding loses at most a lamport for each. -/
theorem planProceeds_sum_ge (hsmall : ∀ p ∈ salePlan ls amount, p.1.amount ≤ amount) :
    proceedsLamports - (salePlan ls amount).length ≤
      ((salePlan ls amount).map (planProceeds amount proceedsLamports)).sum := by
  have h := sum_share_mul_ge proceedsLamports amount (salePlan ls amount)
    Prod.snd hproc hamt (salePlan_snd_nonneg hpos amount hamt.le)
  have hden : (salePlan ls amount).map (planProceeds amount proceedsLamports) =
      (salePlan ls amount).map fun p => share proceedsLamports amount p.2 := by
    refine List.map_congr_left fun p hp => ?_
    simp only [planProceeds, proceedsDenom, (hsmall p hp).not_gt, if_false]
  rw [salePlan_taken_sum ls amount hamt.le hpos hle] at h
  rw [hden]
  have := Int.le_of_mul_le_mul_right h hamt
  omega

/-- A touched lot above the sale amount is paid only for the part of itself it
gives up, and large enough proceeds show it. -/
theorem planProceeds_sum_lt {p : Lot × Int} (hp : p ∈ salePlan ls amount)
    (hbig : amount < p.1.amount)
    (hlarge : (salePlan ls amount).length * (amount * p.1.amount) <
      proceedsLamports) :
    ((salePlan ls amount).map (planProceeds amount proceedsLamports)).sum <
      proceedsLamports - (salePlan ls amount).length := by
  have hden : proceedsDenom amount p.1 = p.1.amount := if_pos hbig
  have htaken : 0 < p.2 := salePlan_snd_pos hpos amount hamt.le p hp
  have h := sum_share_mul_add_le_of_mem proceedsLamports amount
    (salePlan ls amount) (fun p => proceedsDenom amount p.1) Prod.snd hproc hamt
    (fun p _ => le_proceedsDenom amount p.1)
    (salePlan_snd_nonneg hpos amount hamt.le) hp
  rw [salePlan_taken_sum ls amount hamt.le hpos hle] at h
  simp only [hden] at h
  have hloss : proceedsLamports ≤
      proceedsLamports * p.2 * (p.1.amount - amount) := by
    have hone : 1 ≤ p.2 * (p.1.amount - amount) := by
      have : 0 < p.2 * (p.1.amount - amount) :=
        Int.mul_pos htaken (by omega)
      omega
    calc
      proceedsLamports = proceedsLamports * 1 := (mul_one _).symm
      _ ≤ proceedsLamports * (p.2 * (p.1.amount - amount)) :=
        Int.mul_le_mul_of_nonneg_left hone hproc
      _ = _ := (mul_assoc _ _ _).symm
  have hprod : 0 < amount * p.1.amount := Int.mul_pos hamt (hamt.trans hbig)
  by_contra hge
  rw [not_lt] at hge
  have hmul := Int.mul_le_mul_of_nonneg_right hge hprod.le
  change _ ≤ ((salePlan ls amount).map fun p =>
    share proceedsLamports (proceedsDenom amount p.1) p.2).sum * _ at hmul
  linarith [Int.sub_mul proceedsLamports (salePlan ls amount).length
    (amount * p.1.amount), mul_assoc proceedsLamports amount p.1.amount]

end Plan

/-- `reduceLots` attributes every sale of `amount` tokens exactly when the
method is average cost or no touched lot is larger than the sale. -/
theorem reduceLots_attributes_iff (lots : List Lot) (amount : Int)
    (method : AccountingMethod) (hpos : ∀ l ∈ lots, 0 < l.amount)
    (hamt : 0 < amount) (hle : amount ≤ totalAmount lots) :
    (∀ proceedsLamports : Int, 0 ≤ proceedsLamports →
      AttributesSale lots amount proceedsLamports method) ↔
    (method = .avgCost ∨
      ∀ l ∈ touchedLots method lots amount, l.amount ≤ amount) := by
  by_cases hm : method = .avgCost
  · subst hm
    simp only [true_or, iff_true]
    exact fun p _ => reduceAvgCost_attributes p hpos hamt hle
  have hord : ∀ l ∈ saleOrder method lots, 0 < l.amount :=
    fun l hl => hpos l (mem_saleOrder.1 hl)
  have hleo : amount ≤ totalAmount (saleOrder method lots) := by
    rw [totalAmount_saleOrder]; exact hle
  simp only [hm, false_or, touchedLots, if_false]
  constructor
  · intro hall l hl
    obtain ⟨p, hp, rfl⟩ := List.mem_map.1 hl
    by_contra hbig
    rw [not_le] at hbig
    have hprod : 0 < amount * p.1.amount := Int.mul_pos hamt (hamt.trans hbig)
    have hlen : 0 ≤ ((salePlan (saleOrder method lots) amount).length : Int) *
        (amount * p.1.amount) := Int.mul_nonneg (by omega) hprod.le
    have hattr := hall
      ((salePlan (saleOrder method lots) amount).length * (amount * p.1.amount) + 1)
      (by omega)
    rw [attributesSale_ordered_iff _ hm hpos hamt hle] at hattr
    have hlt := planProceeds_sum_lt hord hamt hleo (by omega) hp hbig
      (lt_add_one _)
    omega
  · intro hsmall p hp
    rw [attributesSale_ordered_iff _ hm hpos hamt hle]
    exact ⟨planProceeds_sum_ge hord hamt hleo hp
        (fun q hq => hsmall q.1 (List.mem_map_of_mem hq)),
      planProceeds_sum_le hord hamt hleo hp⟩

theorem reduceLots_attributes_two_lots :
    AttributesSale [tradeLot 100 1000 "a", tradeLot 100 2000 "b"] 150 4500 .fifo :=
  (reduceLots_attributes_iff _ 150 .fifo (by decide) (by decide) (by decide)).2
    (.inr (by decide)) 4500 (by decide)

/-- Selling half of one lot for 1500 lamports attributes 750 of them. -/
theorem reduceLots_fifo_half_lot_loses_half :
    (∀ l ∈ [tradeLot 100 1000 "a"], 0 < l.amount ∧ 0 ≤ l.costBasisLamports) ∧
    (0 : Int) < 50 ∧ 50 ≤ totalAmount [tradeLot 100 1000 "a"] ∧
    (0 : Int) ≤ 1500 ∧
    ¬ AttributesSale [tradeLot 100 1000 "a"] 50 1500 .fifo := by
  refine ⟨by decide, by decide, by decide, by decide, ?_⟩
  rintro ⟨res, hres, hlow, -⟩
  have hrun : reduceLots [tradeLot 100 1000 "a"] 50 1500 .fifo =
      .ok { remaining := [tradeLot 50 500 "a"], realized := 250,
            costBasis := 500, proceeds := 1500, basisUnresolved := false } := by
    decide
  rw [hrun] at hres
  cases hres
  exact absurd hlow (by decide)

end Ap3xSolana.Portfolio.Accounting
