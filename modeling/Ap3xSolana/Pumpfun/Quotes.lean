import Ap3xSolana.Lib.ConstantProduct
import Mathlib.Data.Option.Basic

/-!
# Swap quotes

The constant-product quotes of the bonding curve (over its virtual reserves) and of a
PumpSwap pool.  The two modules compute the same: a buy takes the fee from its input, a
sell from its output.  BigInt division truncates, and throws on zero.

The bounds are on what a quote pays at most, and how it follows its input and the fee.
The curve prices on its virtual reserves and does not look at the real ones; every quote
rounds the new reserve of the side it pays from down.
-/

namespace Ap3xSolana.Pumpfun

open Lib.ConstantProduct

section Quotes

/-- BigInt `a / b`; none where it throws. -/
def bigDiv (a b : Int) : Option Int := if b = 0 then none else some (a.tdiv b)

/-- `amount * BigInt(feeBasisPoints) / 10000n`. -/
def feeOf (amount feeBasisPoints : Int) : Int := (amount * feeBasisPoints).tdiv 10000

/-- A quote with the fee on the input, for the invariant `k`. -/
def quoteFeeIn (amountIn reserveIn reserveOut k feeBasisPoints : Int) : Option Int := do
  let fee := feeOf amountIn feeBasisPoints
  let amountInAfterFee := amountIn - fee
  let newReserveIn := reserveIn + amountInAfterFee
  let newReserveOut ← bigDiv k newReserveIn
  return reserveOut - newReserveOut

/-- A quote with the fee on the output. -/
def quoteFeeOut (amountIn reserveIn reserveOut k feeBasisPoints : Int) : Option Int := do
  let newReserveIn := reserveIn + amountIn
  let newReserveOut ← bigDiv k newReserveIn
  let amountOutBeforeFee := reserveOut - newReserveOut
  let fee := feeOf amountOutBeforeFee feeBasisPoints
  return amountOutBeforeFee - fee

structure CurveReserves where
  virtualSolReserves : Int
  virtualTokenReserves : Int
  realSolReserves : Int
  realTokenReserves : Int
  deriving DecidableEq, Repr

/-- A curve as it starts. -/
def initialCurve : CurveReserves where
  virtualSolReserves := 30000000000
  virtualTokenReserves := 1073000000000000
  realSolReserves := 0
  realTokenReserves := 793100000000000

def tokensOutForSolIn (solIn : Int) (r : CurveReserves) (feeBasisPoints : Int) : Option Int :=
  quoteFeeIn solIn r.virtualSolReserves r.virtualTokenReserves
    (r.virtualSolReserves * r.virtualTokenReserves) feeBasisPoints

def solOutForTokensIn (tokensIn : Int) (r : CurveReserves) (feeBasisPoints : Int) : Option Int :=
  quoteFeeOut tokensIn r.virtualTokenReserves r.virtualSolReserves
    (r.virtualSolReserves * r.virtualTokenReserves) feeBasisPoints

structure PumpSwapReserves where
  baseReserves : Int
  quoteReserves : Int
  deriving DecidableEq, Repr

def ammTokensOut (quoteIn : Int) (r : PumpSwapReserves) (feeBps : Int) : Option Int :=
  quoteFeeIn quoteIn r.quoteReserves r.baseReserves (r.baseReserves * r.quoteReserves) feeBps

def ammSolOut (tokensIn : Int) (r : PumpSwapReserves) (feeBps : Int) : Option Int :=
  quoteFeeOut tokensIn r.baseReserves r.quoteReserves (r.baseReserves * r.quoteReserves) feeBps

/-! ## Quotes on positive reserves -/

theorem bigDiv_of_pos {a b : Int} (ha : 0 ≤ a) (hb : 0 < b) : bigDiv a b = some (a / b) := by
  rw [bigDiv, if_neg (Int.ne_of_gt hb), Int.tdiv_eq_ediv_of_nonneg ha]

variable {x s t fee : Int}

theorem feeOf_nonneg (hx : 0 ≤ x) (hfee : 0 ≤ fee) : 0 ≤ feeOf x fee := by
  rw [feeOf, Int.tdiv_eq_ediv_of_nonneg (Int.mul_nonneg hx hfee)]
  exact Int.ediv_nonneg (Int.mul_nonneg hx hfee) (by decide)

theorem feeOf_le (hx : 0 ≤ x) (hfee : 0 ≤ fee) (hmax : fee ≤ 10000) : feeOf x fee ≤ x := by
  rw [feeOf, Int.tdiv_eq_ediv_of_nonneg (Int.mul_nonneg hx hfee)]
  apply Int.ediv_le_of_le_mul (by decide)
  exact Int.mul_le_mul_of_nonneg_left hmax hx

theorem feeOf_lt (hx : 0 < x) (hfee : 0 ≤ fee) (hmax : fee < 10000) : feeOf x fee < x := by
  rw [feeOf, Int.tdiv_eq_ediv_of_nonneg (Int.mul_nonneg (Int.le_of_lt hx) hfee)]
  apply Int.ediv_lt_of_lt_mul (by decide)
  exact Int.mul_lt_mul_of_pos_left hmax hx

/-- What is left after a fee is not all taken by the same fee again. -/
theorem feeOf_rest_lt (hs : 0 < s) (hx : 0 ≤ x) (hxs : x ≤ s) (hfee : 0 ≤ fee)
    (hmax : fee ≤ 10000) : feeOf (x - feeOf x fee) fee < s := by
  have hrest : 0 ≤ x - feeOf x fee := Int.sub_nonneg_of_le (feeOf_le hx hfee hmax)
  have hfirst := feeOf_nonneg hx hfee
  by_cases hzero : x - feeOf x fee = 0
  · rw [hzero, feeOf, Int.zero_mul]
    exact hs
  · have hlt : fee < 10000 := by
      by_contra hge
      have hall : fee = 10000 := by omega
      apply hzero
      rw [hall, feeOf, Int.mul_tdiv_cancel x (by decide), Int.sub_self]
    have hsecond := feeOf_lt (show 0 < x - feeOf x fee by omega) hfee hlt
    omega

/-- No more than the output reserve is ever taken out. -/
theorem takenOut_bounds (hs : 0 < s) (ht : 0 < t) (hx : 0 ≤ x) :
    0 ≤ takenOut s t x ∧ takenOut s t x ≤ t := by
  have hk : 0 ≤ s * t := Int.mul_nonneg (Int.le_of_lt hs) (Int.le_of_lt ht)
  have hnonneg : 0 ≤ s * t / (s + x) := Int.ediv_nonneg hk (by omega)
  have hle : s * t / (s + x) ≤ t := by
    apply Int.ediv_le_of_le_mul (by omega)
    rw [Int.mul_comm s t]
    exact Int.mul_le_mul_of_nonneg_left (by omega) (Int.le_of_lt ht)
  rw [takenOut]
  omega

theorem quoteFeeIn_eq (hs : 0 ≤ s) (ht : 0 ≤ t) (hx : 0 < s + (x - feeOf x fee)) :
    quoteFeeIn x s t (s * t) fee = some (takenOut s t (x - feeOf x fee)) := by
  have hk : 0 ≤ s * t := Int.mul_nonneg hs ht
  show (bigDiv (s * t) (s + (x - feeOf x fee))).bind _ = _
  rw [bigDiv_of_pos hk hx]
  rfl

theorem quoteFeeOut_eq (hs : 0 ≤ s) (ht : 0 ≤ t) (hx : 0 < s + x) :
    quoteFeeOut x s t (s * t) fee =
      some (takenOut s t x - feeOf (takenOut s t x) fee) := by
  have hk : 0 ≤ s * t := Int.mul_nonneg hs ht
  show (bigDiv (s * t) (s + x)).bind _ = _
  rw [bigDiv_of_pos hk hx]
  rfl

/-! ## The two modules agree -/

/-- A pool as a curve without offset. -/
def PumpSwapReserves.asCurve (r : PumpSwapReserves) : CurveReserves where
  virtualSolReserves := r.quoteReserves
  virtualTokenReserves := r.baseReserves
  realSolReserves := r.quoteReserves
  realTokenReserves := r.baseReserves

theorem ammTokensOut_eq (x : Int) (r : PumpSwapReserves) (fee : Int) :
    ammTokensOut x r fee = tokensOutForSolIn x r.asCurve fee := by
  rw [ammTokensOut, tokensOutForSolIn, Int.mul_comm]
  rfl

theorem ammSolOut_eq (x : Int) (r : PumpSwapReserves) (fee : Int) :
    ammSolOut x r fee = solOutForTokensIn x r.asCurve fee := by
  rw [ammSolOut, solOutForTokensIn, Int.mul_comm]
  rfl

end Quotes

variable {x y s t fee : Int}

/-! ## Fees -/

theorem feeOf_neg (x fee : Int) : feeOf (-x) fee = -feeOf x fee := by
  rw [feeOf, Int.neg_mul, Int.neg_tdiv, feeOf]

theorem feeOf_sub_le_of_nonneg (hfee : 0 ≤ fee) (hmax : fee ≤ 10000) (hx : 0 ≤ x) (hxy : x ≤ y) :
    feeOf y fee - feeOf x fee ≤ y - x := by
  have hy : 0 ≤ y := Int.le_trans hx hxy
  have hstep : (y - x) * fee ≤ (y - x) * 10000 :=
    Int.mul_le_mul_of_nonneg_left hmax (Int.sub_nonneg_of_le hxy)
  rw [Int.sub_mul] at hstep
  rw [feeOf, feeOf, Int.tdiv_eq_ediv_of_nonneg (Int.mul_nonneg hy hfee),
    Int.tdiv_eq_ediv_of_nonneg (Int.mul_nonneg hx hfee)]
  generalize x * fee = a at *
  generalize y * fee = b at *
  omega

/-- A larger amount leaves no less after the fee. -/
theorem afterFee_mono (hfee : 0 ≤ fee) (hmax : fee ≤ 10000) (hxy : x ≤ y) :
    x - feeOf x fee ≤ y - feeOf y fee := by
  rcases Int.le_total 0 x with hx | hx
  · have hle := feeOf_sub_le_of_nonneg hfee hmax hx hxy
    omega
  · rcases Int.le_total 0 y with hy | hy
    · have hpaid := feeOf_le hy hfee hmax
      have hpaid' := feeOf_le (show 0 ≤ -x by omega) hfee hmax
      rw [feeOf_neg] at hpaid'
      omega
    · have hle := feeOf_sub_le_of_nonneg hfee hmax (show 0 ≤ -y by omega)
        (show -y ≤ -x by omega)
      rw [feeOf_neg, feeOf_neg] at hle
      omega

theorem feeOf_mono {fee' : Int} (hx : 0 ≤ x) (hfee : 0 ≤ fee) (hle : fee ≤ fee') :
    feeOf x fee ≤ feeOf x fee' := by
  have hfee' : 0 ≤ fee' := Int.le_trans hfee hle
  rw [feeOf, feeOf, Int.tdiv_eq_ediv_of_nonneg (Int.mul_nonneg hx hfee),
    Int.tdiv_eq_ediv_of_nonneg (Int.mul_nonneg hx hfee')]
  exact Int.ediv_le_ediv (by decide) (Int.mul_le_mul_of_nonneg_left hle hx)

/-- What is left after the fee is the exact share rounded up. -/
theorem afterFee_le_iff (hx : 0 ≤ x) (hfee : 0 ≤ fee) (c : Int) :
    x - feeOf x fee ≤ c ↔ x * (10000 - fee) ≤ 10000 * c := by
  rw [feeOf, Int.tdiv_eq_ediv_of_nonneg (Int.mul_nonneg hx hfee), Int.mul_sub]
  generalize x * fee = a
  omega

/-! ## What a quote pays -/

/-- The quote is a payout that `held` covers. -/
def HeldBy (quote : Option Int) (held : Int) : Prop :=
  ∃ out, quote = some out ∧ 0 ≤ out ∧ out ≤ held

/-- The quote is a payout that leaves something of `reserve`. -/
def StrictlyWithin (quote : Option Int) (reserve : Int) : Prop :=
  ∃ out, quote = some out ∧ 0 ≤ out ∧ out < reserve

theorem heldBy_some (out held : Int) : HeldBy (some out) held ↔ 0 ≤ out ∧ out ≤ held := by
  constructor
  · rintro ⟨_, ⟨⟩, h⟩
    exact h
  · exact fun h => ⟨out, rfl, h⟩

theorem strictlyWithin_some (out reserve : Int) :
    StrictlyWithin (some out) reserve ↔ 0 ≤ out ∧ out < reserve := by
  constructor
  · rintro ⟨_, ⟨⟩, h⟩
    exact h
  · exact fun h => ⟨out, rfl, h⟩

section Payout

variable (hs : 0 < s) (ht : 0 < t) (hfee : 0 ≤ fee) (hmax : fee ≤ 10000) (hx : 0 ≤ x)

include hs ht hfee hmax hx

theorem quoteFeeIn_payout :
    quoteFeeIn x s t (s * t) fee = some (takenOut s t (x - feeOf x fee)) ∧
      0 < s + (x - feeOf x fee) ∧ 0 ≤ takenOut s t (x - feeOf x fee) ∧
      takenOut s t (x - feeOf x fee) ≤ t := by
  have hpaid : 0 ≤ x - feeOf x fee := Int.sub_nonneg_of_le (feeOf_le hx hfee hmax)
  have hpos : 0 < s + (x - feeOf x fee) := by omega
  exact ⟨quoteFeeIn_eq (Int.le_of_lt hs) (Int.le_of_lt ht) hpos, hpos, takenOut_bounds hs ht hpaid⟩

theorem quoteFeeIn_heldBy (held : Int) :
    HeldBy (quoteFeeIn x s t (s * t) fee) held ↔
      t * (x - feeOf x fee) ≤ held * (s + (x - feeOf x fee)) := by
  obtain ⟨heq, hpos, hnonneg, -⟩ := quoteFeeIn_payout hs ht hfee hmax hx
  rw [heq, heldBy_some, and_iff_right hnonneg]
  exact takenOut_le_iff hpos held

theorem quoteFeeIn_heldBy_reserve : HeldBy (quoteFeeIn x s t (s * t) fee) t := by
  obtain ⟨heq, -, hbounds⟩ := quoteFeeIn_payout hs ht hfee hmax hx
  rw [heq, heldBy_some]
  exact hbounds

theorem quoteFeeIn_strictlyWithin :
    StrictlyWithin (quoteFeeIn x s t (s * t) fee) t ↔ s + (x - feeOf x fee) ≤ s * t := by
  obtain ⟨heq, hpos, hnonneg, -⟩ := quoteFeeIn_payout hs ht hfee hmax hx
  rw [heq, strictlyWithin_some, and_iff_right hnonneg]
  exact takenOut_lt_iff hpos

theorem quoteFeeOut_payout :
    quoteFeeOut x s t (s * t) fee = some (takenOut s t x - feeOf (takenOut s t x) fee) ∧
      0 ≤ takenOut s t x ∧ takenOut s t x ≤ t ∧
        0 ≤ takenOut s t x - feeOf (takenOut s t x) fee := by
  have hbounds := takenOut_bounds hs ht hx
  exact ⟨quoteFeeOut_eq (Int.le_of_lt hs) (Int.le_of_lt ht) (by omega), hbounds.1, hbounds.2,
    Int.sub_nonneg_of_le (feeOf_le hbounds.1 hfee hmax)⟩

theorem quoteFeeOut_heldBy (held : Int) :
    HeldBy (quoteFeeOut x s t (s * t) fee) held ↔
      ceilDiv (t * x) (s + x) * (10000 - fee) ≤ 10000 * held := by
  obtain ⟨heq, hgross, -, hnonneg⟩ := quoteFeeOut_payout hs ht hfee hmax hx
  rw [heq, heldBy_some, and_iff_right hnonneg, afterFee_le_iff hgross hfee, takenOut_eq_ceilDiv]
  omega

theorem quoteFeeOut_heldBy_reserve : HeldBy (quoteFeeOut x s t (s * t) fee) t := by
  obtain ⟨heq, hgross, hle, hnonneg⟩ := quoteFeeOut_payout hs ht hfee hmax hx
  have hpaid := feeOf_nonneg hgross hfee
  rw [heq, heldBy_some]
  omega

/-- Either the product or the fee keeps something back. -/
theorem quoteFeeOut_strictlyWithin (h : s + x ≤ s * t ∨ 10000 ≤ t * fee) :
    StrictlyWithin (quoteFeeOut x s t (s * t) fee) t := by
  obtain ⟨heq, hgross, hle, hnonneg⟩ := quoteFeeOut_payout hs ht hfee hmax hx
  have hpaid := feeOf_nonneg hgross hfee
  rw [heq, strictlyWithin_some]
  refine ⟨hnonneg, ?_⟩
  rcases Int.lt_or_eq_of_le hle with hlt | hall
  · omega
  · have hproduct : ¬ s + x ≤ s * t := by
      rw [← takenOut_lt_iff (by omega : 0 < s + x), hall]
      exact Int.lt_irrefl t
    have hfees := h.resolve_left hproduct
    rw [hall, feeOf, Int.tdiv_eq_ediv_of_nonneg (Int.mul_nonneg (Int.le_of_lt ht) hfee)]
    generalize t * fee = a at *
    omega

end Payout

/-- What the curve's and the pool's quotes for `x` pay.  The real reserves cover a buy on the
curve exactly if the price of `x` stays within them, and a sell exactly if its gross amount
does after the fee. -/
structure QuotesHeld (r : CurveReserves) (p : PumpSwapReserves) (fee x : Int) : Prop where
  tokensOut : HeldBy (tokensOutForSolIn x r fee) r.virtualTokenReserves
  tokensOutReal : HeldBy (tokensOutForSolIn x r fee) r.realTokenReserves ↔
    r.virtualTokenReserves * (x - feeOf x fee) ≤
      r.realTokenReserves * (r.virtualSolReserves + (x - feeOf x fee))
  solOut : HeldBy (solOutForTokensIn x r fee) r.virtualSolReserves
  solOutReal : HeldBy (solOutForTokensIn x r fee) r.realSolReserves ↔
    ceilDiv (r.virtualSolReserves * x) (r.virtualTokenReserves + x) * (10000 - fee) ≤
      10000 * r.realSolReserves
  ammTokens : HeldBy (ammTokensOut x p fee) p.baseReserves
  ammTokensStrict : p.quoteReserves + (x - feeOf x fee) ≤ p.quoteReserves * p.baseReserves →
    StrictlyWithin (ammTokensOut x p fee) p.baseReserves
  ammSol : HeldBy (ammSolOut x p fee) p.quoteReserves
  ammSolStrict : p.baseReserves + x ≤ p.baseReserves * p.quoteReserves ∨
      10000 ≤ p.quoteReserves * fee →
    StrictlyWithin (ammSolOut x p fee) p.quoteReserves

/-- **What the quotes pay** on positive reserves. -/
theorem quotes_held {r : CurveReserves} {p : PumpSwapReserves} (hsol : 0 < r.virtualSolReserves)
    (htoken : 0 < r.virtualTokenReserves) (hbase : 0 < p.baseReserves)
    (hquote : 0 < p.quoteReserves) (hfee : 0 ≤ fee) (hmax : fee ≤ 10000) (hx : 0 < x) :
    QuotesHeld r p fee x := by
  have hx' := Int.le_of_lt hx
  have hsell : solOutForTokensIn x r fee = quoteFeeOut x r.virtualTokenReserves
      r.virtualSolReserves (r.virtualTokenReserves * r.virtualSolReserves) fee := by
    rw [solOutForTokensIn, Int.mul_comm]
  have hbuy : ammTokensOut x p fee = quoteFeeIn x p.quoteReserves p.baseReserves
      (p.quoteReserves * p.baseReserves) fee := by
    rw [ammTokensOut, Int.mul_comm]
  constructor
  · exact quoteFeeIn_heldBy_reserve hsol htoken hfee hmax hx'
  · exact quoteFeeIn_heldBy hsol htoken hfee hmax hx' _
  · rw [hsell]
    exact quoteFeeOut_heldBy_reserve htoken hsol hfee hmax hx'
  · rw [hsell]
    exact quoteFeeOut_heldBy htoken hsol hfee hmax hx' _
  · rw [hbuy]
    exact quoteFeeIn_heldBy_reserve hquote hbase hfee hmax hx'
  · rw [hbuy]
    exact (quoteFeeIn_strictlyWithin hquote hbase hfee hmax hx').2
  · exact quoteFeeOut_heldBy_reserve hbase hquote hfee hmax hx'
  · exact quoteFeeOut_strictlyWithin hbase hquote hfee hmax hx'

/-- One SOL on a curve as it starts, and in a pool of 100 SOL. -/
theorem quotes_held_one_sol :
    QuotesHeld initialCurve ⟨1000000000000, 100000000000⟩ 100 1000000000 :=
  quotes_held (by decide) (by decide) (by decide) (by decide) (by decide) (by decide) (by decide)

/-- The quote for 100 SOL is more tokens than the curve holds. -/
theorem hundred_sol_exceeds_curve :
    ¬ HeldBy (tokensOutForSolIn 100000000000 initialCurve 100) initialCurve.realTokenReserves := by
  have hquote : tokensOutForSolIn 100000000000 initialCurve 100 = some 823465116279070 := by decide
  rw [hquote, heldBy_some]
  decide

/-! ## How a quote follows its input -/

/-- The quote pays no less for more, where the smaller input leaves a positive new reserve. -/
def Rises (quote : Int → Int → Option Int) (newReserve : Int → Int → Int) : Prop :=
  ∀ x y fee, 0 ≤ fee → fee ≤ 10000 → x ≤ y → 0 < newReserve x fee →
    ∃ out out', quote x fee = some out ∧ quote y fee = some out' ∧ out ≤ out'

/-- The quote pays no more at a higher fee. -/
def FallsWithFee (quote : Int → Int → Option Int) : Prop :=
  ∀ x fee fee', 0 ≤ fee → fee ≤ fee' → fee' ≤ 10000 → 0 ≤ x →
    ∃ out out', quote x fee = some out ∧ quote x fee' = some out' ∧ out' ≤ out

/-- The product of the new reserves falls short of the old by less than `newIn`. -/
def KeepsProduct (product newOut newIn : Int) : Prop :=
  product - newIn < newOut * newIn ∧ newOut * newIn ≤ product

/-- The laws of the two quotes on the reserves `s` (SOL or quote) and `t` (tokens or base).
The product is that of the swap without its fee: before it on a buy, behind it on a sell. -/
structure QuoteLaws (s t : Int) (buy sell : Int → Int → Option Int) : Prop where
  buyRises : Rises buy fun x fee => s + (x - feeOf x fee)
  buyFalls : FallsWithFee buy
  buyKeeps : ∀ x fee, 0 < s + (x - feeOf x fee) →
    ∃ out, buy x fee = some out ∧ KeepsProduct (s * t) (t - out) (s + (x - feeOf x fee))
  sellRises : Rises sell fun x _ => t + x
  sellFalls : FallsWithFee sell
  sellKeeps : ∀ x fee, 0 < t + x →
    ∃ gross, sell x fee = some (gross - feeOf gross fee) ∧
      KeepsProduct (s * t) (s - gross) (t + x)

theorem rises_quoteFeeIn (hs : 0 ≤ s) (ht : 0 ≤ t) :
    Rises (fun x fee => quoteFeeIn x s t (s * t) fee) fun x fee => s + (x - feeOf x fee) := by
  intro x y fee hfee hmax hxy hpos
  have hpaid := afterFee_mono hfee hmax hxy
  have hpos' : 0 < s + (y - feeOf y fee) :=
    Int.lt_of_lt_of_le hpos (Int.add_le_add_left hpaid s)
  exact ⟨_, _, quoteFeeIn_eq hs ht hpos, quoteFeeIn_eq hs ht hpos',
    takenOut_mono hs ht hpos hpaid⟩

theorem fallsWithFee_quoteFeeIn (hs : 0 < s) (ht : 0 ≤ t) :
    FallsWithFee fun x fee => quoteFeeIn x s t (s * t) fee := by
  intro x fee fee' hfee hle hmax hx
  have hpaid := feeOf_le hx (Int.le_trans hfee hle) hmax
  have hfees := feeOf_mono hx hfee hle
  have hs' := Int.le_of_lt hs
  exact ⟨_, _, quoteFeeIn_eq hs' ht (by omega), quoteFeeIn_eq hs' ht (by omega),
    takenOut_mono hs' ht (by omega) (by omega)⟩

theorem rises_quoteFeeOut (hs : 0 ≤ s) (ht : 0 ≤ t) :
    Rises (fun x fee => quoteFeeOut x s t (s * t) fee) fun x _ => s + x := by
  intro x y fee hfee hmax hxy hpos
  have hpos' : 0 < s + y := Int.lt_of_lt_of_le hpos (Int.add_le_add_left hxy s)
  exact ⟨_, _, quoteFeeOut_eq hs ht hpos, quoteFeeOut_eq hs ht hpos',
    afterFee_mono hfee hmax (takenOut_mono hs ht hpos hxy)⟩

theorem fallsWithFee_quoteFeeOut (hs : 0 < s) (ht : 0 < t) :
    FallsWithFee fun x fee => quoteFeeOut x s t (s * t) fee := by
  intro x fee fee' hfee hle _ hx
  have hfees := feeOf_mono (takenOut_bounds hs ht hx).1 hfee hle
  have hs' := Int.le_of_lt hs
  have ht' := Int.le_of_lt ht
  exact ⟨_, _, quoteFeeOut_eq hs' ht' (by omega), quoteFeeOut_eq hs' ht' (by omega), by omega⟩

theorem ammQuotes_laws {p : PumpSwapReserves} (hbase : 0 < p.baseReserves)
    (hquote : 0 < p.quoteReserves) :
    QuoteLaws p.quoteReserves p.baseReserves (fun x fee => ammTokensOut x p fee)
      fun x fee => ammSolOut x p fee := by
  have hbase' := Int.le_of_lt hbase
  have hquote' := Int.le_of_lt hquote
  have hbuy : (fun x fee => ammTokensOut x p fee) = fun x fee =>
      quoteFeeIn x p.quoteReserves p.baseReserves (p.quoteReserves * p.baseReserves) fee := by
    funext x fee
    rw [ammTokensOut, Int.mul_comm]
  rw [hbuy]
  constructor
  · exact rises_quoteFeeIn hquote' hbase'
  · exact fallsWithFee_quoteFeeIn hquote hbase'
  · exact fun x fee hpos => ⟨_, quoteFeeIn_eq hquote' hbase' hpos, product_kept hpos⟩
  · exact rises_quoteFeeOut hbase' hquote'
  · exact fallsWithFee_quoteFeeOut hbase hquote
  · intro x fee hpos
    rw [Int.mul_comm]
    exact ⟨_, quoteFeeOut_eq hbase' hquote' hpos, product_kept hpos⟩

/-- A curve's virtual reserves as a pool. -/
def CurveReserves.asPool (r : CurveReserves) : PumpSwapReserves where
  baseReserves := r.virtualTokenReserves
  quoteReserves := r.virtualSolReserves

/-- **Quotes are monotone and keep the product within rounding**, on the curve and in the
pool, and the curve's are the pool's. -/
theorem quotes_monotone {r : CurveReserves} {p : PumpSwapReserves}
    (hsol : 0 < r.virtualSolReserves) (htoken : 0 < r.virtualTokenReserves)
    (hbase : 0 < p.baseReserves) (hquote : 0 < p.quoteReserves) :
    QuoteLaws r.virtualSolReserves r.virtualTokenReserves
        (fun x fee => tokensOutForSolIn x r fee) (fun x fee => solOutForTokensIn x r fee) ∧
      QuoteLaws p.quoteReserves p.baseReserves (fun x fee => ammTokensOut x p fee)
        (fun x fee => ammSolOut x p fee) ∧
      ∀ x fee, tokensOutForSolIn x r fee = ammTokensOut x r.asPool fee ∧
        solOutForTokensIn x r fee = ammSolOut x r.asPool fee := by
  have hsame : ∀ x fee, tokensOutForSolIn x r fee = ammTokensOut x r.asPool fee ∧
      solOutForTokensIn x r fee = ammSolOut x r.asPool fee :=
    fun x fee => ⟨(ammTokensOut_eq x r.asPool fee).symm, (ammSolOut_eq x r.asPool fee).symm⟩
  have htokens := funext fun x => funext fun fee => (hsame x fee).1
  have hsols := funext fun x => funext fun fee => (hsame x fee).2
  refine ⟨?_, ammQuotes_laws hbase hquote, hsame⟩
  rw [htokens, hsols]
  exact ammQuotes_laws (p := r.asPool) htoken hsol

theorem quotes_monotone_initial :
    QuoteLaws 30000000000 1073000000000000 (fun x fee => tokensOutForSolIn x initialCurve fee)
        (fun x fee => solOutForTokensIn x initialCurve fee) ∧
      QuoteLaws 1000 1000 (fun x fee => ammTokensOut x ⟨1000, 1000⟩ fee)
        (fun x fee => ammSolOut x ⟨1000, 1000⟩ fee) ∧
      ∀ x fee, tokensOutForSolIn x initialCurve fee = ammTokensOut x initialCurve.asPool fee ∧
        solOutForTokensIn x initialCurve fee = ammSolOut x initialCurve.asPool fee :=
  quotes_monotone (r := initialCurve) (p := ⟨1000, 1000⟩) (by decide) (by decide) (by decide)
    (by decide)

/-- A negative input can take the new reserve below zero, and then pays. -/
theorem negative_input_pays_more :
    ¬ ∀ x y, x ≤ y → ∃ out out', ammTokensOut x ⟨1000, 1000⟩ 0 = some out ∧
      ammTokensOut y ⟨1000, 1000⟩ 0 = some out' ∧ out ≤ out' := by
  intro h
  obtain ⟨out, out', hout, hout', hle⟩ := h (-2000) 0 (by decide)
  have hnegative : ammTokensOut (-2000) ⟨1000, 1000⟩ 0 = some 2000 := by decide
  have hzero : ammTokensOut 0 ⟨1000, 1000⟩ 0 = some 0 := by decide
  rw [hnegative] at hout
  rw [hzero] at hout'
  cases hout
  cases hout'
  exact absurd hle (by decide)

end Ap3xSolana.Pumpfun
