import Ap3xSolana.Pumpfun.Quotes

/-!
# There and back at quoted amounts

Each invariant division rounds for the trader.  What a trade and its reversal return is
therefore at most what went in exactly if the two fees cover the remainder of the first
division; with no fee, that is if there is no remainder.
-/

namespace Ap3xSolana.Pumpfun

open Lib.ConstantProduct

/-! ## The two orders -/

/-- Reserves take the input after the fee, and pay what was quoted. -/
def CurveReserves.afterBuy (r : CurveReserves) (solIn tokensOut fee : Int) : CurveReserves where
  virtualSolReserves := r.virtualSolReserves + (solIn - feeOf solIn fee)
  virtualTokenReserves := r.virtualTokenReserves - tokensOut
  realSolReserves := r.realSolReserves + (solIn - feeOf solIn fee)
  realTokenReserves := r.realTokenReserves - tokensOut

def CurveReserves.afterSell (r : CurveReserves) (tokensIn solOut : Int) : CurveReserves where
  virtualSolReserves := r.virtualSolReserves - solOut
  virtualTokenReserves := r.virtualTokenReserves + tokensIn
  realSolReserves := r.realSolReserves - solOut
  realTokenReserves := r.realTokenReserves + tokensIn

def CurveReserves.buyThenSell (r : CurveReserves) (solIn fee : Int) : Option Int := do
  let tokens ← tokensOutForSolIn solIn r fee
  solOutForTokensIn tokens (r.afterBuy solIn tokens fee) fee

def CurveReserves.sellThenBuy (r : CurveReserves) (tokensIn fee : Int) : Option Int := do
  let sol ← solOutForTokensIn tokensIn r fee
  tokensOutForSolIn sol (r.afterSell tokensIn sol) fee

def PumpSwapReserves.afterBuy (r : PumpSwapReserves) (quoteIn tokensOut fee : Int) :
    PumpSwapReserves where
  baseReserves := r.baseReserves - tokensOut
  quoteReserves := r.quoteReserves + (quoteIn - feeOf quoteIn fee)

def PumpSwapReserves.afterSell (r : PumpSwapReserves) (tokensIn solOut : Int) :
    PumpSwapReserves where
  baseReserves := r.baseReserves + tokensIn
  quoteReserves := r.quoteReserves - solOut

def PumpSwapReserves.buyThenSell (r : PumpSwapReserves) (quoteIn fee : Int) : Option Int := do
  let tokens ← ammTokensOut quoteIn r fee
  ammSolOut tokens (r.afterBuy quoteIn tokens fee) fee

def PumpSwapReserves.sellThenBuy (r : PumpSwapReserves) (tokensIn fee : Int) : Option Int := do
  let sol ← ammSolOut tokensIn r fee
  ammTokensOut sol (r.afterSell tokensIn sol) fee

/-! ## What the fees cover -/

/-- Of a buy with `x` at the reserves `s` and `t`: the remainder is covered by the fee on
the input and the fee on what selling back pays. -/
def BuyCovered (s t x fee : Int) : Prop :=
  s * t % (s + (x - feeOf x fee)) ≤
    (feeOf x fee +
      feeOf (x - feeOf x fee + ceilDiv (s * t % (s + (x - feeOf x fee))) t) fee) * t

/-- Of a sell of `y` tokens at the reserves `t` of tokens and `s`: the remainder is covered
by the fee on the output, once for each token then in the pool, and the fee on buying
back, once for each token there was. -/
def SellCovered (s t y fee : Int) : Prop :=
  t * s % (t + y) ≤ feeOf (takenOut t s y) fee * (t + y) +
    feeOf (takenOut t s y - feeOf (takenOut t s y) fee) fee * t

variable {s t x y fee : Int}

theorem quotes_back (hs : 0 < s) (ht : 0 < t) (hfee : 0 ≤ fee ∧ fee ≤ 10000) (hx : 0 ≤ x) :
    ∃ out back, quoteFeeIn x s t (s * t) fee = some out ∧
      quoteFeeOut out (t - out) (s + (x - feeOf x fee)) ((t - out) * (s + (x - feeOf x fee))) fee =
        some back ∧
      (back ≤ x ↔ BuyCovered s t x fee) := by
  have hpaid : 0 ≤ x - feeOf x fee := Int.sub_nonneg_of_le (feeOf_le hx hfee.1 hfee.2)
  have hout := takenOut_bounds hs ht hpaid
  refine ⟨_, _, quoteFeeIn_eq (Int.le_of_lt hs) (Int.le_of_lt ht) (by omega),
    quoteFeeOut_eq ?_ ?_ ?_, ?_⟩
  · exact Int.sub_nonneg_of_le hout.2
  · omega
  · omega
  · rw [takenOut_back ht, BuyCovered, ← ceilDiv_le_iff ht]
    generalize feeOf x fee = f
    generalize ceilDiv (s * t % (s + (x - f))) t = c
    omega

theorem quotes_again (hs : 0 < s) (ht : 0 < t) (hfee : 0 ≤ fee ∧ fee ≤ 10000) (hy : 0 ≤ y) :
    ∃ out back, quoteFeeOut y t s (t * s) fee = some out ∧
      quoteFeeIn out (s - out) (t + y) ((s - out) * (t + y)) fee = some back ∧
      (back ≤ y ↔ SellCovered s t y fee) := by
  have hout := takenOut_bounds ht hs hy
  have hfirst := feeOf_nonneg hout.1 hfee.1
  have hpaid := feeOf_le hout.1 hfee.1 hfee.2
  have hrest := feeOf_rest_lt hs hout.1 hout.2 hfee.1 hfee.2
  refine ⟨_, _, quoteFeeOut_eq (Int.le_of_lt ht) (Int.le_of_lt hs) (by omega),
    quoteFeeIn_eq ?_ ?_ ?_, ?_⟩
  · omega
  · omega
  · omega
  · exact takenOut_again_le_iff (Int.sub_pos_of_lt hrest)

/-! ## Every quote -/

/-- The trades go through, and return at most what went in exactly under the condition. -/
def ReturnsAtMost (result : Option Int) (x : Int) (covered : Prop) : Prop :=
  ∃ back, result = some back ∧ (back ≤ x ↔ covered)

theorem curve_buyThenSell {r : CurveReserves} (hs : 0 < r.virtualSolReserves)
    (ht : 0 < r.virtualTokenReserves) (hfee : 0 ≤ fee ∧ fee ≤ 10000) (hx : 0 ≤ x) :
    ReturnsAtMost (r.buyThenSell x fee) x
      (BuyCovered r.virtualSolReserves r.virtualTokenReserves x fee) := by
  obtain ⟨out, back, hout, hback, hiff⟩ := quotes_back hs ht hfee hx
  refine ⟨back, ?_, hiff⟩
  have hfirst : tokensOutForSolIn x r fee = some out := hout
  rw [Int.mul_comm] at hback
  rw [CurveReserves.buyThenSell, hfirst]
  exact hback

theorem curve_sellThenBuy {r : CurveReserves} (hs : 0 < r.virtualSolReserves)
    (ht : 0 < r.virtualTokenReserves) (hfee : 0 ≤ fee ∧ fee ≤ 10000) (hx : 0 ≤ x) :
    ReturnsAtMost (r.sellThenBuy x fee) x
      (SellCovered r.virtualSolReserves r.virtualTokenReserves x fee) := by
  obtain ⟨out, back, hout, hback, hiff⟩ := quotes_again hs ht hfee hx
  refine ⟨back, ?_, hiff⟩
  have hfirst : solOutForTokensIn x r fee = some out := by
    rw [solOutForTokensIn, Int.mul_comm]
    exact hout
  rw [CurveReserves.sellThenBuy, hfirst]
  exact hback

theorem PumpSwapReserves.buyThenSell_eq (r : PumpSwapReserves) (x fee : Int) :
    r.buyThenSell x fee = r.asCurve.buyThenSell x fee := by
  unfold PumpSwapReserves.buyThenSell CurveReserves.buyThenSell
  simp only [ammTokensOut_eq, ammSolOut_eq]
  rfl

theorem PumpSwapReserves.sellThenBuy_eq (r : PumpSwapReserves) (x fee : Int) :
    r.sellThenBuy x fee = r.asCurve.sellThenBuy x fee := by
  unfold PumpSwapReserves.sellThenBuy CurveReserves.sellThenBuy
  simp only [ammTokensOut_eq, ammSolOut_eq]
  rfl

/-- On positive reserves, trading there and back returns at most what went in exactly if
the fees cover the remainder of the first division: on the curve and in the pool, buying
or selling first. -/
theorem round_trip_covered (hfee : 0 ≤ fee ∧ fee ≤ 10000) (hx : 0 ≤ x) :
    (∀ r : CurveReserves, 0 < r.virtualSolReserves → 0 < r.virtualTokenReserves →
      ReturnsAtMost (r.buyThenSell x fee) x
        (BuyCovered r.virtualSolReserves r.virtualTokenReserves x fee) ∧
      ReturnsAtMost (r.sellThenBuy x fee) x
        (SellCovered r.virtualSolReserves r.virtualTokenReserves x fee)) ∧
    (∀ r : PumpSwapReserves, 0 < r.quoteReserves → 0 < r.baseReserves →
      ReturnsAtMost (r.buyThenSell x fee) x
        (BuyCovered r.quoteReserves r.baseReserves x fee) ∧
      ReturnsAtMost (r.sellThenBuy x fee) x
        (SellCovered r.quoteReserves r.baseReserves x fee)) := by
  constructor
  · intro r hs ht
    exact ⟨curve_buyThenSell hs ht hfee hx, curve_sellThenBuy hs ht hfee hx⟩
  · intro r hs ht
    rw [r.buyThenSell_eq, r.sellThenBuy_eq]
    have hs' : 0 < r.asCurve.virtualSolReserves := hs
    have ht' : 0 < r.asCurve.virtualTokenReserves := ht
    exact ⟨curve_buyThenSell hs' ht' hfee hx, curve_sellThenBuy hs' ht' hfee hx⟩

/-- One SOL at one percent: the fees cover what the rounding leaves. -/
theorem round_trip_covered_one_sol :
    ReturnsAtMost (initialCurve.buyThenSell 1000000000 100) 1000000000
      (BuyCovered 30000000000 1073000000000000 1000000000 100) :=
  ((round_trip_covered ⟨by decide, by decide⟩ (by decide)).1 initialCurve (by decide)
    (by decide)).1

/-- One lamport is worth no fee, and comes back as two; in a small pool one token sold
comes back as a hundred and one. -/
theorem one_lamport_returns_two :
    (∃ back, initialCurve.buyThenSell 1 100 = some back ∧ 1 < back) ∧
      ∃ back, PumpSwapReserves.sellThenBuy ⟨1000, 10⟩ 1 100 = some back ∧ 1 < back :=
  ⟨⟨2, by decide, by decide⟩, ⟨101, by decide, by decide⟩⟩

end Ap3xSolana.Pumpfun
