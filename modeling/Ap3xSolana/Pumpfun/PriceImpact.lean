import Ap3xSolana.Lib.SignificantBits
import Ap3xSolana.Pumpfun.Quotes
import Mathlib

/-!
# `priceImpactBps`

The price before a buy and the token reserve behind it are quotients that are rounded down,
and `priceImpactBps` divides by both.  Where neither is zero, it follows its input.
-/

namespace Ap3xSolana.Pumpfun

open Lib Lib.ConstantProduct

/-! ## Numbers -/

/-- The whole numbers among the doubles, with the two infinities. -/
abbrev WholeNumber := WithBot (WithTop Int)

def finite (z : Int) : WholeNumber := ((z : WithTop Int) : WholeNumber)

/-- `Number(z)`: to 53 significant bits, and infinite from `2 ** 1024` on. -/
def number (z : Int) : WholeNumber :=
  let magnitude := SignificantBits.round 53 z.natAbs
  if 2 ^ 1024 ≤ magnitude then (if z < 0 then ⊥ else ((⊤ : WithTop Int) : WholeNumber))
  else finite (if z < 0 then -(magnitude : Int) else magnitude)

theorem finite_le_finite {a b : Int} : finite a ≤ finite b ↔ a ≤ b := by
  rw [finite, finite, WithBot.coe_le_coe, WithTop.coe_le_coe]

theorem number_of_nonneg {z : Int} (h : 0 ≤ z) :
    number z =
      if 2 ^ 1024 ≤ SignificantBits.round 53 z.natAbs then ((⊤ : WithTop Int) : WholeNumber)
      else finite (SignificantBits.round 53 z.natAbs) := by
  unfold number
  dsimp only
  rw [if_neg (Int.not_lt.2 h), if_neg (Int.not_lt.2 h)]

theorem number_mono {a b : Int} (ha : 0 ≤ a) (hab : a ≤ b) : number a ≤ number b := by
  have hround : SignificantBits.round 53 a.natAbs ≤ SignificantBits.round 53 b.natAbs :=
    SignificantBits.round_mono (by decide) (by omega)
  rw [number_of_nonneg ha, number_of_nonneg (Int.le_trans ha hab)]
  generalize SignificantBits.round 53 a.natAbs = m at *
  generalize SignificantBits.round 53 b.natAbs = n at *
  by_cases hb : 2 ^ 1024 ≤ n
  · rw [if_pos hb]
    split
    · exact le_rfl
    · exact WithBot.coe_le_coe.2 le_top
  · have ha' : ¬ 2 ^ 1024 ≤ m := fun h => hb (h.trans hround)
    rw [if_neg hb, if_neg ha', finite_le_finite]
    exact Int.ofNat_le.2 hround

theorem number_nonneg {z : Int} (h : 0 ≤ z) : finite 0 ≤ number z := by
  have hzero : number 0 = finite 0 := by
    rw [number_of_nonneg le_rfl]
    decide +kernel
  rw [← hzero]
  exact number_mono le_rfl h

/-! ## The price -/

/-- `1_000_000_000n`. -/
def scale : Int := 1000000000

def priceFromReserves (r : CurveReserves) : Option Int :=
  bigDiv (r.virtualSolReserves * scale) r.virtualTokenReserves

def priceImpactBps (solIn : Int) (r : CurveReserves) : Option WholeNumber := do
  let priceBefore ← priceFromReserves r
  let k := r.virtualSolReserves * r.virtualTokenReserves
  let newVirtualSol := r.virtualSolReserves + solIn
  let newVirtualToken ← bigDiv k newVirtualSol
  let priceAfter ← bigDiv (newVirtualSol * scale) newVirtualToken
  let delta := priceAfter - priceBefore
  let bps ← bigDiv (delta * 10000) priceBefore
  return number bps

/-! ## Where it is defined -/

/-- A lamport, scaled, is worth a token at least, and the product of the reserves reaches the
new SOL reserve: neither quotient is rounded down to zero. -/
def Priced (r : CurveReserves) (solIn : Int) : Prop :=
  r.virtualTokenReserves ≤ r.virtualSolReserves * scale ∧
    r.virtualSolReserves + solIn ≤ r.virtualSolReserves * r.virtualTokenReserves

instance (r : CurveReserves) (solIn : Int) : Decidable (Priced r solIn) := by
  unfold Priced
  infer_instance

/-- On the reserves `s` and `t`: the price of a token. -/
def price (s t : Int) : Int := s * scale / t

/-- The impact before it becomes a number. -/
def impact (s t x : Int) : Int :=
  (price (s + x) (s * t / (s + x)) - price s t) * 10000 / price s t

variable {s t x y : Int}

theorem ediv_pos_iff {a b : Int} (hb : 0 < b) : 0 < a / b ↔ b ≤ a := by
  rw [← Int.add_one_le_iff, Int.zero_add, Int.le_ediv_iff_mul_le hb, Int.one_mul]

/-- The price rises along a curve. -/
theorem price_mono (hs : 0 < s) (ht : 0 ≤ t) (hx : 0 ≤ x) (hxy : x ≤ y)
    (hleft : s + y ≤ s * t) :
    price (s + x) (s * t / (s + x)) ≤ price (s + y) (s * t / (s + y)) := by
  have hk : 0 ≤ s * t := Int.mul_nonneg (Int.le_of_lt hs) ht
  have htoken : 0 < s * t / (s + y) := (ediv_pos_iff (by omega)).2 hleft
  have hfewer : s * t / (s + y) ≤ s * t / (s + x) := ediv_antitone hk (by omega) (by omega)
  calc price (s + x) (s * t / (s + x))
      ≤ (s + y) * scale / (s * t / (s + x)) := by
        apply Int.ediv_le_ediv (Int.lt_of_lt_of_le htoken hfewer)
        exact Int.mul_le_mul_of_nonneg_right (by omega) (by decide)
    _ ≤ price (s + y) (s * t / (s + y)) :=
        ediv_antitone (Int.mul_nonneg (by omega) (by decide)) htoken hfewer

theorem price_start (hs : 0 < s) : price (s + 0) (s * t / (s + 0)) = price s t := by
  rw [Int.add_zero, Int.mul_ediv_cancel_left t (Int.ne_of_gt hs)]

theorem impact_mono (hs : 0 < s) (ht : 0 ≤ t) (hx : 0 ≤ x) (hxy : x ≤ y)
    (hleft : s + y ≤ s * t) (hprice : 0 < price s t) : impact s t x ≤ impact s t y := by
  apply Int.ediv_le_ediv hprice
  apply Int.mul_le_mul_of_nonneg_right _ (by decide)
  exact Int.sub_le_sub_right (price_mono hs ht hx hxy hleft) _

theorem delta_nonneg (hs : 0 < s) (ht : 0 ≤ t) (hx : 0 ≤ x) (hleft : s + x ≤ s * t) :
    0 ≤ price (s + x) (s * t / (s + x)) - price s t := by
  have hrise := price_mono hs ht le_rfl hx hleft
  rw [price_start hs] at hrise
  exact Int.sub_nonneg_of_le hrise

theorem impact_nonneg (hs : 0 < s) (ht : 0 ≤ t) (hx : 0 ≤ x) (hleft : s + x ≤ s * t)
    (hprice : 0 < price s t) : 0 ≤ impact s t x :=
  Int.ediv_nonneg (Int.mul_nonneg (delta_nonneg hs ht hx hleft) (by decide))
    (Int.le_of_lt hprice)

/-- What is left of `priceImpactBps` behind the two divisions by reserves. -/
theorem priceImpactBps_bind {r : CurveReserves} (hsol : 0 < r.virtualSolReserves)
    (htoken : 0 < r.virtualTokenReserves) (hx : 0 ≤ x) :
    priceImpactBps x r =
      (bigDiv ((r.virtualSolReserves + x) * scale)
        (r.virtualSolReserves * r.virtualTokenReserves / (r.virtualSolReserves + x))).bind
        fun priceAfter =>
          (bigDiv ((priceAfter - price r.virtualSolReserves r.virtualTokenReserves) * 10000)
            (price r.virtualSolReserves r.virtualTokenReserves)).bind fun bps =>
              some (number bps) := by
  have hbefore : priceFromReserves r =
      some (price r.virtualSolReserves r.virtualTokenReserves) :=
    bigDiv_of_pos (Int.mul_nonneg (Int.le_of_lt hsol) (by decide)) htoken
  have hreserve : bigDiv (r.virtualSolReserves * r.virtualTokenReserves)
      (r.virtualSolReserves + x) =
        some (r.virtualSolReserves * r.virtualTokenReserves / (r.virtualSolReserves + x)) :=
    bigDiv_of_pos (Int.mul_nonneg (Int.le_of_lt hsol) (Int.le_of_lt htoken)) (by omega)
  unfold priceImpactBps
  rw [hbefore]
  show (bigDiv (r.virtualSolReserves * r.virtualTokenReserves)
    (r.virtualSolReserves + x)).bind _ = _
  rw [hreserve]
  rfl

theorem priceImpactBps_eq {r : CurveReserves} (hsol : 0 < r.virtualSolReserves)
    (htoken : 0 < r.virtualTokenReserves) (hx : 0 ≤ x) (h : Priced r x) :
    priceImpactBps x r =
      some (number (impact r.virtualSolReserves r.virtualTokenReserves x)) := by
  have hprice : 0 < price r.virtualSolReserves r.virtualTokenReserves :=
    (ediv_pos_iff htoken).2 h.1
  have hleft := (ediv_pos_iff (show 0 < r.virtualSolReserves + x by omega)).2 h.2
  have hafter : bigDiv ((r.virtualSolReserves + x) * scale)
      (r.virtualSolReserves * r.virtualTokenReserves / (r.virtualSolReserves + x)) =
        some (price (r.virtualSolReserves + x) _) :=
    bigDiv_of_pos (Int.mul_nonneg (by omega) (by decide)) hleft
  have hbps := bigDiv_of_pos (Int.mul_nonneg (delta_nonneg hsol (Int.le_of_lt htoken) hx h.2)
    (show 0 ≤ 10000 by decide)) hprice
  rw [priceImpactBps_bind hsol htoken hx, hafter, Option.bind_some, hbps]
  rfl

theorem priced_of_defined {r : CurveReserves} (hsol : 0 < r.virtualSolReserves)
    (htoken : 0 < r.virtualTokenReserves) (hx : 0 ≤ x) {bps : WholeNumber}
    (h : priceImpactBps x r = some bps) : Priced r x := by
  rw [priceImpactBps_bind hsol htoken hx, Option.bind_eq_some_iff] at h
  obtain ⟨priceAfter, hafter, h⟩ := h
  obtain ⟨_, hbps, -⟩ := Option.bind_eq_some_iff.1 h
  have hne : ∀ {a b c : Int}, bigDiv a b = some c → b ≠ 0 := by
    intro a b c hdiv hzero
    rw [bigDiv, if_pos hzero] at hdiv
    cases hdiv
  have hprice : 0 ≤ price r.virtualSolReserves r.virtualTokenReserves :=
    Int.ediv_nonneg (Int.mul_nonneg (Int.le_of_lt hsol) (by decide)) (Int.le_of_lt htoken)
  have hpos : 0 < r.virtualSolReserves + x := by omega
  have hleft : 0 ≤ r.virtualSolReserves * r.virtualTokenReserves / (r.virtualSolReserves + x) :=
    Int.ediv_nonneg (Int.mul_nonneg (Int.le_of_lt hsol) (Int.le_of_lt htoken)) (Int.le_of_lt hpos)
  constructor
  · exact (ediv_pos_iff htoken).1 (lt_of_le_of_ne hprice (hne hbps).symm)
  · exact (ediv_pos_iff hpos).1 (lt_of_le_of_ne hleft (hne hafter).symm)

/-- The impact of both inputs is defined, neither is negative, and they are in order. -/
def ImpactDefined (r : CurveReserves) (x y : Int) : Prop :=
  ∃ bps bps', priceImpactBps x r = some bps ∧ priceImpactBps y r = some bps' ∧
    finite 0 ≤ bps ∧ bps ≤ bps'

/-- **Price impact is defined** for two inputs in order exactly if the larger one leaves a
price: neither the price before nor the token reserve behind it is rounded down to zero. -/
theorem impact_defined_iff {r : CurveReserves} (hsol : 0 < r.virtualSolReserves)
    (htoken : 0 < r.virtualTokenReserves) (hx : 0 ≤ x) (hxy : x ≤ y) :
    ImpactDefined r x y ↔ Priced r y := by
  have hy : 0 ≤ y := Int.le_trans hx hxy
  have htoken' := Int.le_of_lt htoken
  constructor
  · rintro ⟨_, _, -, hdefined, -⟩
    exact priced_of_defined hsol htoken hy hdefined
  · intro h
    have hx' : Priced r x := ⟨h.1, Int.le_trans (Int.add_le_add_left hxy _) h.2⟩
    have hprice := (ediv_pos_iff htoken).2 h.1
    have hnonneg := impact_nonneg hsol htoken' hx hx'.2 hprice
    exact ⟨_, _, priceImpactBps_eq hsol htoken hx hx', priceImpactBps_eq hsol htoken hy h,
      number_nonneg hnonneg, number_mono hnonneg (impact_mono hsol htoken' hx hxy h.2 hprice)⟩

/-- One SOL and two on a curve as it starts. -/
theorem impact_defined_initial :
    ImpactDefined initialCurve 1000000000 2000000000 ↔ Priced initialCurve 2000000000 :=
  impact_defined_iff (by decide) (by decide) (by decide) (by decide)

/-- Reserves that are small against the input. -/
def thinCurve : CurveReserves where
  virtualSolReserves := 10
  virtualTokenReserves := 10
  realSolReserves := 10
  realTokenReserves := 10

/-- The new token reserve is zero. -/
theorem large_input_undefined : ¬ ∃ bps, priceImpactBps 100 thinCurve = some bps := by
  rintro ⟨bps, h⟩
  have hpriced := priced_of_defined (r := thinCurve) (by decide) (by decide) (by decide) h
  exact absurd hpriced (by decide)

end Ap3xSolana.Pumpfun
