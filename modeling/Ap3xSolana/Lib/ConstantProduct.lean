import Mathlib.Algebra.Order.Ring.Int
import Mathlib.Tactic.Linarith
import Mathlib.Tactic.Ring

/-!
# Swaps that keep the product of two reserves

A swap floors the new reserve of the side that is taken out, so its rounding goes to the
trader.  What a swap there and back returns is stated through the remainder of the first
division: all of it (`takenOut_back`), or what fees on the way leave of it
(`takenOut_again_le_iff`).  A swap takes out more for more (`takenOut_mono`), and everything
where the new reserve exceeds the product (`takenOut_lt_iff`).
-/

namespace Ap3xSolana.Lib.ConstantProduct

/-- What `a` on top of the reserve `s` takes out of the reserve `t`. -/
def takenOut (s t a : Int) : Int := t - s * t / (s + a)

/-- The quotient rounded up. -/
def ceilDiv (a b : Int) : Int := -(-a / b)

theorem ceilDiv_le_iff {a b c : Int} (hb : 0 < b) : ceilDiv a b ≤ c ↔ a ≤ c * b := by
  have hle : -c ≤ -a / b ↔ -c * b ≤ -a := Int.le_ediv_iff_mul_le hb
  rw [Int.neg_mul, neg_le_neg_iff] at hle
  rw [← hle, ceilDiv, neg_le]

variable {s t : Int}

/-- The product after a swap falls short of the one before by the remainder. -/
theorem product_after (s t a : Int) : s * t / (s + a) * (s + a) = s * t - s * t % (s + a) := by
  have hdiv := Int.ediv_mul_add_emod (s * t) (s + a)
  linarith

theorem takenOut_le_iff {a : Int} (h : 0 < s + a) (c : Int) :
    takenOut s t a ≤ c ↔ t * a ≤ c * (s + a) := by
  have hle : t - c ≤ s * t / (s + a) ↔ (t - c) * (s + a) ≤ s * t := Int.le_ediv_iff_mul_le h
  rw [takenOut, sub_le_comm, hle]
  constructor
  · intro h
    linarith
  · intro h
    linarith

/-- Something is left as long as the product reaches the new reserve. -/
theorem takenOut_lt_iff {a : Int} (h : 0 < s + a) : takenOut s t a < t ↔ s + a ≤ s * t := by
  rw [← Int.le_sub_one_iff, takenOut_le_iff h]
  constructor
  · intro h
    linarith
  · intro h
    linarith

/-- What is taken out is the exact amount rounded up. -/
theorem takenOut_eq_ceilDiv {a : Int} (h : 0 < s + a) :
    takenOut s t a = ceilDiv (t * a) (s + a) := by
  apply le_antisymm
  · exact (takenOut_le_iff h _).2 ((ceilDiv_le_iff h).1 le_rfl)
  · exact (ceilDiv_le_iff h).2 ((takenOut_le_iff h _).1 le_rfl)

theorem ediv_antitone {k a b : Int} (hk : 0 ≤ k) (ha : 0 < a) (hab : a ≤ b) : k / b ≤ k / a := by
  have hb : 0 < b := Int.lt_of_lt_of_le ha hab
  rw [Int.le_ediv_iff_mul_le ha]
  calc k / b * a ≤ k / b * b :=
        Int.mul_le_mul_of_nonneg_left hab (Int.ediv_nonneg hk (Int.le_of_lt hb))
    _ ≤ k := Int.ediv_mul_le _ (Int.ne_of_gt hb)

theorem takenOut_mono {a b : Int} (hs : 0 ≤ s) (ht : 0 ≤ t) (h : 0 < s + a) (hab : a ≤ b) :
    takenOut s t a ≤ takenOut s t b := by
  exact Int.sub_le_sub_left (ediv_antitone (Int.mul_nonneg hs ht) h (Int.add_le_add_left hab s)) t

/-- The product falls, by less than the new reserve. -/
theorem product_kept {a : Int} (h : 0 < s + a) :
    s * t - (s + a) < (t - takenOut s t a) * (s + a) ∧
      (t - takenOut s t a) * (s + a) ≤ s * t := by
  have hreserve : t - takenOut s t a = s * t / (s + a) := by
    rw [takenOut]
    ring
  have hlt := Int.emod_lt_of_pos (s * t) h
  have hnonneg := Int.emod_nonneg (s * t) (Int.ne_of_gt h)
  rw [hreserve, product_after]
  constructor
  · linarith
  · linarith

/-- Taking everything back returns the input, and the remainder as far as it goes round. -/
theorem takenOut_back (ht : 0 < t) (a : Int) :
    takenOut (t - takenOut s t a) (s + a) (takenOut s t a) =
      a + ceilDiv (s * t % (s + a)) t := by
  have hreserve : t - takenOut s t a = s * t / (s + a) := by
    rw [takenOut]
    ring
  have hsum : s * t / (s + a) + takenOut s t a = t := by
    rw [takenOut]
    ring
  have hquot : (s * t - s * t % (s + a)) / t = s + -(s * t % (s + a)) / t := by
    rw [sub_eq_add_neg, Int.add_comm (s * t), Int.add_mul_ediv_right _ _ (Int.ne_of_gt ht)]
    ring
  rw [hreserve]
  show s + a - s * t / (s + a) * (s + a) / (s * t / (s + a) + takenOut s t a) = _
  rw [hsum, product_after, hquot, ceilDiv]
  ring

/-- A swap there with the fee `f` on its output, and back with the fee `g` on its input,
returns no more than went in exactly if the fees cover the remainder. -/
theorem takenOut_again_le_iff {y f g : Int} (hg : 0 < s - g) :
    takenOut (s - (takenOut t s y - f)) (t + y) (takenOut t s y - f - g) ≤ y ↔
      t * s % (t + y) ≤ f * (t + y) + g * t := by
  have hreserve : s - (takenOut t s y - f) = t * s / (t + y) + f := by
    rw [takenOut]
    ring
  have hsum : t * s / (t + y) + f + (takenOut t s y - f - g) = s - g := by
    rw [takenOut]
    ring
  have hproduct : (t * s / (t + y) + f) * (t + y) = t * s - t * s % (t + y) + f * (t + y) := by
    rw [add_mul, product_after]
  have hle : t ≤ (t * s / (t + y) + f) * (t + y) / (s - g) ↔
      t * (s - g) ≤ (t * s / (t + y) + f) * (t + y) := Int.le_ediv_iff_mul_le hg
  rw [hreserve]
  show t + y - (t * s / (t + y) + f) * (t + y) / (t * s / (t + y) + f + (takenOut t s y - f - g)) ≤
    y ↔ _
  rw [hsum, sub_le_iff_le_add, Int.add_comm t y, Int.add_le_add_iff_left, Int.add_comm y t, hle,
    hproduct]
  constructor
  · intro h
    linarith
  · intro h
    linarith

end Ap3xSolana.Lib.ConstantProduct
