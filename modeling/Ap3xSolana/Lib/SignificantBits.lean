import Mathlib.Algebra.Group.Nat.Defs

/-!
# Rounding to significant bits

A natural number to the nearest one that has at most `p` significant bits, ties to the even
one.  It is the number itself up to `2 ^ p`, and the order is kept.
-/

namespace Ap3xSolana.Lib.SignificantBits

/-- `n / 2 ^ s` to the nearest whole number, ties to even. -/
def roundShift (s n : Nat) : Nat :=
  if 2 * (n % 2 ^ s) < 2 ^ s ∨ 2 * (n % 2 ^ s) = 2 ^ s ∧ n / 2 ^ s % 2 = 0 then n / 2 ^ s
  else n / 2 ^ s + 1

/-- The bits of `n` that are more than `p`. -/
def excess (p n : Nat) : Nat := n.log2 + 1 - p

def round (p n : Nat) : Nat := roundShift (excess p n) n * 2 ^ excess p n

variable {p s m n : Nat}

theorem le_roundShift (s n : Nat) : n / 2 ^ s ≤ roundShift s n := by
  unfold roundShift
  split
  · exact Nat.le_refl _
  · exact Nat.le_succ _

theorem roundShift_le (s n : Nat) : roundShift s n ≤ n / 2 ^ s + 1 := by
  unfold roundShift
  split
  · exact Nat.le_succ _
  · exact Nat.le_refl _

theorem roundShift_mono (h : m ≤ n) : roundShift s m ≤ roundShift s n := by
  rcases Nat.lt_or_eq_of_le (Nat.div_le_div_right (c := 2 ^ s) h) with hlt | heq
  · exact Nat.le_trans (roundShift_le s m) (Nat.le_trans hlt (le_roundShift s n))
  · -- the quotients agree, so the remainders are in order
    have hm := Nat.div_add_mod m (2 ^ s)
    have hn := Nat.div_add_mod n (2 ^ s)
    have hrem : m % 2 ^ s ≤ n % 2 ^ s := by
      rw [heq] at hm
      omega
    unfold roundShift
    rw [heq]
    split
    · split <;> omega
    · rename_i hup
      have hup' : ¬ (2 * (n % 2 ^ s) < 2 ^ s ∨ 2 * (n % 2 ^ s) = 2 ^ s ∧ n / 2 ^ s % 2 = 0) := by
        omega
      exact Nat.le_of_eq (if_neg hup').symm

theorem round_of_lt (hp : 0 < p) (h : n < 2 ^ p) : round p n = n := by
  have hexcess : excess p n = 0 := by
    unfold excess
    by_cases hn : n = 0
    · rw [hn, Nat.log2_zero]
      omega
    · have hlog := (Nat.log2_lt hn).2 h
      omega
  rw [round, hexcess, roundShift, Nat.pow_zero, Nat.mod_one, if_pos (.inl (by decide)),
    Nat.div_one, Nat.mul_one]

/-- Rounding does not leave the powers of two around a number. -/
theorem round_bounds (hp : 0 < p) (hn : n ≠ 0) :
    2 ^ n.log2 ≤ round p n ∧ round p n ≤ 2 ^ (n.log2 + 1) := by
  have hs : excess p n ≤ n.log2 := by
    unfold excess
    omega
  have hlow : 2 ^ (n.log2 - excess p n) ≤ n / 2 ^ excess p n := by
    rw [Nat.le_div_iff_mul_le (Nat.two_pow_pos _), ← Nat.pow_add, Nat.sub_add_cancel hs]
    exact Nat.log2_self_le hn
  have hhigh : n / 2 ^ excess p n < 2 ^ (n.log2 + 1 - excess p n) := by
    rw [Nat.div_lt_iff_lt_mul (Nat.two_pow_pos _), ← Nat.pow_add,
      Nat.sub_add_cancel (Nat.le_succ_of_le hs)]
    exact Nat.lt_log2_self
  constructor
  · calc 2 ^ n.log2 = 2 ^ (n.log2 - excess p n) * 2 ^ excess p n := by
          rw [← Nat.pow_add, Nat.sub_add_cancel hs]
      _ ≤ round p n := Nat.mul_le_mul_right _ (Nat.le_trans hlow (le_roundShift _ _))
  · calc round p n ≤ 2 ^ (n.log2 + 1 - excess p n) * 2 ^ excess p n :=
          Nat.mul_le_mul_right _ (Nat.le_trans (roundShift_le _ _) hhigh)
      _ = 2 ^ (n.log2 + 1) := by
          rw [← Nat.pow_add, Nat.sub_add_cancel (Nat.le_succ_of_le hs)]

theorem round_mono (hp : 0 < p) (h : m ≤ n) : round p m ≤ round p n := by
  by_cases hm : m = 0
  · rw [hm, round_of_lt hp (Nat.two_pow_pos p)]
    exact Nat.zero_le _
  have hn : n ≠ 0 := by omega
  by_cases hexcess : excess p m = excess p n
  · rw [round, round, hexcess]
    exact Nat.mul_le_mul_right _ (roundShift_mono h)
  · -- the larger number has more bits
    have hlog : m.log2 < n.log2 := by
      have hle : m.log2 ≤ n.log2 := (Nat.le_log2 hn).2 (Nat.le_trans (Nat.log2_self_le hm) h)
      unfold excess at hexcess
      omega
    calc round p m ≤ 2 ^ (m.log2 + 1) := (round_bounds hp hm).2
      _ ≤ 2 ^ n.log2 := Nat.pow_le_pow_right (by decide) hlog
      _ ≤ round p n := (round_bounds hp hn).1

end Ap3xSolana.Lib.SignificantBits
