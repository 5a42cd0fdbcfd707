import Mathlib.Algebra.Order.Floor.Semiring
import Mathlib.Algebra.Order.Field.Basic
import Mathlib.Data.List.GetD
import Mathlib.Tactic.Linarith
import Mathlib.Tactic.Ring

/-!
# Linear interpolation in a sorted list

`interpolate xs x` reads the list at the fractional position `x`.  In a sorted list it lies
between its two neighbours and never falls as the position rises, which is what makes
quantiles ordered.
-/

namespace Ap3xSolana.Lib.Interpolation

variable {α : Type*} [Field α] [LinearOrder α] [IsStrictOrderedRing α] [FloorSemiring α]

def interpolate (xs : List α) (x : α) : α :=
  xs.getD ⌊x⌋₊ 0 * (1 - (x - ⌊x⌋₊)) + xs.getD ⌈x⌉₊ 0 * (x - ⌊x⌋₊)

omit [IsStrictOrderedRing α] [FloorSemiring α] in
theorem getD_mono {xs : List α} (hsorted : xs.Pairwise (· ≤ ·)) {i j : Nat} (hij : i ≤ j)
    (hj : j < xs.length) : xs.getD i 0 ≤ xs.getD j 0 := by
  have hi : i < xs.length := by omega
  rw [List.getD_eq_getElem _ _ hi, List.getD_eq_getElem _ _ hj]
  rcases Nat.eq_or_lt_of_le hij with rfl | hlt
  · exact le_refl _
  · exact List.pairwise_iff_getElem.1 hsorted i j hi hj hlt

theorem frac_nonneg {x : α} (hx : 0 ≤ x) : 0 ≤ x - ⌊x⌋₊ := by
  linarith [Nat.floor_le hx]

theorem frac_le_one (x : α) : x - ⌊x⌋₊ ≤ 1 := by
  linarith [Nat.lt_floor_add_one x]

/-- At a whole position the list is read there. -/
theorem interpolate_natCast (xs : List α) (n : Nat) : interpolate xs (n : α) = xs.getD n 0 := by
  rw [interpolate, Nat.floor_natCast, Nat.ceil_natCast, sub_self, sub_zero, mul_one, mul_zero,
    add_zero]

/-- Between two whole positions the upper neighbour is the next element. -/
theorem interpolate_eq (xs : List α) {x : α} (hx : 0 ≤ x) :
    interpolate xs x =
      xs.getD ⌊x⌋₊ 0 + (xs.getD (⌊x⌋₊ + 1) 0 - xs.getD ⌊x⌋₊ 0) * (x - ⌊x⌋₊) := by
  rcases eq_or_lt_of_le (Nat.floor_le hx) with hwhole | hfrac
  · rw [interpolate, ← hwhole, Nat.floor_natCast]
    ring
  · have hceil : ⌈x⌉₊ = ⌊x⌋₊ + 1 := by
      apply le_antisymm
      · exact Nat.ceil_le_floor_add_one x
      · exact Nat.lt_ceil.2 hfrac
    rw [interpolate, hceil]
    ring

theorem interpolate_le_ceil {xs : List α} (hsorted : xs.Pairwise (· ≤ ·)) {x : α}
    (hceil : ⌈x⌉₊ < xs.length) :
    interpolate xs x ≤ xs.getD ⌈x⌉₊ 0 := by
  have hle := getD_mono hsorted (Nat.floor_le_ceil x) hceil
  have hloss : 0 ≤ (xs.getD ⌈x⌉₊ 0 - xs.getD ⌊x⌋₊ 0) * (1 - (x - ⌊x⌋₊)) :=
    mul_nonneg (sub_nonneg.2 hle) (sub_nonneg.2 (frac_le_one x))
  rw [interpolate]
  linarith

section Sorted

variable {xs : List α} (hsorted : xs.Pairwise (· ≤ ·)) {x : α} (hx : 0 ≤ x)
include hsorted hx

theorem floor_le_interpolate (hceil : ⌈x⌉₊ < xs.length) :
    xs.getD ⌊x⌋₊ 0 ≤ interpolate xs x := by
  have hle := getD_mono hsorted (Nat.floor_le_ceil x) hceil
  have hgain : 0 ≤ (xs.getD ⌈x⌉₊ 0 - xs.getD ⌊x⌋₊ 0) * (x - ⌊x⌋₊) :=
    mul_nonneg (sub_nonneg.2 hle) (frac_nonneg hx)
  rw [interpolate]
  linarith

/-- The position rises and so does what is read: within one gap along its slope, and from
one gap to another over the elements in between. -/
theorem interpolate_mono {y : α} (hxy : x ≤ y) (hceil : ⌈y⌉₊ < xs.length) :
    interpolate xs x ≤ interpolate xs y := by
  have hy : 0 ≤ y := le_trans hx hxy
  have hceilx : ⌈x⌉₊ < xs.length := lt_of_le_of_lt (Nat.ceil_mono hxy) hceil
  rcases Nat.eq_or_lt_of_le (Nat.floor_mono hxy) with hsame | hnext
  · rcases eq_or_lt_of_le (Nat.floor_le hy) with hwhole | hfrac
    · have hxy' : x = y := by
        apply le_antisymm hxy
        rw [← hwhole, ← hsame]
        exact Nat.floor_le hx
      rw [hxy']
    · have hceily : ⌊y⌋₊ + 1 ≤ ⌈y⌉₊ := Nat.lt_ceil.2 hfrac
      have hslope : 0 ≤ xs.getD (⌊y⌋₊ + 1) 0 - xs.getD ⌊y⌋₊ 0 :=
        sub_nonneg.2 (getD_mono hsorted (Nat.le_succ _) (by omega))
      rw [interpolate_eq xs hx, interpolate_eq xs hy, hsame]
      have hstep : (xs.getD (⌊y⌋₊ + 1) 0 - xs.getD ⌊y⌋₊ 0) * (x - ⌊y⌋₊) ≤
          (xs.getD (⌊y⌋₊ + 1) 0 - xs.getD ⌊y⌋₊ 0) * (y - ⌊y⌋₊) :=
        mul_le_mul_of_nonneg_left (by linarith) hslope
      linarith
  · have hup : ⌈x⌉₊ ≤ ⌊y⌋₊ := le_trans (Nat.ceil_le_floor_add_one x) hnext
    have hfloor : ⌊y⌋₊ < xs.length := lt_of_le_of_lt (Nat.floor_le_ceil y) hceil
    calc
      interpolate xs x ≤ xs.getD ⌈x⌉₊ 0 := interpolate_le_ceil hsorted hceilx
      _ ≤ xs.getD ⌊y⌋₊ 0 := getD_mono hsorted hup hfloor
      _ ≤ interpolate xs y := floor_le_interpolate hsorted hy hceil

end Sorted

end Ap3xSolana.Lib.Interpolation
