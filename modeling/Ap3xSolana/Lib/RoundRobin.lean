import Mathlib.Data.List.Rotate

/-!
# Taking turns

Whoever had its turn goes to the end of the line.  A round is as many turns as the line is
long, and everyone in the line has one turn in it (`rounds_length`, `rounds_rotate_perm`).
A scan that skips some of the elements and then starts behind the one it found is such a
line of the others (`filter_behind`).
-/

namespace Ap3xSolana.Lib.RoundRobin

variable {α : Type*}

/-- The next `k` turns. -/
def rounds : ℕ → List α → List α
  | 0, _ => []
  | _ + 1, [] => []
  | k + 1, t :: ts => t :: rounds k (ts ++ [t])

theorem rounds_of_le {k : ℕ} {ts : List α} (h : k ≤ ts.length) : rounds k ts = ts.take k := by
  induction k generalizing ts with
  | zero => rw [rounds, List.take_zero]
  | succ k ih =>
      cases ts with
      | nil => exact absurd h (Nat.not_succ_le_zero k)
      | cons t ts =>
          have hk : k ≤ ts.length := Nat.le_of_succ_le_succ h
          have hlength : k ≤ (ts ++ [t]).length := by
            rw [List.length_append]
            exact Nat.le_add_right_of_le hk
          rw [rounds, ih hlength, List.take_append_of_le_length hk, List.take_succ_cons]

/-- In one round everyone has its turn, in the order of the line. -/
theorem rounds_length (ts : List α) : rounds ts.length ts = ts := by
  rw [rounds_of_le (Nat.le_refl _), List.take_length]

/-- A round may begin anywhere. -/
theorem rounds_rotate_perm (ts : List α) (j : ℕ) : (rounds ts.length (ts.rotate j)).Perm ts := by
  have hround := rounds_length (ts.rotate j)
  rw [List.length_rotate] at hround
  rw [hround]
  exact List.rotate_perm ts j

theorem rotate_behind (xs ys : List α) (x : α) :
    (xs ++ x :: ys).rotate (xs.length + 1) = ys ++ (xs ++ [x]) := by
  have hsplit := List.rotate_append_length_eq (xs ++ [x]) ys
  rwa [List.length_append, List.length_singleton, List.append_assoc, List.singleton_append]
    at hsplit

/-- The elements that are up wait in a line: the scan finds the first of it, and a scan that
starts behind finds it at the end. -/
theorem filter_behind {up : α → Bool} {xs : List α} {x : α} (hxs : ∀ a ∈ xs, up a = false)
    (hx : up x = true) (ys : List α) :
    (xs ++ x :: ys).filter up = x :: ys.filter up ∧
      (ys ++ (xs ++ [x])).filter up = ys.filter up ++ [x] := by
  have hskip : xs.filter up = [] := by
    rw [List.filter_eq_nil_iff]
    intro a ha
    rw [hxs a ha]
    exact Bool.false_ne_true
  constructor
  · rw [List.filter_append, hskip, List.nil_append, List.filter_cons_of_pos hx]
  · rw [List.filter_append, List.filter_append, hskip, List.nil_append,
      List.filter_cons_of_pos hx, List.filter_nil]

end Ap3xSolana.Lib.RoundRobin
