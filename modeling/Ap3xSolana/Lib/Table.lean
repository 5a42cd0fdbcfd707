import Mathlib.Algebra.GroupWithZero.Nat
import Mathlib.Data.List.Basic
import Mathlib.Data.List.Nodup

/-!
# Lists as tables

A machine keeps its records in a list: new ones go to the end, and a step replaces the
one it is about.  What a replacement does to a lookup (`getElem?_replaced`) and to
everything that is read off the whole table (`filterMap_replaced`, and
`filterMap_replaced_last` where the replaced record starts to count and no later one
does; `sum_take_replaced` for a sum).

A table is compacted in place by a read cursor that runs over it and a write cursor behind
it: what is kept is moved to the write cursor, and in the end the array is cut there.  That
is `filter`.
-/

namespace Ap3xSolana.Lib.Table

variable {α β : Type*} {l : List α} {f : α → Option β} {i : Nat} {x x' : α}

theorem getElem?_replaced (h : l[i]? = some x) (j : Nat) :
    (l.set i x')[j]? = if j = i then some x' else l[j]? := by
  rw [List.getElem?_set]
  by_cases hj : i = j
  · subst hj
    rw [if_pos rfl, if_pos rfl, if_pos (List.getElem?_eq_some_iff.1 h).1]
  · rw [if_neg hj, if_neg (Ne.symm hj)]

theorem getElem?_added (j : Nat) :
    (l ++ [x])[j]? = if j = l.length then some x else l[j]? := by
  by_cases hj : j = l.length
  · rw [if_pos hj, hj, List.getElem?_concat_length]
  · rw [if_neg hj]
    by_cases hlt : j < l.length
    · exact List.getElem?_append_left hlt
    · rw [List.getElem?_eq_none (by simp; omega), List.getElem?_eq_none (by omega)]

theorem split_at (x' : α) (h : l[i]? = some x) :
    l = l.take i ++ x :: l.drop (i + 1) ∧
      l.set i x' = l.take i ++ x' :: l.drop (i + 1) := by
  obtain ⟨hlt, hget⟩ := List.getElem?_eq_some_iff.1 h
  constructor
  · rw [← hget, ← List.drop_eq_getElem_cons hlt, List.take_append_drop]
  · exact List.set_eq_take_append_cons_drop.trans (if_pos hlt)

theorem filterMap_replaced (h : l[i]? = some x) (hf : f x' = f x) :
    (l.set i x').filterMap f = l.filterMap f := by
  obtain ⟨hold, hnew⟩ := split_at x' h
  calc (l.set i x').filterMap f
      = (l.take i ++ x' :: l.drop (i + 1)).filterMap f := by rw [hnew]
    _ = (l.take i ++ x :: l.drop (i + 1)).filterMap f := by
        rw [List.filterMap_append, List.filterMap_append, List.filterMap_cons,
          List.filterMap_cons, hf]
    _ = l.filterMap f := by rw [← hold]

theorem flatMap_replaced {g : α → List β} (h : l[i]? = some x) (hg : g x' = g x) :
    (l.set i x').flatMap g = l.flatMap g := by
  obtain ⟨hold, hnew⟩ := split_at x' h
  calc (l.set i x').flatMap g
      = (l.take i ++ x' :: l.drop (i + 1)).flatMap g := by rw [hnew]
    _ = (l.take i ++ x :: l.drop (i + 1)).flatMap g := by
        rw [List.flatMap_append, List.flatMap_append, List.flatMap_cons,
          List.flatMap_cons, hg]
    _ = l.flatMap g := by rw [← hold]

/-- Where no element of the whole is there twice, it comes from one record. -/
theorem eq_of_mem_flatMap_nodup {g : α → List β} (h : (l.flatMap g).Nodup) {i j : Nat}
    {x y : α} {b : β} (hi : l[i]? = some x) (hj : l[j]? = some y) (hx : b ∈ g x)
    (hy : b ∈ g y) : i = j := by
  have hpairs := (List.nodup_flatMap.1 h).2
  rw [List.pairwise_iff_getElem] at hpairs
  obtain ⟨hilt, rfl⟩ := List.getElem?_eq_some_iff.1 hi
  obtain ⟨hjlt, rfl⟩ := List.getElem?_eq_some_iff.1 hj
  rcases Nat.lt_trichotomy i j with hlt | heq | hgt
  · exact absurd hy (hpairs i j hilt hjlt hlt hx)
  · exact heq
  · exact absurd hx (hpairs j i hjlt hilt hgt hy)

theorem filterMap_replaced_last {b : β} (h : l[i]? = some x) (hx : f x = none)
    (hx' : f x' = some b) (hlater : ∀ j y, i < j → l[j]? = some y → f y = none) :
    (l.set i x').filterMap f = l.filterMap f ++ [b] := by
  obtain ⟨hold, hnew⟩ := split_at x' h
  have hrest : (l.drop (i + 1)).filterMap f = [] := by
    rw [List.filterMap_eq_nil_iff]
    intro y hy
    obtain ⟨j, hj⟩ := List.mem_iff_getElem?.1 hy
    rw [List.getElem?_drop] at hj
    exact hlater (i + 1 + j) y (by omega) hj
  have hbefore : l.filterMap f = (l.take i).filterMap f := by
    calc l.filterMap f = (l.take i ++ x :: l.drop (i + 1)).filterMap f := by rw [← hold]
      _ = (l.take i).filterMap f := by
        rw [List.filterMap_append, List.filterMap_cons, hx, hrest, List.append_nil]
  rw [hnew, List.filterMap_append, List.filterMap_cons, hx', hrest, hbefore]

/-- What a replacement among the first `n` does to a sum over them. -/
theorem sum_take_replaced (x' : α) (h : l[i]? = some x) (g : α → Nat) {n : Nat} (hn : i < n) :
    (((l.set i x').take n).map g).sum + g x = ((l.take n).map g).sum + g x' := by
  have htake : (l.take n)[i]? = some x := by
    rw [List.getElem?_take_of_lt hn, h]
  obtain ⟨hold, hnew⟩ := split_at x' htake
  rw [List.take_set, hnew]
  conv_rhs => rw [hold]
  simp only [List.map_append, List.map_cons, List.sum_append, List.sum_cons]
  omega

theorem take_replaced {n : Nat} (hn : n ≤ i) : (l.set i x').take n = l.take n := by
  rw [List.take_set]
  exact List.set_eq_of_length_le (Nat.le_trans (List.length_take_le n l) hn)

end Ap3xSolana.Lib.Table

namespace Ap3xSolana.Lib.Compaction

variable {α : Type*} (keep : α → Bool)

/-- The loop; the first argument counts the elements that are still to be read. -/
def compactLoop : Nat → List α → Nat → Nat → List α × Nat
  | 0, xs, _, write => (xs, write)
  | turns + 1, xs, read, write =>
      match xs[read]? with
      | none => (xs, write)
      | some x =>
          if keep x then compactLoop turns (xs.set write x) (read + 1) (write + 1)
          else compactLoop turns xs (read + 1) write

/-- The loop from the start, and the cut. -/
def compact (xs : List α) : List α :=
  let r := compactLoop keep xs.length xs 0 0
  r.1.take r.2

/-- What is read is still as it was: the write cursor stays behind. -/
theorem compactLoop_eq (turns : Nat) :
    ∀ (xs : List α) (read write : Nat), write ≤ read → read + turns = xs.length →
      (compactLoop keep turns xs read write).1.take (compactLoop keep turns xs read write).2 =
        xs.take write ++ (xs.drop read).filter keep := by
  induction turns with
  | zero =>
      intro xs read write _ hlen
      rw [List.drop_eq_nil_of_le (by omega)]
      exact (List.append_nil _).symm
  | succ turns ih =>
      intro xs read write hle hlen
      have hread : read < xs.length := by omega
      have hget : xs[read]? = some xs[read] := List.getElem?_eq_getElem hread
      have hdrop : xs.drop read = xs[read] :: xs.drop (read + 1) := List.drop_eq_getElem_cons hread
      simp only [compactLoop, hget, hdrop]
      by_cases hkeep : keep xs[read] = true
      · rw [if_pos hkeep, ih _ _ _ (by omega) (by rw [List.length_set]; omega),
          List.filter_cons_of_pos hkeep, List.drop_set_of_lt (by omega),
          List.take_add_one, List.take_set_of_le (Nat.le_refl _),
          List.getElem?_set_self (by omega), List.append_assoc]
        rfl
      · rw [if_neg hkeep, ih _ _ _ (by omega) (by omega), List.filter_cons_of_neg hkeep]

theorem compact_eq_filter (xs : List α) : compact keep xs = xs.filter keep := by
  have h := compactLoop_eq keep xs.length xs 0 0 (Nat.le_refl 0) (Nat.zero_add _)
  rw [List.take_zero, List.drop_zero, List.nil_append] at h
  exact h

end Ap3xSolana.Lib.Compaction
