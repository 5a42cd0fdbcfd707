import Mathlib.Algebra.BigOperators.Group.List.Basic
import Mathlib.Algebra.Order.Group.Defs
import Mathlib.Algebra.Order.Sub.Defs
import Mathlib.Data.List.Infix
import Mathlib.Data.List.Induction
import Mathlib.Order.Bounds.Basic

/-!
# Peaks and falls of a series

The running peak of a series starts at zero, a fall is how far a value lies below the peak up to
it, and `worstFall` is the largest of them (zero for no value).  The series of interest are the
sums of the prefixes of a list of amounts.
-/

namespace Ap3xSolana.Lib.Drawdown

variable {α : Type*} [AddCommGroup α]

/-- The sums of the prefixes that are not empty. -/
def prefixSums (amounts : List α) : List α := amounts.inits.tail.map List.sum

theorem prefixSums_concat (amounts : List α) (a : α) :
    prefixSums (amounts ++ [a]) = prefixSums amounts ++ [amounts.sum + a] := by
  unfold prefixSums
  have hne : amounts.inits ≠ [] := by
    cases amounts <;> exact List.cons_ne_nil _ _
  rw [List.inits_append, List.tail_append_of_ne_nil hne]
  simp

variable [LinearOrder α]

def peak (values : List α) : α := values.foldl max 0

def worstFall (values : List α) : α :=
  (values.foldl (fun s v => (max s.1 v, max s.2 (max s.1 v - v))) ((0 : α), (0 : α))).2

/-- Some value falls more than `bound` below the peak up to it. -/
def FallsBy (bound : α) (values : List α) : Prop :=
  ∃ before v after, values = before ++ v :: after ∧ bound < peak (before ++ [v]) - v

theorem peak_concat (values : List α) (v : α) :
    peak (values ++ [v]) = max (peak values) v := by
  unfold peak
  rw [List.foldl_append]
  rfl

theorem worstFall_concat (values : List α) (v : α) :
    worstFall (values ++ [v]) = max (worstFall values) (peak (values ++ [v]) - v) := by
  have hpeak : ∀ (values : List α) (p w : α),
      (values.foldl (fun s v => (max s.1 v, max s.2 (max s.1 v - v))) (p, w)).1 =
        values.foldl max p := by
    intro values
    induction values with
    | nil => exact fun _ _ => rfl
    | cons v values ih => exact fun p w => ih _ _
  rw [peak_concat]
  unfold worstFall peak
  rw [List.foldl_append, ← hpeak values 0 0]
  rfl

theorem fallsBy_concat (bound : α) (values : List α) (v : α) :
    FallsBy bound (values ++ [v]) ↔
      FallsBy bound values ∨ bound < peak (values ++ [v]) - v := by
  constructor
  · rintro ⟨before, v', after, heq, hfall⟩
    rcases List.eq_nil_or_concat after with rfl | ⟨after', last, rfl⟩
    · obtain ⟨rfl, hlast⟩ := List.append_inj' heq rfl
      cases hlast
      exact .inr hfall
    · rw [List.concat_eq_append, ← List.cons_append, ← List.append_assoc] at heq
      exact .inl ⟨before, v', after', (List.append_inj' heq rfl).1, hfall⟩
  · rintro (⟨before, v', after, rfl, hfall⟩ | hfall)
    · exact ⟨before, v', after ++ [v], by rw [List.append_assoc, List.cons_append], hfall⟩
    · exact ⟨values, v, [], rfl, hfall⟩

theorem lt_worstFall_iff (bound : α) (values : List α) :
    bound < worstFall values ↔ bound < 0 ∨ FallsBy bound values := by
  induction values using List.reverseRecOn with
  | nil =>
      constructor
      · exact fun h => .inl h
      · rintro (h | ⟨before, v, after, heq, -⟩)
        · exact h
        · cases before <;> cases heq
  | append_singleton values v ih =>
      rw [worstFall_concat, lt_max_iff, ih, fallsBy_concat, or_assoc]

/-! ## The peak of the prefix sums -/

/-- The peak is the largest sum of a prefix, the empty one included. -/
theorem isGreatest_peak (amounts : List α) :
    IsGreatest {x | ∃ before, before <+: amounts ∧ before.sum = x}
      (peak (prefixSums amounts)) := by
  induction amounts using List.reverseRecOn with
  | nil =>
      refine ⟨⟨[], List.prefix_refl _, List.sum_nil⟩, ?_⟩
      rintro x ⟨before, hbefore, rfl⟩
      rw [List.prefix_nil.1 hbefore]
      exact le_refl _
  | append_singleton amounts a ih =>
      have hsum : (amounts ++ [a]).sum = amounts.sum + a := List.sum_append.trans (by simp)
      rw [prefixSums_concat, peak_concat]
      constructor
      · rcases le_total (peak (prefixSums amounts)) (amounts.sum + a) with hle | hle
        · rw [max_eq_right hle]
          exact ⟨amounts ++ [a], List.prefix_refl _, hsum⟩
        · rw [max_eq_left hle]
          obtain ⟨before, hbefore, hpeak⟩ := ih.1
          exact ⟨before, hbefore.trans (List.prefix_append _ _), hpeak⟩
      · rintro x ⟨before, hbefore, rfl⟩
        rcases List.prefix_concat_iff.1 hbefore with rfl | hbefore'
        · rw [hsum]
          exact le_max_right _ _
        · exact (ih.2 ⟨before, hbefore', rfl⟩).trans (le_max_left _ _)

/-- A bound below zero is passed by the first value. -/
theorem fallsBy_of_neg [IsOrderedAddMonoid α] {bound : α} (hbound : bound < 0)
    {values : List α} (hne : values ≠ []) : FallsBy bound values := by
  cases values with
  | nil => exact absurd rfl hne
  | cons v values =>
      refine ⟨[], v, values, rfl, hbound.trans_le (sub_nonneg.2 ?_)⟩
      exact le_max_right _ _

end Ap3xSolana.Lib.Drawdown
