import Mathlib.Algebra.Order.Group.Defs
import Mathlib.Algebra.Order.Group.Unbundled.Basic
import Mathlib.Data.List.Induction

/-!
# Counting events in a window

Times that never decrease, and those of them that lie less than `window` before a moment.
Forgetting what has left the window changes nothing later on (`recent_recent`), and where every
passing event sees few events before it, few passing events lie in any window
(`length_window_le`).
-/

namespace Ap3xSolana.Lib.SlidingWindow

variable {α : Type*} [AddCommGroup α] [LinearOrder α]

/-- The times less than `window` before `now`. -/
def recent (window now : α) (times : List α) : List α :=
  times.filter fun t => decide (now - t < window)

theorem recent_append (window now : α) (times times' : List α) :
    recent window now (times ++ times') = recent window now times ++ recent window now times' :=
  List.filter_append _ _

/-- A set of times that lie less than `window` apart. -/
def Within (window : α) (inside : α → Prop) : Prop :=
  ∀ s t, s ≤ t → inside s → inside t → t - s < window

variable {β : Type*}

/-- Every event that passes has fewer than `bound` events before it in its window. -/
def FewBefore (window : α) (bound : Nat) (time : β → α) (passed : β → Bool)
    (events : List β) : Prop :=
  ∀ before e after, events = before ++ e :: after → passed e = true →
    (recent window (time e) (before.map time)).length < bound

theorem FewBefore.init {window : α} {bound : Nat} {time : β → α} {passed : β → Bool}
    {events : List β} {last : β} (h : FewBefore window bound time passed (events ++ [last])) :
    FewBefore window bound time passed events := by
  rintro before e after rfl hpassed
  refine h before e (after ++ [last]) ?_ hpassed
  rw [List.append_assoc, List.cons_append]

/-- No window holds more than `bound` events that pass. -/
theorem length_window_le {window : α} {bound : Nat} {time : β → α} {passed : β → Bool}
    {events : List β} (hsorted : events.Pairwise fun e e' => time e ≤ time e')
    (hfew : FewBefore window bound time passed events) {inside : α → Prop}
    [DecidablePred inside] (hinside : Within window inside) :
    (events.filter fun e => passed e && decide (inside (time e))).length ≤ bound := by
  induction events using List.reverseRecOn with
  | nil => exact Nat.zero_le _
  | append_singleton events last ih =>
      obtain ⟨hbefore, -, hlast⟩ := List.pairwise_append.1 hsorted
      have hle := ih hbefore hfew.init
      rw [List.filter_append, List.length_append]
      by_cases hcounts : (passed last && decide (inside (time last))) = true
      · obtain ⟨hpassed, hin⟩ := Bool.and_eq_true_iff.1 hcounts
        have hin' := of_decide_eq_true hin
        -- what is in the window with the last event is recent to it
        have hsub : (events.filter fun e => passed e && decide (inside (time e))).length ≤
            (recent window (time last) (events.map time)).length := by
          unfold recent
          rw [List.filter_map, List.length_map, ← List.countP_eq_length_filter,
            ← List.countP_eq_length_filter]
          refine List.countP_mono_left fun e he hcount => ?_
          obtain ⟨-, hin⟩ := Bool.and_eq_true_iff.1 hcount
          exact decide_eq_true (hinside _ _ (hlast e he last (List.mem_singleton_self _))
            (of_decide_eq_true hin) hin')
        have hfewLast := hfew events last [] rfl hpassed
        have hone : ([last].filter fun e => passed e && decide (inside (time e))).length ≤ 1 :=
          List.length_filter_le _ _
        omega
      · have hnone : [last].filter (fun e => passed e && decide (inside (time e))) = [] :=
          List.filter_eq_nil_iff.2 fun e he => List.mem_singleton.1 he ▸ hcounts
        rw [hnone]
        exact hle

/-! ## Windows of an ordered group -/

variable [IsOrderedAddMonoid α]

theorem recent_recent (window : α) {now now' : α} (h : now ≤ now') (times : List α) :
    recent window now' (recent window now times) = recent window now' times := by
  unfold recent
  rw [List.filter_filter]
  apply List.filter_congr
  intro t _
  rw [← Bool.decide_and]
  apply decide_eq_decide.2
  exact ⟨fun hboth => hboth.1, fun hlater => ⟨hlater, (sub_le_sub_right h t).trans_lt hlater⟩⟩

theorem within_Ico (window start : α) :
    Within window fun t => start ≤ t ∧ t < start + window := by
  rintro s t - ⟨hs, -⟩ ⟨-, ht⟩
  exact (sub_le_sub_left hs t).trans_lt (sub_lt_iff_lt_add'.2 ht)

theorem within_Ioc (window start : α) :
    Within window fun t => start < t ∧ t ≤ start + window := by
  rintro s t - ⟨hs, -⟩ ⟨-, ht⟩
  exact (sub_lt_sub_left hs t).trans_le (sub_le_iff_le_add'.2 ht)

end Ap3xSolana.Lib.SlidingWindow
