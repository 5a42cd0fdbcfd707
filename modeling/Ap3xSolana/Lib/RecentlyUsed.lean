import Ap3xSolana.Lib.OrderedMap
import Mathlib.Data.List.Dedup
import Mathlib.Data.List.DropRight

/-!
# The entries used last

A bounded map that moves an entry to the end whenever it is used and evicts from the front.
Its keys are the `n` different keys used last, in that order (`recent`), whatever was evicted
and used again in between: one more use is all it takes to go on from there
(`recent_concat`).
-/

namespace Ap3xSolana.Lib.RecentlyUsed

variable {κ ν : Type*} [DecidableEq κ]

/-- The `n` different keys used last, the last one at the end. -/
def recent (n : ℕ) (uses : List κ) : List κ := uses.dedup.rtake n

theorem recent_nil (n : ℕ) : recent n ([] : List κ) = [] := by simp [recent]

theorem dedup_concat (uses : List κ) (k : κ) :
    (uses ++ [k]).dedup = uses.dedup.filter (· ≠ k) ++ [k] := by
  induction uses with
  | nil => simp
  | cons u uses ih =>
      rw [List.cons_append, List.dedup_cons, ih, List.dedup_cons]
      by_cases hu : u = k
      · subst hu
        by_cases hmem : u ∈ uses <;> simp [hmem]
      · by_cases hmem : u ∈ uses <;> simp [hmem, hu]

/-- At most one element of a list without duplicates is filtered out. -/
theorem length_le_filter_ne {ks : List κ} (h : ks.Nodup) (k : κ) :
    ks.length ≤ (ks.filter (· ≠ k)).length + 1 := by
  have hcount : ks.count k ≤ 1 := List.nodup_iff_count_le_one.1 h k
  have hsplit := List.length_eq_countP_add_countP (· ≠ k) (l := ks)
  have hrest : ks.countP (fun a => ¬(decide (a ≠ k)) = true) = ks.count k := by
    rw [List.count]
    exact List.countP_congr fun a _ => by simp
  rw [← List.countP_eq_length_filter]
  omega

theorem rtake_append {α : Type*} {n : ℕ} (xs ys : List α) (h : n ≤ ys.length) :
    (xs ++ ys).rtake n = ys.rtake n := by
  rw [List.rtake, List.rtake, List.length_append, Nat.add_sub_assoc h, List.drop_append]
  simp

theorem rtake_of_length_le {α : Type*} {n : ℕ} {xs : List α} (h : xs.length ≤ n) :
    xs.rtake n = xs := by
  simp [List.rtake, Nat.sub_eq_zero_of_le h]

theorem length_rtake {α : Type*} (n : ℕ) (xs : List α) :
    (xs.rtake n).length = min n xs.length := by
  rw [List.rtake, List.length_drop]
  omega

/-- What was evicted before does not matter for what is kept. -/
theorem rtake_filter_rtake {ks : List κ} (h : ks.Nodup) (k : κ) (n : ℕ) :
    (ks.filter (· ≠ k)).rtake n = ((ks.rtake (n + 1)).filter (· ≠ k)).rtake n := by
  by_cases hle : ks.length ≤ n + 1
  · rw [rtake_of_length_le hle]
  · have hsplit : ks = ks.take (ks.length - (n + 1)) ++ ks.rtake (n + 1) :=
      (List.take_append_drop _ ks).symm
    have hlength : (ks.rtake (n + 1)).length = n + 1 := by
      rw [length_rtake]
      omega
    have hnodup : (ks.rtake (n + 1)).Nodup := h.sublist (List.drop_sublist _ ks)
    have hkept := length_le_filter_ne hnodup k
    conv_lhs => rw [hsplit, List.filter_append]
    exact rtake_append _ _ (by omega)

theorem recent_concat (n : ℕ) (uses : List κ) (k : κ) :
    recent n (uses ++ [k]) = ((recent n uses).filter (· ≠ k) ++ [k]).rtake n := by
  rw [recent, dedup_concat]
  cases n with
  | zero => simp
  | succ n =>
      rw [List.rtake_concat_succ, List.rtake_concat_succ,
        rtake_filter_rtake (List.nodup_dedup uses) k n, recent]

theorem mem_recent_of_mem {n : ℕ} {uses : List κ} {k : κ} (h : k ∈ recent n uses) : k ∈ uses :=
  List.mem_dedup.1 (List.mem_of_mem_drop h)

/-! ## The map -/

/-- Drops from the front as long as there are more than `cap`. -/
def trim {α : Type*} (cap : Int) : List α → List α
  | [] => []
  | x :: xs => if cap < (xs.length : Int) + 1 then trim cap xs else x :: xs

theorem trim_eq {α : Type*} (cap : Int) (xs : List α) : trim cap xs = xs.rtake cap.toNat := by
  induction xs with
  | nil => simp [trim]
  | cons x xs ih =>
      rw [trim]
      split
      · next hlt =>
          have hdrop : (x :: xs).length - cap.toNat = xs.length - cap.toNat + 1 := by
            rw [List.length_cons]
            omega
          rw [ih, List.rtake, List.rtake, hdrop, List.drop_succ_cons]
      · next hle => exact (rtake_of_length_le (by rw [List.length_cons]; omega)).symm

theorem trim_sublist {α : Type*} (cap : Int) (xs : List α) : (trim cap xs).Sublist xs := by
  rw [trim_eq]
  exact List.drop_sublist _ xs

def evict (cap : Int) (m : OrderedMap κ ν) : OrderedMap κ ν where
  entries := trim cap m.entries
  nodup := m.nodup.sublist ((trim_sublist cap m.entries).map Prod.fst)

/-- Set at the end. -/
def toEnd (m : OrderedMap κ ν) (k : κ) (v : ν) : OrderedMap κ ν := (m.erase k).set k v

theorem keys_erase (m : OrderedMap κ ν) (k : κ) : (m.erase k).keys = m.keys.filter (· ≠ k) := by
  simp only [OrderedMap.keys, OrderedMap.erase, List.filter_map]
  rfl

theorem keys_toEnd (m : OrderedMap κ ν) (k : κ) (v : ν) :
    (toEnd m k v).keys = m.keys.filter (· ≠ k) ++ [k] := by
  rw [toEnd, OrderedMap.keys_set, keys_erase, if_neg (by simp)]

theorem get?_toEnd (m : OrderedMap κ ν) (k : κ) (v : ν) (k' : κ) :
    (toEnd m k v).get? k' = if k' = k then some v else m.get? k' := by
  rw [toEnd, OrderedMap.get?_set, OrderedMap.get?_erase]
  by_cases h : k' = k <;> simp [h]

omit [DecidableEq κ] in
theorem keys_evict (cap : Int) (m : OrderedMap κ ν) :
    (evict cap m).keys = m.keys.rtake cap.toNat := by
  simp only [OrderedMap.keys, evict, trim_eq, List.rtake, List.map_drop, List.length_map]

theorem get?_evict {cap : Int} {m : OrderedMap κ ν} {k : κ} {v : ν}
    (h : (evict cap m).get? k = some v) : m.get? k = some v := by
  obtain ⟨es, hes⟩ := m
  simp only [evict, OrderedMap.get?] at h ⊢
  induction es with
  | nil => exact h
  | cons e es ih =>
      rw [List.map_cons, List.nodup_cons] at hes
      rw [trim] at h
      split at h
      · have hrest := ih hes.2 h
        have hne : ¬ e.1 = k := by
          rintro rfl
          have hmem : (OrderedMap.mk es hes.2).get? e.1 ≠ none := fun hnone => by
            rw [show OrderedMap.find e.1 es = none from hnone] at hrest
            cases hrest
          exact hmem (OrderedMap.get?_eq_none.2 hes.1)
        rw [OrderedMap.find, if_neg hne]
        exact hrest
      · exact h

end Ap3xSolana.Lib.RecentlyUsed
