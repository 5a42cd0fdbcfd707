import Mathlib.Data.List.Count
import Mathlib.Data.List.Forall2
import Mathlib.Data.List.Nodup
import Mathlib.Data.List.Pairwise
import Mathlib.Data.List.Sort
import Mathlib.Order.Basic

/-!
# Sorted lists

Two lists that agree under `f`, element by element, still agree after a sort that decides
any two positions alike in both (`map_mergeSort_eq`).

`Largest key k xs ys` says that `ys` are the `k` elements of `xs` with the largest keys,
largest first.  Their keys are determined (`Largest.keys_eq`).  Where only a part of the
list was seen, the largest of that part are the largest of all exactly if every element
not seen has `k` seen ones that are as large (`Largest.append_iff`).
-/

/-! ## Sorting what a key tells apart -/

namespace Ap3xSolana.Lib.Sorting

variable {α β : Type*}

theorem eq_of_mem_zip {f : α → β} {xs ys : List α} (h : xs.map f = ys.map f) {p : α × α}
    (hp : p ∈ xs.zip ys) : f p.1 = f p.2 := by
  have hall : List.Forall₂ (fun a b => f a = f b) xs ys := by
    have heq : List.Forall₂ (fun a b => a = b) (xs.map f) (ys.map f) := by
      rw [h, List.forall₂_same]
      exact fun _ _ => rfl
    rwa [List.forall₂_map_left_iff, List.forall₂_map_right_iff] at heq
  exact (List.forall₂_iff_zip.1 hall).2 hp

theorem map_mergeSort_eq {f : α → β} {le : α → α → Bool} {xs ys : List α}
    (hmap : xs.map f = ys.map f) (hrefl : ∀ a, le a a = true)
    (hle : (xs.zip ys).Pairwise fun p q => le p.1 q.1 = le p.2 q.2 ∧ le q.1 p.1 = le q.2 p.2) :
    (xs.mergeSort le).map f = (ys.mergeSort le).map f := by
  have hlen : xs.length = ys.length := by
    have := congrArg List.length hmap
    rwa [List.length_map, List.length_map] at this
  have hxs : (xs.zip ys).map Prod.fst = xs := List.map_fst_zip (Nat.le_of_eq hlen)
  have hys : (xs.zip ys).map Prod.snd = ys := List.map_snd_zip (Nat.le_of_eq hlen.symm)
  have hdiag : ∀ p ∈ xs.zip ys, le p.1 p.1 = le p.2 p.2 := by
    intro p _
    rw [hrefl, hrefl]
  have hagree : ∀ p ∈ xs.zip ys, ∀ q ∈ xs.zip ys, le p.1 q.1 = le p.2 q.2 := by
    intro p hp q hq
    exact List.Pairwise.forall_of_forall_of_flip hdiag (hle.imp fun h => h.1)
      (hle.imp fun h => h.2) hp hq
  have hfst : (xs.zip ys).mergeSort (fun p q => le p.1 q.1) =
      (xs.zip ys).mergeSort (fun p q => le p.2 q.2) := by
    have h := List.map_mergeSort (f := id) (l := xs.zip ys) (r := fun p q => le p.1 q.1)
      (s := fun p q => le p.2 q.2) hagree
    rwa [List.map_id, List.map_id] at h
  have hxsort : ((xs.zip ys).mergeSort (fun p q => le p.1 q.1)).map Prod.fst =
      xs.mergeSort le := by
    rw [List.map_mergeSort (s := le) (fun _ _ _ _ => rfl), hxs]
  have hysort : ((xs.zip ys).mergeSort (fun p q => le p.2 q.2)).map Prod.snd =
      ys.mergeSort le := by
    rw [List.map_mergeSort (s := le) (fun _ _ _ _ => rfl), hys]
  rw [← hxsort, ← hysort, hfst, List.map_map, List.map_map]
  apply List.map_congr_left
  intro p hp
  exact eq_of_mem_zip hmap (List.mem_mergeSort.1 hp)

/-- The elements of two lists, side by side. -/
theorem pairwise_zip {R S : α → α → Prop} {xs ys : List α} (hlen : xs.length = ys.length)
    (hx : xs.Pairwise R) (hy : ys.Pairwise S) :
    (xs.zip ys).Pairwise fun p q => R p.1 q.1 ∧ S p.2 q.2 := by
  have hxs : (xs.zip ys).map Prod.fst = xs := List.map_fst_zip (Nat.le_of_eq hlen)
  have hys : (xs.zip ys).map Prod.snd = ys := List.map_snd_zip (Nat.le_of_eq hlen.symm)
  rw [← hxs, List.pairwise_map] at hx
  rw [← hys, List.pairwise_map] at hy
  exact hx.and hy

end Ap3xSolana.Lib.Sorting

/-! ## The largest of a list -/

namespace Ap3xSolana.Lib.Selection

variable {α κ : Type*} [LinearOrder κ] {key : α → κ} {k : Nat} {xs ys zs : List α}

structure Largest (key : α → κ) (k : Nat) (xs ys : List α) : Prop where
  nodup : ys.Nodup
  subset : ys ⊆ xs
  length : ys.length = min k xs.length
  sorted : ys.Pairwise fun a b => key b ≤ key a
  largest : ∀ x ∈ xs, x ∉ ys → ∀ y ∈ ys, key x ≤ key y

theorem Largest.perm (h : Largest key k xs ys) (hperm : xs.Perm zs) : Largest key k zs ys where
  nodup := h.nodup
  subset := fun _ hy => hperm.mem_iff.1 (h.subset hy)
  length := by rw [h.length, hperm.length_eq]
  sorted := h.sorted
  largest := fun x hx => h.largest x (hperm.mem_iff.2 hx)

/-- The first elements of a list in falling order. -/
theorem largest_take (hnodup : xs.Nodup) (hsorted : xs.Pairwise fun a b => key b ≤ key a)
    (k : Nat) : Largest key k xs (xs.take k) where
  nodup := hnodup.sublist (List.take_sublist k xs)
  subset := List.take_subset k xs
  length := List.length_take
  sorted := hsorted.sublist (List.take_sublist k xs)
  largest := by
    intro x hx hnot y hy
    rw [← List.take_append_drop k xs] at hsorted hx
    have hdrop := (List.mem_append.1 hx).resolve_left hnot
    exact (List.pairwise_append.1 hsorted).2.2 y hy x hdrop

/-- A sort that puts larger keys first. -/
def sortDown (key : α → κ) (xs : List α) : List α :=
  xs.mergeSort fun a b => decide (key b ≤ key a)

theorem sorted_sortDown (key : α → κ) (xs : List α) :
    (sortDown key xs).Pairwise fun a b => key b ≤ key a := by
  have hsorted : (sortDown key xs).Pairwise fun a b => decide (key b ≤ key a) = true := by
    apply List.pairwise_mergeSort
    · intro a b c hab hbc
      exact decide_eq_true ((of_decide_eq_true hbc).trans (of_decide_eq_true hab))
    · intro a b
      rcases le_total (key b) (key a) with h | h
      · rw [decide_eq_true h, Bool.true_or]
      · rw [decide_eq_true h, Bool.or_true]
  exact hsorted.imp of_decide_eq_true

theorem perm_sortDown (key : α → κ) (xs : List α) : (sortDown key xs).Perm xs :=
  List.mergeSort_perm xs _

theorem largest_sortDown (hnodup : xs.Nodup) (k : Nat) :
    Largest key k xs ((sortDown key xs).take k) :=
  (largest_take ((perm_sortDown key xs).nodup_iff.2 hnodup) (sorted_sortDown key xs) k).perm
    (perm_sortDown key xs)

/-- Fewer of the largest. -/
theorem Largest.take (h : Largest key k xs ys) {j : Nat} (hle : j ≤ k) :
    Largest key j xs (ys.take j) where
  nodup := h.nodup.sublist (List.take_sublist j ys)
  subset := fun _ hy => h.subset (List.take_subset j ys hy)
  length := by
    rw [List.length_take, h.length]
    omega
  sorted := h.sorted.sublist (List.take_sublist j ys)
  largest := by
    intro x hx hnot y hy
    by_cases hmem : x ∈ ys
    · exact (largest_take h.nodup h.sorted j).largest x hmem hnot y hy
    · exact h.largest x hx hmem y (List.take_subset j ys hy)

/-- The keys are those at the head of all keys in falling order. -/
theorem Largest.keys_eq (h : Largest key k xs ys) (hnodup : xs.Nodup) :
    ys.map key = (sortDown id (xs.map key)).take k := by
  obtain ⟨rest, hrest⟩ : ∃ rest, xs.Perm (ys ++ rest) := by
    obtain ⟨selected, hselected, hsub⟩ := List.subperm_of_subset h.nodup h.subset
    obtain ⟨rest, hrest⟩ := hsub.exists_perm_append
    exact ⟨rest, hrest.trans (hselected.append_right rest)⟩
  have hdisjoint := (List.nodup_append.1 (hrest.nodup_iff.1 hnodup)).2.2
  have hsorted : (ys.map key ++ sortDown id (rest.map key)).Pairwise fun a b => b ≤ a := by
    rw [List.pairwise_append]
    refine ⟨List.pairwise_map.2 h.sorted, sorted_sortDown id _, ?_⟩
    intro a ha b hb
    obtain ⟨y, hy, rfl⟩ := List.mem_map.1 ha
    obtain ⟨x, hx, rfl⟩ := List.mem_map.1 ((perm_sortDown id _).mem_iff.1 hb)
    have hxs : x ∈ xs := hrest.mem_iff.2 (List.mem_append_right _ hx)
    exact h.largest x hxs (fun hmem => hdisjoint x hmem x hx rfl) y hy
  have hperm : (ys.map key ++ sortDown id (rest.map key)).Perm (sortDown id (xs.map key)) := by
    calc (ys.map key ++ sortDown id (rest.map key)).Perm (ys.map key ++ rest.map key) :=
          (perm_sortDown id _).append_left _
      _ = (ys ++ rest).map key := List.map_append.symm
      List.Perm _ (xs.map key) := (hrest.map key).symm
      List.Perm _ (sortDown id (xs.map key)) := (perm_sortDown id _).symm
  have heq : ys.map key ++ sortDown id (rest.map key) = sortDown id (xs.map key) :=
    hperm.eq_of_pairwise (fun a b _ _ hab hba => le_antisymm hba hab) hsorted
      (sorted_sortDown id _)
  have hall : ys.length = k ∨ rest = [] := by
    have hlen := hrest.length_eq
    rw [List.length_append] at hlen
    have := h.length
    rcases Nat.lt_or_ge k xs.length with hlt | hge
    · exact .inl (by omega)
    · exact .inr (List.eq_nil_of_length_eq_zero (by omega))
  rw [← heq]
  rcases hall with hlen | rfl
  · rw [← hlen, ← List.length_map key, List.take_left]
  · have hnone : sortDown id (List.map key []) = [] := (perm_sortDown id _).eq_nil
    have hlen : (ys.map key).length ≤ k := by
      rw [List.length_map, h.length]
      exact Nat.min_le_left _ _
    rw [hnone, List.append_nil, List.take_of_length_le hlen]

/-- The larger selection starts with the keys of the smaller one. -/
theorem Largest.keys_take {j : Nat} (h : Largest key k xs ys) (h' : Largest key j xs zs)
    (hnodup : xs.Nodup) (hle : j ≤ k) : (ys.map key).take j = zs.map key := by
  rw [← List.map_take, (h.take hle).keys_eq hnodup, h'.keys_eq hnodup]

/-- The largest of what was seen are the largest of all if each element that was not seen
is covered by `k` seen ones. -/
theorem Largest.append_iff {seen unseen : List α} (h : Largest key k seen ys)
    (hnodup : (seen ++ unseen).Nodup) :
    Largest key k (seen ++ unseen) ys ↔
      ∀ u ∈ unseen, k ≤ seen.countP fun s => decide (key u ≤ key s) := by
  have hdisjoint := (List.nodup_append.1 hnodup).2.2
  have hlen := h.length
  constructor
  · intro hall u hu
    have hnot : u ∉ ys := fun hmem => hdisjoint u (h.subset hmem) u hu rfl
    have hlenAll := hall.length
    have hpresent : 0 < unseen.length := List.length_pos_of_mem hu
    rw [List.length_append] at hlenAll
    have hfull : ys.length = k := by omega
    have hcovers : ys.countP (fun s => decide (key u ≤ key s)) = ys.length := by
      rw [List.countP_eq_length]
      exact fun y hy => decide_eq_true (hall.largest u (List.mem_append_right _ hu) hnot y hy)
    rw [← hfull, ← hcovers]
    exact (List.subperm_of_subset h.nodup h.subset).countP_le _
  · intro hcover
    refine ⟨h.nodup, fun y hy => List.mem_append_left _ (h.subset hy), ?_, h.sorted, ?_⟩
    · cases unseen with
      | nil => rw [List.append_nil, hlen]
      | cons u unseen =>
          have hk := hcover u List.mem_cons_self
          have hle := List.countP_le_length (p := fun s => decide (key u ≤ key s)) (l := seen)
          rw [List.length_append]
          omega
    · intro x hx hnot y hy
      rcases List.mem_append.1 hx with hseen | hunseen
      · exact h.largest x hseen hnot y hy
      · -- An element below `x` among the selected would leave too few that cover `x`.
        by_contra hlt
        have hinside : ∀ s ∈ seen, key x ≤ key s → s ∈ ys := by
          intro s hs hle
          by_contra hout
          exact hlt (hle.trans (h.largest s hs hout y hy))
        have hbelow : (y :: seen.filter fun s => decide (key x ≤ key s)) ⊆ ys := by
          intro s hs
          rcases List.mem_cons.1 hs with rfl | hs
          · exact hy
          · obtain ⟨hs, hle⟩ := List.mem_filter.1 hs
            exact hinside s hs (of_decide_eq_true hle)
        have hdistinct : (y :: seen.filter fun s => decide (key x ≤ key s)).Nodup := by
          rw [List.nodup_cons]
          refine ⟨fun hmem => hlt (of_decide_eq_true (List.mem_filter.1 hmem).2), ?_⟩
          exact (List.nodup_append.1 hnodup).1.filter _
        have hmore := (List.subperm_of_subset hdistinct hbelow).length_le
        have hcount := hcover x hunseen
        rw [List.length_cons, ← List.countP_eq_length_filter] at hmore
        omega

end Ap3xSolana.Lib.Selection
