import Ap3xSolana.Lib.OrderedMap
import Mathlib.Data.List.Perm.Basic

/-!
# Grouping a list by a key

`firstSeen` lists the distinct elements of a list in order of first appearance;
it is the key order of a map filled from that list.  `group g ts xs` puts the
elements of `xs` together by their key, one group after the other in the order
`ts`.  `group_eq_self_iff` says when that changes nothing: when the keys come in
the order `ts`.
-/

namespace Ap3xSolana.Lib.Grouping

variable {α κ : Type*} [DecidableEq κ]

def addSeen (seen : List κ) (x : κ) : List κ := if x ∈ seen then seen else seen ++ [x]

/-- The distinct elements, in order of first appearance. -/
def firstSeen (xs : List κ) : List κ := xs.foldl addSeen []

theorem nodup_addSeen {seen : List κ} (h : seen.Nodup) (x : κ) :
    (addSeen seen x).Nodup := by
  unfold addSeen
  split
  · exact h
  · rename_i hx
    rw [← List.concat_eq_append]
    exact h.concat hx

theorem mem_addSeen {seen : List κ} {x y : κ} :
    y ∈ addSeen seen x ↔ y ∈ seen ∨ y = x := by
  unfold addSeen
  split
  · rename_i hx
    constructor
    · exact Or.inl
    · rintro (h | rfl)
      · exact h
      · exact hx
  · simp

private theorem foldl_addSeen (xs : List κ) :
    ∀ seen : List κ, seen.Nodup →
      (xs.foldl addSeen seen).Nodup ∧
        ∀ y, y ∈ xs.foldl addSeen seen ↔ y ∈ seen ∨ y ∈ xs := by
  induction xs with
  | nil => exact fun seen h => ⟨h, by simp⟩
  | cons x xs ih =>
      intro seen h
      obtain ⟨hnodup, hmem⟩ := ih (addSeen seen x) (nodup_addSeen h x)
      refine ⟨hnodup, fun y => ?_⟩
      rw [List.foldl_cons, hmem, mem_addSeen, List.mem_cons]
      tauto

theorem nodup_firstSeen (xs : List κ) : (firstSeen xs).Nodup :=
  (foldl_addSeen xs [] List.nodup_nil).1

@[simp] theorem mem_firstSeen {xs : List κ} {y : κ} : y ∈ firstSeen xs ↔ y ∈ xs := by
  rw [firstSeen, (foldl_addSeen xs [] List.nodup_nil).2 y]
  simp

theorem firstSeen_concat (xs : List κ) (x : κ) :
    firstSeen (xs ++ [x]) = addSeen (firstSeen xs) x := by
  rw [firstSeen, List.foldl_append]
  rfl

theorem firstSeen_append_isPrefix (xs ys : List κ) : firstSeen xs <+: firstSeen (xs ++ ys) := by
  have hgen : ∀ seen : List κ, seen <+: ys.foldl addSeen seen := by
    induction ys with
    | nil => exact fun seen => seen.prefix_refl
    | cons y ys ih =>
        intro seen
        refine List.IsPrefix.trans ?_ (ih (addSeen seen y))
        unfold addSeen
        split
        · exact seen.prefix_refl
        · exact seen.prefix_append [y]
  rw [firstSeen, firstSeen, List.foldl_append]
  exact hgen _

/-- The keys of a map that one `set` per element fills. -/
theorem keys_foldl_set {ν : Type*} (key : α → κ)
    (insert : OrderedMap κ ν → α → OrderedMap κ ν)
    (hinsert : ∀ m x, (insert m x).keys = addSeen m.keys (key x)) (xs : List α) :
    (xs.foldl insert .empty).keys = firstSeen (xs.map key) := by
  have hgen : ∀ m : OrderedMap κ ν,
      (xs.foldl insert m).keys = (xs.map key).foldl addSeen m.keys := by
    induction xs with
    | nil => intro m; rfl
    | cons x xs ih =>
        intro m
        rw [List.foldl_cons, ih, hinsert, List.map_cons, List.foldl_cons]
  exact hgen .empty

/-! ## Groups -/

variable (g : α → κ)

/-- The elements of `xs`, one group after the other in the order `ts`. -/
def group (ts : List κ) (xs : List α) : List α :=
  ts.flatMap fun t => xs.filter (g · = t)

/-- Elements of the first group do not matter to the others. -/
private theorem group_filter_ne {t : κ} {ts : List κ} (ht : t ∉ ts) (xs : List α) :
    group g ts (xs.filter (g · ≠ t)) = group g ts xs := by
  refine List.flatMap_congr fun t' ht' => ?_
  rw [List.filter_filter]
  refine List.filter_congr fun x _ => ?_
  by_cases h : g x = t'
  · have hne : t' ≠ t := fun htt => ht (htt ▸ ht')
    simp [h, hne]
  · simp [h]

theorem group_cons {t : κ} {ts : List κ} (ht : t ∉ ts) (xs : List α) :
    group g (t :: ts) xs =
      xs.filter (g · = t) ++ group g ts (xs.filter (g · ≠ t)) := by
  rw [group_filter_ne g ht, group, List.flatMap_cons, group]

/-- Grouping by distinct keys that cover the list only moves its elements. -/
theorem group_perm {ts : List κ} (hts : ts.Nodup) :
    ∀ xs : List α, (∀ x ∈ xs, g x ∈ ts) → (group g ts xs).Perm xs := by
  induction ts with
  | nil =>
      intro xs hcover
      cases xs with
      | nil => exact List.Perm.refl _
      | cons x xs => exact absurd (hcover x (by simp)) (by simp)
  | cons t ts ih =>
      intro xs hcover
      rw [List.nodup_cons] at hts
      have hrest : (group g ts (xs.filter (g · ≠ t))).Perm (xs.filter (g · ≠ t)) := by
        refine ih hts.2 _ fun x hx => ?_
        rw [List.mem_filter, decide_eq_true_eq] at hx
        exact (List.mem_cons.1 (hcover x hx.1)).resolve_left hx.2
      rw [group_cons g hts.1]
      refine (hrest.append_left _).trans ?_
      simpa using List.filter_append_perm (g · = t) xs

/-- Elements with `p` before those without: the list splits in two. -/
private theorem eq_filter_append_filter {p : α → Prop} [DecidablePred p] {xs : List α}
    (h : xs.Pairwise fun x y => p y → p x) :
    xs = xs.filter (p ·) ++ xs.filter (¬ p ·) := by
  induction xs with
  | nil => rfl
  | cons x xs ih =>
      rw [List.pairwise_cons] at h
      by_cases hx : p x
      · simpa [hx] using ih h.2
      · have hnone : xs.filter (p ·) = [] := by
          rw [List.filter_eq_nil_iff]
          intro y hy
          simpa using fun hp => hx (h.1 y hy hp)
        have hrest := ih h.2
        rw [hnone, List.nil_append] at hrest
        rw [List.filter_cons_of_neg (by simpa using hx), hnone,
          List.filter_cons_of_pos (by simpa using hx), List.nil_append, ← hrest]

/-- Position of an element's key in the order `ts`. -/
def rank (ts : List κ) (x : α) : Nat := ts.idxOf (g x)

private theorem rank_cons_of_ne {t : κ} {ts : List κ} {x : α} (h : g x ≠ t) :
    rank g (t :: ts) x = rank g ts x + 1 := by
  rw [rank, List.idxOf_cons_ne ts (Ne.symm h), rank]

private theorem group_of_pairwise {ts : List κ} (hts : ts.Nodup) :
    ∀ xs : List α, (∀ x ∈ xs, g x ∈ ts) →
      xs.Pairwise (fun x y => rank g ts x ≤ rank g ts y) → group g ts xs = xs := by
  induction ts with
  | nil =>
      intro xs hcover _
      cases xs with
      | nil => rfl
      | cons x xs => exact absurd (hcover x (by simp)) (by simp)
  | cons t ts ih =>
      intro xs hcover hsorted
      rw [List.nodup_cons] at hts
      have hfirst : xs.Pairwise fun x y => g y = t → g x = t := by
        refine hsorted.imp fun {x y} hle hy => ?_
        by_contra hx
        have hzero : rank g (t :: ts) y = 0 := by rw [rank, hy, List.idxOf_cons_self]
        rw [rank_cons_of_ne g hx, hzero] at hle
        omega
      have hrest : group g ts (xs.filter (g · ≠ t)) = xs.filter (g · ≠ t) := by
        refine ih hts.2 _ (fun x hx => ?_) ?_
        · rw [List.mem_filter, decide_eq_true_eq] at hx
          exact (List.mem_cons.1 (hcover x hx.1)).resolve_left hx.2
        · refine (hsorted.filter _).imp_of_mem fun {x y} hx hy hle => ?_
          rw [List.mem_filter, decide_eq_true_eq] at hx hy
          rw [rank_cons_of_ne g hx.2, rank_cons_of_ne g hy.2] at hle
          omega
      rw [group_cons g hts.1, hrest]
      exact (eq_filter_append_filter hfirst).symm

private theorem pairwise_group {ts : List κ} (hts : ts.Nodup) :
    ∀ xs : List α,
      (group g ts xs).Pairwise (fun x y => rank g ts x ≤ rank g ts y) := by
  induction ts with
  | nil => intro xs; exact List.Pairwise.nil
  | cons t ts ih =>
      intro xs
      rw [List.nodup_cons] at hts
      rw [group_cons g hts.1, List.pairwise_append]
      have hzero : ∀ x ∈ xs.filter (g · = t), rank g (t :: ts) x = 0 := by
        intro x hx
        rw [List.mem_filter, decide_eq_true_eq] at hx
        rw [rank, hx.2, List.idxOf_cons_self]
      refine ⟨?_, ?_, ?_⟩
      · exact List.pairwise_of_forall_mem_list fun x hx y _ => by
          rw [hzero x hx]; exact Nat.zero_le _
      · refine (ih hts.2 _).imp_of_mem fun {x y} hx hy hle => ?_
        have hne : ∀ z ∈ group g ts (xs.filter (g · ≠ t)), g z ≠ t := by
          intro z hz
          obtain ⟨t', -, hz'⟩ := List.mem_flatMap.1 hz
          exact of_decide_eq_true (List.mem_filter.1 (List.mem_filter.1 hz').1).2
        rw [rank_cons_of_ne g (hne x hx), rank_cons_of_ne g (hne y hy)]
        omega
      · intro x hx y _
        rw [hzero x hx]
        exact Nat.zero_le _

/-- Grouping changes nothing exactly when the keys already come in order. -/
theorem group_eq_self_iff {ts : List κ} (hts : ts.Nodup) {xs : List α}
    (hcover : ∀ x ∈ xs, g x ∈ ts) :
    group g ts xs = xs ↔ xs.Pairwise (fun x y => rank g ts x ≤ rank g ts y) := by
  constructor
  · intro h
    have hsorted := pairwise_group g hts xs
    rwa [h] at hsorted
  · exact group_of_pairwise g hts xs hcover

end Ap3xSolana.Lib.Grouping
