import Mathlib.Data.List.Basic

/-!
# Concatenations that can be taken apart

Two lists that agree are made of the same parts if a separator that no part contains
stands between them (`intercalate_inj`), or if every part is the code word of one element
and no code word begins another (`flatMap_inj`).
-/

namespace Ap3xSolana.Lib.Separated

variable {α β : Type*}

/-- The first separator ends the first part. -/
theorem append_cons_inj_left {x : α} {as bs cs ds : List α} (ha : x ∉ as) (hc : x ∉ cs)
    (h : as ++ x :: bs = cs ++ x :: ds) : as = cs ∧ bs = ds := by
  induction as generalizing cs with
  | nil =>
      cases cs with
      | nil => exact ⟨rfl, (List.cons.inj h).2⟩
      | cons c cs => exact absurd ((List.cons.inj h).1 ▸ List.mem_cons_self) hc
  | cons a as ih =>
      cases cs with
      | nil => exact absurd ((List.cons.inj h).1 ▸ List.mem_cons_self) ha
      | cons c cs =>
          have hinj := List.cons.inj h
          have hrest := ih (fun hm => ha (List.mem_cons_of_mem a hm))
            (fun hm => hc (List.mem_cons_of_mem c hm)) hinj.2
          exact ⟨by rw [hinj.1, hrest.1], hrest.2⟩

/-- The last separator begins the last part. -/
theorem append_cons_inj_right {x : α} {as bs cs ds : List α} (hb : x ∉ bs) (hd : x ∉ ds)
    (h : as ++ x :: bs = cs ++ x :: ds) : as = cs ∧ bs = ds := by
  have hreverse : bs.reverse ++ x :: as.reverse = ds.reverse ++ x :: cs.reverse := by
    have := congrArg List.reverse h
    simpa using this
  have hinj := append_cons_inj_left (fun hm => hb (List.mem_reverse.1 hm))
    (fun hm => hd (List.mem_reverse.1 hm)) hreverse
  exact ⟨List.reverse_injective hinj.2, List.reverse_injective hinj.1⟩

theorem intercalate_inj {x : α} {xs ys : List (List α)} (hlength : xs.length = ys.length)
    (hxs : ∀ part ∈ xs, x ∉ part) (hys : ∀ part ∈ ys, x ∉ part)
    (h : [x].intercalate xs = [x].intercalate ys) : xs = ys := by
  induction xs generalizing ys with
  | nil => exact (List.length_eq_zero_iff.1 hlength.symm).symm
  | cons p xs ih =>
      cases ys with
      | nil => cases hlength
      | cons q ys =>
          have hlength' : xs.length = ys.length := Nat.succ.inj hlength
          cases xs with
          | nil =>
              obtain rfl := List.length_eq_zero_iff.1 hlength'.symm
              simpa using h
          | cons p' xs =>
              cases ys with
              | nil => cases hlength'
              | cons q' ys =>
                  rw [List.intercalate_cons_cons, List.intercalate_cons_cons, List.append_assoc,
                    List.append_assoc, List.singleton_append, List.singleton_append] at h
                  have hinj := append_cons_inj_left (hxs p List.mem_cons_self)
                    (hys q List.mem_cons_self) h
                  have hrest := ih hlength' (fun r hr => hxs r (List.mem_cons_of_mem p hr))
                    (fun r hr => hys r (List.mem_cons_of_mem q hr)) hinj.2
                  rw [hinj.1, hrest]

/-- A code none of whose words begins another. -/
theorem flatMap_inj {f : α → List β} (hne : ∀ a, f a ≠ [])
    (hcode : ∀ a b s t, f a ++ s = f b ++ t → a = b) {xs ys : List α}
    (h : xs.flatMap f = ys.flatMap f) : xs = ys := by
  induction xs generalizing ys with
  | nil =>
      cases ys with
      | nil => rfl
      | cons y ys =>
          rw [List.flatMap_nil, List.flatMap_cons] at h
          exact absurd (List.append_eq_nil_iff.1 h.symm).1 (hne y)
  | cons x xs ih =>
      cases ys with
      | nil =>
          rw [List.flatMap_nil, List.flatMap_cons] at h
          exact absurd (List.append_eq_nil_iff.1 h).1 (hne x)
      | cons y ys =>
          rw [List.flatMap_cons, List.flatMap_cons] at h
          obtain rfl := hcode x y _ _ h
          rw [ih (List.append_cancel_left h)]

end Ap3xSolana.Lib.Separated
