import Mathlib.Algebra.BigOperators.Group.List.Basic
import Mathlib.Data.List.Nodup
import Mathlib.Data.List.Perm.Basic

/-!
# Insertion-ordered maps

A map that lists its entries in the order in which their keys were first set, as
a JavaScript `Map` does.  The distinctness of the keys is part of the structure.
`get?_set` and `keys_set` are the interface.
-/

namespace Ap3xSolana.Lib

structure OrderedMap (κ ν : Type*) where
  entries : List (κ × ν)
  nodup : (entries.map Prod.fst).Nodup

namespace OrderedMap

variable {κ ν : Type*}

def empty : OrderedMap κ ν := ⟨[], List.nodup_nil⟩

/-- The keys, in the order in which they were first set. -/
def keys (m : OrderedMap κ ν) : List κ := m.entries.map Prod.fst

def values (m : OrderedMap κ ν) : List ν := m.entries.map Prod.snd

theorem nodup_keys (m : OrderedMap κ ν) : m.keys.Nodup := m.nodup

@[simp] theorem keys_empty : (empty : OrderedMap κ ν).keys = [] := rfl

variable [DecidableEq κ]

def find (k : κ) : List (κ × ν) → Option ν
  | [] => none
  | e :: es => if e.1 = k then some e.2 else find k es

/-- Overwrites the value of a known key in place, appends a new key. -/
def setEntries (k : κ) (v : ν) : List (κ × ν) → List (κ × ν)
  | [] => [(k, v)]
  | e :: es => if e.1 = k then (k, v) :: es else e :: setEntries k v es

theorem map_fst_setEntries (k : κ) (v : ν) (es : List (κ × ν)) :
    (setEntries k v es).map Prod.fst =
      if k ∈ es.map Prod.fst then es.map Prod.fst else es.map Prod.fst ++ [k] := by
  induction es with
  | nil => simp [setEntries]
  | cons e es ih =>
      by_cases h : e.1 = k
      · simp [setEntries, h]
      · have hk : k ≠ e.1 := fun hk => h hk.symm
        simp only [setEntries, h, if_false, List.map_cons, ih, List.mem_cons, hk,
          false_or]
        split <;> rfl

theorem find_setEntries (k : κ) (v : ν) (k' : κ) (es : List (κ × ν)) :
    find k' (setEntries k v es) = if k' = k then some v else find k' es := by
  induction es with
  | nil => simp [setEntries, find, eq_comm]
  | cons e es ih =>
      by_cases hk : k' = k
      · by_cases h : e.1 = k
        · simp [setEntries, h, find, hk]
        · simpa [setEntries, h, find, hk] using ih
      · by_cases h : e.1 = k
        · have hne : ¬ k = k' := fun hkk => hk hkk.symm
          simp [setEntries, h, find, hk, hne]
        · simp only [setEntries, h, if_false, find, ih, hk]

def get? (m : OrderedMap κ ν) (k : κ) : Option ν := find k m.entries

def set (m : OrderedMap κ ν) (k : κ) (v : ν) : OrderedMap κ ν where
  entries := setEntries k v m.entries
  nodup := by
    rw [map_fst_setEntries]
    split
    · exact m.nodup
    · rename_i h
      rw [← List.concat_eq_append]
      exact m.nodup.concat h

/-- The map that sets the entries one after the other. -/
def ofEntries (es : List (κ × ν)) : OrderedMap κ ν :=
  es.foldl (fun m e => m.set e.1 e.2) empty

/-- The map without `k`; the order of the others stays. -/
def erase (m : OrderedMap κ ν) (k : κ) : OrderedMap κ ν where
  entries := m.entries.filter fun e => e.1 ≠ k
  nodup := m.nodup.sublist ((List.filter_sublist ..).map Prod.fst)

@[simp] theorem get?_empty (k : κ) : (empty : OrderedMap κ ν).get? k = none := rfl

theorem keys_set (m : OrderedMap κ ν) (k : κ) (v : ν) :
    (m.set k v).keys = if k ∈ m.keys then m.keys else m.keys ++ [k] :=
  map_fst_setEntries k v m.entries

theorem get?_set (m : OrderedMap κ ν) (k : κ) (v : ν) (k' : κ) :
    (m.set k v).get? k' = if k' = k then some v else m.get? k' :=
  find_setEntries k v k' m.entries

private theorem find_filter_ne (k k' : κ) (es : List (κ × ν)) :
    find k' (es.filter fun e => e.1 ≠ k) = if k' = k then none else find k' es := by
  induction es with
  | nil => simp [find]
  | cons e es ih =>
      by_cases h : e.1 = k
      · simp only [List.filter_cons, h, ne_eq, not_true_eq_false, decide_false,
          Bool.false_eq_true, if_false, ih, find]
        by_cases hk : k' = k
        · simp [hk]
        · have hne : ¬ k = k' := fun hkk => hk hkk.symm
          simp [hk, hne]
      · simp only [List.filter_cons, h, ne_eq, not_false_eq_true, decide_true, if_true,
          find, ih]
        by_cases hk : k' = k
        · simp [hk, h]
        · simp [hk]

theorem get?_erase (m : OrderedMap κ ν) (k k' : κ) :
    (m.erase k).get? k' = if k' = k then none else m.get? k' :=
  find_filter_ne k k' m.entries

private theorem find_eq_none {k : κ} {es : List (κ × ν)} :
    find k es = none ↔ k ∉ es.map Prod.fst := by
  induction es with
  | nil => simp [find]
  | cons e es ih =>
      by_cases h : e.1 = k
      · simp [find, h]
      · have hk : k ≠ e.1 := fun hk => h hk.symm
        simp only [find, h, if_false, List.map_cons, List.mem_cons, hk, false_or, ih]

theorem get?_eq_none {m : OrderedMap κ ν} {k : κ} : m.get? k = none ↔ k ∉ m.keys :=
  find_eq_none

/-- After one `set` per element a key has what the last element with that key set. -/
theorem get?_foldl_set {α : Type*} (key : α → κ) (val : α → ν) (xs : List α) (k : κ) :
    ∀ m : OrderedMap κ ν, (xs.foldl (fun m x => m.set (key x) (val x)) m).get? k =
      ((xs.filter (key · = k)).getLast?.map val).or (m.get? k) := by
  induction xs with
  | nil => exact fun m => rfl
  | cons x xs ih =>
      intro m
      rw [List.foldl_cons, ih, get?_set]
      by_cases hx : key x = k
      · rw [List.filter_cons_of_pos (by simpa using hx), List.getLast?_cons, if_pos hx.symm]
        cases (xs.filter (key · = k)).getLast? <;> rfl
      · rw [List.filter_cons_of_neg (by simpa using hx), if_neg (Ne.symm hx)]

/-- A key has one entry or none. -/
theorem filter_entries (m : OrderedMap κ ν) (k : κ) :
    m.entries.filter (·.1 = k) = ((m.get? k).map fun v => (k, v)).toList := by
  obtain ⟨es, hes⟩ := m
  simp only [get?]
  induction es with
  | nil => rfl
  | cons e es ih =>
      rw [List.map_cons, List.nodup_cons] at hes
      by_cases he : e.1 = k
      · have hrest : es.filter (·.1 = k) = [] := by
          rw [List.filter_eq_nil_iff]
          intro e' he' hk
          exact hes.1 (he.trans (of_decide_eq_true hk).symm ▸ List.mem_map_of_mem he')
        rw [List.filter_cons_of_pos (by simpa using he), hrest, find, if_pos he, ← he]
        rfl
      · rw [List.filter_cons_of_neg (by simpa using he), find, if_neg he]
        exact ih hes.2

private theorem setEntries_of_not_mem {k : κ} (v : ν) {es : List (κ × ν)}
    (h : k ∉ es.map Prod.fst) : setEntries k v es = es ++ [(k, v)] := by
  induction es with
  | nil => rfl
  | cons e es ih =>
      rw [List.map_cons, List.mem_cons, not_or] at h
      rw [setEntries, if_neg (Ne.symm h.1), ih h.2, List.cons_append]

/-- A new key goes to the end. -/
theorem entries_set_of_not_mem {m : OrderedMap κ ν} {k : κ} {v : ν} (h : k ∉ m.keys) :
    (m.set k v).entries = m.entries ++ [(k, v)] :=
  setEntries_of_not_mem v h

private theorem entries_foldl_set (es : List (κ × ν)) :
    ∀ m : OrderedMap κ ν, ((m.entries ++ es).map Prod.fst).Nodup →
      (es.foldl (fun m e => m.set e.1 e.2) m).entries = m.entries ++ es := by
  induction es with
  | nil => exact fun m _ => (List.append_nil _).symm
  | cons e es ih =>
      intro m h
      have hnew : e.1 ∉ m.entries.map Prod.fst := by
        rw [List.map_append] at h
        intro hmem
        exact List.disjoint_of_nodup_append h hmem (by simp)
      have hset : (m.set e.1 e.2).entries = m.entries ++ [e] :=
        entries_set_of_not_mem hnew
      rw [List.foldl_cons, ih (m.set e.1 e.2), hset, List.append_assoc]
      · rfl
      · rw [hset, List.append_assoc]
        exact h

theorem ofEntries_entries (m : OrderedMap κ ν) : ofEntries m.entries = m := by
  have h := entries_foldl_set m.entries empty m.nodup
  obtain ⟨es, hes⟩ := m
  rw [ofEntries]
  generalize es.foldl (fun m e => m.set e.1 e.2) empty = m' at h
  obtain ⟨es', _⟩ := m'
  subst h
  rfl

/-- A value is what `get?` gives for some key. -/
theorem exists_get?_of_mem_values {m : OrderedMap κ ν} {v : ν} (h : v ∈ m.values) :
    ∃ k, m.get? k = some v := by
  obtain ⟨es, hes⟩ := m
  simp only [values, get?] at h ⊢
  induction es with
  | nil => cases h
  | cons e es ih =>
      rw [List.map_cons, List.nodup_cons] at hes
      rcases List.mem_cons.1 h with rfl | h
      · exact ⟨e.1, if_pos rfl⟩
      · obtain ⟨k, hk⟩ := ih hes.2 h
        refine ⟨k, ?_⟩
        have hne : ¬ e.1 = k := by
          intro heq
          rw [heq] at hes
          rw [find_eq_none.2 hes.1] at hk
          cases hk
        rw [find, if_neg hne, hk]

theorem mem_values_of_get? {m : OrderedMap κ ν} {k : κ} {v : ν}
    (h : m.get? k = some v) : v ∈ m.values := by
  obtain ⟨es, hes⟩ := m
  simp only [values, get?] at h ⊢
  clear hes
  induction es with
  | nil => cases h
  | cons e es ih =>
      rw [find] at h
      rw [List.map_cons, List.mem_cons]
      split at h
      · exact .inl (Option.some.inj h).symm
      · exact .inr (ih h)

/-- The values, from what `get?` gives for the keys. -/
theorem values_eq_map {m : OrderedMap κ ν} {f : κ → ν}
    (h : ∀ k ∈ m.keys, m.get? k = some (f k)) : m.values = m.keys.map f := by
  obtain ⟨es, hes⟩ := m
  simp only [values, keys, get?] at h ⊢
  induction es with
  | nil => rfl
  | cons e es ih =>
      rw [List.map_cons, List.nodup_cons] at hes
      have hhead : e.2 = f e.1 := by
        simpa [find] using h e.1 (by simp)
      have hrest : ∀ k ∈ es.map Prod.fst, find k es = some (f k) := by
        intro k hk
        have hne : ¬ e.1 = k := by
          rintro rfl
          exact hes.1 hk
        simpa [find, hne] using h k (by simp only [List.map_cons, List.mem_cons, hk, or_true])
      rw [List.map_cons, List.map_cons, List.map_cons, hhead, ih hes.2 hrest]

private theorem flatMap_setEntries (k : κ) (v : ν) {β : Type*} (f : ν → List β)
    (es : List (κ × ν)) :
    (((setEntries k v es).map Prod.snd).flatMap f ++ ((find k es).map f).getD []).Perm
      ((es.map Prod.snd).flatMap f ++ f v) := by
  induction es with
  | nil => simp [setEntries, find]
  | cons e es ih =>
      by_cases h : e.1 = k
      · simp only [setEntries, find, h, if_true, List.map_cons, List.flatMap_cons,
          Option.map_some, Option.getD_some]
        refine List.perm_append_comm.trans ?_
        rw [List.append_assoc]
        exact List.Perm.append_left _ List.perm_append_comm
      · simp only [setEntries, find, h, if_false, List.map_cons, List.flatMap_cons,
          List.append_assoc]
        exact List.Perm.append_left _ ih

/-- What setting a value does to everything the values list. -/
theorem values_set_perm (m : OrderedMap κ ν) (k : κ) (v : ν) {β : Type*}
    (f : ν → List β) :
    ((m.set k v).values.flatMap f ++ ((m.get? k).map f).getD []).Perm
      (m.values.flatMap f ++ f v) :=
  flatMap_setEntries k v f m.entries

/-- What setting a value does to the sum of the values. -/
theorem sum_values_set [AddCommMonoid ν] (m : OrderedMap κ ν) (k : κ) (v : ν) :
    (m.set k v).values.sum + (m.get? k).getD 0 = m.values.sum + v := by
  have hperm := (m.values_set_perm k v fun x => [x]).sum_eq
  rw [List.sum_append, List.sum_append, List.flatMap_singleton', List.flatMap_singleton',
    List.sum_singleton] at hperm
  rw [← hperm]
  cases m.get? k <;> simp

private theorem flatMap_filter_ne (k : κ) {β : Type*} (f : ν → List β)
    {es : List (κ × ν)} (hes : (es.map Prod.fst).Nodup) :
    (((es.filter fun e => e.1 ≠ k).map Prod.snd).flatMap f ++
      ((find k es).map f).getD []).Perm ((es.map Prod.snd).flatMap f) := by
  induction es with
  | nil => simp [find]
  | cons e es ih =>
      rw [List.map_cons, List.nodup_cons] at hes
      by_cases h : e.1 = k
      · have hrest : es.filter (fun e => e.1 ≠ k) = es := by
          refine List.filter_eq_self.2 fun e' he' => ?_
          have hne : e'.1 ≠ k := fun hk =>
            hes.1 (h.trans hk.symm ▸ List.mem_map_of_mem he')
          simpa using hne
        rw [List.filter_cons_of_neg (by simpa using h), hrest]
        simp only [find, h, if_true, List.map_cons, List.flatMap_cons, Option.map_some,
          Option.getD_some]
        exact List.perm_append_comm
      · rw [List.filter_cons_of_pos (by simpa using h)]
        simp only [find, h, if_false, List.map_cons, List.flatMap_cons, List.append_assoc]
        exact List.Perm.append_left _ (ih hes.2)

/-- What erasing a key does to everything the values list. -/
theorem values_erase_perm (m : OrderedMap κ ν) (k : κ) {β : Type*} (f : ν → List β) :
    ((m.erase k).values.flatMap f ++ ((m.get? k).map f).getD []).Perm
      (m.values.flatMap f) :=
  flatMap_filter_ne k f m.nodup

end OrderedMap

end Ap3xSolana.Lib
