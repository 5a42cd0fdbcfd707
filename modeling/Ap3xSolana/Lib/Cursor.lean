import Mathlib.Data.List.Forall2

/-!
# Reading a list from a position

`At xs off rest` says that reading `xs` from offset `off` finds `rest` up to the
end.  A reader that works with offsets is specified by what it does where the
list continues with its input: the element, the slice and the next position.
`Part xs a part b` says that `part` stands in `xs` from `a` up to `b`; parts in a row
add up, and a part from end to end is the list.
-/

namespace Ap3xSolana.Lib.Cursor

variable {α : Type*}

/-- `xs.slice(a, b)`. -/
def slice (xs : List α) (a b : Nat) : List α := (xs.drop a).take (b - a)

/-- From offset `off` on, `xs` is exactly `rest`. -/
def At (xs : List α) (off : Nat) (rest : List α) : Prop :=
  off ≤ xs.length ∧ xs.drop off = rest

theorem At.start (xs : List α) : At xs 0 xs := ⟨Nat.zero_le _, rfl⟩

theorem At.length {xs rest : List α} {off : Nat} (h : At xs off rest) :
    off + rest.length = xs.length := by
  have hdrop := congrArg List.length h.2
  rw [List.length_drop] at hdrop
  have := h.1
  omega

theorem At.next {xs ys rest : List α} {off : Nat} (h : At xs off (ys ++ rest)) :
    At xs (off + ys.length) rest := by
  have hlen := h.length
  rw [List.length_append] at hlen
  refine ⟨by omega, ?_⟩
  rw [← List.drop_drop, h.2, List.drop_left]

theorem At.tail {xs rest : List α} {off : Nat} {x : α} (h : At xs off (x :: rest)) :
    At xs (off + 1) rest := by
  rw [← List.singleton_append] at h
  exact h.next

theorem At.slice {xs ys rest : List α} {off : Nat} (h : At xs off (ys ++ rest)) :
    slice xs off (off + ys.length) = ys := by
  rw [Cursor.slice, h.2, Nat.add_sub_cancel_left, List.take_left]

theorem At.get {xs rest : List α} {off : Nat} {x : α} (h : At xs off (x :: rest)) :
    xs[off]? = some x := by
  have hget := congrArg (·[0]?) h.2
  simpa using hget

/-- The prefix that precedes the position. -/
theorem At.split {xs rest : List α} {off : Nat} (h : At xs off rest) :
    ∃ pre, xs = pre ++ rest ∧ pre.length = off :=
  ⟨xs.take off, by rw [← h.2, List.take_append_drop],
    List.length_take_of_le h.1⟩

/-! ## Parts -/

/-- From offset `a` up to offset `b`, `xs` is exactly `part`. -/
def Part (xs : List α) (a : Nat) (part : List α) (b : Nat) : Prop :=
  ∃ rest, At xs a (part ++ rest) ∧ b = a + part.length

theorem Part.nil {xs : List α} {a : Nat} (h : a ≤ xs.length) : Part xs a [] a :=
  ⟨xs.drop a, ⟨h, rfl⟩, rfl⟩

theorem Part.append {xs part part' : List α} {a b c : Nat} (h : Part xs a part b)
    (h' : Part xs b part' c) : Part xs a (part ++ part') c := by
  obtain ⟨rest, hat, rfl⟩ := h
  obtain ⟨rest', hat', rfl⟩ := h'
  have hrest : rest = part' ++ rest' := hat.next.2.symm.trans hat'.2
  refine ⟨rest', ?_, by rw [List.length_append, Nat.add_assoc]⟩
  rwa [List.append_assoc, ← hrest]

theorem Part.le {xs part : List α} {a b : Nat} (h : Part xs a part b) : b ≤ xs.length := by
  obtain ⟨rest, hat, rfl⟩ := h
  exact hat.next.1

theorem Part.whole {xs part : List α} (h : Part xs 0 part xs.length) : xs = part := by
  obtain ⟨rest, hat, hlen⟩ := h
  have heq : xs = part ++ rest := hat.2
  have hrest : rest.length = 0 := by
    have := congrArg List.length heq
    rw [List.length_append] at this
    omega
  rw [heq, List.length_eq_zero_iff.1 hrest, List.append_nil]

theorem length_slice {xs : List α} {a b : Nat} (hb : b ≤ xs.length) :
    (Cursor.slice xs a b).length = b - a := by
  rw [Cursor.slice, List.length_take, List.length_drop]
  omega

theorem Part.slice {xs : List α} {a b : Nat} (h : a ≤ b) (hb : b ≤ xs.length) :
    Part xs a (Cursor.slice xs a b) b := by
  refine ⟨(xs.drop a).drop (b - a), ⟨Nat.le_trans h hb, ?_⟩, ?_⟩
  · exact (List.take_append_drop ..).symm
  · rw [length_slice hb]
    omega

theorem Part.single {xs : List α} {a : Nat} {x : α} (h : xs[a]? = some x) :
    Part xs a [x] (a + 1) := by
  obtain ⟨hlt, rfl⟩ := List.getElem?_eq_some_iff.1 h
  exact ⟨xs.drop (a + 1), ⟨Nat.le_of_lt hlt, List.drop_eq_getElem_cons hlt⟩, rfl⟩

/-- A list of records of one size, cut at the record boundaries. -/
theorem At.slices {xs rest : List α} {size : Nat} {parts : List (List α)} :
    ∀ {a : Nat}, (∀ part ∈ parts, part.length = size) → At xs a (parts.flatten ++ rest) →
    (List.range parts.length).map
      (fun i => Cursor.slice xs (a + i * size) (a + (i + 1) * size)) = parts := by
  induction parts with
  | nil => exact fun _ _ => rfl
  | cons part parts ih =>
      intro a hsize h
      obtain ⟨hpart, hparts⟩ := List.forall_mem_cons.1 hsize
      rw [List.flatten_cons, List.append_assoc] at h
      have hslice := h.slice
      have hrest := ih hparts h.next
      rw [hpart] at hslice hrest
      rw [List.length_cons, List.range_succ_eq_map, List.map_cons, List.map_map, Nat.zero_mul,
        Nat.zero_add, Nat.one_mul, Nat.add_zero, hslice]
      refine congrArg (part :: ·) (Eq.trans (List.map_congr_left fun i _ => ?_) hrest)
      have hstart : a + (i + 1) * size = a + size + i * size := by
        rw [Nat.succ_mul, Nat.add_comm (i * size), Nat.add_assoc]
      have hend : a + (i + 1 + 1) * size = a + size + (i + 1) * size := by
        rw [Nat.succ_mul (i + 1), Nat.add_comm ((i + 1) * size), Nat.add_assoc]
      show Cursor.slice xs (a + (i + 1) * size) (a + (i + 1 + 1) * size) = _
      rw [hstart, hend]

/-- Records of one size in a row. -/
theorem Part.records {β : Type*} {xs : List α} {a size : Nat} {R : β → List α → Prop}
    (count : Nat) :
    ∀ (s : Nat) (ys : List β), a + s * size ≤ xs.length →
    List.Forall₂ (fun i y => ∃ enc, R y enc ∧
      Part xs (a + i * size) enc (a + (i + 1) * size)) (List.range' s count) ys →
    ∃ encs, List.Forall₂ R ys encs ∧
      Part xs (a + s * size) encs.flatten (a + (s + count) * size) := by
  induction count with
  | zero =>
      intro s ys hle h
      cases h
      exact ⟨[], .nil, Part.nil hle⟩
  | succ count ih =>
      intro s ys hle h
      rw [List.range'_succ] at h
      cases h with
      | cons hy hys =>
          obtain ⟨enc, henc, hpart⟩ := hy
          obtain ⟨encs, hencs, hparts⟩ := ih (s + 1) _ hpart.le hys
          refine ⟨enc :: encs, .cons henc hencs, ?_⟩
          rw [Nat.add_comm count, ← Nat.add_assoc]
          exact hpart.append hparts

end Ap3xSolana.Lib.Cursor
