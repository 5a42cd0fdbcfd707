import Ap3xSolana.Lib.Cursor

/-!
# Readers

A reader takes its input apart from a position on, or throws.  `Reads r part b` is its
specification where the input continues with `part`: it gives `b` and stands behind `part`
afterwards, whatever follows.  The parts of readers in a row add up (`Reads.bind`).
`Starves` says what happens where the input ends too early; it follows from `Reads` for a
reader that more input does not change (`Stable`).
-/

namespace Ap3xSolana.Lib.Reading

open Cursor

structure Input (α : Type) where
  buf : List α
  offset : Nat
  deriving DecidableEq, Repr

abbrev Reader (ε α : Type) := StateT (Input α) (Except ε)

variable {ε α β γ : Type}

/-- The next `n` elements, or `eof`. -/
def take (eof : ε) (n : Nat) : Reader ε α (List α) := fun c =>
  if c.buf.length < c.offset + n then .error eof
  else .ok (slice c.buf c.offset (c.offset + n), { c with offset := c.offset + n })

/-- `n` times the same reader. -/
def times (r : Reader ε α β) : Nat → Reader ε α (List β)
  | 0 => pure []
  | n + 1 => do
      let b ← r
      let bs ← times r n
      return b :: bs

theorem bind_apply (r : Reader ε α β) (f : β → Reader ε α γ) (c : Input α) :
    (r >>= f) c = (r c).bind fun p => f p.1 p.2 := rfl

/-- Where the input continues with `part`, the reader consumes exactly that and gives `b`. -/
def Reads (r : Reader ε α β) (part : List α) (b : β) : Prop :=
  ∀ buf off rest, At buf off (part ++ rest) → r ⟨buf, off⟩ = .ok (b, ⟨buf, off + part.length⟩)

theorem Reads.run {r : Reader ε α β} {part : List α} {b : β} (h : Reads r part b)
    (rest : List α) : r ⟨part ++ rest, 0⟩ = .ok (b, ⟨part ++ rest, part.length⟩) := by
  have hrun := h (part ++ rest) 0 rest (At.start _)
  rwa [Nat.zero_add] at hrun

theorem Reads.pure (b : β) : Reads (Pure.pure b : Reader ε α β) [] b :=
  fun _ _ _ _ => rfl

theorem Reads.bind {r : Reader ε α β} {f : β → Reader ε α γ} {part part' : List α} {b : β}
    {c : γ} (h : Reads r part b) (h' : Reads (f b) part' c) :
    Reads (r >>= f) (part ++ part') c := by
  intro buf off rest hat
  rw [List.append_assoc] at hat
  have hfirst := h buf off (part' ++ rest) hat
  have hsecond := h' buf (off + part.length) rest hat.next
  rw [bind_apply, hfirst, List.length_append, ← Nat.add_assoc]
  exact hsecond

/-- A last step that reads nothing. -/
theorem Reads.map {r : Reader ε α β} {f : β → γ} {part : List α} {b : β} (h : Reads r part b) :
    Reads (r >>= fun b => Pure.pure (f b)) part (f b) := by
  have hmap := Reads.bind (f := fun b => Pure.pure (f b)) h (Reads.pure (f b))
  rwa [List.append_nil] at hmap

theorem Reads.take (eof : ε) {part : List α} {n : Nat} (h : part.length = n) :
    Reads (Reading.take eof n) part part := by
  intro buf off rest hat
  have hlen := hat.length
  rw [List.length_append] at hlen
  have hslice := hat.slice
  rw [h] at hslice
  show (if buf.length < off + n then _ else _) = _
  rw [if_neg (by omega), hslice, h]

theorem Reads.times {r : Reader ε α β} {parts : List (List α)} {bs : List β}
    (h : List.Forall₂ (Reads r) parts bs) :
    Reads (Reading.times r bs.length) parts.flatten bs := by
  induction h with
  | nil => exact Reads.pure []
  | cons hb _ ih => exact hb.bind ih.map

/-! ## Truncated input -/

/-- Where the input ends inside `part`, the reader throws an error of the kind `P`. -/
def Starves (P : ε → Prop) (r : Reader ε α β) (part : List α) : Prop :=
  ∀ buf off seen, seen <+: part → seen ≠ part → At buf off seen → ∃ e, r ⟨buf, off⟩ = .error e ∧ P e

variable {P : ε → Prop}

theorem Starves.nil (r : Reader ε α β) : Starves P r [] :=
  fun _ _ _ hpfx hne _ => absurd (List.prefix_nil.1 hpfx) hne

/-- The input ends inside the first part, or the first reader gets through. -/
theorem Starves.bind {r : Reader ε α β} {f : β → Reader ε α γ} {part part' : List α} {b : β}
    (hreads : Reads r part b) (h : Starves P r part) (h' : Starves P (f b) part') :
    Starves P (r >>= f) (part ++ part') := by
  intro buf off seen hpfx hne hat
  rcases List.prefix_or_prefix_of_prefix hpfx (List.prefix_append part part') with
    hfirst | ⟨seen', rfl⟩
  · by_cases hall : seen = part
    · rw [hall] at hat hne
      have hat' : At buf off (part ++ []) := by rwa [List.append_nil]
      have hpart' : [] ≠ part' := fun heq => hne (by rw [← heq, List.append_nil])
      obtain ⟨e, he, hP⟩ := h' buf (off + part.length) [] List.nil_prefix hpart' hat'.next
      refine ⟨e, ?_, hP⟩
      rw [bind_apply, hreads buf off [] hat']
      exact he
    · obtain ⟨e, he, hP⟩ := h buf off seen hfirst hall hat
      refine ⟨e, ?_, hP⟩
      rw [bind_apply, he]
      rfl
  · have hseen' : seen' <+: part' := (List.prefix_append_right_inj part).1 hpfx
    have hne' : seen' ≠ part' := fun heq => hne (by rw [heq])
    obtain ⟨e, he, hP⟩ := h' buf (off + part.length) seen' hseen' hne' hat.next
    refine ⟨e, ?_, hP⟩
    rw [bind_apply, hreads buf off seen' hat]
    exact he

theorem Starves.map {r : Reader ε α β} {f : β → γ} {part : List α} {b : β}
    (hreads : Reads r part b) (h : Starves P r part) :
    Starves P (r >>= fun b => Pure.pure (f b)) part := by
  have hmap := Starves.bind (f := fun b => Pure.pure (f b)) hreads h
    (Starves.nil (Pure.pure (f b)))
  rwa [List.append_nil] at hmap

theorem Starves.times {r : Reader ε α β} {parts : List (List α)} {bs : List β}
    (hreads : List.Forall₂ (Reads r) parts bs) (h : ∀ part ∈ parts, Starves P r part) :
    Starves P (Reading.times r bs.length) parts.flatten := by
  induction hreads with
  | nil => exact Starves.nil _
  | cons hb hrest ih =>
      rw [List.flatten_cons, List.length_cons]
      apply Starves.bind hb (h _ List.mem_cons_self)
      have hparts := ih fun part hpart => h part (List.mem_cons_of_mem _ hpart)
      exact Starves.map (Reads.times hrest) hparts

/-! ## Longer input -/

/-- More input at the end changes nothing, unless the reader ran out of it: it then throws
an error of the kind `P`. -/
def Stable (P : ε → Prop) (r : Reader ε α β) : Prop :=
  ∀ buf off tail, off ≤ buf.length →
    (∃ b next, r ⟨buf, off⟩ = .ok (b, ⟨buf, next⟩) ∧ next ≤ buf.length ∧
      r ⟨buf ++ tail, off⟩ = .ok (b, ⟨buf ++ tail, next⟩)) ∨
    ∃ e, r ⟨buf, off⟩ = .error e ∧ (P e ∨ r ⟨buf ++ tail, off⟩ = .error e)

theorem Stable.pure (b : β) : Stable P (Pure.pure b : Reader ε α β) :=
  fun _ off _ hoff => .inl ⟨b, off, rfl, hoff, rfl⟩

theorem Stable.throw (e : ε) : Stable P (throw e : Reader ε α β) :=
  fun _ _ _ _ => .inr ⟨e, rfl, .inr rfl⟩

theorem Stable.take {eof : ε} (heof : P eof) (n : Nat) :
    Stable P (Reading.take eof n : Reader ε α (List α)) := by
  intro buf off tail hoff
  by_cases hshort : buf.length < off + n
  · exact .inr ⟨eof, if_pos hshort, .inl heof⟩
  · refine .inl ⟨_, off + n, if_neg hshort, by omega, ?_⟩
    have hslice : slice (buf ++ tail) off (off + n) = slice buf off (off + n) := by
      rw [slice, slice, List.drop_append_of_le_length hoff, List.take_append_of_le_length]
      rw [List.length_drop]
      omega
    have hlong : ¬ (buf ++ tail).length < off + n := by
      rw [List.length_append]
      omega
    rw [← hslice]
    exact if_neg hlong

theorem Stable.bind {r : Reader ε α β} {f : β → Reader ε α γ} (h : Stable P r)
    (h' : ∀ b, Stable P (f b)) : Stable P (r >>= f) := by
  intro buf off tail hoff
  simp only [bind_apply]
  rcases h buf off tail hoff with ⟨b, mid, hshort, hmid, hlong⟩ | ⟨e, hshort, hlong⟩
  · rw [hshort, hlong]
    exact h' b buf mid tail hmid
  · rw [hshort]
    refine .inr ⟨e, rfl, hlong.imp_right fun hlong => ?_⟩
    rw [hlong]
    rfl

theorem Stable.map {r : Reader ε α β} {f : β → γ} (h : Stable P r) :
    Stable P (r >>= fun b => Pure.pure (f b)) := h.bind fun b => Stable.pure (f b)

theorem Stable.times {r : Reader ε α β} (h : Stable P r) :
    ∀ n, Stable P (Reading.times r n)
  | 0 => Stable.pure []
  | n + 1 => h.bind fun _ => (Stable.times h n).map

/-- A reader that has read `part` and that more input does not change needed all of it. -/
theorem Stable.starves {r : Reader ε α β} {part : List α} {b : β} (h : Stable P r)
    (hreads : Reads r part b) : Starves P r part := by
  rintro buf off seen ⟨tail, rfl⟩ hne hat
  obtain ⟨pre, rfl, rfl⟩ := hat.split
  have hat' : At (pre ++ seen ++ tail) pre.length (seen ++ tail ++ []) := by
    rw [List.append_nil, List.append_assoc]
    exact ⟨by rw [List.length_append]; exact Nat.le_add_right _ _, List.drop_left⟩
  have hlong := hreads _ pre.length [] hat'
  rcases h (pre ++ seen) pre.length tail hat.1 with ⟨b', next, -, hnext, hlong'⟩ | ⟨e, hshort, hwhy⟩
  · rw [hlong] at hlong'
    have hend : pre.length + (seen ++ tail).length = next := by
      cases hlong'
      rfl
    have htail : tail ≠ [] := fun hnil => hne (by rw [hnil, List.append_nil])
    have hpos := List.length_pos_iff.2 htail
    rw [List.length_append] at hend hnext
    omega
  · refine ⟨e, hshort, hwhy.resolve_right fun hthrows => ?_⟩
    rw [hlong] at hthrows
    cases hthrows

/-! ## Exact parts -/

/-- The reader under another error type. -/
def mapError {ε' : Type} (f : ε → ε') (r : Reader ε α β) : Reader ε' α β :=
  fun c => (r c).mapError f

/-- The reader takes exactly `part`: all of it gives `b`, and less of it is an error of the
kind `P`. -/
structure Exactly (P : ε → Prop) (r : Reader ε α β) (part : List α) (b : β) : Prop where
  reads : Reads r part b
  starves : Starves P r part

theorem Exactly.pure (b : β) : Exactly P (Pure.pure b : Reader ε α β) [] b :=
  ⟨Reads.pure b, Starves.nil _⟩

theorem Exactly.bind {r : Reader ε α β} {f : β → Reader ε α γ} {part part' : List α} {b : β}
    {c : γ} (h : Exactly P r part b) (h' : Exactly P (f b) part' c) :
    Exactly P (r >>= f) (part ++ part') c :=
  ⟨h.reads.bind h'.reads, Starves.bind h.reads h.starves h'.starves⟩

theorem Exactly.map {r : Reader ε α β} {f : β → γ} {part : List α} {b : β}
    (h : Exactly P r part b) : Exactly P (r >>= fun b => Pure.pure (f b)) part (f b) :=
  ⟨h.reads.map, Starves.map h.reads h.starves⟩

theorem Exactly.times {r : Reader ε α β} {enc : β → List α} {bs : List β}
    (h : ∀ b ∈ bs, Exactly P r (enc b) b) :
    Exactly P (Reading.times r bs.length) (bs.flatMap enc) bs := by
  induction bs with
  | nil => exact Exactly.pure []
  | cons b bs ih =>
      obtain ⟨hb, hbs⟩ := List.forall_mem_cons.1 h
      exact hb.bind (ih hbs).map

theorem Exactly.mapError {ε' : Type} {Q : ε' → Prop} {f : ε → ε'} {r : Reader ε α β}
    {part : List α} {b : β} (h : Exactly P r part b) (hf : ∀ e, P e → Q (f e)) :
    Exactly Q (Reading.mapError f r) part b where
  reads := by
    intro buf off rest hat
    show (r ⟨buf, off⟩).mapError f = _
    rw [h.reads buf off rest hat]
    rfl
  starves := by
    intro buf off seen hpfx hne hat
    obtain ⟨e, he, hP⟩ := h.starves buf off seen hpfx hne hat
    refine ⟨f e, ?_, hf e hP⟩
    show (r ⟨buf, off⟩).mapError f = _
    rw [he]
    rfl

end Ap3xSolana.Lib.Reading
