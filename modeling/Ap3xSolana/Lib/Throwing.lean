import Mathlib.Data.List.Forall2

/-!
# Computations that may throw

How a successful `Except` computation comes apart: a bind into its two halves, a
`mapM` into the results of its elements.  `Ensures P Q` is a postcondition for both
ends: what is thrown satisfies `P`, what is returned satisfies `Q`.
-/

namespace Ap3xSolana.Lib.Throwing

variable {ε α β γ : Type}

theorem bind_eq_ok {x : Except ε α} {f : α → Except ε β} {b : β} :
    (x >>= f) = .ok b ↔ ∃ a, x = .ok a ∧ f a = .ok b := by
  cases x with
  | error e => simp [bind, Except.bind]
  | ok a => simp [bind, Except.bind]

theorem pure_eq_ok {a b : α} : (pure a : Except ε α) = .ok b ↔ a = b := by
  simp [pure, Except.pure]

theorem mapM_eq_ok {f : α → Except ε β} {xs : List α} {ys : List β} :
    xs.mapM f = .ok ys ↔ List.Forall₂ (fun x y => f x = .ok y) xs ys := by
  induction xs generalizing ys with
  | nil =>
      rw [List.mapM_nil, List.forall₂_nil_left_iff, pure_eq_ok]
      exact eq_comm
  | cons x xs ih =>
      rw [List.mapM_cons, bind_eq_ok]
      simp only [bind_eq_ok, pure_eq_ok, ih]
      constructor
      · rintro ⟨y, hy, ys', hys', rfl⟩
        exact .cons hy hys'
      · intro h
        cases h with
        | cons hy hys => exact ⟨_, hy, _, hys, rfl⟩

theorem mapM_ok {f : α → Except ε β} {g : α → β} {xs : List α}
    (h : ∀ x ∈ xs, f x = .ok (g x)) : xs.mapM f = .ok (xs.map g) := by
  rw [mapM_eq_ok]
  induction xs with
  | nil => exact .nil
  | cons x xs ih =>
      exact .cons (h x (by simp)) (ih fun y hy => h y (by simp [hy]))

/-- Each element is related to something, or all of them to a list. -/
theorem exists_forall₂_iff {R : α → β → Prop} {as : List α} :
    (∃ bs, List.Forall₂ R as bs) ↔ ∀ a ∈ as, ∃ b, R a b := by
  constructor
  · rintro ⟨bs, h⟩
    induction h with
    | nil => exact fun _ ha => nomatch ha
    | cons hab _ ih => exact List.forall_mem_cons.2 ⟨⟨_, hab⟩, ih⟩
  · intro h
    induction as with
    | nil => exact ⟨[], .nil⟩
    | cons a as ih =>
        obtain ⟨⟨b, hb⟩, has⟩ := List.forall_mem_cons.1 h
        obtain ⟨bs, hbs⟩ := ih has
        exact ⟨b :: bs, .cons hb hbs⟩

theorem mapM_ok_iff {f : α → Except ε β} {xs : List α} :
    (∃ ys, xs.mapM f = .ok ys) ↔ ∀ x ∈ xs, ∃ y, f x = .ok y := by
  rw [← exists_forall₂_iff]
  exact exists_congr fun ys => mapM_eq_ok

theorem exists_mapM_ok {f : α → Except ε β} {xs : List α}
    (h : ∀ x ∈ xs, ∃ y, f x = .ok y) : ∃ ys, xs.mapM f = .ok ys :=
  mapM_ok_iff.2 h

/-- An element of the results comes from one of the inputs. -/
theorem forall₂_of_mem {R : α → β → Prop} {xs : List α} {ys : List β}
    (h : List.Forall₂ R xs ys) {y : β} (hy : y ∈ ys) : ∃ x ∈ xs, R x y := by
  induction h with
  | nil => cases hy
  | cons hxy _ ih =>
      rcases List.mem_cons.1 hy with rfl | hy
      · exact ⟨_, List.mem_cons_self, hxy⟩
      · obtain ⟨x, hx, hR⟩ := ih hy
        exact ⟨x, List.mem_cons_of_mem _ hx, hR⟩

/-! ## Postconditions -/

/-- What `x` throws satisfies `P`, what it returns satisfies `Q`. -/
def Ensures (P : ε → Prop) (Q : α → Prop) : Except ε α → Prop
  | .error e => P e
  | .ok a => Q a

variable {P : ε → Prop} {Q Q' : α → Prop}

theorem Ensures.mono {x : Except ε α} (h : Ensures P Q x) (hQ : ∀ a, Q a → Q' a) :
    Ensures P Q' x := by
  cases x with
  | error e => exact h
  | ok a => exact hQ a h

theorem Ensures.bind {R : β → Prop} {x : Except ε α} {f : α → Except ε β}
    (hx : Ensures P Q x) (hf : ∀ a, Q a → Ensures P R (f a)) : Ensures P R (x >>= f) := by
  cases x with
  | error e => exact hx
  | ok a => exact hf a hx

/-- `if c then throw …`, in the shape that `do` gives it. -/
theorem Ensures.check {R : β → Prop} {c : Prop} [Decidable c] {x : Except ε PUnit}
    {f : PUnit → Except ε β} (hx : Ensures P (fun _ => False) x)
    (hf : ¬ c → Ensures P R (f ⟨⟩)) : Ensures P R (if c then x >>= f else f ⟨⟩) := by
  by_cases hc : c
  · rw [if_pos hc]
    exact hx.bind fun _ h => h.elim
  · rw [if_neg hc]
    exact hf hc

theorem Ensures.mapM {R : β → γ → Prop} {f : β → Except ε γ} {xs : List β}
    (h : ∀ x ∈ xs, Ensures P (R x) (f x)) : Ensures P (List.Forall₂ R xs) (xs.mapM f) := by
  induction xs with
  | nil => exact .nil
  | cons x xs ih =>
      rw [List.mapM_cons]
      refine (h x (by simp)).bind fun y hy => ?_
      refine (ih fun x' h' => h x' (by simp [h'])).bind fun ys hys => ?_
      exact .cons hy hys

theorem Ensures.foldlM (Inv : β → Prop) {f : β → α → Except ε β} {xs : List α}
    (h : ∀ b, ∀ x ∈ xs, Inv b → Ensures P Inv (f b x)) :
    ∀ {b : β}, Inv b → Ensures P Inv (xs.foldlM f b) := by
  induction xs with
  | nil => exact fun hb => hb
  | cons x xs ih =>
      intro b hb
      rw [List.foldlM_cons]
      exact (h b x (by simp) hb).bind fun b' hb' => ih (fun b x' h' => h b x' (by simp [h'])) hb'

/-- `x` does not throw, and what it returns satisfies `Q`. -/
abbrev Gives (Q : α → Prop) (x : Except ε α) : Prop := Ensures (fun _ => False) Q x

theorem Gives.exists_ok {x : Except ε α} (h : Gives Q x) : ∃ a, x = .ok a ∧ Q a := by
  cases x with
  | error e => exact h.elim
  | ok a => exact ⟨a, rfl, h⟩

theorem Ensures.of_eq {x : Except ε α} {a : α} (h : Ensures P Q x) (hx : x = .ok a) : Q a := by
  rw [hx] at h
  exact h

/-- What a computation gives can be checked by running it. -/
instance decidableOk (x : Except ε α) (P : α → Prop) [DecidablePred P] :
    Decidable (∃ a, x = .ok a ∧ P a) :=
  match x with
  | .ok a => decidable_of_iff (P a) ⟨fun h => ⟨a, rfl, h⟩, fun ⟨_, h, hp⟩ => by cases h; exact hp⟩
  | .error _ => isFalse fun ⟨_, h, _⟩ => by cases h

/-! ## Loops that stop at the first error -/

section Attempt

variable {σ : Type} {f : σ → α → σ × Option ε}

/-- A loop whose rounds change a state and may throw: the first error ends it, and what
was done up to there stays done. -/
def attempt (f : σ → α → σ × Option ε) : σ → List α → σ × Option ε
  | s, [] => (s, none)
  | s, x :: xs =>
      match f s x with
      | (s, some e) => (s, some e)
      | (s, none) => attempt f s xs

theorem attempt_cons_none {s s' : σ} {x : α} (h : f s x = (s', none)) (xs : List α) :
    attempt f s (x :: xs) = attempt f s' xs := by
  rw [attempt, h]

theorem attempt_cons_some {s s' : σ} {x : α} {e : ε} (h : f s x = (s', some e))
    (xs : List α) : attempt f s (x :: xs) = (s', some e) := by
  rw [attempt, h]

theorem attempt_quiet {s : σ} {xs : List α} (h : ∀ x ∈ xs, f s x = (s, none)) :
    attempt f s xs = (s, none) := by
  induction xs with
  | nil => rfl
  | cons x xs ih =>
      obtain ⟨hx, hxs⟩ := List.forall_mem_cons.1 h
      rw [attempt_cons_none hx, ih hxs]

/-- The rounds of a loop: `Inv` speaks about what is done and what is left, `End` about
where the loop ends. -/
theorem attempt_rule (Inv : List α → List α → σ → Prop) (End : σ → Option ε → Prop)
    (hround : ∀ done x left s s', Inv done (x :: left) s → f s x = (s', none) →
      Inv (done ++ [x]) left s')
    (herror : ∀ done x left s s' e, Inv done (x :: left) s → f s x = (s', some e) →
      End s' (some e))
    (hend : ∀ done s, Inv done [] s → End s none) {xs : List α} :
    ∀ {done : List α} {s : σ}, Inv done xs s →
      End (attempt f s xs).1 (attempt f s xs).2 := by
  induction xs with
  | nil => exact fun h => hend _ _ h
  | cons x xs ih =>
      intro done s h
      obtain ⟨s', error, hf⟩ : ∃ s' error, f s x = (s', error) := ⟨_, _, rfl⟩
      cases error with
      | none =>
          rw [attempt_cons_none hf]
          exact ih (hround _ _ _ _ _ h hf)
      | some e =>
          rw [attempt_cons_some hf]
          exact herror _ _ _ _ _ _ h hf

end Attempt

end Ap3xSolana.Lib.Throwing
