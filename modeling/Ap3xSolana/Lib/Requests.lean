import Ap3xSolana.Lib.Throwing

/-!
# Computations that make requests

A computation returns or throws, and leaves the requests that it has made until then, in
order.  `Yields` says what it returns, `Within` what all its requests satisfy; both go
through the binds of a program.
-/

namespace Ap3xSolana.Lib.Requests

abbrev Calls (ε ρ : Type) := ExceptT ε (StateM (List ρ))

variable {ε ρ α β : Type}

/-- The answer depends on the request only. -/
def call (answer : ρ → Except ε α) (request : ρ) : Calls ε ρ α := fun requests =>
  (answer request, requests ++ [request])

/-- A step that makes no request. -/
def lift (x : Except ε α) : Calls ε ρ α := fun requests => (x, requests)

def result (x : Calls ε ρ α) : Except ε α := (x []).1

def requests (x : Calls ε ρ α) : List ρ := (x []).2

theorem bind_ok {x : Calls ε ρ α} {f : α → Calls ε ρ β} {log log' : List ρ} {a : α}
    (h : x log = (.ok a, log')) : (x >>= f) log = f a log' := by
  simp only [bind, ExceptT.bind, ExceptT.mk, StateT.bind, h]
  rfl

theorem bind_error {x : Calls ε ρ α} {f : α → Calls ε ρ β} {log log' : List ρ} {e : ε}
    (h : x log = (.error e, log')) : (x >>= f) log = (.error e, log') := by
  simp only [bind, ExceptT.bind, ExceptT.mk, StateT.bind, h]
  rfl

/-! ## What is returned -/

/-- `x` returns `a` exactly if `R a`, whatever was asked before. -/
def Yields (x : Calls ε ρ α) (R : α → Prop) : Prop := ∀ log a, (x log).1 = .ok a ↔ R a

theorem Yields.of_iff {x : Calls ε ρ α} {R S : α → Prop} (h : Yields x R) (hiff : ∀ a, R a ↔ S a) :
    Yields x S := fun log a => (h log a).trans (hiff a)

theorem Yields.pure (a : α) : Yields (pure a : Calls ε ρ α) (a = ·) := fun _ _ =>
  ⟨Except.ok.inj, congrArg Except.ok⟩

theorem Yields.throw (e : ε) : Yields (throw e : Calls ε ρ α) (fun _ => False) := fun _ _ =>
  ⟨nofun, False.elim⟩

theorem Yields.lift (x : Except ε α) : Yields (lift x : Calls ε ρ α) (x = .ok ·) :=
  fun _ _ => Iff.rfl

theorem Yields.call (answer : ρ → Except ε α) (request : ρ) :
    Yields (call answer request) (answer request = .ok ·) := fun _ _ => Iff.rfl

theorem Yields.bind {x : Calls ε ρ α} {f : α → Calls ε ρ β} {R : α → Prop} {S : α → β → Prop}
    (h : Yields x R) (h' : ∀ a, R a → Yields (f a) (S a)) :
    Yields (x >>= f) fun b => ∃ a, R a ∧ S a b := by
  intro log b
  cases hx : x log with
  | mk outcome log' =>
      cases outcome with
      | error e =>
          rw [bind_error hx]
          refine iff_of_false nofun ?_
          rintro ⟨a, ha, -⟩
          have hok := (h log a).2 ha
          rw [hx] at hok
          cases hok
      | ok a =>
          have ha : R a := (h log a).1 (congrArg Prod.fst hx)
          rw [bind_ok hx, h' a ha log' b]
          refine ⟨fun hb => ⟨a, ha, hb⟩, ?_⟩
          rintro ⟨a', ha', hb⟩
          have hok := (h log a').2 ha'
          rw [hx] at hok
          cases hok
          exact hb

/-! ## What is asked -/

variable {P : ρ → Prop}

/-- If the requests so far satisfy `P`, then so do those behind `x`. -/
def Within (P : ρ → Prop) (x : Calls ε ρ α) : Prop :=
  ∀ log, (∀ r ∈ log, P r) → ∀ r ∈ (x log).2, P r

theorem Within.requests {x : Calls ε ρ α} (h : Within P x) : ∀ r ∈ requests x, P r :=
  h [] fun _ hr => nomatch hr

theorem Within.pure (a : α) : Within P (pure a : Calls ε ρ α) := fun _ h => h

theorem Within.throw (e : ε) : Within P (throw e : Calls ε ρ α) := fun _ h => h

theorem Within.lift (x : Except ε α) : Within P (lift x : Calls ε ρ α) := fun _ h => h

theorem Within.call (answer : ρ → Except ε α) {request : ρ} (h : P request) :
    Within P (call answer request) := by
  intro log hlog r hr
  rcases List.mem_append.1 hr with hr | hr
  · exact hlog r hr
  · rwa [List.mem_singleton.1 hr]

theorem Within.bind {x : Calls ε ρ α} {f : α → Calls ε ρ β} (h : Within P x)
    (h' : ∀ a, Within P (f a)) : Within P (x >>= f) := by
  intro log hlog
  have hx := h log hlog
  cases hrun : x log with
  | mk outcome log' =>
      rw [hrun] at hx
      cases outcome with
      | error e =>
          rw [bind_error hrun]
          exact hx
      | ok a =>
          rw [bind_ok hrun]
          exact h' a log' hx

end Ap3xSolana.Lib.Requests
