import Mathlib.Data.List.Basic

/-!
# Monitors

A monitor reads a log from left to right: `δ` is what it remembers of the entries
so far, `ok` what it allows as the next entry.  `Accepts δ ok s log` says that it
allows every entry of the log when it starts in `s`.  A log that grows at its end
stays accepted when the new entries are (`accepts_append`), which is how the logs
of a running machine are kept inside their specification.
-/

namespace Ap3xSolana.Lib.Monitor

variable {σ α : Type*}

def Accepts (δ : σ → α → σ) (ok : σ → α → Prop) : σ → List α → Prop
  | _, [] => True
  | s, a :: log => ok s a ∧ Accepts δ ok (δ s a) log

instance decidableAccepts (δ : σ → α → σ) (ok : σ → α → Prop)
    [∀ s a, Decidable (ok s a)] : ∀ (s : σ) (log : List α), Decidable (Accepts δ ok s log)
  | _, [] => inferInstanceAs (Decidable True)
  | s, a :: log =>
      have := decidableAccepts δ ok (δ s a) log
      inferInstanceAs (Decidable (ok s a ∧ Accepts δ ok (δ s a) log))

variable {δ : σ → α → σ} {ok : σ → α → Prop}

@[simp] theorem accepts_nil (s : σ) : Accepts δ ok s [] := trivial

theorem accepts_cons {s : σ} {a : α} {log : List α} :
    Accepts δ ok s (a :: log) ↔ ok s a ∧ Accepts δ ok (δ s a) log := Iff.rfl

theorem accepts_append {s : σ} {log log' : List α} :
    Accepts δ ok s (log ++ log') ↔
      Accepts δ ok s log ∧ Accepts δ ok (log.foldl δ s) log' := by
  induction log generalizing s with
  | nil => simp
  | cons a log ih => simp only [List.cons_append, accepts_cons, ih, List.foldl_cons, and_assoc]

/-- Every entry is allowed where it stands. -/
theorem Accepts.at {s : σ} {before after : List α} {a : α}
    (h : Accepts δ ok s (before ++ a :: after)) : ok (before.foldl δ s) a :=
  (accepts_append.1 h).2.1

/-- What an accepted log keeps true of the monitor's state. -/
theorem Accepts.foldl {P : σ → Prop} (hP : ∀ s a, P s → ok s a → P (δ s a)) {s : σ}
    {log : List α} (h : Accepts δ ok s log) (hs : P s) : P (log.foldl δ s) := by
  induction log generalizing s with
  | nil => exact hs
  | cons a log ih => exact ih h.2 (hP s a hs h.1)

/-- Entries that are allowed and change nothing. -/
theorem accepts_of_idle {s : σ} {log : List α} (h : ∀ a ∈ log, ok s a ∧ δ s a = s) :
    Accepts δ ok s log ∧ log.foldl δ s = s := by
  induction log with
  | nil => exact ⟨trivial, rfl⟩
  | cons a log ih =>
      obtain ⟨hok, hs⟩ := h a List.mem_cons_self
      obtain ⟨hacc, hfold⟩ := ih fun b hb => h b (List.mem_cons_of_mem _ hb)
      rw [accepts_cons, List.foldl_cons, hs]
      exact ⟨⟨hok, hacc⟩, hfold⟩

end Ap3xSolana.Lib.Monitor
