import Mathlib.Data.List.Induction
import Mathlib.Data.Nat.Find
import Mathlib.Order.Monotone.Basic
import Mathlib.Order.WellFounded

/-!
# Runs of a partial step function

A machine is a partial function `step : σ → α → Option σ`; a run is a list of
actions each of which is enabled when its turn comes.  `Along step ok s acts`
says that `acts` runs from `s` and that every step of it satisfies `ok`.

The rules below are the only inductions over runs in this development:
`exec_inv` turns a step lemma into a fact about every reachable state (`Along.inv`
where the steps have to satisfy something for it), `along_of_inv` into one about every
step of a run, and `along_iff_of_inv` does the same for an equivalence between two step
properties.
-/

namespace Ap3xSolana.Lib.Run

variable {σ α : Type*}

/-- The state after a list of actions, or `none` if one of them is not enabled
when its turn comes. -/
def exec (step : σ → α → Option σ) : σ → List α → Option σ
  | s, [] => some s
  | s, a :: acts =>
      match step s a with
      | none => none
      | some s' => exec step s' acts

/-- The actions run from `s`, and every step satisfies `ok`. -/
def Along (step : σ → α → Option σ) (ok : σ → α → σ → Prop) : σ → List α → Prop
  | _, [] => True
  | s, a :: acts =>
      match step s a with
      | none => False
      | some s' => ok s a s' ∧ Along step ok s' acts

/-- Every action of the list is permitted when its turn comes, as far as the list
runs. -/
def Permitted (step : σ → α → Option σ) (pre : σ → α → Prop) : σ → List α → Prop
  | _, [] => True
  | s, a :: acts => pre s a ∧ ∀ s', step s a = some s' → Permitted step pre s' acts

instance decidableAlong (step : σ → α → Option σ) (ok : σ → α → σ → Prop)
    [∀ s a s', Decidable (ok s a s')] :
    ∀ (s : σ) (acts : List α), Decidable (Along step ok s acts)
  | _, [] => inferInstanceAs (Decidable True)
  | s, a :: acts =>
      match h : step s a with
      | none => .isFalse (by simp [Along, h])
      | some s' =>
          have := decidableAlong step ok s' acts
          decidable_of_iff (ok s a s' ∧ Along step ok s' acts) (by simp [Along, h])

instance decidablePermitted (step : σ → α → Option σ) (pre : σ → α → Prop)
    [∀ s a, Decidable (pre s a)] :
    ∀ (s : σ) (acts : List α), Decidable (Permitted step pre s acts)
  | _, [] => inferInstanceAs (Decidable True)
  | s, a :: acts =>
      match h : step s a with
      | none => decidable_of_iff (pre s a) (by simp [Permitted, h])
      | some s' =>
          have := decidablePermitted step pre s' acts
          decidable_of_iff (pre s a ∧ Permitted step pre s' acts) (by simp [Permitted, h])

/-- What a run reaches can be checked by running it. -/
instance decidableReached (x : Option σ) (P : σ → Prop) [DecidablePred P] :
    Decidable (∃ s, x = some s ∧ P s) :=
  match x with
  | some s => decidable_of_iff (P s) ⟨fun h => ⟨s, rfl, h⟩, fun ⟨_, h, hp⟩ => by cases h; exact hp⟩
  | none => isFalse fun ⟨_, h, _⟩ => by cases h

variable {step : σ → α → Option σ} {ok ok' : σ → α → σ → Prop}

theorem exec_cons {s s' : σ} {a : α} (h : step s a = some s') (acts : List α) :
    exec step s (a :: acts) = exec step s' acts := by
  rw [exec, h]

theorem exec_append {s t : σ} {acts : List α} (h : exec step s acts = some t)
    (more : List α) : exec step s (acts ++ more) = exec step t more := by
  induction acts generalizing s with
  | nil =>
      cases h
      rfl
  | cons a acts ih =>
      cases hstep : step s a with
      | none => simp [exec, hstep] at h
      | some s' =>
          rw [exec_cons hstep] at h
          rw [List.cons_append, exec_cons hstep]
          exact ih h

/-- A run in two parts. -/
theorem exec_append_iff {s t : σ} {acts more : List α} :
    exec step s (acts ++ more) = some t ↔
      ∃ u, exec step s acts = some u ∧ exec step u more = some t := by
  induction acts generalizing s with
  | nil => simp [exec]
  | cons b acts ih => cases h : step s b <;> simp [exec, h, ih]

/-- A run up to its last action. -/
theorem exec_concat {s t : σ} {acts : List α} {a : α} :
    exec step s (acts ++ [a]) = some t ↔ ∃ u, exec step s acts = some u ∧ step u a = some t := by
  rw [exec_append_iff]
  refine exists_congr fun u => and_congr_right fun _ => ?_
  cases h : step u a <;> simp [exec, h]

/-- An invariant of the steps holds after every run. -/
theorem exec_inv {Inv : σ → Prop}
    (hstep : ∀ s a s', Inv s → step s a = some s' → Inv s') {acts : List α} {s t : σ}
    (hs : Inv s) (hrun : exec step s acts = some t) : Inv t := by
  induction acts generalizing s with
  | nil =>
      cases hrun
      exact hs
  | cons a acts ih =>
      cases h : step s a with
      | none => simp [exec, h] at hrun
      | some s' =>
          simp only [exec, h] at hrun
          exact ih (hstep s a s' hs h) hrun

/-- An invariant that the steps of some actions keep holds after every run of such
actions. -/
theorem exec_inv_of {Inv : σ → Prop} {allowed : α → Prop}
    (hstep : ∀ s a s', Inv s → allowed a → step s a = some s' → Inv s') {acts : List α}
    {s t : σ} (hs : Inv s) (hacts : ∀ a ∈ acts, allowed a) (hrun : exec step s acts = some t) :
    Inv t := by
  induction acts generalizing s with
  | nil =>
      cases hrun
      exact hs
  | cons a acts ih =>
      obtain ⟨ha, hacts⟩ := List.forall_mem_cons.1 hacts
      cases h : step s a with
      | none => simp [exec, h] at hrun
      | some s' =>
          simp only [exec, h] at hrun
          exact ih (hstep s a s' hs ha h) hacts hrun

theorem along_cons {s : σ} {a : α} {acts : List α} :
    Along step ok s (a :: acts) ↔
      ∃ s', step s a = some s' ∧ ok s a s' ∧ Along step ok s' acts := by
  cases h : step s a <;> simp [Along, h]

/-- The last step of a run. -/
theorem Along.last {s t : σ} {a : α} {acts : List α}
    (h : Along step ok s (acts ++ [a])) (hrun : exec step s acts = some t) :
    ∃ t', step t a = some t' ∧ ok t a t' := by
  induction acts generalizing s with
  | nil =>
      cases hrun
      obtain ⟨t', ht', hok, -⟩ := along_cons.1 h
      exact ⟨t', ht', hok⟩
  | cons b acts ih =>
      obtain ⟨s', hs', -, hrest⟩ := along_cons.1 h
      simp only [exec, hs'] at hrun
      exact ih hrest hrun

/-- An invariant that the steps satisfying `ok` keep holds after every run of such
steps. -/
theorem Along.inv (Inv : σ → Prop)
    (hstep : ∀ s a s', Inv s → step s a = some s' → ok s a s' → Inv s')
    {acts : List α} {s t : σ} (h : Along step ok s acts) (hs : Inv s)
    (hrun : exec step s acts = some t) : Inv t := by
  induction acts generalizing s with
  | nil =>
      cases hrun
      exact hs
  | cons a acts ih =>
      obtain ⟨s', hs', hok, hrest⟩ := along_cons.1 h
      simp only [exec, hs'] at hrun
      exact ih hrest (hstep s a s' hs hs' hok) hrun

/-- From one step to a run: steps that satisfy `ok'` keep the invariant and
satisfy `ok`. -/
theorem along_of_inv (Inv : σ → Prop)
    (hstep : ∀ s a s', Inv s → step s a = some s' → ok' s a s' →
      ok s a s' ∧ Inv s') :
    ∀ (acts : List α) (s : σ), Inv s → Along step ok' s acts →
      Along step ok s acts
  | [], _, _, _ => trivial
  | a :: acts, s, hs, h => by
      obtain ⟨s', hrun, hok', hrest⟩ := along_cons.1 h
      obtain ⟨hok, hs'⟩ := hstep s a s' hs hrun hok'
      exact along_cons.2 ⟨s', hrun, hok, along_of_inv Inv hstep acts s' hs' hrest⟩

/-- From one step to a run, for two step properties that agree wherever the
invariant holds. -/
theorem along_iff_of_inv (Inv : σ → Prop)
    (hiff : ∀ s a s', Inv s → step s a = some s' → (ok s a s' ↔ ok' s a s'))
    (hinv : ∀ s a s', Inv s → step s a = some s' → ok' s a s' → Inv s')
    (acts : List α) (s : σ) (hs : Inv s) :
    Along step ok s acts ↔ Along step ok' s acts := by
  induction acts generalizing s with
  | nil => rfl
  | cons a acts ih =>
      rw [along_cons, along_cons]
      refine exists_congr fun s' => and_congr_right fun hrun => ?_
      constructor
      · rintro ⟨hok, hrest⟩
        have hok' := (hiff s a s' hs hrun).1 hok
        exact ⟨hok', (ih s' (hinv s a s' hs hrun hok')).1 hrest⟩
      · rintro ⟨hok', hrest⟩
        exact ⟨(hiff s a s' hs hrun).2 hok',
          (ih s' (hinv s a s' hs hrun hok')).2 hrest⟩

/-- Actions that run along `ok` lead somewhere. -/
theorem Along.exec {acts : List α} {s : σ} (h : Along step ok s acts) :
    ∃ t, exec step s acts = some t := by
  induction acts generalizing s with
  | nil => exact ⟨s, rfl⟩
  | cons a acts ih =>
      obtain ⟨s', hs', -, hrest⟩ := along_cons.1 h
      obtain ⟨t, ht⟩ := ih hrest
      exact ⟨t, by simp only [Run.exec, hs', ht]⟩

/-- Along a run, a permission is one more property of the steps. -/
theorem Permitted.along {pre : σ → α → Prop} {acts : List α} {s : σ}
    (h : Permitted step pre s acts) (hok : Along step ok s acts) :
    Along step (fun s a s' => pre s a ∧ ok s a s') s acts := by
  induction acts generalizing s with
  | nil => trivial
  | cons a acts ih =>
      obtain ⟨s', hs', hok', hrest⟩ := along_cons.1 hok
      exact along_cons.2 ⟨s', hs', ⟨h.1, hok'⟩, ih (h.2 s' hs') hrest⟩

/-- Two step properties that agree on permitted steps, one of which carries the
invariant. -/
theorem Permitted.along_iff {pre : σ → α → Prop} (Inv : σ → Prop)
    (hstep : ∀ s a s', Inv s → pre s a → step s a = some s' →
      (ok s a s' ↔ ok' s a s') ∧ (ok' s a s' → Inv s'))
    {acts : List α} {s : σ} (h : Permitted step pre s acts) (hs : Inv s) :
    Along step ok s acts ↔ Along step ok' s acts := by
  induction acts generalizing s with
  | nil => rfl
  | cons a acts ih =>
      rw [along_cons, along_cons]
      refine exists_congr fun s' => and_congr_right fun hrun => ?_
      obtain ⟨hiff, hinv⟩ := hstep s a s' hs h.1 hrun
      rw [hiff]
      exact and_congr_right fun hok' => ih (h.2 s' hrun) (hinv hok')

/-- Permitted actions that never get stuck: the whole list runs. -/
theorem Permitted.exec {pre : σ → α → Prop} {Inv : σ → Prop}
    (hstep : ∀ s a, Inv s → pre s a → ∃ s', step s a = some s' ∧ Inv s')
    {acts : List α} {s : σ} (h : Permitted step pre s acts) (hs : Inv s) :
    ∃ t, exec step s acts = some t ∧ Inv t := by
  induction acts generalizing s with
  | nil => exact ⟨s, rfl, hs⟩
  | cons a acts ih =>
      obtain ⟨s', hs', hinv⟩ := hstep s a hs h.1
      obtain ⟨t, ht, hinv'⟩ := ih (h.2 s' hs') hinv
      exact ⟨t, by simp only [Run.exec, hs', ht], hinv'⟩

/-- What every step of a run satisfies, where the property may look back at the actions
before the step, as a property of the steps alone. -/
theorem steps_iff_along {P : List α → σ → α → σ → Prop} (Inv : List α → σ → Prop)
    (hstep : ∀ before u a u', Inv before u → step u a = some u' →
      (P before u a u' ↔ ok u a u') ∧ Inv (before ++ [a]) u')
    {acts : List α} {s t : σ} (hs : Inv [] s) (hrun : exec step s acts = some t) :
    (∀ before a, before ++ [a] <+: acts → ∀ u u', exec step s before = some u →
        step u a = some u' → P before u a u') ↔
      Along step ok s acts := by
  have hpast : ∀ past, Inv past s →
      ((∀ before a, before ++ [a] <+: acts → ∀ u u', exec step s before = some u →
          step u a = some u' → P (past ++ before) u a u') ↔ Along step ok s acts) := by
    clear hs
    induction acts generalizing s with
    | nil =>
        refine fun past _ => ⟨fun _ => trivial, fun _ before a hpfx => ?_⟩
        exact absurd (List.prefix_nil.1 hpfx) (List.append_ne_nil_of_right_ne_nil _ nofun)
    | cons b acts ih =>
        intro past hpast
        cases h : step s b with
        | none => simp [exec, h] at hrun
        | some s' =>
            simp only [exec, h] at hrun
            obtain ⟨hiff, hnext⟩ := hstep past s b s' hpast h
            have hrest := ih hrun (past ++ [b]) hnext
            rw [along_cons]
            constructor
            · intro hall
              have hfirst := hall [] b (by simp) s s' rfl h
              rw [List.append_nil] at hfirst
              refine ⟨s', h, hiff.1 hfirst, hrest.1 fun before a hpfx u u' hu hu' => ?_⟩
              have hmore := hall (b :: before) a
                (List.cons_prefix_cons.2 ⟨rfl, hpfx⟩) u u' (by simpa only [exec, h] using hu) hu'
              rwa [List.append_cons] at hmore
            · rintro ⟨s₁, hs₁, hok, hrest'⟩ before a hpfx u u' hu hu'
              cases h.symm.trans hs₁
              cases before with
              | nil =>
                  cases hu
                  obtain ⟨rfl, -⟩ := List.cons_prefix_cons.1 hpfx
                  cases h.symm.trans hu'
                  rw [List.append_nil]
                  exact hiff.2 hok
              | cons c before =>
                  obtain ⟨rfl, hpfx'⟩ := List.cons_prefix_cons.1 hpfx
                  simp only [exec, h] at hu
                  rw [List.append_cons]
                  exact hrest.2 hrest' before a hpfx' u u' hu hu'
  exact hpast [] hs

/-- Two properties of the steps of a list of actions, as far as it runs, that may look back
at the actions before: they agree if they do wherever the invariant holds, and one of them
carries the invariant. -/
theorem steps_iff_steps {P Q : List α → σ → α → σ → Prop} (Inv : List α → σ → Prop) {s : σ}
    (hs : Inv [] s)
    (hstep : ∀ before u a u', exec step s before = some u → Inv before u → step u a = some u' →
      (P before u a u' ↔ Q before u a u') ∧ (Q before u a u' → Inv (before ++ [a]) u'))
    (acts : List α) :
    (∀ before a u u', before ++ [a] <+: acts → exec step s before = some u →
        step u a = some u' → P before u a u') ↔
      ∀ before a u u', before ++ [a] <+: acts → exec step s before = some u →
        step u a = some u' → Q before u a u' := by
  -- whichever of the two the steps satisfy, the invariant holds up to each of them
  have hinv : ∀ R : List α → σ → α → σ → Prop,
      (∀ before u a u', exec step s before = some u → Inv before u → step u a = some u' →
        R before u a u' → Q before u a u') →
      (∀ before a u u', before ++ [a] <+: acts → exec step s before = some u →
        step u a = some u' → R before u a u') →
      ∀ before u, before <+: acts → exec step s before = some u → Inv before u := by
    intro R hRQ hall before
    induction before using List.reverseRecOn with
    | nil =>
        intro u _ hu
        cases hu
        exact hs
    | append_singleton before a ih =>
        intro u' hpfx hu'
        obtain ⟨u, hu, ha⟩ := exec_concat.1 hu'
        have hbefore := ih u ((List.prefix_append before [a]).trans hpfx) hu
        have hR := hall before a u u' hpfx hu ha
        exact (hstep before u a u' hu hbefore ha).2 (hRQ before u a u' hu hbefore ha hR)
  constructor
  · intro hP before a u u' hpfx hu ha
    have hbefore := hinv P (fun before u a u' hu h ha => (hstep before u a u' hu h ha).1.1) hP
      before u ((List.prefix_append before [a]).trans hpfx) hu
    exact (hstep before u a u' hu hbefore ha).1.1 (hP before a u u' hpfx hu ha)
  · intro hQ before a u u' hpfx hu ha
    have hbefore := hinv Q (fun _ _ _ _ _ _ _ h => h) hQ
      before u ((List.prefix_append before [a]).trans hpfx) hu
    exact (hstep before u a u' hu hbefore ha).1.2 (hQ before a u u' hpfx hu ha)

/-- What no step takes back and does not hold at the end has never held. -/
theorem Along.never (Inv P : σ → Prop)
    (hstep : ∀ s a s', Inv s → step s a = some s' → ok s a s' → Inv s' ∧ (P s → P s'))
    {acts : List α} {s t : σ} (h : Along step ok s acts) (hs : Inv s)
    (hrun : Run.exec step s acts = some t) (ht : ¬ P t) :
    Along step (fun s a s' => ok s a s' ∧ ¬ P s) s acts ∧ ¬ P s := by
  induction acts generalizing s with
  | nil =>
      cases hrun
      exact ⟨trivial, ht⟩
  | cons a acts ih =>
      obtain ⟨s', hs', hok, hrest⟩ := along_cons.1 h
      simp only [Run.exec, hs'] at hrun
      obtain ⟨hinv, hkeep⟩ := hstep s a s' hs hs' hok
      obtain ⟨halong, hnot⟩ := ih hrest hinv hrun
      have hnow : ¬ P s := fun hP => hnot (hkeep hP)
      exact ⟨along_cons.2 ⟨s', hs', ⟨hok, hnow⟩, halong⟩, hnow⟩

/-! ## What a run gains -/

section Gains

variable {ι β : Type*}

/-- What the steps of a run add up to, for each `i`. -/
def gains (step : σ → α → Option σ) (gain : σ → α → ι → List β) :
    σ → List α → ι → List β
  | _, [], _ => []
  | s, a :: acts, i =>
      gain s a i ++
        match step s a with
        | none => []
        | some s' => gains step gain s' acts i

/-- A total grows along a run by what the steps add exactly if every step adds what it
says. -/
theorem total_iff_along {gain : σ → α → ι → List β} {total : σ → ι → List β} {s t : σ}
    {acts : List α} (hrun : exec step s acts = some t) :
    (∀ before, before <+: acts → ∀ u, exec step s before = some u →
        ∀ i, total s i ++ gains step gain s before i = total u i) ↔
      Along step (fun s a s' => ∀ i, total s i ++ gain s a i = total s' i) s acts := by
  induction acts generalizing s with
  | nil =>
      refine ⟨fun _ => trivial, fun _ before hbefore u hu i => ?_⟩
      rw [List.prefix_nil.1 hbefore] at hu ⊢
      cases hu
      exact List.append_nil _
  | cons a acts ih =>
      cases h : step s a with
      | none => simp [exec, h] at hrun
      | some s' =>
          simp only [exec, h] at hrun
          rw [along_cons]
          constructor
          · intro htotal
            have hfirst : ∀ i, total s i ++ gain s a i = total s' i := by
              intro i
              have hone := htotal [a] (by simp) s' (by simp [exec, h]) i
              simpa [gains, h] using hone
            refine ⟨s', h, hfirst, (ih hrun).1 fun before hbefore u hu i => ?_⟩
            have hmore := htotal (a :: before) (List.cons_prefix_cons.2 ⟨rfl, hbefore⟩) u
              (by simpa only [exec, h] using hu) i
            rw [← hfirst i, List.append_assoc]
            simpa only [gains, h] using hmore
          · rintro ⟨s₁, hs₁, hfirst, hrest⟩ before hbefore u hu i
            cases h.symm.trans hs₁
            cases before with
            | nil =>
                cases hu
                exact List.append_nil _
            | cons b before =>
                obtain ⟨rfl, hrest'⟩ := List.cons_prefix_cons.1 hbefore
                simp only [exec, h] at hu
                simp only [gains, h]
                rw [← List.append_assoc, hfirst i]
                exact (ih hrun).2 hrest before hrest' u hu i

/-- What a run gains is paid for: every step pays with `pos` for what it adds, or puts it
on `owed`. -/
theorem gains_length_le {gain : σ → α → ι → List β} (Inv : σ → Prop) (pos owed : σ → ℕ) (i : ι)
    (hstep : ∀ s a s', Inv s → step s a = some s' → ok s a s' →
      Inv s' ∧ (gain s a i).length + pos s' + owed s ≤ pos s + owed s')
    {acts : List α} {s t : σ} (h : Along step ok s acts) (hs : Inv s)
    (hrun : exec step s acts = some t) :
    Inv t ∧ (gains step gain s acts i).length + pos t + owed s ≤ pos s + owed t := by
  induction acts generalizing s with
  | nil =>
      cases hrun
      exact ⟨hs, by simp [gains]⟩
  | cons a acts ih =>
      obtain ⟨s', hs', hok, hrest⟩ := along_cons.1 h
      simp only [exec, hs'] at hrun
      obtain ⟨hinv, hpay⟩ := hstep s a s' hs hs' hok
      obtain ⟨hinv', hpay'⟩ := ih hrest hinv hrun
      refine ⟨hinv', ?_⟩
      simp only [gains, hs', List.length_append]
      omega

end Gains

/-! ## Endless runs -/

/-- `f` is the run of the endless sequence of actions `a`. -/
def Endless (step : σ → α → Option σ) (f : ℕ → σ) (a : ℕ → α) : Prop :=
  ∀ n, step (f n) (a n) = some (f (n + 1))

theorem Endless.inv {f : ℕ → σ} {a : ℕ → α} (h : Endless step f a)
    (Inv : σ → Prop) {m : ℕ} (hm : Inv (f m))
    (hstep : ∀ n, Inv (f n) → step (f n) (a n) = some (f (n + 1)) → Inv (f (n + 1)))
    {n : ℕ} (hle : m ≤ n) : Inv (f n) := by
  induction n, hle using Nat.le_induction with
  | base => exact hm
  | succ n _ ih => exact hstep n ih (h n)

/-- A rank that is never raised is lowered finitely often. -/
theorem eventually_not_of_rank {ρ : Type*} [PartialOrder ρ] [WellFoundedLT ρ]
    (rank : ℕ → ρ) (P : ℕ → Prop) (hle : ∀ n, rank (n + 1) ≤ rank n)
    (hlt : ∀ n, P n → rank (n + 1) < rank n) : ∃ N, ∀ n, N ≤ n → ¬ P n := by
  obtain ⟨-, ⟨N, rfl⟩, hmin⟩ :=
    WellFounded.has_min (wellFounded_lt (α := ρ)) (Set.range rank) ⟨_, 0, rfl⟩
  refine ⟨N, fun n hn hP => hmin (rank (n + 1)) ⟨n + 1, rfl⟩ ?_⟩
  exact (hlt n hP).trans_le (antitone_nat_of_succ_le hle hn)

/-- What is served again and again comes about.  `P r s` says that it is still to come
in `s`, with rank `r`: the steps that serve it bring it about or lower the rank, the
others leave the rank alone. -/
theorem Endless.response {ρ : Type*} [PartialOrder ρ] [WellFoundedLT ρ] {f : ℕ → σ}
    {a : ℕ → α} (h : Endless step f a) (P : ρ → σ → Prop) (serves : α → Prop)
    (Q : σ → α → Prop)
    (hserves : ∀ r s b s', P r s → step s b = some s' → serves b →
      Q s b ∨ ∃ r' < r, P r' s')
    (hothers : ∀ r s b s', P r s → step s b = some s' → ¬ serves b → P r s')
    (hfair : ∀ r n, P r (f n) → ∃ m, n ≤ m ∧ (serves (a m) ∨ ¬ P r (f m)))
    {r : ρ} {n : ℕ} (hr : P r (f n)) : ∃ m, n ≤ m ∧ Q (f m) (a m) := by
  induction r using WellFoundedLT.induction generalizing n with
  | ind r ih =>
      classical
      have hsome := hfair r n hr
      obtain ⟨hle, hm⟩ := Nat.find_spec hsome
      -- before the first step that serves it, nothing changes
      have hkept : P r (f (Nat.find hsome)) := by
        have hupto : ∀ k, n ≤ k → k ≤ Nat.find hsome → P r (f k) := by
          intro k hnk
          induction k, hnk using Nat.le_induction with
          | base => exact fun _ => hr
          | succ k hnk ihk =>
              intro hk
              have hnot := Nat.find_min hsome (Nat.lt_of_succ_le hk)
              exact hothers r _ _ _ (ihk (Nat.le_of_succ_le hk)) (h k)
                fun hserve => hnot ⟨hnk, .inl hserve⟩
        exact hupto _ hle (le_refl _)
      have hserve := hm.resolve_right fun hnot => hnot hkept
      rcases hserves r _ _ _ hkept (h _) hserve with hQ | ⟨r', hlt, hr'⟩
      · exact ⟨_, hle, hQ⟩
      · obtain ⟨m, hm, hQ⟩ := ih r' hlt hr'
        exact ⟨m, hle.trans ((Nat.le_succ _).trans hm), hQ⟩

end Ap3xSolana.Lib.Run
