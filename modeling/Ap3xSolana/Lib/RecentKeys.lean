import Mathlib.Algebra.Order.Ring.Int
import Ap3xSolana.Lib.OrderedMap

/-!
# Recently seen keys

A bounded memory of keys, each with the time at which it expires, in the order in which
they were stored.  An offer of a key first removes the expired entries at the front,
then admits the key and stores it unless it is still there; the oldest entry goes when
there are more than `window` of them.

`Distinct` is what this guarantees: between two admitted offers of one key, the first of
them expired or `window` other offers were admitted.  `Kept` is the invariant behind it.
-/

namespace Ap3xSolana.Lib.RecentKeys

variable {κ : Type*}

structure Options where
  window : Int
  ttl : Int
  deriving DecidableEq, Repr

/-- A key with the clock as the sweep reads it, and as it is read to store the key. -/
structure Offer (κ : Type*) where
  key : κ
  sweptAt : Int
  storedAt : Int
  deriving DecidableEq, Repr

/-- The first entry that has not expired ends the sweep. -/
def evictExpired (now : Int) (seen : OrderedMap κ Int) : OrderedMap κ Int where
  entries := seen.entries.dropWhile (·.2 ≤ now)
  nodup := seen.nodup.sublist ((List.dropWhile_sublist _).map Prod.fst)

def evictOldest (seen : OrderedMap κ Int) : OrderedMap κ Int where
  entries := seen.entries.tail
  nodup := seen.nodup.sublist ((List.tail_sublist _).map Prod.fst)

/-! ## What is kept -/

/-- The offers so far, each with whether it was admitted. -/
abbrev History (κ : Type*) := List (Offer κ × Bool)

def admitted (h : History κ) : Nat := h.countP (·.2)

/-- No key is admitted twice within its time to live and the window. -/
def Distinct (opts : Options) (h : History κ) : Prop :=
  ∀ before p between q after, h = before ++ (p, true) :: between ++ (q, true) :: after →
    p.key = q.key →
      (∃ o ∈ between ++ [(q, true)], p.storedAt + opts.ttl ≤ o.1.sweptAt) ∨
        opts.window ≤ admitted between

/-- An admitted key that has not expired is found, and behind it only later ones. -/
def Kept (opts : Options) (h : History κ) (seen : OrderedMap κ Int) : Prop :=
  ∀ before p after, h = before ++ (p, true) :: after →
    (∀ o ∈ after, o.1.sweptAt < p.storedAt + opts.ttl) → (admitted after : Int) < opts.window →
      ∃ front back, seen.entries = front ++ (p.key, p.storedAt + opts.ttl) :: back ∧
        back.length ≤ admitted after

theorem kept_nil (opts : Options) (seen : OrderedMap κ Int) : Kept opts [] seen := by
  intro before p after h
  simp at h

@[simp] theorem admitted_concat (h : History κ) (o : Offer κ) (b : Bool) :
    admitted (h ++ [(o, b)]) = admitted h + b.toNat := by
  cases b <;> simp [admitted]

/-- The sweep stops at an entry that has not expired. -/
private theorem dropWhile_append_cons {α : Type*} {p : α → Bool} {x : α} (hx : p x = false)
    (front back : List α) :
    (front ++ x :: back).dropWhile p = front.dropWhile p ++ x :: back := by
  induction front with
  | nil => simp [hx]
  | cons y front ih =>
      rw [List.cons_append, List.dropWhile_cons, List.dropWhile_cons, ih]
      split <;> rfl

/-- The last entry of a history is new or the history before it has the entry. -/
private theorem concat_eq_append_cons {α : Type*} {h before after : List α} {x y : α}
    (heq : h ++ [x] = before ++ y :: after) :
    (after = [] ∧ x = y ∧ h = before) ∨
      ∃ after', after = after' ++ [x] ∧ h = before ++ y :: after' := by
  rcases List.eq_nil_or_concat after with rfl | ⟨after', z, rfl⟩
  · have := List.append_inj' heq rfl
    exact .inl ⟨rfl, by simpa using this.2, this.1⟩
  · rw [List.concat_eq_append, ← List.cons_append, ← List.append_assoc] at heq
    have := List.append_inj' heq rfl
    have hz : x = z := by simpa using this.2
    exact .inr ⟨after', by rw [hz, List.concat_eq_append], this.1⟩

theorem Kept.evictExpired {opts : Options} {h : History κ} {seen : OrderedMap κ Int}
    (hkept : Kept opts h seen) {before after : History κ} {p : Offer κ} {now : Int}
    (heq : h = before ++ (p, true) :: after)
    (hlive : ∀ o ∈ after, o.1.sweptAt < p.storedAt + opts.ttl)
    (hcount : (admitted after : Int) < opts.window) (hnow : now < p.storedAt + opts.ttl) :
    ∃ front back, (evictExpired now seen).entries =
        front ++ (p.key, p.storedAt + opts.ttl) :: back ∧ back.length ≤ admitted after := by
  obtain ⟨front, back, hentries, hback⟩ := hkept before p after heq hlive hcount
  have hfresh : decide ((p.key, p.storedAt + opts.ttl).2 ≤ now) = false :=
    decide_eq_false (not_le.2 hnow)
  refine ⟨front.dropWhile (·.2 ≤ now), back, ?_, hback⟩
  show seen.entries.dropWhile (·.2 ≤ now) = _
  rw [hentries]
  exact dropWhile_append_cons (p := fun e : κ × Int => decide (e.2 ≤ now)) hfresh front back

theorem evictOldest_entries (seen : OrderedMap κ Int) :
    (evictOldest seen).entries = seen.entries.tail := rfl

/-! ## Offers -/

variable [DecidableEq κ]

def remember (opts : Options) (key : κ) (now : Int) (seen : OrderedMap κ Int) :
    OrderedMap κ Int :=
  let seen := seen.set key (now + opts.ttl)
  if opts.window < seen.entries.length then evictOldest seen else seen

/-- Whether the key is admitted, and what is kept then. -/
def offer (opts : Options) (seen : OrderedMap κ Int) (o : Offer κ) : OrderedMap κ Int × Bool :=
  let seen := evictExpired o.sweptAt seen
  if o.key ∈ seen.keys then (seen, false) else (remember opts o.key o.storedAt seen, true)

theorem remember_entries {opts : Options} {key : κ} {now : Int} {seen : OrderedMap κ Int}
    (h : key ∉ seen.keys) :
    (remember opts key now seen).entries =
      if opts.window < seen.entries.length + 1 then
        (seen.entries ++ [(key, now + opts.ttl)]).tail
      else seen.entries ++ [(key, now + opts.ttl)] := by
  have hset : (seen.set key (now + opts.ttl)).entries = seen.entries ++ [(key, now + opts.ttl)] :=
    OrderedMap.entries_set_of_not_mem h
  show (if opts.window < (seen.set key (now + opts.ttl)).entries.length then _ else _ :
    OrderedMap κ Int).entries = _
  rw [apply_ite OrderedMap.entries, evictOldest_entries, hset, List.length_append]
  rfl

/-- A key behind which fewer than `window` keys are stored is not the one that goes. -/
private theorem keeps_entry {opts : Options} {key : κ} {seen : OrderedMap κ Int}
    {front back : List (κ × Int)} {x : κ × Int} (hnew : key ∉ seen.keys)
    (hentries : seen.entries = front ++ x :: back) (hback : (back.length : Int) + 1 < opts.window)
    (now : Int) : ∃ front', (remember opts key now seen).entries =
      front' ++ x :: (back ++ [(key, now + opts.ttl)]) := by
  rw [remember_entries hnew, hentries]
  cases front with
  | nil =>
      refine ⟨[], ?_⟩
      rw [List.nil_append, List.length_cons, if_neg (by push_cast; omega)]
      rfl
  | cons y front =>
      split
      · exact ⟨front, by simp⟩
      · exact ⟨y :: front, by simp⟩

/-- An offer keeps the invariant. -/
theorem Kept.offer {opts : Options} {h : History κ} {seen : OrderedMap κ Int}
    (hkept : Kept opts h seen) (o : Offer κ) :
    Kept opts (h ++ [(o, (offer opts seen o).2)]) (offer opts seen o).1 := by
  unfold RecentKeys.offer
  by_cases hmem : o.key ∈ (RecentKeys.evictExpired o.sweptAt seen).keys
  · simp only [hmem, if_true]
    intro before p after heq hlive hcount
    rcases concat_eq_append_cons heq with ⟨-, hx, -⟩ | ⟨after', rfl, heq'⟩
    · cases hx
    · have hsweep := hlive (o, false) (by simp)
      rw [admitted_concat] at hcount ⊢
      exact hkept.evictExpired heq' (fun x hx => hlive x (List.mem_append_left _ hx)) hcount hsweep
  · simp only [hmem, if_false]
    intro before p after heq hlive hcount
    rcases concat_eq_append_cons heq with ⟨rfl, hx, -⟩ | ⟨after', rfl, heq'⟩
    · cases hx
      have hwin : (0 : Int) < opts.window := by simpa [admitted] using hcount
      rw [remember_entries hmem]
      split
      · rename_i hfull
        -- a window of at least one keeps the new key at the end
        have hpos : (RecentKeys.evictExpired o.sweptAt seen).entries ≠ [] := by
          intro hnil
          rw [hnil] at hfull
          simp only [List.length_nil, Nat.cast_zero] at hfull
          omega
        exact ⟨_, [], List.tail_append_of_ne_nil hpos, Nat.le_refl _⟩
      · exact ⟨_, [], rfl, Nat.le_refl _⟩
    · have hsweep := hlive (o, true) (by simp)
      rw [admitted_concat] at hcount ⊢
      simp only [Bool.toNat_true, Nat.cast_add, Nat.cast_one] at hcount
      obtain ⟨front, back, hentries, hback⟩ := hkept.evictExpired heq'
        (fun x hx => hlive x (List.mem_append_left _ hx)) (by omega) hsweep
      have hroom : (back.length : Int) + 1 < opts.window := by omega
      obtain ⟨front', hentries'⟩ := keeps_entry hmem hentries hroom o.storedAt
      refine ⟨front', _, hentries', ?_⟩
      simp only [List.length_append, List.length_singleton, Bool.toNat_true]
      omega

/-- What is kept is not admitted again. -/
theorem Distinct.offer {opts : Options} {h : History κ} {seen : OrderedMap κ Int}
    (hdistinct : Distinct opts h) (hkept : Kept opts h seen) (o : Offer κ) :
    Distinct opts (h ++ [(o, (offer opts seen o).2)]) := by
  intro before p between q after heq hkey
  rcases concat_eq_append_cons heq with ⟨-, hx, hbefore⟩ | ⟨after', -, heq'⟩
  · by_contra hnot
    simp only [not_or, not_exists, not_and, not_le] at hnot
    obtain ⟨hlive, hcount⟩ := hnot
    have hnew : (RecentKeys.offer opts seen o).2 = true := congrArg Prod.snd hx
    have ho : o = q := congrArg Prod.fst hx
    obtain ⟨front, back, hentries, -⟩ := hkept.evictExpired hbefore
      (fun x hx => hlive x (List.mem_append_left _ hx)) hcount (hlive (q, true) (by simp))
    have hmem : o.key ∈ (RecentKeys.evictExpired o.sweptAt seen).keys := by
      rw [ho, OrderedMap.keys, hentries, ← hkey]
      simp
    rw [RecentKeys.offer, if_pos hmem] at hnew
    cases hnew
  · exact hdistinct before p between q after' heq' hkey

end Ap3xSolana.Lib.RecentKeys
