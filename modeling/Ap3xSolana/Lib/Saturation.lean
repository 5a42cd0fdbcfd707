import Ap3xSolana.Lib.Throwing
import Mathlib.Data.List.Basic
import Mathlib.Data.List.Nodup
import Mathlib.Logic.Function.Basic

/-!
# Saturating a table

Items derive values for their keys from what a table has already, and a loop goes over the
items until a round adds nothing.  What is derived from a table is derived from every larger
one (`Rules.mono`).  Then the loop ends (`ends_saturate`), and the table that it leaves is
the least one that is closed under the rules (`closed_of_ends`, `extends_of_ends`): the order
in which the items are visited does not matter (`ends_unique`).
-/

namespace Ap3xSolana.Lib.Saturation

open Ap3xSolana.Lib.Throwing

variable {ι κ ν ε : Type}

/-- The second table has all that the first one has. -/
def Extends (m m' : κ → Option ν) : Prop := ∀ k v, m k = some v → m' k = some v

theorem Extends.refl (m : κ → Option ν) : Extends m m := fun _ _ h => h

theorem Extends.trans {m₁ m₂ m₃ : κ → Option ν} (h : Extends m₁ m₂) (h' : Extends m₂ m₃) :
    Extends m₁ m₃ := fun k v hv => h' k v (h k v hv)

theorem Extends.antisymm {m m' : κ → Option ν} (h : Extends m m') (h' : Extends m' m) :
    m = m' := by
  funext k
  cases hk : m k with
  | some v => exact (h k v hk).symm
  | none =>
      cases hk' : m' k with
      | none => rfl
      | some v =>
          rw [h' k v hk'] at hk
          cases hk

theorem extends_update [DecidableEq κ] {m : κ → Option ν} {k : κ} (h : m k = none) (v : ν) :
    Extends m (Function.update m k (some v)) := by
  intro k' v' hv'
  have hne : k' ≠ k := by
    rintro rfl
    rw [h] at hv'
    cases hv'
  rw [Function.update_of_ne hne]
  exact hv'

/-! ## Rules -/

structure Rules (ι κ ν ε : Type) where
  key : ι → κ
  /-- The value for the key of the item, if the table has all that it takes. -/
  derive : (κ → Option ν) → ι → Except ε (Option ν)
  mono : ∀ {m m' : κ → Option ν}, Extends m m' → ∀ {a : ι} {v : ν},
    derive m a = .ok (some v) → derive m' a = .ok (some v)

variable {R : Rules ι κ ν ε}

/-- The items whose key has no value yet. -/
def unresolved (R : Rules ι κ ν ε) (items : List ι) (m : κ → Option ν) : Nat :=
  items.countP fun a => (m (R.key a)).isNone

theorem unresolved_le (items : List ι) (m : κ → Option ν) :
    unresolved R items m ≤ items.length := List.countP_le_length

theorem unresolved_lt {items : List ι} {m m' : κ → Option ν} (h : Extends m m') {a : ι}
    (ha : a ∈ items) (hnone : m (R.key a) = none) (hsome : (m' (R.key a)).isSome = true) :
    unresolved R items m' < unresolved R items m := by
  obtain ⟨xs, ys, rfl⟩ := List.append_of_mem ha
  have hle : ∀ items : List ι, unresolved R items m' ≤ unresolved R items m := fun items =>
    List.countP_mono_left fun b _ hb => by
      rw [Option.isNone_iff_eq_none] at hb ⊢
      exact Option.eq_none_iff_forall_ne_some.2 fun v hv => by
        rw [h (R.key b) v hv] at hb
        cases hb
  have hxs := hle xs
  have hys := hle ys
  unfold unresolved at hxs hys ⊢
  rw [List.countP_append, List.countP_append, List.countP_cons_of_neg, List.countP_cons_of_pos]
  · omega
  · rw [hnone]
    rfl
  · rw [Option.isNone_iff_eq_none]
    intro hnone'
    rw [hnone'] at hsome
    cases hsome

/-- The table has all that was known, and what the rules derive from it. -/
structure Closed (R : Rules ι κ ν ε) (items : List ι) (known m : κ → Option ν) : Prop where
  keeps : Extends known m
  derived : ∀ a ∈ items, known (R.key a) = none → ∀ v, R.derive m a = .ok (some v) →
    m (R.key a) = some v

/-! ## The loop -/

variable [DecidableEq κ] (R)

/-- One round over the items, and whether it added any value. -/
def scan : List ι → (κ → Option ν) → Bool → Except ε ((κ → Option ν) × Bool)
  | [], m, progress => .ok (m, progress)
  | a :: items, m, progress =>
      if (m (R.key a)).isSome then scan items m progress
      else do
        let v ← R.derive m a
        match v with
        | some v => scan items (Function.update m (R.key a) (some v)) true
        | none => scan items m progress

/-- `while (progress)` ends with this table or this error. -/
inductive Ends (items : List ι) : (κ → Option ν) → Except ε (κ → Option ν) → Prop where
  | threw {m : κ → Option ν} {e : ε} (h : scan R items m false = .error e) :
      Ends items m (.error e)
  | stop {m m' : κ → Option ν} (h : scan R items m false = .ok (m', false)) :
      Ends items m (.ok m')
  | again {m m' : κ → Option ν} {out : Except ε (κ → Option ν)}
      (h : scan R items m false = .ok (m', true)) (hrest : Ends items m' out) :
      Ends items m out

/-- The loop with so many rounds at most. -/
def saturate (items : List ι) : Nat → (κ → Option ν) → Except ε (κ → Option ν)
  | 0, m => .ok m
  | rounds + 1, m => do
      let (m, progress) ← scan R items m false
      if progress then saturate items rounds m else return m

/-! ## One round -/

variable {R}

/-- A round goes through three cases at each item. -/
theorem scan_cons {a : ι} {items : List ι} {m m' : κ → Option ν} {before after : Bool}
    (h : scan R (a :: items) m before = .ok (m', after)) :
    ((m (R.key a)).isSome = true ∧ scan R items m before = .ok (m', after)) ∨
    (m (R.key a) = none ∧ R.derive m a = .ok none ∧ scan R items m before = .ok (m', after)) ∨
    ∃ v, m (R.key a) = none ∧ R.derive m a = .ok (some v) ∧
      scan R items (Function.update m (R.key a) (some v)) true = .ok (m', after) := by
  rw [scan] at h
  split at h
  · exact .inl ⟨‹_›, h⟩
  · have hnone : m (R.key a) = none := by simpa using ‹¬ (m (R.key a)).isSome = true›
    obtain ⟨v, hv, h⟩ := bind_eq_ok.1 h
    cases v with
    | none => exact .inr (.inl ⟨hnone, hv, h⟩)
    | some v => exact .inr (.inr ⟨v, hnone, hv, h⟩)

/-- What every addition preserves, a round does. -/
theorem scan_inv {P : (κ → Option ν) → Prop} {all items : List ι} (hsub : items ⊆ all)
    (hadd : ∀ (m : κ → Option ν) (a : ι) (v : ν), a ∈ all → P m → m (R.key a) = none →
      R.derive m a = .ok (some v) → P (Function.update m (R.key a) (some v)))
    {m m' : κ → Option ν} {before after : Bool}
    (h : scan R items m before = .ok (m', after)) (hm : P m) : P m' := by
  induction items generalizing m before with
  | nil =>
      cases h
      exact hm
  | cons a items ih =>
      have htail : items ⊆ all := fun b hb => hsub (List.mem_cons_of_mem a hb)
      rcases scan_cons h with ⟨_, hrest⟩ | ⟨_, _, hrest⟩ | ⟨v, hnone, hderive, hrest⟩
      · exact ih htail hrest hm
      · exact ih htail hrest hm
      · exact ih htail hrest (hadd m a v (hsub List.mem_cons_self) hm hnone hderive)

theorem scan_extends {items : List ι} {m m' : κ → Option ν} {before after : Bool}
    (h : scan R items m before = .ok (m', after)) : Extends m m' :=
  scan_inv (fun _ ha => ha)
    (fun _ _ v _ hm hnone _ => hm.trans (extends_update hnone v)) h (Extends.refl m)

/-- A round that adds nothing found nothing to add. -/
theorem scan_quiet {items : List ι} {m m' : κ → Option ν} {before : Bool}
    (h : scan R items m before = .ok (m', false)) :
    before = false ∧ m' = m ∧ ∀ a ∈ items, m (R.key a) = none → R.derive m a = .ok none := by
  induction items generalizing m before with
  | nil =>
      cases h
      exact ⟨rfl, rfl, fun a ha => absurd ha List.not_mem_nil⟩
  | cons a items ih =>
      rcases scan_cons h with ⟨hsome, hrest⟩ | ⟨_, hderive, hrest⟩ | ⟨v, _, _, hrest⟩
      · obtain ⟨hbefore, hm, hall⟩ := ih hrest
        refine ⟨hbefore, hm, List.forall_mem_cons.2 ⟨fun hnone => ?_, hall⟩⟩
        rw [hnone] at hsome
        cases hsome
      · obtain ⟨hbefore, hm, hall⟩ := ih hrest
        exact ⟨hbefore, hm, List.forall_mem_cons.2 ⟨fun _ => hderive, hall⟩⟩
      · cases (ih hrest).1

/-- A round that makes progress gives some item its value. -/
theorem scan_progress {items : List ι} {m m' : κ → Option ν} {before : Bool}
    (h : scan R items m before = .ok (m', true)) :
    before = true ∨ ∃ a ∈ items, m (R.key a) = none ∧ (m' (R.key a)).isSome = true := by
  induction items generalizing m before with
  | nil =>
      cases h
      exact .inl rfl
  | cons a items ih =>
      rcases scan_cons h with ⟨_, hrest⟩ | ⟨_, _, hrest⟩ | ⟨v, hnone, _, hrest⟩
      · exact (ih hrest).imp_right fun ⟨b, hb, hadded⟩ => ⟨b, List.mem_cons_of_mem a hb, hadded⟩
      · exact (ih hrest).imp_right fun ⟨b, hb, hadded⟩ => ⟨b, List.mem_cons_of_mem a hb, hadded⟩
      · refine .inr ⟨a, List.mem_cons_self, hnone, ?_⟩
        rw [scan_extends hrest (R.key a) v (Function.update_self ..)]
        rfl

/-! ## The loop ends -/

/-- Every round but the last gives an item its value, so there are few. -/
theorem ends_saturate {items : List ι} {rounds : Nat} {m : κ → Option ν}
    (h : unresolved R items m < rounds) : Ends R items m (saturate R items rounds m) := by
  induction rounds generalizing m with
  | zero => exact absurd h (Nat.not_lt_zero _)
  | succ rounds ih =>
      rw [saturate]
      cases hscan : scan R items m false with
      | error e => exact .threw hscan
      | ok result =>
          obtain ⟨m', progress⟩ := result
          cases progress with
          | false => exact .stop hscan
          | true =>
              rcases scan_progress hscan with hbefore | ⟨a, ha, hnone, hsome⟩
              · cases hbefore
              · have hlt := unresolved_lt (scan_extends hscan) ha hnone hsome
                exact .again hscan (ih (by omega))

/-- The loop does not throw if no item does. -/
theorem ends_ok {items : List ι}
    (h : ∀ a ∈ items, ∀ m : κ → Option ν, ∃ v, R.derive m a = .ok v) {m : κ → Option ν}
    {out : Except ε (κ → Option ν)} (hends : Ends R items m out) : ∃ m', out = .ok m' := by
  have hscan : ∀ {items : List ι} (m : κ → Option ν) (before : Bool),
      (∀ a ∈ items, ∀ m : κ → Option ν, ∃ v, R.derive m a = .ok v) →
      ∃ r, scan R items m before = .ok r := by
    intro items
    induction items with
    | nil => exact fun m before _ => ⟨(m, before), rfl⟩
    | cons a items ih =>
        intro m before h
        have htail := fun m before => ih m before fun b hb => h b (List.mem_cons_of_mem a hb)
        rw [scan]
        split
        · exact htail m before
        · obtain ⟨v, hv⟩ := h a List.mem_cons_self m
          rw [hv]
          cases v with
          | none => exact htail m before
          | some v => exact htail _ true
  induction hends with
  | @threw m e hthrew =>
      obtain ⟨r, hr⟩ := hscan m false h
      rw [hr] at hthrew
      cases hthrew
  | stop _ => exact ⟨_, rfl⟩
  | again _ _ ih => exact ih

/-! ## What it leaves -/

/-- What every addition preserves, the loop does. -/
theorem ends_inv {P : (κ → Option ν) → Prop} {items : List ι}
    (hadd : ∀ (m : κ → Option ν) (a : ι) (v : ν), a ∈ items → P m → m (R.key a) = none →
      R.derive m a = .ok (some v) → P (Function.update m (R.key a) (some v)))
    {m : κ → Option ν} {out : Except ε (κ → Option ν)} (h : Ends R items m out) (hm : P m) :
    ∀ m', out = .ok m' → P m' := by
  induction h with
  | threw _ => exact fun _ hout => nomatch hout
  | stop hscan =>
      rintro m' ⟨⟩
      exact scan_inv (fun _ ha => ha) hadd hscan hm
  | again hscan _ ih => exact ih (scan_inv (fun _ ha => ha) hadd hscan hm)

theorem ends_extends {items : List ι} {m m' : κ → Option ν} (h : Ends R items m (.ok m')) :
    Extends m m' :=
  ends_inv (fun _ _ v _ hm hnone _ => hm.trans (extends_update hnone v)) h (Extends.refl m) m' rfl

/-- Nothing is left to add. -/
theorem ends_quiet {items : List ι} {m m' : κ → Option ν} (h : Ends R items m (.ok m')) :
    ∀ a ∈ items, m' (R.key a) = none → R.derive m' a = .ok none := by
  generalize hout : Except.ok m' = out at h
  induction h with
  | threw _ => cases hout
  | stop hscan =>
      cases hout
      obtain ⟨_, rfl, hquiet⟩ := scan_quiet hscan
      exact hquiet
  | again _ _ ih => exact ih hout

/-- No closed table lacks anything. -/
theorem extends_of_ends {items : List ι} {known m m' : κ → Option ν}
    (h : Ends R items known (.ok m)) (hclosed : Closed R items known m') : Extends m m' := by
  have hadd : ∀ (s : κ → Option ν) (a : ι) (v : ν), a ∈ items →
      (Extends known s ∧ Extends s m') → s (R.key a) = none → R.derive s a = .ok (some v) →
      Extends known (Function.update s (R.key a) (some v)) ∧
        Extends (Function.update s (R.key a) (some v)) m' := by
    intro s a v ha hs hnone hderive
    have hunknown : known (R.key a) = none :=
      Option.eq_none_iff_forall_ne_some.2 fun w hw => by
        rw [hs.1 (R.key a) w hw] at hnone
        cases hnone
    refine ⟨hs.1.trans (extends_update hnone v), fun k w hw => ?_⟩
    by_cases hk : k = R.key a
    · subst hk
      rw [Function.update_self] at hw
      cases hw
      exact hclosed.derived a ha hunknown v (R.mono hs.2 hderive)
    · rw [Function.update_of_ne hk] at hw
      exact hs.2 k w hw
  exact (ends_inv hadd h ⟨Extends.refl known, hclosed.keeps⟩ m rfl).2

/-- With one item for a key, the table that is left is closed. -/
theorem closed_of_ends {items : List ι} (hkeys : (items.map R.key).Nodup)
    {known m : κ → Option ν} (h : Ends R items known (.ok m)) : Closed R items known m := by
  -- whatever was added is still derived for its key
  have hadd : ∀ (s : κ → Option ν) (a : ι) (v : ν), a ∈ items →
      (∀ k w, s k = some w →
        known k = some w ∨ ∃ b ∈ items, R.key b = k ∧ R.derive s b = .ok (some w)) →
      s (R.key a) = none → R.derive s a = .ok (some v) →
      ∀ k w, Function.update s (R.key a) (some v) k = some w →
        known k = some w ∨ ∃ b ∈ items, R.key b = k ∧
          R.derive (Function.update s (R.key a) (some v)) b = .ok (some w) := by
    intro s a v ha hs hnone hderive k w hw
    have hextends := extends_update hnone v
    by_cases hk : k = R.key a
    · subst hk
      rw [Function.update_self] at hw
      cases hw
      exact .inr ⟨a, ha, rfl, R.mono hextends hderive⟩
    · rw [Function.update_of_ne hk] at hw
      exact (hs k w hw).imp_right fun ⟨b, hb, hkey, hb'⟩ => ⟨b, hb, hkey, R.mono hextends hb'⟩
  have hjustified := ends_inv hadd h (fun k w hw => .inl hw) m rfl
  refine ⟨ends_extends h, fun a ha hunknown v hderive => ?_⟩
  cases hvalue : m (R.key a) with
  | none =>
      rw [ends_quiet h a ha hvalue] at hderive
      cases hderive
  | some w =>
      rcases hjustified _ w hvalue with hknown | ⟨b, hb, hkey, hb'⟩
      · rw [hunknown] at hknown
        cases hknown
      · obtain rfl := List.inj_on_of_nodup_map hkeys hb ha hkey
        rw [hderive] at hb'
        cases hb'
        rfl

/-- The items may come in any order. -/
theorem ends_unique {items items' : List ι} (hperm : items'.Perm items)
    (hkeys : (items.map R.key).Nodup) {known m m' : κ → Option ν}
    (h : Ends R items known (.ok m)) (h' : Ends R items' known (.ok m')) : m' = m := by
  have hclosed := closed_of_ends hkeys h
  have hclosed' := closed_of_ends ((hperm.map R.key).nodup_iff.2 hkeys) h'
  have hswap : ∀ {s : κ → Option ν}, Closed R items known s ↔ Closed R items' known s := fun {s} =>
    ⟨fun hs => ⟨hs.keeps, fun a ha => hs.derived a (hperm.mem_iff.1 ha)⟩,
      fun hs => ⟨hs.keeps, fun a ha => hs.derived a (hperm.mem_iff.2 ha)⟩⟩
  exact (extends_of_ends h' (hswap.1 hclosed)).antisymm
    (extends_of_ends h (hswap.2 hclosed'))

end Ap3xSolana.Lib.Saturation
