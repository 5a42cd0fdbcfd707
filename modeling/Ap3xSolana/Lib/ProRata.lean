import Mathlib.Algebra.BigOperators.Group.List.Basic
import Mathlib.Algebra.Order.Ring.Int
import Mathlib.Tactic.Linarith
import Mathlib.Tactic.Ring

/-!
# Pro-rata shares rounded down

A whole `amount` is handed out over a list of parts.  A part of weight `w` out
of `total` receives `⌊amount * w / total⌋`.  This file bounds what the parts
receive together and says when the rounding loses nothing.

* `sum_share_mul_le` / `sum_share_mul_ge`: the parts together receive at most
  their exact share, and less than one unit per part below it.
* `sum_share_eq_iff`: nothing is lost to rounding exactly when every part
  divides evenly.
* `share_eq_iff` says which number a share is, `share_share_mul_le` bounds a share
  that is taken of a share.
-/

namespace Ap3xSolana.Lib.ProRata

/-- What a part of weight `weight` receives: truncating integer division, as
`bigint` division rounds. -/
def share (amount total weight : Int) : Int := (amount * weight).tdiv total

theorem share_eq_ediv {amount total weight : Int} (ha : 0 ≤ amount)
    (hw : 0 ≤ weight) : share amount total weight = amount * weight / total :=
  Int.tdiv_eq_ediv_of_nonneg (Int.mul_nonneg ha hw)

theorem share_nonneg {amount total weight : Int} (ha : 0 ≤ amount)
    (ht : 0 < total) (hw : 0 ≤ weight) : 0 ≤ share amount total weight := by
  rw [share_eq_ediv ha hw]
  exact Int.ediv_nonneg (Int.mul_nonneg ha hw) ht.le

/-- A share never exceeds the exact quotient. -/
theorem share_mul_le {amount total weight : Int} (ha : 0 ≤ amount)
    (ht : 0 < total) (hw : 0 ≤ weight) :
    share amount total weight * total ≤ amount * weight := by
  rw [share_eq_ediv ha hw]
  exact Int.ediv_mul_le _ ht.ne'

/-- A share is less than one unit below the exact quotient. -/
theorem lt_share_add_one_mul {amount total weight : Int} (ha : 0 ≤ amount)
    (ht : 0 < total) (hw : 0 ≤ weight) :
    amount * weight < (share amount total weight + 1) * total := by
  rw [share_eq_ediv ha hw]
  exact Int.lt_ediv_add_one_mul_self _ ht

/-- A part no larger than the total receives no more than the amount. -/
theorem share_le_of_le {amount total weight : Int} (ha : 0 ≤ amount)
    (ht : 0 < total) (hw : 0 ≤ weight) (hle : weight ≤ total) :
    share amount total weight ≤ amount := by
  have hmul := share_mul_le ha ht hw
  have hbound : amount * weight ≤ amount * total :=
    Int.mul_le_mul_of_nonneg_left hle ha
  exact Int.le_of_mul_le_mul_right (hmul.trans hbound) ht

variable {ι : Type*}

/-- Parts with positive totals of their own, none below `total`, receive
together at most what their weights are worth at `total`. -/
theorem sum_share_mul_le (amount total : Int) (parts : List ι)
    (totalOf weight : ι → Int) (ha : 0 ≤ amount) (ht : 0 < total)
    (htot : ∀ i ∈ parts, total ≤ totalOf i) (hw : ∀ i ∈ parts, 0 ≤ weight i) :
    (parts.map fun i => share amount (totalOf i) (weight i)).sum * total ≤
      amount * (parts.map weight).sum := by
  induction parts with
  | nil => simp
  | cons i parts ih =>
      have hrest := ih (fun j hj => htot j (by simp [hj]))
        (fun j hj => hw j (by simp [hj]))
      have hti : total ≤ totalOf i := htot i (by simp)
      have hwi : 0 ≤ weight i := hw i (by simp)
      have hi : share amount (totalOf i) (weight i) * totalOf i ≤
          amount * weight i := share_mul_le ha (ht.trans_le hti) hwi
      have hstep : share amount (totalOf i) (weight i) * total ≤
          share amount (totalOf i) (weight i) * totalOf i :=
        Int.mul_le_mul_of_nonneg_left hti
          (share_nonneg ha (ht.trans_le hti) hwi)
      simp only [List.map_cons, List.sum_cons]
      linarith [Int.add_mul (share amount (totalOf i) (weight i))
        (parts.map fun i => share amount (totalOf i) (weight i)).sum total,
        Int.mul_add amount (weight i) (parts.map weight).sum]

/-- Parts of one total receive together less than one unit per part below
their exact share. -/
theorem sum_share_mul_ge (amount total : Int) (parts : List ι)
    (weight : ι → Int) (ha : 0 ≤ amount) (ht : 0 < total)
    (hw : ∀ i ∈ parts, 0 ≤ weight i) :
    amount * (parts.map weight).sum ≤
      ((parts.map fun i => share amount total (weight i)).sum +
        parts.length) * total := by
  induction parts with
  | nil => simp
  | cons i parts ih =>
      have hrest := ih (fun j hj => hw j (by simp [hj]))
      have hi := lt_share_add_one_mul ha ht (hw i (by simp))
      simp only [List.map_cons, List.sum_cons, List.length_cons, Nat.cast_add,
        Nat.cast_one]
      calc
        amount * (weight i + (parts.map weight).sum) =
            amount * weight i + amount * (parts.map weight).sum := by ring
        _ ≤ (share amount total (weight i) + 1) * total +
            ((parts.map fun i => share amount total (weight i)).sum +
              parts.length) * total := by linarith
        _ = _ := by ring

/-- The rounding loses nothing exactly when every part divides evenly. -/
theorem sum_share_eq_iff (amount total : Int) (parts : List ι)
    (weight : ι → Int) (ha : 0 ≤ amount) (ht : 0 < total)
    (hw : ∀ i ∈ parts, 0 ≤ weight i) :
    (parts.map fun i => share amount total (weight i)).sum * total =
        amount * (parts.map weight).sum ↔
      ∀ i ∈ parts, total ∣ amount * weight i := by
  induction parts with
  | nil => simp
  | cons i parts ih =>
      have hwt : ∀ j ∈ parts, 0 ≤ weight j := fun j hj => hw j (by simp [hj])
      have hwi : 0 ≤ weight i := hw i (by simp)
      have hi := share_mul_le ha ht hwi
      have hrest := sum_share_mul_le amount total parts (fun _ => total) weight
        ha ht (fun _ _ => le_rfl) hwt
      have hdvd : share amount total (weight i) * total = amount * weight i ↔
          total ∣ amount * weight i := by
        rw [share_eq_ediv ha hwi]
        exact ⟨fun h => ⟨_, by rw [← h, Int.mul_comm]⟩, Int.ediv_mul_cancel⟩
      rw [List.forall_mem_cons, ← ih hwt, ← hdvd]
      simp only [List.map_cons, List.sum_cons, Int.add_mul, Int.mul_add]
      constructor
      · intro h
        constructor <;> linarith
      · rintro ⟨h₁, h₂⟩
        rw [h₁, h₂]

/-- The share is the largest number whose multiple of the total still fits. -/
theorem share_eq_iff {amount total weight k : Int} (ha : 0 ≤ amount) (ht : 0 < total)
    (hw : 0 ≤ weight) (hk : k * total ≤ amount * weight) :
    share amount total weight = k ↔ amount * weight < (k + 1) * total := by
  rw [share_eq_ediv ha hw]
  constructor
  · intro h
    rw [← h]
    exact Int.lt_ediv_add_one_mul_self _ ht
  · intro h
    have hle : k ≤ amount * weight / total := Int.le_ediv_of_mul_le ht hk
    have hlt : amount * weight / total < k + 1 := Int.ediv_lt_of_lt_mul ht h
    omega

/-- A share of a share is worth no more than the exact quotient of both. -/
theorem share_share_mul_le {basis amount total weight : Int} (hb : 0 ≤ basis)
    (ha : 0 ≤ amount) (ht : 0 < total) (hw : 0 < weight) :
    share basis weight (share amount total weight) * total ≤ basis * amount := by
  have htake := share_nonneg ha ht hw.le
  have hinner := share_mul_le ha ht hw.le
  have houter := share_mul_le hb hw htake
  have hscaled : share basis weight (share amount total weight) * total * weight ≤
      basis * amount * weight := by
    calc
      share basis weight (share amount total weight) * total * weight =
          share basis weight (share amount total weight) * weight * total := by ring
      _ ≤ basis * share amount total weight * total :=
        Int.mul_le_mul_of_nonneg_right houter ht.le
      _ = basis * (share amount total weight * total) := by ring
      _ ≤ basis * (amount * weight) := Int.mul_le_mul_of_nonneg_left hinner hb
      _ = basis * amount * weight := by ring
  exact Int.le_of_mul_le_mul_right hscaled hw

/-- A part `j` of nonnegative weight whose own total exceeds `total` costs the
sum what that part's weight is worth between the two totals. -/
theorem sum_share_mul_add_le_of_mem (amount total : Int) (parts : List ι)
    (totalOf weight : ι → Int) (ha : 0 ≤ amount) (ht : 0 < total)
    (htot : ∀ i ∈ parts, total ≤ totalOf i) (hw : ∀ i ∈ parts, 0 ≤ weight i)
    {j : ι} (hj : j ∈ parts) :
    (parts.map fun i => share amount (totalOf i) (weight i)).sum *
          (total * totalOf j) +
        amount * weight j * (totalOf j - total) ≤
      amount * (parts.map weight).sum * totalOf j := by
  obtain ⟨xs, ys, rfl⟩ := List.append_of_mem hj
  have hTj : 0 < totalOf j := ht.trans_le (htot j hj)
  have hothers := sum_share_mul_le amount total (xs ++ ys) totalOf weight ha ht
    (fun i hi => htot i (by simp at hi ⊢; tauto))
    (fun i hi => hw i (by simp at hi ⊢; tauto))
  have hpart := share_mul_le ha hTj (hw j hj)
  have hothers' := Int.mul_le_mul_of_nonneg_right hothers hTj.le
  have hpart' := Int.mul_le_mul_of_nonneg_right hpart ht.le
  simp only [List.map_append, List.map_cons, List.sum_append, List.sum_cons]
    at hothers' ⊢
  nlinarith only [hothers', hpart']

end Ap3xSolana.Lib.ProRata
