import Mathlib.Data.List.Basic

/-!
# JSON values

What `JSON.parse` gives, as far as code tells it apart with `typeof`, `Array.isArray` and
property access; and `BigInt(text)`, which reads the integers that JSON carries as texts.
-/

namespace Ap3xSolana.Lib

inductive Json where
  | null
  | boolean (b : Bool)
  | number (n : Rat)
  | string (s : String)
  | array (items : List Json)
  | object (fields : List (String × Json))

namespace Json

/-- `value.name`; none is `undefined`. -/
def field (name : String) : Json → Option Json
  | .object fields => fields.lookup name
  | _ => none

/-- `value && typeof value === 'object'`. -/
def isObject : Json → Bool
  | .array _ => true
  | .object _ => true
  | _ => false

theorem isObject_of_field {name : String} {v x : Json} (h : v.field name = some x) :
    v.isObject = true := by
  cases v <;> first | rfl | cases h

end Json

/-! ## `BigInt(text)` -/

/-- White space and line ends. -/
def isSpace (c : Char) : Bool :=
  c.toNat ∈ [9, 10, 11, 12, 13, 32, 160, 5760, 8232, 8233, 8239, 8287, 12288, 65279] ||
    (8192 ≤ c.toNat && c.toNat ≤ 8202)

def trim (cs : List Char) : List Char :=
  ((cs.dropWhile isSpace).reverse.dropWhile isSpace).reverse

def digitValue (c : Char) : Option Nat :=
  if c.isDigit then some (c.toNat - 48)
  else if 'a' ≤ c ∧ c ≤ 'f' then some (c.toNat - 87)
  else if 'A' ≤ c ∧ c ≤ 'F' then some (c.toNat - 55)
  else none

/-- At least one digit, and all of them below the base. -/
def digitsIn (base : Nat) (cs : List Char) : Option Nat :=
  if cs = [] then none
  else cs.foldlM (fun n c => do
    let d ← digitValue c
    if d < base then some (n * base + d) else none) 0

def integer : List Char → Option Int
  | [] => some 0
  | '0' :: 'x' :: cs => (digitsIn 16 cs).map Int.ofNat
  | '0' :: 'X' :: cs => (digitsIn 16 cs).map Int.ofNat
  | '0' :: 'o' :: cs => (digitsIn 8 cs).map Int.ofNat
  | '0' :: 'O' :: cs => (digitsIn 8 cs).map Int.ofNat
  | '0' :: 'b' :: cs => (digitsIn 2 cs).map Int.ofNat
  | '0' :: 'B' :: cs => (digitsIn 2 cs).map Int.ofNat
  | '+' :: cs => (digitsIn 10 cs).map Int.ofNat
  | '-' :: cs => (digitsIn 10 cs).map fun n => -Int.ofNat n
  | cs => (digitsIn 10 cs).map Int.ofNat

/-- None where it throws a `SyntaxError`. -/
def bigInt (text : String) : Option Int := integer (trim text.toList)

theorem digit_bounds {c : Char} (h : c.isDigit = true) : 48 ≤ c.toNat ∧ c.toNat ≤ 57 := by
  rw [Char.isDigit, Bool.and_eq_true, decide_eq_true_eq, decide_eq_true_eq] at h
  exact ⟨UInt32.le_iff_toNat_le.1 h.1, UInt32.le_iff_toNat_le.1 h.2⟩

theorem not_isSpace_digit {c : Char} (h : c.isDigit = true) : isSpace c = false := by
  have hbounds := digit_bounds h
  rw [isSpace, Bool.or_eq_false_iff, Bool.and_eq_false_iff]
  constructor
  · rw [decide_eq_false_iff_not]
    simp only [List.mem_cons, List.not_mem_nil, or_false]
    omega
  · left
    rw [decide_eq_false_iff_not]
    omega

theorem dropWhile_digits {cs : List Char} (h : ∀ c ∈ cs, c.isDigit = true) :
    cs.dropWhile isSpace = cs := by
  cases cs with
  | nil => rfl
  | cons c cs =>
      rw [List.dropWhile_cons, not_isSpace_digit (h c List.mem_cons_self)]
      rfl

theorem trim_digits {cs : List Char} (h : ∀ c ∈ cs, c.isDigit = true) : trim cs = cs := by
  have hreverse : ∀ c ∈ cs.reverse, c.isDigit = true := fun c hc => h c (List.mem_reverse.1 hc)
  rw [trim, dropWhile_digits h, dropWhile_digits hreverse, List.reverse_reverse]

theorem digitsIn_digits {cs : List Char} (hne : cs ≠ []) (h : ∀ c ∈ cs, c.isDigit = true) :
    digitsIn 10 cs = some (Nat.ofDigitChars 10 cs 0) := by
  have hfold : ∀ (cs : List Char) (n : Nat), (∀ c ∈ cs, c.isDigit = true) →
      cs.foldlM (fun n c => do
        let d ← digitValue c
        if d < 10 then some (n * 10 + d) else none) n = some (Nat.ofDigitChars 10 cs n) := by
    intro cs
    induction cs with
    | nil => exact fun n _ => rfl
    | cons c cs ih =>
        intro n hdigits
        have hc := hdigits c List.mem_cons_self
        have hbounds := digit_bounds hc
        have hvalue : digitValue c = some (c.toNat - 48) := if_pos hc
        have hlt : c.toNat - 48 < 10 := by omega
        rw [List.foldlM_cons, hvalue]
        show (if c.toNat - 48 < 10 then some (n * 10 + (c.toNat - 48)) else none) >>= _ = _
        rw [if_pos hlt, Nat.ofDigitChars_cons, Nat.mul_comm]
        exact ih _ fun d hd => hdigits d (List.mem_cons_of_mem _ hd)
  rw [digitsIn, if_neg hne]
  exact hfold cs 0 h

/-- No digit is a sign or the letter of a base. -/
theorem integer_digits {cs : List Char} (hne : cs ≠ []) (h : ∀ c ∈ cs, c.isDigit = true) :
    integer cs = (digitsIn 10 cs).map Int.ofNat := by
  unfold integer
  split
  · exact absurd rfl hne
  all_goals first
    | rfl
    | exact absurd (h _ (List.mem_cons_of_mem _ List.mem_cons_self)) (by decide)
    | exact absurd (h _ List.mem_cons_self) (by decide)

/-- What `toString` prints is read back. -/
theorem bigInt_toString (n : Nat) : bigInt (toString n) = some (n : Int) := by
  have htext : (toString n).toList = Nat.toDigits 10 n := Nat.toList_repr
  have hdigits : ∀ c ∈ Nat.toDigits 10 n, c.isDigit = true := fun c hc =>
    Nat.isDigit_of_mem_toDigits (by decide) (by decide) hc
  rw [bigInt, htext, trim_digits hdigits, integer_digits Nat.toDigits_ne_nil hdigits,
    digitsIn_digits Nat.toDigits_ne_nil hdigits, Nat.ofDigitChars_ten_toDigits]
  rfl

end Ap3xSolana.Lib
