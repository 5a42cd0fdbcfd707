import Ap3xSolana.Events.ParseLogs

/-!
# Base64

What the runtime prints, and that `decodeBase64Data` reads it back.
-/

namespace Ap3xSolana.Events

def base64Digit (n : Nat) : Char := base64Alphabet.getD n '='

/-- Three bytes are four digits. -/
def base64Digits : List UInt8 → List Char
  | a :: b :: c :: rest =>
      let n := a.toNat * 65536 + b.toNat * 256 + c.toNat
      base64Digit (n / 262144) :: base64Digit (n / 4096 % 64) :: base64Digit (n / 64 % 64) ::
        base64Digit (n % 64) :: base64Digits rest
  | [a, b] =>
      let n := a.toNat * 256 + b.toNat
      [base64Digit (n / 1024), base64Digit (n / 16 % 64), base64Digit (n % 16 * 4)]
  | [a] => [base64Digit (a.toNat / 4), base64Digit (a.toNat % 4 * 16)]
  | [] => []

/-- The last group is filled up with `=`. -/
def base64Padding (length : Nat) : List Char := List.replicate ((3 - length % 3) % 3) '='

def encodeBase64 (bytes : List UInt8) : List Char :=
  base64Digits bytes ++ base64Padding bytes.length

/-! ## Digits -/

theorem base64Value_digit {n : Nat} (h : n < 64) : base64Value (base64Digit n) = n := by
  have hall : ∀ n < 64, base64Value (base64Digit n) = n := by decide +kernel
  exact hall n h

theorem isBase64Char_digit {n : Nat} (h : n < 64) : isBase64Char (base64Digit n) = true := by
  have hall : ∀ n < 64, isBase64Char (base64Digit n) = true := by decide +kernel
  exact hall n h

theorem ofNat_eq_of_mod {n : Nat} {b : UInt8} (h : n % 256 = b.toNat) : UInt8.ofNat n = b := by
  apply UInt8.toNat_inj.1
  rw [UInt8.toNat_ofNat']
  exact h

theorem base64Digits_chars (bytes : List UInt8) :
    ∀ c ∈ base64Digits bytes, isBase64Char c = true := by
  induction bytes using base64Digits.induct with
  | case1 a b c rest ih =>
      have ha := a.toNat_lt
      have hb := b.toNat_lt
      have hc := c.toNat_lt
      intro d hd
      simp only [base64Digits, List.mem_cons] at hd
      rcases hd with rfl | rfl | rfl | rfl | hd
      · exact isBase64Char_digit (by omega)
      · exact isBase64Char_digit (by omega)
      · exact isBase64Char_digit (by omega)
      · exact isBase64Char_digit (by omega)
      · exact ih d hd
  | case2 a b =>
      have ha := a.toNat_lt
      have hb := b.toNat_lt
      intro d hd
      simp only [base64Digits, List.mem_cons, List.not_mem_nil, or_false] at hd
      rcases hd with rfl | rfl | rfl
      · exact isBase64Char_digit (by omega)
      · exact isBase64Char_digit (by omega)
      · exact isBase64Char_digit (by omega)
  | case3 a =>
      have ha := a.toNat_lt
      intro d hd
      simp only [base64Digits, List.mem_cons, List.not_mem_nil, or_false] at hd
      rcases hd with rfl | rfl
      · exact isBase64Char_digit (by omega)
      · exact isBase64Char_digit (by omega)
  | case4 => exact nofun

theorem base64Bytes_digits (bytes : List UInt8) : base64Bytes (base64Digits bytes) = bytes := by
  induction bytes using base64Digits.induct with
  | case1 a b c rest ih =>
      have ha := a.toNat_lt
      have hb := b.toNat_lt
      have hc := c.toNat_lt
      simp only [base64Digits, base64Bytes]
      rw [base64Value_digit (by omega), base64Value_digit (by omega),
        base64Value_digit (by omega), base64Value_digit (by omega), ih,
        ofNat_eq_of_mod (b := a) (by omega), ofNat_eq_of_mod (b := b) (by omega),
        ofNat_eq_of_mod (b := c) (by omega)]
  | case2 a b =>
      have ha := a.toNat_lt
      have hb := b.toNat_lt
      simp only [base64Digits, base64Bytes]
      rw [base64Value_digit (by omega), base64Value_digit (by omega),
        base64Value_digit (by omega), ofNat_eq_of_mod (b := a) (by omega),
        ofNat_eq_of_mod (b := b) (by omega)]
  | case3 a =>
      have ha := a.toNat_lt
      simp only [base64Digits, base64Bytes]
      rw [base64Value_digit (by omega), base64Value_digit (by omega),
        ofNat_eq_of_mod (b := a) (by omega)]
  | case4 => rfl

theorem length_encodeBase64 (bytes : List UInt8) : (encodeBase64 bytes).length % 4 = 0 := by
  unfold encodeBase64 base64Padding
  rw [List.length_append, List.length_replicate]
  induction bytes using base64Digits.induct with
  | case1 a b c rest ih =>
      simp only [base64Digits, List.length_cons]
      omega
  | case2 a b =>
      simp only [base64Digits, List.length_cons, List.length_nil]
  | case3 a =>
      simp only [base64Digits, List.length_cons, List.length_nil]
  | case4 => rfl

theorem encodeBase64_chars (bytes : List UInt8) :
    ∀ c ∈ encodeBase64 bytes, (isBase64Char c || c = '=') = true := by
  intro c hc
  rcases List.mem_append.1 hc with hdigit | hpad
  · rw [base64Digits_chars bytes c hdigit]
    rfl
  · rw [List.eq_of_mem_replicate hpad]
    rfl

theorem encodeBase64_ne_nil {bytes : List UInt8} (h : bytes ≠ []) : encodeBase64 bytes ≠ [] := by
  unfold encodeBase64
  cases bytes with
  | nil => exact absurd rfl h
  | cons a rest =>
      intro hnil
      have hdigits := (List.append_eq_nil_iff.1 hnil).1
      cases rest with
      | nil => cases hdigits
      | cons b rest => cases rest <;> cases hdigits

/-- What the runtime prints is read back. -/
theorem decode_encodeBase64 (bytes : List UInt8) :
    decodeBase64Data (String.ofList (encodeBase64 bytes)) = .ok bytes := by
  have hpad : base64Padding bytes.length = [] ∨ base64Padding bytes.length = ['='] ∨
      base64Padding bytes.length = ['=', '='] := by
    unfold base64Padding
    have hlt : (3 - bytes.length % 3) % 3 < 3 := Nat.mod_lt _ (by decide)
    match (3 - bytes.length % 3) % 3, hlt with
    | 0, _ => exact .inl rfl
    | 1, _ => exact .inr (.inl rfl)
    | 2, _ => exact .inr (.inr rfl)
  have hend : (base64Padding bytes.length).takeWhile isBase64Char = [] ∧
      (base64Padding bytes.length).dropWhile isBase64Char = base64Padding bytes.length := by
    rcases hpad with h | h | h <;> rw [h] <;> exact ⟨rfl, rfl⟩
  have hdrop : (encodeBase64 bytes).dropWhile isBase64Char = base64Padding bytes.length := by
    unfold encodeBase64
    rw [List.dropWhile_append_of_pos (base64Digits_chars bytes), hend.2]
  have htake : (encodeBase64 bytes).takeWhile isBase64Char = base64Digits bytes := by
    unfold encodeBase64
    rw [List.takeWhile_append_of_pos (base64Digits_chars bytes), hend.1, List.append_nil]
  unfold decodeBase64Data
  dsimp only
  rw [String.toList_ofList, hdrop, htake, if_neg (not_not.2 hpad),
    if_neg (not_not.2 (length_encodeBase64 bytes)), base64Bytes_digits]

end Ap3xSolana.Events
