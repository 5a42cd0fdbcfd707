import Mathlib.Data.Nat.Bitwise
import Mathlib.Tactic.Ring

/-!
# compact-u16

The shortvec length prefix: seven bits a byte, low group first, at most three
bytes.  `decode_encode` reads a prefix back wherever it stands in a buffer.
`decode` caps the number of bytes at three, not the value: the third byte adds up to
`127 * 2^14`, so a value beyond u16 is read whenever that byte is at least 4.
-/

namespace Ap3xSolana.Core.CompactU16

def maxValue : Nat := 0xffff

def maxBytes : Nat := 3

inductive CompactU16Error where
  | outOfRange (n : Nat)
  | truncated (offset size : Nat)
  | exceedsRange
  deriving DecidableEq, Repr

def CompactU16Error.message : CompactU16Error → String
  | .outOfRange n =>
      s!"compact-u16: value out of range — expected integer in [0, 65535], got {n}"
  | .truncated offset size =>
      s!"compact-u16: truncated input — needed byte at offset {offset} but buffer " ++
        s!"length is {size}"
  | .exceedsRange => "compact-u16: value exceeds u16 range — more than 3 bytes"

/-- The `while (rem > 0x7f)` loop; it turns at most `maxBytes - 1` times for a
value in range, so the first argument never runs out. -/
def encodeLoop : Nat → Nat → List UInt8
  | 0, rem => [UInt8.ofNat rem]
  | turns + 1, rem =>
      if rem > 0x7f then
        UInt8.ofNat (rem &&& 0x7f ||| 0x80) :: encodeLoop turns (rem >>> 7)
      else [UInt8.ofNat rem]

def encode (n : Nat) : Except CompactU16Error (List UInt8) :=
  if n > maxValue then .error (.outOfRange n)
  else if n ≤ 0x7f then .ok [UInt8.ofNat n]
  else .ok (encodeLoop (maxBytes - 1) n)

structure CompactU16Decoded where
  value : Nat
  length : Nat
  deriving DecidableEq, Repr

/-- The `for (;;)` loop of `decode`; `turns` counts down from `maxBytes`. -/
def decodeLoop (bytes : List UInt8) (offset : Nat) :
    Nat → Nat → Nat → Nat → Except CompactU16Error CompactU16Decoded
  | 0, _, _, _ => .error .exceedsRange
  | turns + 1, value, shift, length =>
      match bytes[offset + length]? with
      | none => .error (.truncated (offset + length) bytes.length)
      | some byte =>
          let value := value ||| (byte.toNat &&& 0x7f) <<< shift
          if byte.toNat &&& 0x80 = 0 then .ok { value := value, length := length + 1 }
          else if length + 1 ≥ maxBytes then .error .exceedsRange
          else decodeLoop bytes offset turns value (shift + 7) (length + 1)

def decode (bytes : List UInt8) (offset : Nat) :
    Except CompactU16Error CompactU16Decoded :=
  decodeLoop bytes offset maxBytes 0 0 0

/-! ## Round trip -/

theorem and_low (n : Nat) : n &&& 0x7f = n % 128 :=
  Nat.and_two_pow_sub_one_eq_mod n 7

theorem and_high {n : Nat} (hn : n < 256) : n &&& 0x80 = 0 ↔ n < 128 := by
  have hand : n &&& 0x80 = (n.testBit 7).toNat * 128 := Nat.and_two_pow n 7
  have hbit : n.testBit 7 = decide (n / 128 % 2 = 1) :=
    Nat.testBit_eq_decide_div_mod_eq
  rw [hand, hbit]
  by_cases h : n / 128 % 2 = 1
  · have hge : ¬ n < 128 := by omega
    simp [h, hge]
  · have hlt : n < 128 := by omega
    simp [h, hlt]

/-- A byte with the continuation bit. -/
theorem toNat_more (rem : Nat) :
    (UInt8.ofNat (rem &&& 0x7f ||| 0x80)).toNat = rem % 128 + 128 := by
  have hlow : rem % 128 < 2 ^ 7 := Nat.mod_lt _ (by decide)
  have hor : rem % 128 ||| 0x80 = 128 + rem % 128 := by
    rw [Nat.or_comm]
    exact (Nat.shiftLeft_add_eq_or_of_lt hlow 1).symm
  rw [and_low, hor, UInt8.toNat_ofNat']
  omega

theorem or_shift {a b k : Nat} (ha : a < 2 ^ k) : a ||| b <<< k = a + b * 2 ^ k := by
  rw [Nat.or_comm, ← Nat.shiftLeft_add_eq_or_of_lt ha, Nat.shiftLeft_eq, Nat.add_comm]

/-- One turn over a byte that says more bytes follow. -/
theorem decodeLoop_more {bytes : List UInt8} {offset length : Nat}
    (rem turns value shift : Nat)
    (hbyte : bytes[offset + length]? = some (UInt8.ofNat (rem &&& 0x7f ||| 0x80)))
    (hlen : length + 1 < maxBytes) (hvalue : value < 2 ^ shift) :
    decodeLoop bytes offset (turns + 1) value shift length =
      decodeLoop bytes offset turns (value + rem % 128 * 2 ^ shift) (shift + 7)
        (length + 1) := by
  have hhigh : ¬ (UInt8.ofNat (rem &&& 0x7f ||| 0x80)).toNat &&& 0x80 = 0 := by
    rw [and_high (UInt8.toNat_lt _), toNat_more]
    omega
  have hlow : (rem % 128 + 128) % 128 = rem % 128 := by omega
  simp only [decodeLoop, hbyte, hhigh, if_false, ge_iff_le, Nat.not_le.2 hlen]
  rw [and_low, toNat_more, hlow, or_shift hvalue]

/-- The turn over the last byte. -/
theorem decodeLoop_last {bytes : List UInt8} {offset length : Nat}
    (rem turns value shift : Nat)
    (hbyte : bytes[offset + length]? = some (UInt8.ofNat rem)) (hrem : rem < 128)
    (hvalue : value < 2 ^ shift) :
    decodeLoop bytes offset (turns + 1) value shift length =
      .ok { value := value + rem * 2 ^ shift, length := length + 1 } := by
  have hnat : (UInt8.ofNat rem).toNat = rem := by
    rw [UInt8.toNat_ofNat']
    omega
  have hhigh : rem &&& 0x80 = 0 := (and_high (by omega)).2 hrem
  simp only [decodeLoop, hbyte, hnat, hhigh, if_true, and_low,
    Nat.mod_eq_of_lt hrem, or_shift hvalue]

/-- The reading loop on what the writing loop wrote. -/
theorem decodeLoop_encodeLoop (turns : Nat) :
    ∀ (rem value shift length : Nat) (pre post : List UInt8),
    rem < 128 ^ (turns + 1) → length + turns + 1 ≤ maxBytes → value < 2 ^ shift →
    length ≤ pre.length →
    decodeLoop (pre ++ encodeLoop turns rem ++ post) (pre.length - length)
        (turns + 1) value shift length =
      .ok { value := value + rem * 2 ^ shift
            length := length + (encodeLoop turns rem).length } := by
  induction turns with
  | zero =>
      intro rem value shift length pre post hrem _ hvalue hpre
      have hat : pre.length - length + length = pre.length := by omega
      rw [decodeLoop_last rem _ _ _ (by simp [encodeLoop, hat])
        (by simpa using hrem) hvalue]
      rfl
  | succ turns ih =>
      intro rem value shift length pre post hrem hlen hvalue hpre
      have hat : pre.length - length + length = pre.length := by omega
      by_cases hmore : rem > 0x7f
      · have hloop : encodeLoop (turns + 1) rem =
            UInt8.ofNat (rem &&& 0x7f ||| 0x80) :: encodeLoop turns (rem >>> 7) := by
          simp only [encodeLoop, hmore, if_true]
        have hpow : 2 ^ (shift + 7) = 2 ^ shift * 128 := Nat.pow_add 2 shift 7
        have hshift : rem >>> 7 = rem / 128 := Nat.shiftRight_eq_div_pow rem 7
        have hdiv : rem % 128 + rem / 128 * 128 = rem := by omega
        have hvalue' : value + rem % 128 * 2 ^ shift < 2 ^ (shift + 7) := by
          have hlow : rem % 128 * 2 ^ shift ≤ 127 * 2 ^ shift :=
            Nat.mul_le_mul_right _ (by omega)
          omega
        have hrest := ih (rem >>> 7) (value + rem % 128 * 2 ^ shift) (shift + 7)
          (length + 1) (pre ++ [UInt8.ofNat (rem &&& 0x7f ||| 0x80)]) post
          (by rw [hshift]; rw [Nat.pow_succ'] at hrem; omega) (by omega) hvalue'
          (by simp; omega)
        rw [hloop, decodeLoop_more rem _ _ _ (by simp [hat]) (by omega) hvalue]
        simp only [List.append_assoc, List.cons_append, List.nil_append, List.length_append,
          List.length_singleton, Nat.add_sub_add_right] at hrest
        rw [List.append_assoc, List.cons_append, hrest, hshift, List.length_cons, hpow]
        congr 2
        · calc
            value + rem % 128 * 2 ^ shift + rem / 128 * (2 ^ shift * 128) =
                value + (rem % 128 + rem / 128 * 128) * 2 ^ shift := by ring
            _ = value + rem * 2 ^ shift := by rw [hdiv]
        · omega
      · have hloop : encodeLoop (turns + 1) rem = [UInt8.ofNat rem] := by
          simp only [encodeLoop, hmore, if_false]
        rw [hloop, decodeLoop_last rem _ _ _ (by simp [hat]) (by omega) hvalue]
        rfl

theorem encode_eq {n : Nat} {enc : List UInt8} (henc : encode n = .ok enc) :
    n ≤ maxValue ∧ enc = encodeLoop (maxBytes - 1) n := by
  unfold encode at henc
  split at henc
  · simp at henc
  rename_i hmax
  refine ⟨Nat.not_lt.1 hmax, ?_⟩
  split at henc
  · rename_i hsmall
    cases henc
    simp only [maxBytes, encodeLoop, gt_iff_lt, Nat.not_lt.2 hsmall, if_false]
  · cases henc
    rfl

/-- Reading an encoding back, wherever it stands. -/
theorem decode_encode {n : Nat} {enc : List UInt8} (henc : encode n = .ok enc)
    (pre post : List UInt8) :
    decode (pre ++ enc ++ post) pre.length =
      .ok { value := n, length := enc.length } := by
  obtain ⟨hmax, rfl⟩ := encode_eq henc
  have h := decodeLoop_encodeLoop (maxBytes - 1) n 0 0 0 pre post
    (by simp only [maxValue, maxBytes] at *; omega) (by decide) (by decide) (by omega)
  rw [Nat.sub_zero, Nat.zero_add, Nat.zero_add, Nat.pow_zero, Nat.mul_one] at h
  exact h

/-! ## Any prefix

The reader takes longer prefixes than the writer's, too.  What it reads depends on the
bytes it consumes and on nothing else. -/

theorem decodeLoop_local (bytes bytes' : List UInt8) (offset offset' turns : Nat) :
    ∀ (value shift length : Nat) (d : CompactU16Decoded),
    decodeLoop bytes offset turns value shift length = .ok d →
    length < d.length ∧ offset + d.length ≤ bytes.length ∧
      ((∀ i, i < d.length → bytes'[offset' + i]? = bytes[offset + i]?) →
        decodeLoop bytes' offset' turns value shift length = .ok d) := by
  induction turns with
  | zero =>
      intro value shift length d h
      cases h
  | succ turns ih =>
      intro value shift length d h
      unfold decodeLoop at h
      split at h
      · cases h
      · rename_i byte hbyte
        have hlt := (List.getElem?_eq_some_iff.1 hbyte).1
        dsimp only at h
        by_cases hlast : byte.toNat &&& 0x80 = 0
        · rw [if_pos hlast] at h
          cases h
          refine ⟨Nat.lt_succ_self _, hlt, fun hsame => ?_⟩
          simp only [decodeLoop, hsame length (Nat.lt_succ_self _), hbyte, hlast, if_true]
        · rw [if_neg hlast] at h
          by_cases hmax : length + 1 ≥ maxBytes
          · rw [if_pos hmax] at h
            cases h
          · rw [if_neg hmax] at h
            obtain ⟨hlen, hle, hlocal⟩ := ih _ _ _ _ h
            refine ⟨by omega, hle, fun hsame => ?_⟩
            simp only [decodeLoop, hsame length (by omega), hbyte, hlast, hmax, if_false]
            exact hlocal hsame

theorem decode_length_le {bytes : List UInt8} {offset : Nat} {d : CompactU16Decoded}
    (h : decode bytes offset = .ok d) : offset + d.length ≤ bytes.length :=
  (decodeLoop_local bytes bytes offset offset _ _ _ _ _ h).2.1

theorem decode_local {bytes bytes' : List UInt8} {offset offset' : Nat}
    {d : CompactU16Decoded} (h : decode bytes offset = .ok d)
    (hsame : ∀ i, i < d.length → bytes'[offset' + i]? = bytes[offset + i]?) :
    decode bytes' offset' = .ok d :=
  (decodeLoop_local bytes bytes' offset offset' _ _ _ _ _ h).2.2 hsame

/-- A turn over any byte. -/
theorem decodeLoop_byte {bytes : List UInt8} {offset length : Nat} {byte : UInt8}
    (turns value shift : Nat) (hbyte : bytes[offset + length]? = some byte)
    (hvalue : value < 2 ^ shift) :
    decodeLoop bytes offset (turns + 1) value shift length =
      if byte.toNat < 128 then
        .ok { value := value + byte.toNat % 128 * 2 ^ shift, length := length + 1 }
      else if length + 1 ≥ maxBytes then .error .exceedsRange
      else
        decodeLoop bytes offset turns (value + byte.toNat % 128 * 2 ^ shift) (shift + 7)
          (length + 1) := by
  simp only [decodeLoop, hbyte, and_high byte.toNat_lt, and_low, or_shift hvalue]

/-- The three bytes at `offset` are a prefix whose last byte stands for more than two
bits. -/
def LastByteTooLarge (bytes : List UInt8) (offset : Nat) : Prop :=
  ∃ b₀ b₁ b₂ : UInt8, bytes[offset]? = some b₀ ∧ bytes[offset + 1]? = some b₁ ∧
    bytes[offset + 2]? = some b₂ ∧ 128 ≤ b₀.toNat ∧ 128 ≤ b₁.toNat ∧
    4 ≤ b₂.toNat ∧ b₂.toNat < 128

/-- The value of three bytes, the last of them without a continuation bit. -/
theorem decode_of_three {bytes : List UInt8} {offset : Nat} {b₀ b₁ b₂ : UInt8}
    (h₀ : bytes[offset]? = some b₀) (h₁ : bytes[offset + 1]? = some b₁)
    (h₂ : bytes[offset + 2]? = some b₂) (hmore₀ : 128 ≤ b₀.toNat) (hmore₁ : 128 ≤ b₁.toNat)
    (hlast : b₂.toNat < 128) :
    decode bytes offset =
      .ok { value := b₀.toNat % 128 + b₁.toNat % 128 * 2 ^ 7 + b₂.toNat * 2 ^ 14
            length := 3 } := by
  have hlow₀ : b₀.toNat % 128 < 2 ^ 7 := Nat.mod_lt _ (by decide)
  have hlow₁ : b₁.toNat % 128 < 2 ^ 7 := Nat.mod_lt _ (by decide)
  show decodeLoop bytes offset (2 + 1) 0 0 0 = _
  rw [decodeLoop_byte 2 0 0 h₀ (by decide), if_neg (by omega), if_neg (by decide),
    decodeLoop_byte 1 _ _ h₁ (by omega), if_neg (by omega), if_neg (by decide),
    decodeLoop_byte 0 _ _ h₂ (by omega), if_pos hlast, Nat.mod_eq_of_lt hlast]
  congr 2
  omega

/-- A prefix of one or two bytes stays far below the bound, and one of three bytes
exceeds it through its last byte only. -/
theorem value_le_of_decode {bytes : List UInt8} {offset : Nat} {d : CompactU16Decoded}
    (h : decode bytes offset = .ok d) (hlast : ¬ LastByteTooLarge bytes offset) :
    d.value ≤ maxValue := by
  show d.value ≤ 65535
  unfold decode at h
  cases h₀ : bytes[offset]? with
  | none =>
      simp only [maxBytes, decodeLoop, Nat.add_zero, h₀] at h
      cases h
  | some b₀ =>
      have hlow₀ : b₀.toNat % 128 < 2 ^ 7 := Nat.mod_lt _ (by decide)
      rw [show maxBytes = 2 + 1 from rfl, decodeLoop_byte 2 0 0 h₀ (by decide)] at h
      by_cases hmore₀ : b₀.toNat < 128
      · rw [if_pos hmore₀] at h
        cases h
        show 0 + b₀.toNat % 128 * 2 ^ 0 ≤ 65535
        omega
      rw [if_neg hmore₀, if_neg (by decide)] at h
      cases h₁ : bytes[offset + 1]? with
      | none =>
          simp only [decodeLoop, Nat.zero_add, h₁] at h
          cases h
      | some b₁ =>
          have hlow₁ : b₁.toNat % 128 < 2 ^ 7 := Nat.mod_lt _ (by decide)
          rw [decodeLoop_byte 1 _ _ h₁ (by omega)] at h
          by_cases hmore₁ : b₁.toNat < 128
          · rw [if_pos hmore₁] at h
            cases h
            show 0 + b₀.toNat % 128 * 2 ^ 0 + b₁.toNat % 128 * 2 ^ (0 + 7) ≤ 65535
            omega
          rw [if_neg hmore₁, if_neg (by decide)] at h
          cases h₂ : bytes[offset + 2]? with
          | none =>
              simp only [decodeLoop, h₂] at h
              cases h
          | some b₂ =>
              rw [decodeLoop_byte 0 _ _ h₂ (by omega)] at h
              by_cases hmore₂ : b₂.toNat < 128
              · rw [if_pos hmore₂] at h
                cases h
                have hsmall : b₂.toNat < 4 := by
                  by_contra hlarge
                  exact hlast ⟨b₀, b₁, b₂, h₀, h₁, h₂, by omega, by omega, by omega, hmore₂⟩
                show 0 + b₀.toNat % 128 * 2 ^ 0 + b₁.toNat % 128 * 2 ^ (0 + 7) +
                  b₂.toNat % 128 * 2 ^ (0 + 7 + 7) ≤ 65535
                omega
              · rw [if_neg hmore₂, if_pos (by decide)] at h
                cases h

/-- What is read is a u16 and lies in the buffer. -/
def ReadsInRange (bytes : List UInt8) (offset : Nat) : Prop :=
  ∀ d, decode bytes offset = .ok d → d.value ≤ maxValue ∧ offset + d.length ≤ bytes.length

/-- Every encoding is read back, and a reader stays in range on exactly the buffers where
no three-byte prefix ends in a byte of 4 or more. -/
theorem decode_in_range_iff (n : Nat) (bytes : List UInt8) (offset : Nat) :
    (n ≤ maxValue → ∃ enc, encode n = .ok enc ∧ ∀ pre post,
      decode (pre ++ enc ++ post) pre.length = .ok { value := n, length := enc.length }) ∧
    (ReadsInRange bytes offset ↔ ¬ LastByteTooLarge bytes offset) := by
  constructor
  · intro hn
    have henc : ∃ enc, encode n = .ok enc := by
      unfold encode
      rw [if_neg (by omega)]
      split
      · exact ⟨_, rfl⟩
      · exact ⟨_, rfl⟩
    obtain ⟨enc, henc⟩ := henc
    exact ⟨enc, henc, decode_encode henc⟩
  · constructor
    · rintro hrange ⟨b₀, b₁, b₂, h₀, h₁, h₂, hmore₀, hmore₁, hlarge, hlast⟩
      have hvalue := (hrange _ (decode_of_three h₀ h₁ h₂ hmore₀ hmore₁ hlast)).1
      have hbound : b₀.toNat % 128 + b₁.toNat % 128 * 2 ^ 7 + b₂.toNat * 2 ^ 14 ≤ 65535 := hvalue
      omega
    · intro hlast d h
      exact ⟨value_le_of_decode h hlast, decode_length_le h⟩

/-- Three bytes of ones are read as `2^21 - 1`. -/
theorem decode_exceeds_u16 :
    decode [0xff, 0xff, 0x7f] 0 = .ok { value := 2097151, length := 3 } ∧
      ¬ ∀ bytes offset, ReadsInRange bytes offset := by
  have h : decode [0xff, 0xff, 0x7f] 0 = .ok { value := 2097151, length := 3 } := by decide
  refine ⟨h, fun hrange => ?_⟩
  have hle : 2097151 ≤ maxValue := (hrange _ _ _ h).1
  revert hle
  decide

end Ap3xSolana.Core.CompactU16
