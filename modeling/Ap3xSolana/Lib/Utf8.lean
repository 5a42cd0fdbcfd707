import Mathlib.Data.List.Basic

/-!
# UTF-8

A text is determined by its bytes (`utf8_inj`), and the zero byte stands for NUL and
nothing else (`zero_mem_utf8`).

`decode` reads any bytes, as `TextDecoder` does by default: a byte order mark in front is
dropped, and every sequence that is not UTF-8 is one U+FFFD.  On the bytes of a text
without such a mark it gives the text back (`decode_utf8`).

`decodeFatal` is `TextDecoder` with `fatal`: a sequence that is not UTF-8 is an error, and a
byte order mark in front is still dropped.  The bytes of a text always decode, to the text
without such a mark (`decodeFatal_utf8`).
-/

namespace Ap3xSolana.Lib.Utf8

/-! ## The bytes of a text -/

private theorem toList_loop (bs : ByteArray) (i : Nat) (read : List UInt8) :
    ByteArray.toList.loop bs i read = read.reverse ++ bs.data.toList.drop i := by
  fun_induction ByteArray.toList.loop bs i read with
  | case1 i read hlt ih =>
      have hlt' : i < bs.data.toList.length := hlt
      have hget : bs.get! i = bs.data.toList[i] := by
        show bs.data[i]! = _
        rw [getElem!_pos bs.data i hlt, Array.getElem_toList]
      rw [ih, List.drop_eq_getElem_cons hlt', List.reverse_cons, List.append_assoc, hget]
      rfl
  | case2 i read hge =>
      rw [List.drop_eq_nil_of_le (Nat.le_of_not_lt hge), List.append_nil]

theorem toList_eq (bs : ByteArray) : bs.toList = bs.data.toList := by
  rw [ByteArray.toList, toList_loop]
  rfl

/-- `TextEncoder.encode`. -/
def utf8 (s : String) : List UInt8 := s.toUTF8.toList

theorem utf8_eq (s : String) : utf8 s = s.toList.flatMap String.utf8EncodeChar := by
  rw [utf8, toList_eq, String.toUTF8, ← String.utf8Encode_toList, List.utf8Encode,
    List.toList_data_toByteArray]

theorem utf8_inj {s t : String} (h : utf8 s = utf8 t) : s = t := by
  apply String.toByteArray_inj.1
  apply ByteArray.ext
  apply Array.toList_inj.1
  rw [utf8, utf8, toList_eq, toList_eq] at h
  exact h

theorem utf8EncodeChar_of_lt {c : Char} (h : c.toNat < 128) :
    String.utf8EncodeChar c = [UInt8.ofNat c.toNat] := by
  have hle : c.val.toNat ≤ 127 := Nat.le_of_lt_succ h
  rw [String.utf8EncodeChar]
  exact if_pos hle

/-- A character past ASCII has bytes past ASCII only. -/
theorem le_of_mem_utf8EncodeChar {c : Char} (h : 128 ≤ c.toNat) {b : UInt8}
    (hb : b ∈ String.utf8EncodeChar c) : 128 ≤ b.toNat := by
  have hlt : ¬ c.val.toNat ≤ 127 := Nat.not_le_of_gt h
  have hofNat : ∀ n, 128 ≤ n → n < 256 → 128 ≤ (UInt8.ofNat n).toNat := by
    intro n hge hlt
    rw [UInt8.toNat_ofNat_of_lt' hlt]
    exact hge
  rw [String.utf8EncodeChar] at hb
  rw [if_neg hlt] at hb
  split at hb
  · simp only [List.mem_cons, List.not_mem_nil, or_false] at hb
    rcases hb with rfl | rfl <;> exact hofNat _ (by omega) (by omega)
  · split at hb
    · simp only [List.mem_cons, List.not_mem_nil, or_false] at hb
      rcases hb with rfl | rfl | rfl <;> exact hofNat _ (by omega) (by omega)
    · simp only [List.mem_cons, List.not_mem_nil, or_false] at hb
      rcases hb with rfl | rfl | rfl | rfl <;> exact hofNat _ (by omega) (by omega)

theorem zero_mem_utf8 {s : String} (h : 0 ∈ utf8 s) : '\x00' ∈ s.toList := by
  rw [utf8_eq, List.mem_flatMap] at h
  obtain ⟨c, hc, hzero⟩ := h
  by_cases hascii : c.toNat < 128
  · rw [utf8EncodeChar_of_lt hascii, List.mem_singleton] at hzero
    have hnat : c.toNat = 0 := by
      have h := congrArg UInt8.toNat hzero
      rw [UInt8.toNat_ofNat_of_lt' (show c.toNat < 256 by omega)] at h
      exact h.symm
    have hnul : c = '\x00' := Char.toNat_inj.1 hnat
    exact hnul ▸ hc
  · exact absurd (le_of_mem_utf8EncodeChar (Nat.le_of_not_lt hascii) hzero) (by decide)

/-! ## Reading UTF-8 -/

def replacement : Char := '\uFFFD'

def byteOrderMark : Char := '\uFEFF'

/-- A character that has been started: its bits so far, how many bytes it still needs, and
the bounds of the next one. -/
structure Pending where
  codePoint : Nat
  needed : Nat
  lower : Nat
  upper : Nat

/-- A byte at the start of a character. -/
def lead (b : Nat) : List Char × Option Pending :=
  if b ≤ 0x7F then ([Char.ofNat b], none)
  else if 0xC2 ≤ b ∧ b ≤ 0xDF then ([], some ⟨b - 0xC0, 1, 0x80, 0xBF⟩)
  else if 0xE0 ≤ b ∧ b ≤ 0xEF then
    ([], some ⟨b - 0xE0, 2, if b = 0xE0 then 0xA0 else 0x80, if b = 0xED then 0x9F else 0xBF⟩)
  else if 0xF0 ≤ b ∧ b ≤ 0xF4 then
    ([], some ⟨b - 0xF0, 3, if b = 0xF0 then 0x90 else 0x80, if b = 0xF4 then 0x8F else 0xBF⟩)
  else ([replacement], none)

/-- A byte inside a character.  One out of bounds ends it and starts the next. -/
def follow (p : Pending) (b : Nat) : List Char × Option Pending :=
  if p.lower ≤ b ∧ b ≤ p.upper then
    let codePoint := p.codePoint * 64 + (b - 0x80)
    if p.needed ≤ 1 then ([Char.ofNat codePoint], none)
    else ([], some ⟨codePoint, p.needed - 1, 0x80, 0xBF⟩)
  else (replacement :: (lead b).1, (lead b).2)

def decodeFrom : Option Pending → List UInt8 → List Char
  | none, [] => []
  | some _, [] => [replacement]
  | none, b :: bytes => (lead b.toNat).1 ++ decodeFrom (lead b.toNat).2 bytes
  | some p, b :: bytes => (follow p b.toNat).1 ++ decodeFrom (follow p b.toNat).2 bytes

/-- `new TextDecoder().decode`. -/
def decode (bytes : List UInt8) : String :=
  match decodeFrom none bytes with
  | c :: cs => String.ofList (if c = byteOrderMark then cs else c :: cs)
  | [] => ""

/-! ## One character -/

/-- A byte that can start a character. -/
def Starts (b : Nat) : Prop := b ≤ 0x7F ∨ 0xC2 ≤ b ∧ b ≤ 0xF4

instance (b : Nat) : Decidable (Starts b) := inferInstanceAs (Decidable (_ ∨ _))

/-- A byte that continues one. -/
def Pending.Accepts (p : Pending) (b : Nat) : Prop := p.lower ≤ b ∧ b ≤ p.upper

instance (p : Pending) (b : Nat) : Decidable (p.Accepts b) := inferInstanceAs (Decidable (_ ∧ _))

/-- The bytes lead the decoder through one character, without a mistake on the way. -/
inductive Path (c : Char) : Option Pending → List UInt8 → Prop where
  | single {b : Nat} (hb : b < 256) (hstarts : Starts b) (h : lead b = ([c], none)) :
      Path c none [UInt8.ofNat b]
  | first {b : Nat} {p : Pending} {bytes : List UInt8} (hb : b < 256) (hstarts : Starts b)
      (h : lead b = ([], some p)) (hrest : Path c (some p) bytes) :
      Path c none (UInt8.ofNat b :: bytes)
  | more {p p' : Pending} {b : Nat} {bytes : List UInt8} (hb : b < 256) (haccepts : p.Accepts b)
      (h : follow p b = ([], some p')) (hrest : Path c (some p') bytes) :
      Path c (some p) (UInt8.ofNat b :: bytes)
  | last {p : Pending} {b : Nat} (hb : b < 256) (haccepts : p.Accepts b)
      (h : follow p b = ([c], none)) : Path c (some p) [UInt8.ofNat b]

theorem path_more {c : Char} {p : Pending} {b : Nat} {bytes : List UInt8} (hb : b < 256)
    (haccepts : p.Accepts b) (hneeded : 1 < p.needed)
    (hrest : Path c (some ⟨p.codePoint * 64 + (b - 0x80), p.needed - 1, 0x80, 0xBF⟩) bytes) :
    Path c (some p) (UInt8.ofNat b :: bytes) := by
  apply Path.more hb haccepts _ hrest
  have hin : p.lower ≤ b ∧ b ≤ p.upper := haccepts
  rw [follow, if_pos hin]
  exact if_neg (Nat.not_le_of_gt hneeded)

theorem path_last {c : Char} {p : Pending} {b : Nat} (hb : b < 256) (haccepts : p.Accepts b)
    (hneeded : p.needed = 1) (hc : p.codePoint * 64 + (b - 0x80) = c.toNat) :
    Path c (some p) [UInt8.ofNat b] := by
  apply Path.last hb haccepts
  have hin : p.lower ≤ b ∧ b ≤ p.upper := haccepts
  rw [follow, if_pos hin]
  show (if p.needed ≤ 1 then ([Char.ofNat (p.codePoint * 64 + (b - 0x80))], none) else _) = _
  rw [if_pos (Nat.le_of_eq hneeded), hc, Char.ofNat_toNat]

theorem valid_toNat (c : Char) : c.toNat < 0xD800 ∨ 0xDFFF < c.toNat ∧ c.toNat < 0x110000 :=
  c.valid

theorem utf8EncodeChar_toNat (c : Char) : String.utf8EncodeChar c =
    if c.toNat ≤ 127 then [UInt8.ofNat c.toNat]
    else if c.toNat ≤ 2047 then
      [UInt8.ofNat (c.toNat / 64 % 32 + 192), UInt8.ofNat (c.toNat % 64 + 128)]
    else if c.toNat ≤ 65535 then
      [UInt8.ofNat (c.toNat / 4096 % 16 + 224), UInt8.ofNat (c.toNat / 64 % 64 + 128),
        UInt8.ofNat (c.toNat % 64 + 128)]
    else
      [UInt8.ofNat (c.toNat / 262144 % 8 + 240), UInt8.ofNat (c.toNat / 4096 % 64 + 128),
        UInt8.ofNat (c.toNat / 64 % 64 + 128), UInt8.ofNat (c.toNat % 64 + 128)] := rfl

/-- The encoding of a character leads through it. -/
theorem path_utf8EncodeChar (c : Char) : Path c none (String.utf8EncodeChar c) := by
  have hvalid := valid_toNat c
  rw [utf8EncodeChar_toNat]
  by_cases h1 : c.toNat ≤ 127
  · rw [if_pos h1]
    apply Path.single (by omega) (.inl h1)
    rw [lead, if_pos h1, Char.ofNat_toNat]
  rw [if_neg h1]
  by_cases h2 : c.toNat ≤ 2047
  · rw [if_pos h2]
    have hlead : lead (c.toNat / 64 % 32 + 192) =
        ([], some ⟨c.toNat / 64 % 32 + 192 - 0xC0, 1, 0x80, 0xBF⟩) := by
      rw [lead, if_neg (by omega), if_pos (by omega)]
    apply Path.first (by omega) (.inr (by omega)) hlead
    apply path_last (by omega) _ rfl
    · dsimp only
      omega
    · show _ ∧ _
      dsimp only
      omega
  rw [if_neg h2]
  by_cases h3 : c.toNat ≤ 65535
  · rw [if_pos h3]
    have hlead : lead (c.toNat / 4096 % 16 + 224) = ([], some ⟨c.toNat / 4096 % 16 + 224 - 0xE0, 2,
        if c.toNat / 4096 % 16 + 224 = 0xE0 then 0xA0 else 0x80,
        if c.toNat / 4096 % 16 + 224 = 0xED then 0x9F else 0xBF⟩) := by
      rw [lead, if_neg (by omega), if_neg (by omega), if_pos (by omega)]
    apply Path.first (by omega) (.inr (by omega)) hlead
    apply path_more (by omega) _ (Nat.lt_succ_self 1)
    · apply path_last (by omega) _ rfl
      · dsimp only
        omega
      · show _ ∧ _
        dsimp only
        omega
    · show _ ∧ _
      dsimp only
      -- U+0800 is the first character of three bytes, and the surrogates are none.
      split <;> split <;> omega
  · rw [if_neg h3]
    have hlead : lead (c.toNat / 262144 % 8 + 240) =
        ([], some ⟨c.toNat / 262144 % 8 + 240 - 0xF0, 3,
          if c.toNat / 262144 % 8 + 240 = 0xF0 then 0x90 else 0x80,
          if c.toNat / 262144 % 8 + 240 = 0xF4 then 0x8F else 0xBF⟩) := by
      rw [lead, if_neg (by omega), if_neg (by omega), if_neg (by omega), if_pos (by omega)]
    apply Path.first (by omega) (.inr (by omega)) hlead
    apply path_more (by omega) _ (show 1 < 3 by decide)
    · apply path_more (by omega) _ (Nat.lt_succ_self 1)
      · apply path_last (by omega) _ rfl
        · dsimp only
          omega
        · show _ ∧ _
          dsimp only
          omega
      · show _ ∧ _
        dsimp only
        omega
    · show _ ∧ _
      dsimp only
      -- U+10000 is the first character of four bytes, U+10FFFF the last.
      split <;> split <;> omega

theorem decodeFrom_path {c : Char} {start : Option Pending} {part : List UInt8}
    (h : Path c start part) (bytes : List UInt8) :
    decodeFrom start (part ++ bytes) = c :: decodeFrom none bytes := by
  induction h with
  | single hb _ h =>
      show (lead (UInt8.ofNat _).toNat).1 ++ decodeFrom (lead (UInt8.ofNat _).toNat).2 bytes = _
      rw [UInt8.toNat_ofNat_of_lt' hb, h]
      rfl
  | first hb _ h _ ih =>
      show (lead (UInt8.ofNat _).toNat).1 ++ decodeFrom (lead (UInt8.ofNat _).toNat).2 _ = _
      rw [UInt8.toNat_ofNat_of_lt' hb, h]
      exact ih
  | more hb _ h _ ih =>
      show (follow _ (UInt8.ofNat _).toNat).1 ++
        decodeFrom (follow _ (UInt8.ofNat _).toNat).2 _ = _
      rw [UInt8.toNat_ofNat_of_lt' hb, h]
      exact ih
  | last hb _ h =>
      show (follow _ (UInt8.ofNat _).toNat).1 ++
        decodeFrom (follow _ (UInt8.ofNat _).toNat).2 bytes = _
      rw [UInt8.toNat_ofNat_of_lt' hb, h]
      rfl

/-- The bytes of a character are read back, whatever follows. -/
theorem decodeFrom_char (c : Char) (bytes : List UInt8) :
    decodeFrom none (String.utf8EncodeChar c ++ bytes) = c :: decodeFrom none bytes :=
  decodeFrom_path (path_utf8EncodeChar c) bytes

/-! ## Texts -/

theorem decodeFrom_utf8 (s : String) : decodeFrom none (utf8 s) = s.toList := by
  have hchars : ∀ cs : List Char, decodeFrom none (cs.flatMap String.utf8EncodeChar) = cs := by
    intro cs
    induction cs with
    | nil => rfl
    | cons c cs ih =>
        rw [List.flatMap_cons, decodeFrom_char, ih]
  rw [utf8_eq, hchars]

theorem decode_utf8 {s : String} (h : s.toList.head? ≠ some byteOrderMark) :
    decode (utf8 s) = s := by
  rw [decode, decodeFrom_utf8]
  cases hs : s.toList with
  | nil => exact (String.toList_eq_nil_iff.1 hs).symm
  | cons c cs =>
      have hc : c ≠ byteOrderMark := by
        rw [hs] at h
        exact fun heq => h (congrArg some heq)
      show String.ofList (if c = byteOrderMark then cs else c :: cs) = s
      rw [if_neg hc, ← hs, String.ofList_toList]

/-! ## Refusing what is not UTF-8 -/

def decodeFatalFrom : Option Pending → List UInt8 → Option (List Char)
  | none, [] => some []
  | some _, [] => none
  | none, b :: bytes =>
      if Starts b.toNat then
        (decodeFatalFrom (lead b.toNat).2 bytes).map ((lead b.toNat).1 ++ ·)
      else none
  | some p, b :: bytes =>
      if p.Accepts b.toNat then
        (decodeFatalFrom (follow p b.toNat).2 bytes).map ((follow p b.toNat).1 ++ ·)
      else none

/-- A text without a byte order mark in front. -/
def dropMark (cs : List Char) : List Char :=
  match cs with
  | c :: rest => if c = byteOrderMark then rest else c :: rest
  | [] => []

/-- `new TextDecoder('utf-8', { fatal: true }).decode`; `none` is its `TypeError`. -/
def decodeFatal (bytes : List UInt8) : Option String :=
  (decodeFatalFrom none bytes).map fun cs => String.ofList (dropMark cs)

theorem decodeFatalFrom_path {c : Char} {start : Option Pending} {part : List UInt8}
    (h : Path c start part) (bytes : List UInt8) :
    decodeFatalFrom start (part ++ bytes) = (decodeFatalFrom none bytes).map (c :: ·) := by
  induction h with
  | single hb hstarts h =>
      rw [List.singleton_append, decodeFatalFrom, UInt8.toNat_ofNat_of_lt' hb, if_pos hstarts, h]
      rfl
  | first hb hstarts h _ ih =>
      rw [List.cons_append, decodeFatalFrom, UInt8.toNat_ofNat_of_lt' hb, if_pos hstarts, h, ih,
        Option.map_map]
      rfl
  | more hb haccepts h _ ih =>
      rw [List.cons_append, decodeFatalFrom, UInt8.toNat_ofNat_of_lt' hb, if_pos haccepts, h, ih,
        Option.map_map]
      rfl
  | last hb haccepts h =>
      rw [List.singleton_append, decodeFatalFrom, UInt8.toNat_ofNat_of_lt' hb, if_pos haccepts, h]
      rfl

theorem decodeFatalFrom_utf8 (s : String) : decodeFatalFrom none (utf8 s) = some s.toList := by
  have hchars : ∀ cs : List Char,
      decodeFatalFrom none (cs.flatMap String.utf8EncodeChar) = some cs := by
    intro cs
    induction cs with
    | nil => rfl
    | cons c cs ih =>
        rw [List.flatMap_cons, decodeFatalFrom_path (path_utf8EncodeChar c), ih]
        rfl
  rw [utf8_eq, hchars]

theorem decodeFatal_utf8 (s : String) :
    decodeFatal (utf8 s) = some (String.ofList (dropMark s.toList)) := by
  rw [decodeFatal, decodeFatalFrom_utf8]
  rfl

/-- A text comes back exactly if it has no mark to drop. -/
theorem dropMark_eq_iff (s : String) :
    String.ofList (dropMark s.toList) = s ↔ s.toList.head? ≠ some byteOrderMark := by
  rw [← String.toList_inj, String.toList_ofList]
  cases s.toList with
  | nil => simp [dropMark]
  | cons c cs =>
      by_cases hc : c = byteOrderMark
      · have hshort : cs ≠ c :: cs := fun h => by
          have hlen := congrArg List.length h
          rw [List.length_cons] at hlen
          omega
        simp [dropMark, hc] at hshort ⊢
      · simp [dropMark, hc]

end Ap3xSolana.Lib.Utf8
