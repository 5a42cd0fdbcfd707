import Ap3xSolana.Lib.Radix

/-!
# Base58

`encode` and `decode` over the Bitcoin alphabet.  Both are the big-integer
loops of the source; `encode_toList` and `decode_digits` say which change of
base they compute, and `decode_encode` follows from the general fact about
changing the base.  They are a bijection between byte strings and strings over
the alphabet; every other string is refused.
-/

namespace Ap3xSolana.Core.Base58

open Ap3xSolana.Lib.Radix

def alphabet : List Char :=
  "123456789ABCDEFGHJKLMNPQRSTUVWXYZabcdefghijkmnopqrstuvwxyz".toList

/-- `ALPHABET[i]`. -/
def alphabetAt (i : Nat) : Char := alphabet.getD i '1'

/-- `DECODE_MAP` with its `-1` entries and everything past ASCII as `none`. -/
def decodeChar (c : Char) : Option Nat :=
  if c.toNat < 128 then alphabet.idxOf? c else none

/-- The `while (n > 0n)` loop of `encode`.  The first argument bounds the number
of turns; `n` turns are always enough. -/
def encodeLoop : Nat → Nat → List Char → List Char
  | 0, _, encoded => encoded
  | turns + 1, n, encoded =>
      if n = 0 then encoded
      else encodeLoop turns (n / 58) (alphabetAt (n % 58) :: encoded)

def encode (bytes : List UInt8) : String :=
  if bytes.length = 0 then ""
  else
    let zeros := (bytes.takeWhile (· = 0)).length
    let n := bytes.foldl (fun n b => n <<< 8 ||| b.toNat) 0
    String.ofList (List.replicate zeros '1' ++ encodeLoop n n [])

inductive Base58Error where
  | invalidCharacter (c : Char) (index : Nat)
  deriving DecidableEq, Repr

def Base58Error.message : Base58Error → String
  | .invalidCharacter c index => s!"invalid base58 character '{c}' at index {index}"

/-- The loop that accumulates `n`, from `index` on. -/
def decodeLoop : List Char → Nat → Nat → Except Base58Error Nat
  | [], _, n => .ok n
  | c :: cs, index, n =>
      match decodeChar c with
      | none => .error (.invalidCharacter c index)
      | some v => decodeLoop cs (index + 1) (n * 58 + v)

/-- The `while (n > 0n)` loop of `decode`, with the same bound. -/
def bytesLoop : Nat → Nat → List UInt8 → List UInt8
  | 0, _, bytes => bytes
  | turns + 1, n, bytes =>
      if n = 0 then bytes
      else bytesLoop turns (n >>> 8) (UInt8.ofNat (n &&& 0xff) :: bytes)

def decode (str : String) : Except Base58Error (List UInt8) := do
  let zeros := (str.toList.takeWhile (· = '1')).length
  let n ← decodeLoop str.toList 0 0
  return List.replicate zeros 0 ++ bytesLoop n n []

/-! ## The change of base behind the two loops -/

theorem digits_step {base n : Nat} (hb : 1 < base) (hn : n ≠ 0) :
    digits base n = digits base (n / base) ++ [n % base] := by
  rw [digits, Nat.digits_def' hb (Nat.pos_of_ne_zero hn), List.reverse_cons, digits]

theorem encodeLoop_eq (turns : Nat) :
    ∀ n (encoded : List Char), n ≤ turns →
      encodeLoop turns n encoded = (digits 58 n).map alphabetAt ++ encoded := by
  induction turns with
  | zero =>
      intro n encoded hn
      obtain rfl : n = 0 := by omega
      simp [encodeLoop, digits]
  | succ turns ih =>
      intro n encoded hn
      by_cases hz : n = 0
      · simp [encodeLoop, hz, digits]
      · rw [encodeLoop, if_neg hz, ih _ _ (by omega), digits_step (by decide) hz]
        simp

theorem bytesLoop_eq (turns : Nat) :
    ∀ n (bytes : List UInt8), n ≤ turns →
      bytesLoop turns n bytes = (digits 256 n).map UInt8.ofNat ++ bytes := by
  induction turns with
  | zero =>
      intro n bytes hn
      obtain rfl : n = 0 := by omega
      simp [bytesLoop, digits]
  | succ turns ih =>
      intro n bytes hn
      have hdiv : n >>> 8 = n / 256 := Nat.shiftRight_eq_div_pow n 8
      have hmod : n &&& 0xff = n % 256 := Nat.and_two_pow_sub_one_eq_mod n 8
      by_cases hz : n = 0
      · simp [bytesLoop, hz, digits]
      · rw [bytesLoop, if_neg hz, hdiv, hmod, ih _ _ (by omega),
          digits_step (by decide) hz]
        simp

theorem foldl_bytes (bytes : List UInt8) :
    bytes.foldl (fun n b => n <<< 8 ||| b.toNat) 0 =
      value 256 (bytes.map UInt8.toNat) := by
  have hstep : ∀ (n : Nat) (b : UInt8), n <<< 8 ||| b.toNat = n * 256 + b.toNat := by
    intro n b
    rw [← Nat.shiftLeft_add_eq_or_of_lt b.toNat_lt, Nat.shiftLeft_eq]
  simp only [hstep, value, List.foldl_map]

theorem decodeChar_alphabetAt {i : Nat} (hi : i < 58) :
    decodeChar (alphabetAt i) = some i := by
  have hall : ∀ i : Fin 58, decodeChar (alphabetAt i) = some i.val := by decide
  exact hall ⟨i, hi⟩

/-- Decoding characters that come from digits never fails. -/
theorem decodeLoop_digits (ds : List Nat) (hlt : ∀ d ∈ ds, d < 58) :
    ∀ index n, decodeLoop (ds.map alphabetAt) index n =
      .ok (ds.foldl (fun n d => n * 58 + d) n) := by
  induction ds with
  | nil => intro _ _; rfl
  | cons d ds ih =>
      intro index n
      rw [List.map_cons, decodeLoop, decodeChar_alphabetAt (hlt d (by simp))]
      exact ih (fun d' h => hlt d' (by simp [h])) _ _

theorem alphabetAt_zero : alphabetAt 0 = '1' := rfl

theorem alphabetAt_eq_one {i : Nat} (hi : i < 58) : alphabetAt i = '1' ↔ i = 0 := by
  have hall : ∀ i : Fin 58, alphabetAt i = '1' ↔ i.val = 0 := by decide
  exact hall ⟨i, hi⟩

theorem takeWhile_alphabetAt (ds : List Nat) (hlt : ∀ d ∈ ds, d < 58) :
    ((ds.map alphabetAt).takeWhile (· = '1')).length = leadingZeros ds := by
  induction ds with
  | nil => rfl
  | cons d ds ih =>
      have hrest := ih fun d' h => hlt d' (by simp [h])
      have hd := alphabetAt_eq_one (hlt d (by simp))
      simp only [leadingZeros] at hrest
      by_cases hz : d = 0
      · subst hz
        simp [leadingZeros, alphabetAt_zero, hrest]
      · simp [leadingZeros, hd, hz]

theorem takeWhile_bytes (bytes : List UInt8) :
    (bytes.takeWhile (· = 0)).length = leadingZeros (bytes.map UInt8.toNat) := by
  induction bytes with
  | nil => rfl
  | cons b bytes ih =>
      have hb : b = 0 ↔ b.toNat = 0 := UInt8.toNat_inj.symm
      simp only [leadingZeros] at ih
      by_cases hz : b = 0
      · simp [leadingZeros, hz, ih]
      · simp [leadingZeros, hz, ← hb]

/-- `encode` rewrites the bytes in base 58 and spells the digits out. -/
theorem encode_toList (bytes : List UInt8) :
    (encode bytes).toList =
      (convert 256 58 (bytes.map UInt8.toNat)).map alphabetAt := by
  unfold encode
  split
  · rename_i h
    rw [List.length_eq_zero_iff] at h
    subst h
    simp [convert, leadingZeros, value, digits]
  · rw [String.toList_ofList, encodeLoop_eq _ _ _ (Nat.le_refl _), foldl_bytes,
      takeWhile_bytes]
    simp [convert, alphabetAt_zero]

/-- `decode` of spelled-out digits rewrites them in base 256. -/
theorem decode_digits {str : String} {ds : List Nat} (hlt : ∀ d ∈ ds, d < 58)
    (hstr : str.toList = ds.map alphabetAt) :
    decode str = .ok ((convert 58 256 ds).map UInt8.ofNat) := by
  have hloop := decodeLoop_digits ds hlt 0 0
  simp only [decode, hstr, takeWhile_alphabetAt ds hlt, hloop, bind, Except.bind,
    pure, Except.pure, bytesLoop_eq _ _ _ (Nat.le_refl _), convert, value,
    List.map_append, List.map_replicate, List.append_nil]
  rfl

theorem convert_lt {b c d : Nat} (hc : 1 < c) {ds : List Nat}
    (h : d ∈ convert b c ds) : d < c := by
  rcases List.mem_append.1 h with h | h
  · rw [(List.mem_replicate.1 h).2]
    omega
  · exact digits_lt hc h

/-- Decoding an encoding gives the bytes back. -/
theorem decode_encode (bytes : List UInt8) : decode (encode bytes) = .ok bytes := by
  have hlt : ∀ d ∈ bytes.map UInt8.toNat, d < 256 := by
    intro d hd
    obtain ⟨b, -, rfl⟩ := List.mem_map.1 hd
    exact b.toNat_lt
  rw [decode_digits (fun d hd => convert_lt (by decide) hd) (encode_toList bytes),
    convert_convert 58 (by decide) hlt, List.map_map]
  have hid : UInt8.ofNat ∘ UInt8.toNat = id := funext fun b => UInt8.ofNat_toNat
  rw [hid, List.map_id]

theorem encode_injective {bytes bytes' : List UInt8}
    (h : encode bytes = encode bytes') : bytes = bytes' := by
  have hdec := decode_encode bytes
  rw [h, decode_encode] at hdec
  exact (Except.ok.inj hdec).symm

theorem alphabetAt_of_decodeChar {c : Char} {v : Nat} (h : decodeChar c = some v) :
    v < 58 ∧ alphabetAt v = c := by
  unfold decodeChar at h
  split at h
  · obtain ⟨hv, heq, -⟩ := List.findIdx?_eq_some_iff_getElem.1 h
    have hlen : alphabet.length = 58 := by decide
    refine ⟨by omega, ?_⟩
    rw [alphabetAt, List.getD_eq_getElem?_getD, List.getElem?_eq_getElem hv,
      Option.getD_some]
    exact eq_of_beq heq
  · simp at h

/-- A string that decodes is spelled-out digits. -/
theorem digits_of_decodeLoop {cs : List Char} {index n r : Nat}
    (h : decodeLoop cs index n = .ok r) :
    ∃ ds : List Nat, (∀ d ∈ ds, d < 58) ∧ cs = ds.map alphabetAt := by
  induction cs generalizing index n with
  | nil => exact ⟨[], by simp, rfl⟩
  | cons c cs ih =>
      simp only [decodeLoop] at h
      split at h
      · cases h
      · rename_i v hv
        obtain ⟨hlt, hc⟩ := alphabetAt_of_decodeChar hv
        obtain ⟨ds, hds, hcs⟩ := ih h
        exact ⟨v :: ds, by simpa using ⟨hlt, hds⟩, by rw [List.map_cons, hc, hcs]⟩

/-- Encoding what a string decodes to gives the string back. -/
theorem encode_decode {str : String} {bytes : List UInt8}
    (h : decode str = .ok bytes) : encode bytes = str := by
  have hloop : ∃ n, decodeLoop str.toList 0 0 = .ok n := by
    cases hn : decodeLoop str.toList 0 0 with
    | error e => simp [decode, hn, bind, Except.bind] at h
    | ok n => exact ⟨n, rfl⟩
  obtain ⟨n, hn⟩ := hloop
  obtain ⟨ds, hds, hstr⟩ := digits_of_decodeLoop hn
  have hdec := decode_digits hds hstr
  rw [hdec] at h
  cases h
  rw [← String.toList_inj, encode_toList, hstr, List.map_map]
  have hnat : (convert 58 256 ds).map (UInt8.toNat ∘ UInt8.ofNat) =
      convert 58 256 ds := by
    conv_rhs => rw [← List.map_id (convert 58 256 ds)]
    refine List.map_congr_left fun d hd => ?_
    simp only [Function.comp, UInt8.toNat_ofNat', id]
    exact Nat.mod_eq_of_lt (convert_lt (by decide) hd)
  rw [hnat, convert_convert 256 (by decide) hds]

theorem toNat_lt_of_mem_alphabet {c : Char} (h : c ∈ alphabet) : c.toNat < 128 := by
  have hall : alphabet.all (fun c => decide (c.toNat < 128)) = true := by decide
  exact of_decide_eq_true (List.all_eq_true.1 hall c h)

theorem decodeChar_eq_none {c : Char} : decodeChar c = none ↔ c ∉ alphabet := by
  unfold decodeChar
  by_cases hascii : c.toNat < 128
  · rw [if_pos hascii]
    exact List.idxOf?_eq_none_iff
  · rw [if_neg hascii]
    have hnot : c ∉ alphabet := fun h => hascii (toNat_lt_of_mem_alphabet h)
    simp [hnot]

/-- The loop gets through a string over the alphabet, whatever it has accumulated. -/
theorem decodeLoop_of_alphabet {cs : List Char} (h : ∀ c ∈ cs, c ∈ alphabet) :
    ∀ index n, ∃ r, decodeLoop cs index n = .ok r := by
  induction cs with
  | nil => exact fun _ n => ⟨n, rfl⟩
  | cons c cs ih =>
      intro index n
      have hc : c ∈ alphabet := h c List.mem_cons_self
      cases hv : decodeChar c with
      | none => exact absurd hc (decodeChar_eq_none.1 hv)
      | some v =>
          obtain ⟨r, hr⟩ := ih (fun c' hc' => h c' (List.mem_cons_of_mem c hc')) (index + 1)
            (n * 58 + v)
          refine ⟨r, ?_⟩
          simp only [decodeLoop, hv]
          exact hr

theorem alphabet_of_decodeLoop {cs : List Char} {index n r : Nat}
    (h : decodeLoop cs index n = .ok r) : ∀ c ∈ cs, c ∈ alphabet := by
  induction cs generalizing index n with
  | nil => exact fun c hc => absurd hc List.not_mem_nil
  | cons c cs ih =>
      intro c' hc'
      cases hv : decodeChar c with
      | none =>
          simp only [decodeLoop, hv] at h
          cases h
      | some v =>
          simp only [decodeLoop, hv] at h
          rcases List.mem_cons.1 hc' with rfl | hc'
          · by_contra hnot
            rw [decodeChar_eq_none.2 hnot] at hv
            cases hv
          · exact ih h c' hc'

/-- `decode` succeeds on the strings over the alphabet and on no others. -/
theorem decode_ok_iff (s : String) :
    (∃ bytes, decode s = .ok bytes) ↔ ∀ c ∈ s.toList, c ∈ alphabet := by
  constructor
  · rintro ⟨bytes, h⟩
    cases hn : decodeLoop s.toList 0 0 with
    | error e =>
        simp only [decode, hn, bind, Except.bind] at h
        cases h
    | ok n => exact alphabet_of_decodeLoop hn
  · intro h
    obtain ⟨n, hn⟩ := decodeLoop_of_alphabet h 0 0
    simp only [decode, hn, bind, Except.bind]
    exact ⟨_, rfl⟩

/-- The two functions undo each other, and what does not come from bytes is refused. -/
theorem base58_bijection :
    (∀ bytes, decode (encode bytes) = .ok bytes) ∧
    (∀ s : String, (∀ c ∈ s.toList, c ∈ alphabet) →
      ∃ bytes, decode s = .ok bytes ∧ encode bytes = s) ∧
    ∀ s : String, (∃ e, decode s = .error e) ↔ ∃ c ∈ s.toList, c ∉ alphabet := by
  refine ⟨decode_encode, ?_, ?_⟩
  · intro s hs
    obtain ⟨bytes, hbytes⟩ := (decode_ok_iff s).2 hs
    exact ⟨bytes, hbytes, encode_decode hbytes⟩
  · intro s
    have hok := decode_ok_iff s
    cases hdec : decode s with
    | error e =>
        rw [hdec] at hok
        have hnot : ¬ ∀ c ∈ s.toList, c ∈ alphabet := by
          intro hall
          obtain ⟨bytes, hbytes⟩ := hok.2 hall
          cases hbytes
        have hout : ∃ c ∈ s.toList, c ∉ alphabet := by
          by_contra hnone
          apply hnot
          intro c hc
          by_contra hc'
          exact hnone ⟨c, hc, hc'⟩
        exact ⟨fun _ => hout, fun _ => ⟨e, rfl⟩⟩
    | ok bytes =>
        rw [hdec] at hok
        have hall := hok.1 ⟨bytes, rfl⟩
        constructor
        · rintro ⟨e, he⟩
          cases he
        · rintro ⟨c, hc, hout⟩
          exact absurd (hall c hc) hout

end Ap3xSolana.Core.Base58
