import Ap3xSolana.Lib.Separated
import Ap3xSolana.Lib.Utf8

/-!
# Keys of swap intents

`encodeURIComponent` is the percent encoding of the UTF-8 bytes (`encodeURIComponent_eq`),
which can be read back and has no colon in it; so the key can be split again into its
segments.
-/

namespace Ap3xSolana.Trading

open Ap3xSolana.Lib Ap3xSolana.Lib.Utf8

inductive TradeSide where
  | buy
  | sell
  deriving DecidableEq, Repr

def TradeSide.text : TradeSide → String
  | .buy => "buy"
  | .sell => "sell"

structure SwapIntentIdempotencyInput where
  strategyId : String
  tokenMint : String
  side : TradeSide
  triggerKey : String
  deriving DecidableEq, Repr

/-! ## `encodeURIComponent` -/

/-- `A–Z a–z 0–9 - _ . ! ~ * ' ( )` stand for themselves. -/
def isUnescaped (c : Char) : Bool :=
  c.isAlphanum || c ∈ ['-', '_', '.', '!', '~', '*', '\'', '(', ')']

def hexDigits : List Char := "0123456789ABCDEF".toList

def hexDigit (n : Nat) : Char := hexDigits.getD n '0'

def escapeByte (b : UInt8) : List Char :=
  ['%', hexDigit (b.toNat / 16), hexDigit (b.toNat % 16)]

def encodeURIComponent (s : String) : String :=
  String.ofList (s.toList.flatMap fun c =>
    if isUnescaped c then [c] else (String.utf8EncodeChar c).flatMap escapeByte)

def encodeSegment (value : String) : String := encodeURIComponent value

def segments (input : SwapIntentIdempotencyInput) : List String :=
  ["swap-intent", encodeSegment input.strategyId, encodeSegment input.tokenMint,
    input.side.text, encodeSegment input.triggerKey]

def swapIntentIdempotencyKey (input : SwapIntentIdempotencyInput) : String :=
  ":".intercalate (segments input)

example : encodeURIComponent "elite upgrade/123:é" = "elite%20upgrade%2F123%3A%C3%A9" := by
  decide +kernel

/-! ## Reading it back -/

/-- The code word of one byte. -/
def encodeByte (b : UInt8) : List Char :=
  if b.toNat < 128 ∧ isUnescaped (Char.ofNat b.toNat) then [Char.ofNat b.toNat] else escapeByte b

theorem isUnescaped_lt {c : Char} (h : isUnescaped c = true) : c.toNat < 128 := by
  rw [isUnescaped, Bool.or_eq_true, decide_eq_true_eq] at h
  rcases h with h | h
  · change (((decide (_ ∧ _)) || (decide _ && decide _)) || (decide _ && decide _)) = true at h
    simp only [Bool.or_eq_true, Bool.and_eq_true, decide_eq_true_eq] at h
    have hbound : ∀ last : Char, last.toNat < 128 → c ≤ last → c.toNat < 128 :=
      fun last hlast hle => Nat.lt_of_le_of_lt (UInt32.le_iff_toNat_le.1 hle) hlast
    rcases h with (h | h) | h
    · exact hbound 'Z' (by decide) h.2
    · exact hbound 'z' (by decide) h.2
    · exact hbound '9' (by decide) h.2
  · revert h
    simp only [List.mem_cons, List.not_mem_nil, or_false]
    rintro (rfl | rfl | rfl | rfl | rfl | rfl | rfl | rfl | rfl) <;> decide

/-- Character by character or byte by byte: the encoding is the same. -/
theorem encodeChar_eq (c : Char) :
    (if isUnescaped c then [c] else (String.utf8EncodeChar c).flatMap escapeByte) =
      (String.utf8EncodeChar c).flatMap encodeByte := by
  by_cases hascii : c.toNat < 128
  · have hbyte : (UInt8.ofNat c.toNat).toNat = c.toNat :=
      UInt8.toNat_ofNat_of_lt' (show c.toNat < 256 by omega)
    have hchar : Char.ofNat c.toNat = c := Char.ofNat_toNat c
    rw [utf8EncodeChar_of_lt hascii, List.flatMap_singleton, List.flatMap_singleton, encodeByte,
      hbyte, hchar]
    by_cases h : isUnescaped c = true
    · rw [if_pos h, if_pos ⟨hascii, h⟩]
    · rw [if_neg h, if_neg fun hand => h hand.2]
  · rw [if_neg fun h => hascii (isUnescaped_lt h)]
    apply List.flatMap_congr
    intro b hb
    have hle := le_of_mem_utf8EncodeChar (Nat.le_of_not_lt hascii) hb
    rw [encodeByte, if_neg fun hand => Nat.not_lt_of_le hle hand.1]

theorem encodeURIComponent_eq (s : String) :
    (encodeURIComponent s).toList = (utf8 s).flatMap encodeByte := by
  rw [encodeURIComponent, String.toList_ofList, utf8_eq, List.flatMap_assoc]
  exact List.flatMap_congr fun c _ => encodeChar_eq c

theorem hexDigit_inj : ∀ m < 16, ∀ n < 16, hexDigit m = hexDigit n → m = n := by decide

/-- No code word begins another. -/
theorem encodeByte_code (a b : UInt8) (s t : List Char)
    (h : encodeByte a ++ s = encodeByte b ++ t) : a = b := by
  have hpercent : ∀ x : UInt8, isUnescaped (Char.ofNat x.toNat) = true →
      Char.ofNat x.toNat ≠ '%' := by
    intro x hx heq
    rw [heq] at hx
    exact absurd hx (by decide)
  have hchar : ∀ x : UInt8, x.toNat < 128 → (Char.ofNat x.toNat).toNat = x.toNat := by
    intro x hx
    have hvalid : x.toNat.isValidChar := .inl (by omega)
    rw [Char.ofNat, dif_pos hvalid]
    rfl
  unfold encodeByte at h
  by_cases ha : a.toNat < 128 ∧ isUnescaped (Char.ofNat a.toNat) = true
  · rw [if_pos ha] at h
    by_cases hb : b.toNat < 128 ∧ isUnescaped (Char.ofNat b.toNat) = true
    · rw [if_pos hb] at h
      have hhead := congrArg Char.toNat (List.cons.inj h).1
      rw [hchar a ha.1, hchar b hb.1] at hhead
      exact UInt8.toNat_inj.1 hhead
    · rw [if_neg hb] at h
      exact absurd (List.cons.inj h).1 (hpercent a ha.2)
  · rw [if_neg ha] at h
    by_cases hb : b.toNat < 128 ∧ isUnescaped (Char.ofNat b.toNat) = true
    · rw [if_pos hb] at h
      exact absurd (List.cons.inj h).1.symm (hpercent b hb.2)
    · rw [if_neg hb] at h
      have htail := List.cons.inj (List.cons.inj h).2
      have hhigh : a.toNat / 16 = b.toNat / 16 := by
        apply hexDigit_inj _ _ _ _ htail.1
        · have := a.toNat_lt
          omega
        · have := b.toNat_lt
          omega
      have hlow : a.toNat % 16 = b.toNat % 16 :=
        hexDigit_inj _ (Nat.mod_lt _ (by decide)) _ (Nat.mod_lt _ (by decide))
          (List.cons.inj htail.2).1
      apply UInt8.toNat_inj.1
      omega

theorem encodeByte_ne_nil (b : UInt8) : encodeByte b ≠ [] := by
  unfold encodeByte
  split <;> exact List.cons_ne_nil _ _

theorem encodeURIComponent_inj {s t : String}
    (h : encodeURIComponent s = encodeURIComponent t) : s = t := by
  have hlist := congrArg String.toList h
  rw [encodeURIComponent_eq, encodeURIComponent_eq] at hlist
  exact utf8_inj (Separated.flatMap_inj encodeByte_ne_nil encodeByte_code hlist)

theorem colon_notMem_encodeURIComponent (s : String) :
    ':' ∉ (encodeURIComponent s).toList := by
  have hhex : ∀ n < 16, hexDigit n ≠ ':' := by decide
  rw [encodeURIComponent_eq, List.mem_flatMap]
  rintro ⟨b, -, hb⟩
  unfold encodeByte at hb
  split at hb
  · rename_i h
    rw [← List.mem_singleton.1 hb] at h
    exact absurd h.2 (by decide)
  · have hlt := b.toNat_lt
    simp only [escapeByte, List.mem_cons, List.not_mem_nil, or_false] at hb
    rcases hb with hb | hb | hb
    · cases hb
    · exact hhex _ (by omega) hb.symm
    · exact hhex _ (by omega) hb.symm

/-! ## The segments of a key -/

theorem colon_notMem_segments (input : SwapIntentIdempotencyInput) :
    ∀ segment ∈ (segments input).map String.toList, ':' ∉ segment := by
  intro segment h
  simp only [segments, List.map_cons, List.map_nil, List.mem_cons, List.not_mem_nil,
    or_false] at h
  rcases h with rfl | rfl | rfl | rfl | rfl
  · decide
  · exact colon_notMem_encodeURIComponent _
  · exact colon_notMem_encodeURIComponent _
  · cases input.side <;> decide
  · exact colon_notMem_encodeURIComponent _

theorem segments_eq_of_key {i j : SwapIntentIdempotencyInput}
    (h : swapIntentIdempotencyKey i = swapIntentIdempotencyKey j) : segments i = segments j := by
  have hlist := congrArg String.toList h
  rw [swapIntentIdempotencyKey, swapIntentIdempotencyKey, String.toList_intercalate,
    String.toList_intercalate] at hlist
  have hparts := Separated.intercalate_inj (by simp only [List.length_map]; rfl)
    (colon_notMem_segments i) (colon_notMem_segments j) hlist
  exact List.map_injective_iff.2 (fun _ _ => String.toList_inj.1) hparts

theorem segments_inj {i j : SwapIntentIdempotencyInput} (h : segments i = segments j) :
    i = j := by
  obtain ⟨strategyId, tokenMint, side, triggerKey⟩ := i
  obtain ⟨strategyId', tokenMint', side', triggerKey'⟩ := j
  simp only [segments, List.cons.injEq, and_true, true_and] at h
  obtain ⟨hstrategy, hmint, hside, htrigger⟩ := h
  obtain rfl : strategyId = strategyId' := encodeURIComponent_inj hstrategy
  obtain rfl : tokenMint = tokenMint' := encodeURIComponent_inj hmint
  obtain rfl : triggerKey = triggerKey' := encodeURIComponent_inj htrigger
  have hsame : side = side' := by
    cases side <;> cases side' <;> first | rfl | exact absurd hside (by decide)
  rw [hsame]

end Ap3xSolana.Trading
