import Ap3xSolana.Core.PublicKey
import Ap3xSolana.Events.ParseLogs
import Ap3xSolana.Lib.Separated
import Ap3xSolana.Lib.Utf8

/-!
# Signals

A signal id is `base58(sha256(signature NUL programId NUL kind NUL logIndex))`.  A program id
is 32 bytes, any of which may be zero; a kind may contain NUL too.  `hashedBytes_inj` reads
the fields back all the same.  The hash is a library function of the source, here a
parameter.

`δ` is the type of the decoded events that the signals carry.
-/

/-! ## Signal ids -/

namespace Ap3xSolana.Signals.SignalId

open Ap3xSolana.Core Ap3xSolana.Lib Ap3xSolana.Lib.Utf8

structure SignalIdInput where
  signature : String
  programId : PublicKey
  kind : String
  logIndex : Nat
  deriving DecidableEq, Repr

/-- The four fields with a NUL byte between them. -/
def hashedBytes (input : SignalIdInput) : List UInt8 :=
  [0].intercalate
    [utf8 input.signature, input.programId.bytes, utf8 input.kind, utf8 (toString input.logIndex)]

def signalId (sha256 : List UInt8 → List UInt8) (input : SignalIdInput) : String :=
  Base58.encode (sha256 (hashedBytes input))

theorem hashedBytes_eq (input : SignalIdInput) :
    hashedBytes input = utf8 input.signature ++ 0 :: (input.programId.bytes ++
      0 :: (utf8 input.kind ++ 0 :: utf8 (toString input.logIndex))) := by
  simp [hashedBytes, List.intercalate, List.intersperse]

theorem toString_inj {m n : Nat} (h : toString m = toString n) : m = n := by
  have hdigits : Nat.toDigits 10 m = Nat.toDigits 10 n := by
    rw [Nat.toString_eq_ofList_toDigits, Nat.toString_eq_ofList_toDigits] at h
    exact String.ofList_injective h
  rw [← Nat.ofDigitChars_ten_toDigits (n := m), hdigits, Nat.ofDigitChars_ten_toDigits]

theorem zero_notMem_toString (n : Nat) : 0 ∉ utf8 (toString n) := by
  intro h
  have hmem := zero_mem_utf8 h
  rw [Nat.toString_eq_ofList_toDigits, String.toList_ofList] at hmem
  have hdigit := Nat.isDigit_of_mem_toDigits (by decide) (by decide) hmem
  exact absurd hdigit (by decide)

/-- The first NUL ends the signature, the 32 bytes after it are the program id, and the last
NUL begins the log index. -/
theorem hashedBytes_inj {i j : SignalIdInput} (hi : '\x00' ∉ i.signature.toList)
    (hj : '\x00' ∉ j.signature.toList) (h : hashedBytes i = hashedBytes j) : i = j := by
  rw [hashedBytes_eq, hashedBytes_eq] at h
  have hsignature := Separated.append_cons_inj_left (fun hm => hi (zero_mem_utf8 hm))
    (fun hm => hj (zero_mem_utf8 hm)) h
  have hprogram := List.append_inj hsignature.2 (i.programId.size.trans j.programId.size.symm)
  have hkind := Separated.append_cons_inj_right (zero_notMem_toString _) (zero_notMem_toString _)
    (List.cons.inj hprogram.2).2
  cases i with
  | mk signature programId kind logIndex =>
      cases j with
      | mk signature' programId' kind' logIndex' =>
          obtain ⟨bytes, _⟩ := programId
          obtain ⟨bytes', _⟩ := programId'
          have h₁ : signature = signature' := utf8_inj hsignature.1
          have h₂ : bytes = bytes' := hprogram.1
          have h₃ : kind = kind' := utf8_inj hkind.1
          have h₄ : logIndex = logIndex' := toString_inj (utf8_inj hkind.2)
          subst h₁ h₂ h₃ h₄
          rfl

end Ap3xSolana.Signals.SignalId

/-! ## Signals -/

namespace Ap3xSolana.Signals

open Ap3xSolana.Core Ap3xSolana.Events

structure Signal (δ : Type) where
  signalId : String
  ts : Int
  slot : Nat
  signature : String
  programId : PublicKey
  kind : String
  venue : Option String := none
  decoded : δ
  raw : ProgramLogChunk
  signalVersion : Option String := none

/-- A signal without a payload of its own. -/
def bareSignal (signalId : String) : Signal Unit :=
  { signalId := signalId
    ts := 0
    slot := 0
    signature := "s"
    programId := .ofByte 0
    kind := "swap"
    decoded := ()
    raw := { programId := "p", depth := 1, success := true } }

inductive GapReason where
  | skip
  | reorg
  | sourceRestart
  deriving DecidableEq, Repr

structure GapEvent where
  fromSlot : Nat
  toSlot : Nat
  reason : GapReason
  deriving DecidableEq, Repr

/-- `dataKind` is the `kind` of a decoded event, where that is a text. -/
def eventKind {δ : Type} (dataKind : δ → Option String) (data : δ) : String :=
  (dataKind data).getD "decoded"

end Ap3xSolana.Signals
