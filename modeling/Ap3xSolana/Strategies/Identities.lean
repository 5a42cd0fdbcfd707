import Ap3xSolana.Signals.Signal
import Ap3xSolana.Strategies.Strategy
import Ap3xSolana.Trading.Intents

/-!
# Identity strings

What is hashed for a signal and for an intent, and the key of a swap intent, determine the
fields they are made of.
-/

namespace Ap3xSolana.Strategies.Identities

open Ap3xSolana.Lib Ap3xSolana.Lib.Utf8 Ap3xSolana.Signals Ap3xSolana.Signals.SignalId
open Ap3xSolana.Strategies.IntentId Ap3xSolana.Trading

/-- A text without NUL. -/
def NulFree (s : String) : Prop := '\x00' ∉ s.toList

/-- The fields of an intent id, with the default of the last one filled in. -/
def quad (input : IntentIdInput) : List String :=
  [input.signalId, input.strategyName, input.instanceId, input.decisionVersion.getD "v1"]

instance decidableNulFree (s : String) : Decidable (NulFree s) :=
  inferInstanceAs (Decidable (_ ∉ _))

theorem quad_eq_of_hashedBytes {i j : IntentIdInput} (hi : ∀ s ∈ quad i, NulFree s)
    (hj : ∀ s ∈ quad j, NulFree s) (h : IntentId.hashedBytes i = IntentId.hashedBytes j) :
    quad i = quad j := by
  have hparts : ∀ input, (∀ s ∈ quad input, NulFree s) →
      ∀ part ∈ (quad input).map utf8, 0 ∉ part := by
    intro input hfree part hpart hzero
    obtain ⟨s, hs, rfl⟩ := List.mem_map.1 hpart
    exact hfree s hs (zero_mem_utf8 hzero)
  have hbytes : (quad i).map utf8 = (quad j).map utf8 :=
    Separated.intercalate_inj rfl (hparts i hi) (hparts j hj) h
  exact List.map_injective_iff.2 (fun _ _ => utf8_inj) hbytes

/-- **Identities.**  Different signals and different intents have different bytes to hash,
and different swap intents have different keys. -/
theorem identities_injective :
    (∀ i j : SignalIdInput, NulFree i.signature → NulFree j.signature →
      SignalId.hashedBytes i = SignalId.hashedBytes j → i = j) ∧
    (∀ i j : IntentIdInput, (∀ s ∈ quad i, NulFree s) → (∀ s ∈ quad j, NulFree s) →
      IntentId.hashedBytes i = IntentId.hashedBytes j → quad i = quad j) ∧
    (∀ i j : SwapIntentIdempotencyInput,
      swapIntentIdempotencyKey i = swapIntentIdempotencyKey j → i = j) :=
  ⟨fun _ _ => hashedBytes_inj, fun _ _ => quad_eq_of_hashedBytes,
    fun _ _ h => segments_inj (segments_eq_of_key h)⟩

/-- A kind that looks like the end of another one. -/
theorem identities_apart :
    SignalId.hashedBytes ⟨"s", .ofByte 0, "k\x000", 1⟩ ≠
        SignalId.hashedBytes ⟨"s", .ofByte 0, "k", 0⟩ ∧
      IntentId.hashedBytes ⟨"ab", "c", "i", none⟩ ≠
        IntentId.hashedBytes ⟨"a", "bc", "i", none⟩ ∧
      swapIntentIdempotencyKey ⟨"a:b", "m", .buy, "t"⟩ ≠
        swapIntentIdempotencyKey ⟨"a", "b:m", .buy, "t"⟩ := by
  refine ⟨fun h => ?_, fun h => ?_, fun h => ?_⟩
  · have heq := identities_injective.1 _ _ (by decide) (by decide) h
    exact absurd (congrArg SignalIdInput.logIndex heq) (by decide)
  · have heq := identities_injective.2.1 _ _ (by decide) (by decide) h
    exact absurd (List.cons.inj heq).1 (by decide)
  · have heq := identities_injective.2.2 _ _ h
    exact absurd (congrArg SwapIntentIdempotencyInput.strategyId heq) (by decide)

end Ap3xSolana.Strategies.Identities
