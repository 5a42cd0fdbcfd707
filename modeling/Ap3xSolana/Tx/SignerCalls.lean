import Ap3xSolana.Tx.NoWrap

/-!
# Which signers `assemble` calls

`assemble` with its signers as the source has them: a list of addresses with a `sign` each,
looked up by address.  Beside the result it records which signers were called, in order
and on what.
-/

namespace Ap3xSolana.Tx.SignerCalls

open Ap3xSolana.Core Ap3xSolana.Lib Ap3xSolana.Lib.Throwing
open Ap3xSolana.Tx.TransactionAssembler Ap3xSolana.Tx.CompileAccounts Ap3xSolana.Tx.RoundTrip
open Ap3xSolana.Tx.Assemble Ap3xSolana.Tx.NoWrap

/-- `ε` is what the `sign` of a signer may throw. -/
structure Signer (ε : Type) where
  address : PublicKey
  sign : List UInt8 → Except ε (List UInt8)

inductive Failure (ε : Type) where
  | assembler (e : Thrown)
  | signer (e : ε)
  deriving DecidableEq, Repr

structure SignerCall where
  address : PublicKey
  message : List UInt8
  deriving DecidableEq, Repr

/-- The signers that were called, and what came of it. -/
structure Outcome (ε α : Type) where
  calls : List SignerCall
  result : Except (Failure ε) α

variable {ε : Type}

/-- `signerByB58`: of two signers with one address the later stays. -/
def signerByB58 (signers : List (Signer ε)) : OrderedMap PublicKey (Signer ε) :=
  signers.foldl (fun byB58 s => byB58.set s.address s) .empty

/-- The loop over the required signers. -/
def collectSignatures (byB58 : OrderedMap PublicKey (Signer ε)) (messageBytes : List UInt8) :
    List PublicKey → Outcome ε (List (List UInt8))
  | [] => { calls := [], result := .ok [] }
  | key :: keys =>
      match byB58.get? key with
      | none => { calls := [], result := .error (.assembler (.undefined 0)) }
      | some signer =>
          let call : SignerCall := { address := signer.address, message := messageBytes }
          match signer.sign messageBytes with
          | .error e => { calls := [call], result := .error (.signer e) }
          | .ok sig =>
              match checkSignature key sig with
              | .error e => { calls := [call], result := .error (.assembler e) }
              | .ok () =>
                  let rest := collectSignatures byB58 messageBytes keys
                  { calls := call :: rest.calls, result := rest.result.map (sig :: ·) }

/-- The addresses are what `prepare` checks. -/
def preparedWith (options : CompileOptions) (signers : List (Signer ε)) :
    Except Thrown Prepared :=
  prepare { toCompileOptions := options, signers := signers.map (·.address) }

def assembled (p : Prepared) (signatures : List (List UInt8)) :
    Except (Failure ε) AssemblerResult :=
  match finish p signatures with
  | .error e => .error (.assembler e)
  | .ok signedTransaction =>
      .ok { signedTransaction := signedTransaction
            messageBytes := p.messageBytes
            accountKeys := p.accountKeys }

/-- `assemble`, with a record of the calls it makes. -/
def assembleCalls (options : CompileOptions) (signers : List (Signer ε)) :
    Outcome ε AssemblerResult :=
  match preparedWith options signers with
  | .error e => { calls := [], result := .error (.assembler e) }
  | .ok p =>
      let collected := collectSignatures (signerByB58 signers) p.messageBytes p.required
      { calls := collected.calls
        result := collected.result.bind (assembled p) }

/-! ## Without the record -/

def Failure.thrown : Failure Thrown → Thrown
  | .assembler e => e
  | .signer e => e

/-- The signer of an address, as a function. -/
def signOf (signers : List (Signer Thrown)) (key : PublicKey) (message : List UInt8) :
    Except Thrown (List UInt8) :=
  match (signerByB58 signers).get? key with
  | none => .error (.undefined 0)
  | some signer => signer.sign message

theorem collectSignatures_result (signers : List (Signer Thrown)) (messageBytes : List UInt8)
    (keys : List PublicKey) :
    (collectSignatures (signerByB58 signers) messageBytes keys).result.mapError Failure.thrown =
      keys.mapM fun key => do
        let sig ← signOf signers key messageBytes
        checkSignature key sig
        return sig := by
  induction keys with
  | nil => rfl
  | cons key keys ih =>
      rw [List.mapM_cons, ← ih]
      simp only [collectSignatures, signOf]
      cases (signerByB58 signers).get? key with
      | none => rfl
      | some signer =>
          dsimp only
          cases signer.sign messageBytes with
          | error e => rfl
          | ok sig =>
              simp only [bind, Except.bind]
              cases checkSignature key sig with
              | error e => rfl
              | ok _ =>
                  dsimp only
                  cases (collectSignatures (signerByB58 signers) messageBytes keys).result <;> rfl

/-- Without the record it is the `assemble` of the executor. -/
theorem assembleCalls_result (options : CompileOptions) (signers : List (Signer Thrown)) :
    (assembleCalls options signers).result.mapError Failure.thrown =
      assemble { toCompileOptions := options, signers := signers.map (·.address) }
        (signOf signers) := by
  unfold assembleCalls assemble preparedWith
  cases prepare { toCompileOptions := options, signers := signers.map (·.address) } with
  | error e => rfl
  | ok p =>
      have hcollected := collectSignatures_result signers p.messageBytes p.required
      simp only [bind, Except.bind] at hcollected ⊢
      rw [← hcollected]
      cases (collectSignatures (signerByB58 signers) p.messageBytes p.required).result with
      | error e => rfl
      | ok sigs =>
          simp only [Except.mapError, assembled]
          cases finish p sigs <;> rfl

/-! ## Lookup by address -/

/-- Key 4 has nothing to sign. -/
def twoSigners : List (Signer Unit) :=
  [{ address := .ofByte 4, sign := fun _ => .error () },
    { address := .ofByte 1, sign := fun _ => .ok (List.replicate 64 7) }]

end Ap3xSolana.Tx.SignerCalls
