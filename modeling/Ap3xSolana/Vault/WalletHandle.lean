import Mathlib.Data.Int.Basic
import Ap3xSolana.Core.PublicKey
import Ap3xSolana.Vault.Crypto

/-!
# `WalletHandle`

`sign` and `signTransaction` read the key when they are called.  `signTransaction`
keeps the buffer over its `await` of the balance, so a `_lock` in between leaves it
with zeros (`keyBuffer`).  `checkSpend` is the SOL reserve guard; lamport amounts are
`BigInt`s in the source, so they are `Int` here.
-/

/-! ## The SOL reserve guard -/

namespace Ap3xSolana.Vault.ReserveGuard

structure ReserveCheckInput where
  reserveLamports : Int
  txEstimatedDelta : Int
  currentBalance : Int
  deriving DecidableEq, Repr

inductive ReserveCheckResult where
  | ok
  | breach (reason : String) (projectedBalance reserveLamports : Int)
  deriving DecidableEq, Repr

/-- The reserve is an inclusive floor. -/
def checkSpend (input : ReserveCheckInput) : ReserveCheckResult :=
  let projectedBalance := input.currentBalance + input.txEstimatedDelta
  if projectedBalance < input.reserveLamports then
    .breach (s!"reserve breach: projected balance {projectedBalance} lamports < " ++
      s!"reserve {input.reserveLamports} lamports") projectedBalance input.reserveLamports
  else .ok

theorem checkSpend_eq_ok {input : ReserveCheckInput} :
    checkSpend input = .ok ↔
      input.reserveLamports ≤ input.currentBalance + input.txEstimatedDelta := by
  unfold checkSpend
  dsimp only
  split
  · rename_i h
    simp [Int.not_le.2 h]
  · rename_i h
    simp [Int.not_lt.1 h]

end Ap3xSolana.Vault.ReserveGuard

/-! ## The handle -/

namespace Ap3xSolana.Vault

open Ap3xSolana.Core Ap3xSolana.Vault.ReserveGuard

/-- The hooks are closures of the caller; only their presence is state. -/
structure WalletHandleReserveOptions where
  reserveLamports : Option Int := none
  getBalance : Bool := false
  estimateDelta : Bool := false
  deriving DecidableEq, Repr

inductive VaultError where
  | notFound (name : String)
  | invalidPassphrase
  | address (e : PublicKey.PublicKeyError)
  | reserveNeedsHooks (role : String)
  | seedLength (got : Nat)
  | locked
  | tooShort (got : Nat)
  | notSingleSigner
  | reserveWithoutHooks (role : String)
  | walletReserveBreach (role : String) (projectedBalance reserveLamports : Int)
  | other (message : String)
  deriving DecidableEq, Repr

def VaultError.message : VaultError → String
  | .notFound name => s!"vault: wallet '{name}' not found"
  | .invalidPassphrase => "vault: invalid passphrase"
  | .address e => e.message
  | .reserveNeedsHooks role =>
      s!"vault: role '{role}' has a SOL reserve; unlock needs getBalance and " ++
        "estimateDelta to enforce it"
  | .seedLength got =>
      s!"WalletHandle: secretKey must be a 32-byte ed25519 seed (got {got})"
  | .locked => "vault: wallet is locked"
  | .tooShort got =>
      s!"vault: transaction too short to sign (got {got} bytes, expected at least 66)"
  | .notSingleSigner =>
      "signTransaction: only single-signer v0 transactions supported (tx[0] must be 1)"
  | .reserveWithoutHooks role =>
      s!"vault: wallet role '{role}' has a SOL reserve but no getBalance/estimateDelta " ++
        "to enforce it"
  | .walletReserveBreach role projectedBalance reserveLamports =>
      s!"vault: reserve breach — projected {projectedBalance} < reserve " ++
        s!"{reserveLamports} for role '{role}'"
  | .other message => message

structure WalletHandle where
  address : PublicKey
  role : String
  /-- `none` once locked. -/
  secretKey : Option Seed
  reserve : WalletHandleReserveOptions
  deriving DecidableEq, Repr

namespace WalletHandle

/-- The constructor: the key has to be a seed. -/
def create (role : String) (address : PublicKey) (secretKey : List UInt8)
    (reserve : WalletHandleReserveOptions) : Except VaultError WalletHandle :=
  if h : secretKey.length = 32 then
    .ok { address := address, role := role, secretKey := some ⟨secretKey, h⟩,
          reserve := reserve }
  else .error (.seedLength secretKey.length)

/-- `_lock`. -/
def lock (h : WalletHandle) : WalletHandle := { h with secretKey := none }

/-- What a call that captured the key finds in the buffer now. -/
def keyBuffer (h : WalletHandle) : Seed := h.secretKey.getD .zero

/-- `sign`: the key that the message is signed with. -/
def sign (h : WalletHandle) : Except VaultError Seed :=
  match h.secretKey with
  | none => .error .locked
  | some key => .ok key

/-- How `signTransaction` goes on. -/
inductive SignStart where
  /-- No reserve: `ed.signAsync` is called right away. -/
  | signs (key : Seed)
  | awaitsBalance (reserveLamports : Int)
  deriving DecidableEq, Repr

/-- The message bytes of `[1 || zero(64) || message]`. -/
def messageOf (tx : List UInt8) : List UInt8 := tx.drop 65

/-- `signTransaction` up to its first `await`. -/
def signTransaction (h : WalletHandle) (tx : List UInt8) : Except VaultError SignStart :=
  match h.secretKey with
  | none => .error .locked
  | some key =>
      if tx.length < 66 then .error (.tooShort tx.length)
      else if tx[0]? ≠ some 1 then .error .notSingleSigner
      else
        match h.reserve.reserveLamports with
        | none => .ok (.signs key)
        | some reserveLamports =>
            if ¬ h.reserve.getBalance ∨ ¬ h.reserve.estimateDelta then
              .error (.reserveWithoutHooks h.role)
            else .ok (.awaitsBalance reserveLamports)

/-- The check once the balance is there. -/
def checkReserve (reserveLamports balance delta : Int) : ReserveCheckResult :=
  checkSpend { reserveLamports := reserveLamports, currentBalance := balance,
               txEstimatedDelta := delta }

/-- `out.set(signature, 1)`. -/
def withSignature (tx signature : List UInt8) : List UInt8 :=
  tx.take 1 ++ signature ++ tx.drop (1 + signature.length)

/-- Only a handle without a reserve signs unchecked. -/
theorem signTransaction_eq_signs {h : WalletHandle} {tx : List UInt8} {key : Seed} :
    h.signTransaction tx = .ok (.signs key) ↔
      h.secretKey = some key ∧ h.reserve.reserveLamports = none ∧
        66 ≤ tx.length ∧ tx[0]? = some 1 := by
  unfold signTransaction
  cases hkey : h.secretKey with
  | none => simp
  | some k =>
      dsimp only
      split
      · rename_i hlen
        simp [Nat.not_le.2 hlen]
      · rename_i hlen
        split
        · rename_i hone
          simp [hone]
        · rename_i hone
          cases h.reserve.reserveLamports with
          | none =>
              simp only [not_not] at hone
              simp [Nat.not_lt.1 hlen, hone]
          | some r =>
              dsimp only
              split <;> simp

end WalletHandle

end Ap3xSolana.Vault
