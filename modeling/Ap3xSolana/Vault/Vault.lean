import Ap3xSolana.Lib.OrderedMap
import Ap3xSolana.Vault.WalletHandle

/-!
# `Vault`

The handles of one vault, in the order in which they were made, the map of the
unlocked ones, and the calls of `unlock`, `sign` and `signTransaction` under way.
`events` records every check of a reserve and every ed25519 signature, with the
call that made it.
-/

namespace Ap3xSolana.Vault

open Ap3xSolana.Core Ap3xSolana.Lib Ap3xSolana.Vault.ReserveGuard

structure VaultOptions where
  storage : String → Option EncryptedRecord
  solReserveByRole : String → Option Int
  sodium : Sodium

/-- Which hooks the caller of `unlock` supplies. -/
structure UnlockOptions where
  getBalance : Bool := false
  estimateDelta : Bool := false
  deriving DecidableEq, Repr

/-- What a call resolves to. -/
inductive Resolved where
  | handle (ref : Nat)
  | bytes (bytes : List UInt8)
  deriving DecidableEq, Repr

/-- A call and what it awaits. -/
inductive Call where
  /-- `unlock`, up to the decrypted key. -/
  | opening (name passphrase : String) (options : UnlockOptions)
  /-- `unlock` awaits its audit entry. -/
  | unlocking (handle : Nat)
  /-- `signTransaction` awaits the balance. -/
  | balance (handle : Nat) (tx : List UInt8) (reserveLamports : Int)
  /-- The signature is made; its audit entry is awaited. -/
  | signing (result : List UInt8)
  | settled (result : Except VaultError Resolved)

inductive Event where
  | checkSpend (call : Nat) (tx : List UInt8) (result : ReserveCheckResult)
  | signed (call : Nat) (key : Seed) (message : List UInt8)
  deriving DecidableEq, Repr

structure State where
  handles : List WalletHandle := []
  unlocked : OrderedMap String Nat := .empty
  calls : List Call := []
  events : List Event := []

inductive Action where
  | unlock (name passphrase : String) (options : UnlockOptions)
  /-- The key of an `unlock` is there, or reading it failed. -/
  | opened (call : Nat) (failure : Option String)
  | lock (name : String)
  | lockAll
  | sign (handle : Nat) (message : List UInt8)
  | signTransaction (handle : Nat) (tx : List UInt8)
  /-- `getBalance` settles; `delta` is what `estimateDelta` then gives. -/
  | balance (call : Nat) (balance delta : Except String Int)
  | audited (call : Nat) (outcome : Except String Unit)

def begin (v : State) (call : Call) : State := { v with calls := v.calls ++ [call] }

def settle (v : State) (call : Nat) (result : Except VaultError Resolved) : State :=
  { v with calls := v.calls.set call (.settled result) }

/-! ## Unlocking -/

/-- The record and its decrypted key. -/
def openRecord (opts : VaultOptions) (name passphrase : String) :
    Except VaultError (EncryptedRecord × List UInt8) :=
  match opts.storage name with
  | none => .error (.notFound name)
  | some record =>
      match deriveKey opts.sodium passphrase record.salt record.opslimit record.memlimit with
      | .error message => .error (.other message)
      | .ok key =>
          match decrypt opts.sodium key record.nonce record.ciphertext with
          | .error _ => .error .invalidPassphrase
          | .ok secretKey => .ok (record, secretKey)

def lockHandle (v : State) (ref : Nat) : State :=
  { v with handles := v.handles.modify ref WalletHandle.lock }

/-- A second unlock locks the first handle, which stays in the map if what follows
throws. -/
def lockExisting (v : State) (name : String) : State :=
  match v.unlocked.get? name with
  | some ref => lockHandle v ref
  | none => v

/-- The new handle of an unlocked record. -/
def newHandle (opts : VaultOptions) (record : EncryptedRecord) (secretKey : List UInt8)
    (options : UnlockOptions) : Except VaultError WalletHandle :=
  match PublicKey.fromBase58 record.address with
  | .error e => .error (.address e)
  | .ok address =>
      let reserveLamports := opts.solReserveByRole record.role
      if reserveLamports.isSome ∧ ¬ (options.getBalance ∧ options.estimateDelta) then
        .error (.reserveNeedsHooks record.role)
      else
        WalletHandle.create record.role address secretKey
          { reserveLamports := reserveLamports, getBalance := options.getBalance,
            estimateDelta := options.estimateDelta }

/-- `unlock` from the decrypted key to its audit entry. -/
def opened (opts : VaultOptions) (v : State) (call : Nat) (name passphrase : String)
    (options : UnlockOptions) : Option String → State
  | some message => settle v call (.error (.other message))
  | none =>
      match openRecord opts name passphrase with
      | .error e => settle v call (.error e)
      | .ok (record, secretKey) =>
          let v := lockExisting v name
          match newHandle opts record secretKey options with
          | .error e => settle v call (.error e)
          | .ok h =>
              { v with
                handles := v.handles ++ [h]
                unlocked := v.unlocked.set name v.handles.length
                calls := v.calls.set call (.unlocking v.handles.length) }

def lock (v : State) (name : String) : State :=
  match v.unlocked.get? name with
  | some ref => { lockHandle v ref with unlocked := v.unlocked.erase name }
  | none => v

def lockAll (v : State) : State :=
  { v.unlocked.values.foldl lockHandle v with unlocked := .empty }

/-! ## Signing -/

def sign (opts : VaultOptions) (v : State) (h : WalletHandle) (message : List UInt8) :
    State :=
  match h.sign with
  | .error e => begin v (.settled (.error e))
  | .ok key =>
      { begin v (.signing (opts.sodium.ed25519Sign message key)) with
        events := v.events ++ [.signed v.calls.length key message] }

/-- The rest of `signTransaction`, from the call of `ed.signAsync`. -/
def emit (opts : VaultOptions) (v : State) (call : Nat) (key : Seed) (tx : List UInt8) :
    State :=
  let message := WalletHandle.messageOf tx
  { v with
    calls := v.calls.set call
      (.signing (WalletHandle.withSignature tx (opts.sodium.ed25519Sign message key)))
    events := v.events ++ [.signed call key message] }

def signTransaction (opts : VaultOptions) (v : State) (ref : Nat) (h : WalletHandle)
    (tx : List UInt8) : State :=
  match h.signTransaction tx with
  | .error e => begin v (.settled (.error e))
  | .ok (.signs key) => emit opts (begin v (.signing [])) v.calls.length key tx
  | .ok (.awaitsBalance reserveLamports) => begin v (.balance ref tx reserveLamports)

/-- `signTransaction` from the balance on. -/
def balanceArrived (opts : VaultOptions) (v : State) (call : Nat) (h : WalletHandle)
    (tx : List UInt8) (reserveLamports : Int) :
    Except String Int → Except String Int → State
  | .error message, _ => settle v call (.error (.other message))
  | .ok _, .error message => settle v call (.error (.other message))
  | .ok balance, .ok delta =>
      let result := WalletHandle.checkReserve reserveLamports balance delta
      let v := { v with events := v.events ++ [.checkSpend call tx result] }
      match result with
      | .breach _ projectedBalance reserveLamports =>
          settle v call
            (.error (.walletReserveBreach h.role projectedBalance reserveLamports))
      | .ok => emit opts v call h.keyBuffer tx

/-- The audit entry of a call is written, or its write failed. -/
def audited (v : State) (call : Nat) (result : Resolved) : Except String Unit → State
  | .ok () => settle v call (.ok result)
  | .error message => settle v call (.error (.other message))

/-! ## Steps -/

def step (opts : VaultOptions) (v : State) : Action → Option State
  | .unlock name passphrase options => some (begin v (.opening name passphrase options))
  | .opened call failure =>
      match v.calls[call]? with
      | some (.opening name passphrase options) =>
          some (opened opts v call name passphrase options failure)
      | _ => none
  | .lock name => some (lock v name)
  | .lockAll => some (lockAll v)
  | .sign ref message => (v.handles[ref]?).map fun h => sign opts v h message
  | .signTransaction ref tx =>
      (v.handles[ref]?).map fun h => signTransaction opts v ref h tx
  | .balance call balance delta =>
      match v.calls[call]? with
      | some (.balance ref tx reserveLamports) =>
          (v.handles[ref]?).map fun h =>
            balanceArrived opts v call h tx reserveLamports balance delta
      | _ => none
  | .audited call outcome =>
      match v.calls[call]? with
      | some (.unlocking ref) => some (audited v call (.handle ref) outcome)
      | some (.signing result) => some (audited v call (.bytes result) outcome)
      | _ => none

end Ap3xSolana.Vault
