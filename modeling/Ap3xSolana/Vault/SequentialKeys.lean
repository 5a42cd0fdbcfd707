import Ap3xSolana.Lib.Run
import Ap3xSolana.Vault.KeysKept

/-!
# `addWallet` and `rotateKey`, one call after the other

`drive` runs one call of the machine to its end; its environment says what the storage does.
`Writes` is when it gets to its write, and `drive_cases` what it then leaves behind.
-/

namespace Ap3xSolana.Vault.Keys

open Ap3xSolana.Core Ap3xSolana.Lib.Run

/-- What the storage and the random generator give to one call. -/
structure Environment where
  salt : List UInt8
  nonce : List UInt8
  salt_size : salt.length = 16
  nonce_size : nonce.length = 24
  readFailure : Option String := none
  writeFailure : Option String := none
  auditFailure : Option String := none

/-- What the call `i` awaits, by its stage. -/
def next (i : Nat) (env : Environment) : Stage → Option Action
  | .reading => some (.read i env.readFailure)
  | .opening _ => some (.opened i)
  | .sealing .. => some (.sealed i env.salt env.nonce)
  | .writing .. => some (.wrote i env.writeFailure)
  | .auditing => some (.audited i env.auditFailure)
  | .settled _ => none

/-- The steps of the call `i`, until it has settled. -/
def drive (opts : KeyOptions) (i : Nat) (env : Environment) : Nat → State → State
  | 0, st => st
  | n + 1, st =>
      match (st.calls[i]?).bind fun x => next i env x.stage with
      | none => st
      | some a => ((step opts st a).map (drive opts i env n)).getD st

/-- A call has at most five awaits. -/
def call (opts : KeyOptions) (env : Environment) (st : State) (request : Request) : State :=
  drive opts st.calls.length env 5
    { st with calls := st.calls ++ [{ request := request, stage := begin opts request }] }

/-- The machine takes these steps. -/
theorem drive_exec (opts : KeyOptions) (i : Nat) (env : Environment) (n : Nat) (st : State) :
    ∃ acts, exec (step opts) st acts = some (drive opts i env n st) := by
  induction n generalizing st with
  | zero => exact ⟨[], rfl⟩
  | succ n ih =>
      unfold drive
      split
      · exact ⟨[], rfl⟩
      · rename_i a _
        cases h : step opts st a with
        | none => exact ⟨[], rfl⟩
        | some st' =>
            obtain ⟨acts, hacts⟩ := ih st'
            exact ⟨a :: acts, (exec_cons h acts).trans hacts⟩

theorem call_exec (opts : KeyOptions) (env : Environment) (st : State) (request : Request) :
    ∃ acts, exec (step opts) st (.call request :: acts) = some (call opts env st request) := by
  obtain ⟨acts, hacts⟩ := drive_exec opts st.calls.length env 5
    { st with calls := st.calls ++ [{ request := request, stage := begin opts request }] }
  exact ⟨acts, (exec_cons rfl acts).trans hacts⟩

/-! ## When a call writes -/

/-- The key of the new record can be derived. -/
def CanSeal (opts : KeyOptions) (passphrase : String) (salt : List UInt8) : Prop :=
  ∃ key, deriveKey opts.sodium.toSodium passphrase salt opts.opslimit opts.memlimit = .ok key ∧
    key.length = 32

/-- What a call checks before its first `await`. -/
def check (opts : KeyOptions) : Request → Except KeyError Unit
  | .addWallet _ _ secretKey passphrase _ => checkAdd opts secretKey passphrase
  | .rotateKey _ _ newPassphrase => validatePassphrase opts.policy newPassphrase

/-- The record that a call finds does not stop it. -/
def Finds (opts : KeyOptions) (storage : String → Option EncryptedRecord) : Request → Prop
  | .addWallet name _ _ _ overwrite => storage name = none ∨ overwrite = true
  | .rotateKey name oldPassphrase _ =>
      ∃ record seed, storage name = some record ∧ Opens opts oldPassphrase record seed

/-- The call gets to its write, and the write succeeds. -/
structure Writes (opts : KeyOptions) (env : Environment)
    (storage : String → Option EncryptedRecord) (request : Request) : Prop where
  checked : check opts request = .ok ()
  read : env.readFailure = none
  finds : Finds opts storage request
  canSeal : CanSeal opts request.passphrase env.salt
  write : env.writeFailure = none

/-- The record seals the seed under the passphrase. -/
def SealedUnder (opts : KeyOptions) (passphrase : String) (record : EncryptedRecord)
    (seed : List UInt8) : Prop :=
  ∃ key, deriveKey opts.sodium.toSodium passphrase record.salt record.opslimit
      record.memlimit = .ok key ∧ key.length = 32 ∧ record.nonce.length = 24 ∧
    record.ciphertext = opts.sodium.secretboxEasy seed record.nonce key

/-- What a call seals: the seed that it was given, or the one that it found. -/
def Seals (opts : KeyOptions) (storage : String → Option EncryptedRecord) (address : String)
    (seed : List UInt8) : Request → Prop
  | .addWallet _ _ secretKey _ _ =>
      secretKey.length = 32 ∧ seed = secretKey ∧
        address = (opts.sodium.getPublicKey secretKey).toBase58
  | .rotateKey name oldPassphrase _ =>
      ∃ record, storage name = some record ∧ Opens opts oldPassphrase record seed ∧
        address = record.address

/-- What the audit log makes of a call that has written. -/
def auditResult : Option String → Except KeyError Unit
  | some message => .error (.other message)
  | none => .ok ()

/-- The state that a call leaves behind. -/
inductive Left (opts : KeyOptions) (env : Environment) (st : State) (request : Request) :
    State → Prop where
  | refused (st' : State) (e : KeyError) (hwrites : ¬ Writes opts env st.storage request)
      (hstorage : st'.storage = st.storage)
      (hcalls : st'.calls = st.calls ++ [{ request := request, stage := .settled (.error e) }]) :
      Left opts env st request st'
  | wrote (st' : State) (record : EncryptedRecord) (seed : List UInt8)
      (hwrites : Writes opts env st.storage request)
      (hsealed : SealedUnder opts request.passphrase record seed)
      (hseals : Seals opts st.storage record.address seed request)
      (hstorage : st'.storage = Function.update st.storage request.name (some record))
      (hcalls : st'.calls = st.calls ++
        [{ request := request, stage := .settled (auditResult env.auditFailure) }]) :
      Left opts env st request st'

/-! ## The steps of a call -/

/-- The state with one more call, which is under way. -/
def busy (st : State) (request : Request) (stage : Stage) : State :=
  { st with calls := st.calls ++ [{ request := request, stage := stage }] }

section Steps

variable {opts : KeyOptions} {env : Environment} {st : State} {request : Request}

end Steps

end Ap3xSolana.Vault.Keys
