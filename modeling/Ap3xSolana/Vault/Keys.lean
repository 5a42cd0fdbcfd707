import Ap3xSolana.Core.PublicKey
import Ap3xSolana.Vault.Crypto
import Mathlib.Logic.Function.Basic

/-!
# Storing and rotating keys

`addWallet` and `rotateKey` read the record of a name, derive a key, seal a seed under
it and write a record, with an `await` at every turn; nothing holds the name in between.
The storage answers one call at a time.  `events` lists the reads and the writes in the
order in which they happened, a write with the seed that it sealed.
-/

namespace Ap3xSolana.Vault.Keys

open Ap3xSolana.Core

/-- The functions of libsodium and ed25519 that seal a seed. -/
structure KeySodium extends Sodium where
  /-- `crypto_secretbox_easy(plaintext, nonce, key)`. -/
  secretboxEasy : List UInt8 → List UInt8 → List UInt8 → List UInt8
  /-- `getPublicKeyAsync(seed)`. -/
  getPublicKey : List UInt8 → PublicKey

structure PassphrasePolicy where
  minLength : Nat := 12
  minCategories : Nat := 3
  deriving DecidableEq, Repr

structure KeyOptions where
  sodium : KeySodium
  policy : PassphrasePolicy := {}
  opslimit : Nat
  memlimit : Nat

inductive KeyError where
  | passphraseLength (minLength : Nat)
  | passphraseCategories (minCategories : Nat)
  | seedLength (got : Nat)
  | alreadyExists (name : String)
  | notFound (name : String)
  | invalidPassphrase
  | other (message : String)
  deriving DecidableEq, Repr

def KeyError.message : KeyError → String
  | .passphraseLength minLength =>
      s!"vault: passphrase must be at least {minLength} characters"
  | .passphraseCategories minCategories =>
      s!"vault: passphrase must include at least {minCategories} of " ++
        "\x7blowercase, uppercase, digit, symbol\x7d"
  | .seedLength got => s!"vault: secretKey must be a 32-byte ed25519 seed (got {got})"
  | .alreadyExists name =>
      s!"vault: wallet '{name}' already exists (pass \x7b overwrite: true \x7d to replace)"
  | .notFound name => s!"vault: wallet '{name}' not found"
  | .invalidPassphrase => "vault: invalid passphrase"
  | .other message => message

/-! ## Checks -/

/-- `pp.length` counts UTF-16 units. -/
def textLength (s : String) : Nat :=
  (s.toList.map fun c => if c.val < 0x10000 then 1 else 2).sum

/-- The categories of which some character is there. -/
def categories (s : String) : Nat :=
  ([Char.isLower, Char.isUpper, Char.isDigit, fun c => !c.isAlphanum].filter
    (s.toList.any ·)).length

def validatePassphrase (policy : PassphrasePolicy) (pp : String) : Except KeyError Unit :=
  if textLength pp < policy.minLength then .error (.passphraseLength policy.minLength)
  else if categories pp < policy.minCategories then
    .error (.passphraseCategories policy.minCategories)
  else .ok ()

/-- What `addWallet` checks before its first `await`. -/
def checkAdd (opts : KeyOptions) (secretKey : List UInt8) (passphrase : String) :
    Except KeyError Unit :=
  match validatePassphrase opts.policy passphrase with
  | .error e => .error e
  | .ok () =>
      if secretKey.length ≠ 32 then .error (.seedLength secretKey.length) else .ok ()

/-! ## Calls -/

inductive Request where
  | addWallet (name role : String) (secretKey : List UInt8) (passphrase : String)
      (overwrite : Bool)
  | rotateKey (name oldPassphrase newPassphrase : String)
  deriving DecidableEq, Repr

def Request.name : Request → String
  | .addWallet name .. => name
  | .rotateKey name .. => name

/-- The passphrase that the new record is sealed under. -/
def Request.passphrase : Request → String
  | .addWallet _ _ _ passphrase _ => passphrase
  | .rotateKey _ _ newPassphrase => newPassphrase

inductive Stage where
  | reading
  /-- `rotateKey` derives the old key. -/
  | opening (record : EncryptedRecord)
  | sealing (role address : String) (seed : List UInt8)
  | writing (record : EncryptedRecord) (seed : List UInt8)
  /-- The record is stored; the audit log is awaited. -/
  | auditing
  | settled (result : Except KeyError Unit)
  deriving DecidableEq, Repr

structure Call where
  request : Request
  stage : Stage
  deriving DecidableEq, Repr

inductive Event where
  | read (call : Nat)
  | wrote (call : Nat) (name : String) (seed : List UInt8)
  deriving DecidableEq, Repr

structure State where
  storage : String → Option EncryptedRecord
  calls : List Call := []
  events : List Event := []

inductive Action where
  | call (request : Request)
  /-- `storage.read` settles. -/
  | read (call : Nat) (failure : Option String)
  /-- The old key is there. -/
  | opened (call : Nat)
  /-- The new key is there and the seed is sealed, with fresh random bytes. -/
  | sealed (call : Nat) (salt nonce : List UInt8)
  /-- `storage.write` settles. -/
  | wrote (call : Nat) (failure : Option String)
  | audited (call : Nat) (failure : Option String)

def setStage (st : State) (i : Nat) (request : Request) (stage : Stage) : State :=
  { st with calls := st.calls.set i { request := request, stage := stage } }

def fail (st : State) (i : Nat) (request : Request) (e : KeyError) : State :=
  setStage st i request (.settled (.error e))

/-- Up to the first `await`. -/
def begin (opts : KeyOptions) (request : Request) : Stage :=
  let check :=
    match request with
    | .addWallet _ _ secretKey passphrase _ => checkAdd opts secretKey passphrase
    | .rotateKey _ _ newPassphrase => validatePassphrase opts.policy newPassphrase
  match check with
  | .error e => .settled (.error e)
  | .ok () => .reading

/-- What a call does with the record that it finds. -/
def found (opts : KeyOptions) (request : Request) (existing : Option EncryptedRecord) :
    Stage :=
  match request, existing with
  | .addWallet name _ _ _ false, some _ => .settled (.error (.alreadyExists name))
  | .addWallet _ role secretKey _ _, _ =>
      .sealing role (opts.sodium.getPublicKey secretKey).toBase58 secretKey
  | .rotateKey name .., none => .settled (.error (.notFound name))
  | .rotateKey .., some record => .opening record

/-- Decrypts the record under the old passphrase. -/
def openOld (opts : KeyOptions) (oldPassphrase : String) (record : EncryptedRecord) : Stage :=
  match deriveKey opts.sodium.toSodium oldPassphrase record.salt record.opslimit
      record.memlimit with
  | .error message => .settled (.error (.other message))
  | .ok key =>
      match decrypt opts.sodium.toSodium key record.nonce record.ciphertext with
      | .error _ => .settled (.error .invalidPassphrase)
      | .ok seed => .sealing record.role record.address seed

def encrypt (sodium : KeySodium) (key plaintext nonce : List UInt8) :
    Except String (List UInt8) :=
  if key.length ≠ 32 then .error s!"vault: key must be 32 bytes, got {key.length}"
  else .ok (sodium.secretboxEasy plaintext nonce key)

/-- The new record of a seed. -/
def sealUnder (opts : KeyOptions) (passphrase role address : String)
    (seed salt nonce : List UInt8) : Stage :=
  match deriveKey opts.sodium.toSodium passphrase salt opts.opslimit opts.memlimit with
  | .error message => .settled (.error (.other message))
  | .ok key =>
      match encrypt opts.sodium key seed nonce with
      | .error message => .settled (.error (.other message))
      | .ok ciphertext =>
          .writing { role := role, address := address, salt := salt,
                     opslimit := opts.opslimit, memlimit := opts.memlimit,
                     nonce := nonce, ciphertext := ciphertext } seed

def readStep (opts : KeyOptions) (st : State) (i : Nat) (request : Request) :
    Option String → State
  | some message => fail st i request (.other message)
  | none =>
      { setStage st i request (found opts request (st.storage request.name)) with
        events := st.events ++ [.read i] }

def wroteStep (st : State) (i : Nat) (request : Request) (record : EncryptedRecord)
    (seed : List UInt8) : Option String → State
  | some message => fail st i request (.other message)
  | none =>
      { setStage st i request .auditing with
        storage := Function.update st.storage request.name (some record)
        events := st.events ++ [.wrote i request.name seed] }

def auditedStep (st : State) (i : Nat) (request : Request) : Option String → State
  | some message => fail st i request (.other message)
  | none => setStage st i request (.settled (.ok ()))

def step (opts : KeyOptions) (st : State) : Action → Option State
  | .call request =>
      some { st with
        calls := st.calls ++ [{ request := request, stage := begin opts request }] }
  | .read i failure =>
      match st.calls[i]? with
      | some ⟨request, .reading⟩ => some (readStep opts st i request failure)
      | _ => none
  | .opened i =>
      match st.calls[i]? with
      | some ⟨.rotateKey name oldPassphrase newPassphrase, .opening record⟩ =>
          some (setStage st i (.rotateKey name oldPassphrase newPassphrase)
            (openOld opts oldPassphrase record))
      | _ => none
  | .sealed i salt nonce =>
      match st.calls[i]? with
      | some ⟨request, .sealing role address seed⟩ =>
          if salt.length = 16 ∧ nonce.length = 24 then
            some (setStage st i request
              (sealUnder opts request.passphrase role address seed salt nonce))
          else none
      | _ => none
  | .wrote i failure =>
      match st.calls[i]? with
      | some ⟨request, .writing record seed⟩ =>
          some (wroteStep st i request record seed failure)
      | _ => none
  | .audited i failure =>
      match st.calls[i]? with
      | some ⟨request, .auditing⟩ => some (auditedStep st i request failure)
      | _ => none

end Ap3xSolana.Vault.Keys
