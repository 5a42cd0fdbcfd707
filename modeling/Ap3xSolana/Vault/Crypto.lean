import Mathlib.Logic.Basic

/-!
# Keys and records

`Sodium` stands for the functions of libsodium that the vault calls and
`ed25519Sign` for the signature scheme; nothing is assumed of either.
-/

namespace Ap3xSolana.Vault

/-- An ed25519 seed. -/
@[ext] structure Seed where
  bytes : List UInt8
  size : bytes.length = 32
  deriving Repr

instance : DecidableEq Seed :=
  fun a b => decidable_of_iff (a.bytes = b.bytes) Seed.ext_iff.symm

theorem Seed.zero_size : (List.replicate 32 (0 : UInt8)).length = 32 :=
  List.length_replicate

/-- What `fill(0)` leaves of a seed. -/
def Seed.zero : Seed := ⟨List.replicate 32 0, Seed.zero_size⟩

structure Sodium where
  /-- `crypto_pwhash(32, passphrase, salt, opslimit, memlimit, ARGON2ID13)`. -/
  pwhash : String → List UInt8 → Nat → Nat → Except String (List UInt8)
  /-- `crypto_secretbox_open_easy(ciphertext, nonce, key)`. -/
  secretboxOpenEasy : List UInt8 → List UInt8 → List UInt8 → Except String (List UInt8)
  /-- `signAsync(message, key)`. -/
  ed25519Sign : List UInt8 → Seed → List UInt8

/-- The fields of a record that `unlock` reads, base64 decoded. -/
structure EncryptedRecord where
  role : String
  address : String
  salt : List UInt8
  opslimit : Nat
  memlimit : Nat
  nonce : List UInt8
  ciphertext : List UInt8
  deriving DecidableEq, Repr

def deriveKey (sodium : Sodium) (passphrase : String) (salt : List UInt8)
    (opslimit memlimit : Nat) : Except String (List UInt8) :=
  if salt.length ≠ 16 then
    .error s!"vault: salt must be 16 bytes, got {salt.length}"
  else sodium.pwhash passphrase salt opslimit memlimit

def decrypt (sodium : Sodium) (key nonce ciphertext : List UInt8) :
    Except String (List UInt8) :=
  if key.length ≠ 32 then .error s!"vault: key must be 32 bytes, got {key.length}"
  else if nonce.length ≠ 24 then
    .error s!"vault: nonce must be 24 bytes, got {nonce.length}"
  else sodium.secretboxOpenEasy ciphertext nonce key

end Ap3xSolana.Vault
