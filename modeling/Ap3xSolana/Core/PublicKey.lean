import Ap3xSolana.Core.Base58

/-!
# `PublicKey`

A public key is 32 bytes.  The source keys its maps by the base58 text of a key;
`toBase58_injective` is why this development may key them by the key itself.
-/

namespace Ap3xSolana.Core

structure PublicKey where
  bytes : List UInt8
  size : bytes.length = 32
  deriving DecidableEq, Repr

namespace PublicKey

inductive PublicKeyError where
  | invalidLength (got : Nat)
  | base58 (e : Base58.Base58Error)
  deriving DecidableEq, Repr

def PublicKeyError.message : PublicKeyError → String
  | .invalidLength got =>
      s!"PublicKey: invalid byte length — expected 32, got {got}"
  | .base58 e => e.message

def fromBytes (bytes : List UInt8) : Except PublicKeyError PublicKey :=
  if h : bytes.length = 32 then .ok ⟨bytes, h⟩
  else .error (.invalidLength bytes.length)

def fromBase58 (s : String) : Except PublicKeyError PublicKey :=
  match Base58.decode s with
  | .error e => .error (.base58 e)
  | .ok bytes => fromBytes bytes

def toBase58 (key : PublicKey) : String := Base58.encode key.bytes

/-- The key whose bytes are all `b`. -/
def ofByte (b : UInt8) : PublicKey := ⟨List.replicate 32 b, List.length_replicate⟩

@[simp] theorem fromBytes_bytes (key : PublicKey) : fromBytes key.bytes = .ok key := by
  simp [fromBytes, key.size]

theorem fromBase58_toBase58 (key : PublicKey) : fromBase58 key.toBase58 = .ok key := by
  simp [fromBase58, toBase58, Base58.decode_encode]

theorem toBase58_injective {key key' : PublicKey}
    (h : key.toBase58 = key'.toBase58) : key = key' := by
  have hkey := fromBase58_toBase58 key
  rw [h, fromBase58_toBase58] at hkey
  exact (Except.ok.inj hkey).symm

theorem toBase58_ne_empty (key : PublicKey) : key.toBase58 ≠ "" := by
  intro h
  have hkey := fromBase58_toBase58 key
  rw [h] at hkey
  exact nomatch hkey

theorem eq_toBase58_of_fromBase58 {s : String} {key : PublicKey}
    (h : fromBase58 s = .ok key) : s = key.toBase58 := by
  unfold fromBase58 at h
  split at h
  · cases h
  · rename_i bytes hbytes
    unfold fromBytes at h
    split at h
    · cases h
      exact (Base58.encode_decode hbytes).symm
    · cases h

end PublicKey

end Ap3xSolana.Core
