import Ap3xSolana.Core.PublicKey
import Ap3xSolana.Lib.Utf8

/-!
# `findProgramAddress`

The first bump from 255 downwards whose hash is no ed25519 point.
-/

namespace Ap3xSolana.Tx.FindProgramAddress

open Ap3xSolana.Core Ap3xSolana.Lib

/-- `sha256` and the point decoder of the two noble packages. -/
structure Noble where
  sha256 : List UInt8 → List UInt8
  /-- `ed.Point.fromHex` does not throw. -/
  isOnCurve : List UInt8 → Bool

inductive PdaError where
  | tooManySeeds (got : Nat)
  | seedTooLong (index length : Nat)
  | publicKey (e : PublicKey.PublicKeyError)
  | exhausted
  deriving DecidableEq, Repr

def maxSeedLength : Nat := 32

def maxSeeds : Nat := 16

def PdaError.message : PdaError → String
  | .tooManySeeds got => s!"findProgramAddress: too many seeds — got {got}, max {maxSeeds}"
  | .seedTooLong index length =>
      s!"findProgramAddress: seed[{index}] length {length} exceeds max {maxSeedLength}"
  | .publicKey e => e.message
  | .exhausted => "findProgramAddress: exhausted all 256 bumps without finding an off-curve PDA"

def pdaMarker : List UInt8 := Utf8.utf8 "ProgramDerivedAddress"

structure FindProgramAddressResult where
  address : PublicKey
  bump : Nat
  deriving DecidableEq, Repr

/-- `for (let bump = …; bump >= 0; bump--)`, with `tries` bumps left. -/
def searchBump (noble : Noble) (seeds : List UInt8) (programId : PublicKey) :
    Nat → Except PdaError FindProgramAddressResult
  | 0 => .error .exhausted
  | bump + 1 =>
      let hash := noble.sha256 (seeds ++ UInt8.ofNat bump :: programId.bytes ++ pdaMarker)
      if noble.isOnCurve hash then searchBump noble seeds programId bump
      else
        match PublicKey.fromBytes hash with
        | .ok address => .ok { address := address, bump := bump }
        | .error e => .error (.publicKey e)

def findProgramAddress (noble : Noble) (seeds : List (List UInt8)) (programId : PublicKey) :
    Except PdaError FindProgramAddressResult :=
  if seeds.length > maxSeeds then .error (.tooManySeeds seeds.length)
  else
    match seeds.findIdx? fun s => s.length > maxSeedLength with
    | some i => .error (.seedTooLong i (seeds.getD i []).length)
    | none => searchBump noble seeds.flatten programId 256

end Ap3xSolana.Tx.FindProgramAddress
