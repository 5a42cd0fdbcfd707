import Ap3xSolana.Tx.TransactionAssembler

/-!
# `systemTransfer` and the Jito tip
-/

namespace Ap3xSolana.Tx.SystemTransfer

open Ap3xSolana.Core Ap3xSolana.Tx.TransactionAssembler

/-- SystemProgram: 32 zero bytes. -/
def systemProgramId : PublicKey := zeroKey

/-- `n` as `size` bytes, the lowest first. -/
def littleEndian (n : Nat) : Nat → List UInt8
  | 0 => []
  | size + 1 => UInt8.ofNat n :: littleEndian (n / 256) size

/-- `data = [discriminator: u32 LE = 2][lamports: u64 LE]`. -/
def systemTransfer (source target : PublicKey) (lamports : Int) :
    Except Thrown Instruction :=
  if lamports ≤ 0 ∨ lamports > 2 ^ 64 - 1 then
    .error (.transaction
      { code := .invalidTransfer
        message := s!"systemTransfer: lamports out of range (got {lamports})"
        info := { detail := some s!"lamports={lamports}" } })
  else
    .ok { programId := systemProgramId
          keys := [{ pubkey := source, isSigner := true, isWritable := true },
            { pubkey := target, isSigner := false, isWritable := true }]
          data := littleEndian 2 4 ++ littleEndian lamports.toNat 8 }

/-- `JitoBundleBuilder.tipInstruction`. -/
def tipInstruction (source tipAccount : PublicKey) (lamports : Int) :
    Except Thrown Instruction :=
  if lamports ≤ 0 then
    .error (.transaction
      { code := .invalidTip
        message := s!"JitoBundleBuilder: tip lamports must be positive (got {lamports})"
        info := { detail := some s!"lamports={lamports}" } })
  else systemTransfer source tipAccount lamports

end Ap3xSolana.Tx.SystemTransfer
