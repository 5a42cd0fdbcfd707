import Ap3xSolana.Lib.Cursor
import Ap3xSolana.Tx.TransactionAssembler

/-!
# Reading v1 messages

`parseV1Message` and the result type all readers share.  Offsets are threaded
through the loops the way the source's `offset` variable is.
-/

namespace Ap3xSolana.Tx.TransactionV1

open Ap3xSolana.Core Ap3xSolana.Lib.Cursor Ap3xSolana.Tx.TransactionAssembler

structure V1TransactionConfig where
  mask : Nat
  priorityFeeLamports : Nat
  computeUnitLimit : Nat
  loadedAccountsDataSizeLimit : Nat
  heapSize : Nat
  deriving DecidableEq, Repr

structure DecompiledMessage where
  version : Option Nat := none
  config : Option V1TransactionConfig := none
  instructions : List Instruction
  accountKeys : List PublicKey
  signers : List PublicKey
  recentBlockhash : String
  deriving DecidableEq, Repr

def malformed {α : Type} (detail : String) : Except Thrown α :=
  .error (.transaction
    { code := .malformed
      message := s!"transaction: {detail}"
      info := { detail := some detail } })

/-- `PublicKey.fromBytes(bytes.slice(at, at + 32))`. -/
def readKey (bytes : List UInt8) (at_ : Nat) : Except Thrown PublicKey :=
  match PublicKey.fromBytes (slice bytes at_ (at_ + 32)) with
  | .ok key => .ok key
  | .error e => .error (.publicKey e)

/-- `count` keys in a row from `off`. -/
def readKeys (bytes : List UInt8) : Nat → Nat → Except Thrown (List PublicKey)
  | _, 0 => .ok []
  | off, count + 1 => do
      let key ← readKey bytes off
      let keys ← readKeys bytes (off + 32) count
      return key :: keys

/-- `bytes[i] ?? 0`. -/
def byteAt (bytes : List UInt8) (i : Nat) : Nat := (bytes.getD i 0).toNat

/-- `bytes[i]!`. -/
def byteOf (bytes : List UInt8) (i : Nat) : Except Thrown Nat :=
  match bytes[i]? with
  | some byte => .ok byte.toNat
  | none => .error (.undefined i)

/-- `keys[i]!`. -/
def keyOf (keys : List PublicKey) (i : Nat) : Except Thrown PublicKey :=
  match keys[i]? with
  | some key => .ok key
  | none => .error (.undefined i)

/-- `view.getUint16(offset, true)`. -/
def getUint16 (bytes : List UInt8) (offset : Nat) : Except Thrown Nat :=
  if offset + 2 > bytes.length then .error (.dataView offset)
  else .ok (byteAt bytes offset + byteAt bytes (offset + 1) * 2 ^ 8)

/-- `view.getUint32(offset, true)`. -/
def getUint32 (bytes : List UInt8) (offset : Nat) : Except Thrown Nat :=
  if offset + 4 > bytes.length then .error (.dataView offset)
  else .ok (byteAt bytes offset + byteAt bytes (offset + 1) * 2 ^ 8 +
    byteAt bytes (offset + 2) * 2 ^ 16 + byteAt bytes (offset + 3) * 2 ^ 24)

def requireBytes (bytes : List UInt8) (offset count : Nat) : Except Thrown Unit :=
  if offset + count > bytes.length then malformed "v1 field runs past the end"
  else .ok ()

/-- The configuration values the mask announces, from `offset` on, and the
offset after them. -/
def readConfigValues (bytes : List UInt8) (mask : Nat) :
    List Nat → Nat → Except Thrown (List (Nat × Nat) × Nat)
  | [], offset => .ok ([], offset)
  | bit :: bits, offset =>
      if mask &&& (1 <<< bit) = 0 then readConfigValues bytes mask bits offset
      else do
        requireBytes bytes offset 4
        let value ← getUint32 bytes offset
        let (values, offset) ← readConfigValues bytes mask bits (offset + 4)
        return ((bit, value) :: values, offset)

structure V1InstructionHeader where
  program : Nat
  accounts : Nat
  data : Nat
  deriving DecidableEq, Repr

structure V1Header where
  required : Nat
  readonlySigned : Nat
  readonlyUnsigned : Nat
  addressCount : Nat
  deriving DecidableEq, Repr

def V1Header.isWritable (h : V1Header) (index : Nat) : Bool :=
  if index < h.required then index < h.required - h.readonlySigned
  else index < h.addressCount - h.readonlyUnsigned

def readV1Instruction (bytes : List UInt8) (h : V1Header)
    (accountKeys : List PublicKey) (header : V1InstructionHeader) (offset : Nat) :
    Except Thrown (Instruction × Nat) := do
  if header.program ≥ h.addressCount then malformed "v1 program index out of range"
  requireBytes bytes offset (header.accounts + header.data)
  let keys ← (slice bytes offset (offset + header.accounts)).mapM fun byte => do
    let index := byte.toNat
    if index ≥ h.addressCount then malformed "v1 account index out of range"
    let pubkey ← keyOf accountKeys index
    return { pubkey := pubkey
             isSigner := index < h.required
             isWritable := h.isWritable index : AccountMeta }
  let offset := offset + header.accounts
  let data := slice bytes offset (offset + header.data)
  let programId ← keyOf accountKeys header.program
  return ({ programId := programId, keys := keys, data := data }, offset + header.data)

def readV1Instructions (bytes : List UInt8) (h : V1Header)
    (accountKeys : List PublicKey) :
    List V1InstructionHeader → Nat → Except Thrown (List Instruction × Nat)
  | [], offset => .ok ([], offset)
  | header :: headers, offset => do
      let (ix, offset) ← readV1Instruction bytes h accountKeys header offset
      let (ixs, offset) ← readV1Instructions bytes h accountKeys headers offset
      return (ix :: ixs, offset)

def parseV1Message (bytes : List UInt8) : Except Thrown DecompiledMessage := do
  if bytes.length < 42 ∨ bytes[0]? ≠ some 0x81 then malformed "v1 message header missing"
  let required ← byteOf bytes 1
  let readonlySigned ← byteOf bytes 2
  let readonlyUnsigned ← byteOf bytes 3
  let instructionCount ← byteOf bytes 40
  let addressCount ← byteOf bytes 41
  if required < 1 ∨ required > 12 ∨ readonlySigned ≥ required ∨ addressCount > 64 ∨
      addressCount < required + readonlyUnsigned ∨ instructionCount > 64 then
    malformed "invalid v1 header counts"
  let mask ← getUint32 bytes 4
  if mask > 31 ∨ (mask &&& 3 ≠ 0 ∧ mask &&& 3 ≠ 3) then
    malformed "invalid v1 configuration mask"
  requireBytes bytes 42 (addressCount * 32)
  let accountKeys ← readKeys bytes 42 addressCount
  let offset := 42 + addressCount * 32
  if accountKeys.dedup.length ≠ addressCount then malformed "duplicate v1 address"
  let (values, offset) ← readConfigValues bytes mask [0, 1, 2, 3, 4] offset
  let valueOf := fun bit default => (values.lookup bit).getD default
  let heapSize := valueOf 4 32768
  if heapSize < 32768 ∨ heapSize > 262144 ∨ heapSize % 1024 ≠ 0 then
    malformed "invalid v1 heap size"
  requireBytes bytes offset (instructionCount * 4)
  let headers ← (List.range instructionCount).mapM fun index => do
    let program ← byteOf bytes (offset + index * 4)
    let accounts ← byteOf bytes (offset + index * 4 + 1)
    let data ← getUint16 bytes (offset + index * 4 + 2)
    return { program := program, accounts := accounts, data := data : V1InstructionHeader }
  let (instructions, offset) ← readV1Instructions bytes
    { required := required, readonlySigned := readonlySigned,
      readonlyUnsigned := readonlyUnsigned, addressCount := addressCount }
    accountKeys headers (offset + instructionCount * 4)
  if offset ≠ bytes.length ∨ bytes.length + required * 64 > 4096 then
    malformed "v1 message has trailing data or exceeds transaction size"
  return { version := some 1
           config := some
             { mask := mask
               priorityFeeLamports := valueOf 0 0 ||| valueOf 1 0 <<< 32
               computeUnitLimit := valueOf 2 0
               loadedAccountsDataSizeLimit := valueOf 3 0
               heapSize := heapSize }
           instructions := instructions
           accountKeys := accountKeys
           signers := accountKeys.take required
           recentBlockhash := Base58.encode (slice bytes 8 40) }

end Ap3xSolana.Tx.TransactionV1
