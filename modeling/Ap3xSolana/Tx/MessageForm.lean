import Ap3xSolana.Tx.TransactionCodec

/-!
# The form of a message

What the bytes of a message say, apart from any reader: a `Frame` is the content of a
legacy, v0 or v1 message, `Frame.Spells f bytes` says that `bytes` is such a message
from its first byte to its last, and `Frame.Describes` that a decompiled message says
what the frame says.  Length prefixes need not be the shortest ones.
-/

namespace Ap3xSolana.Tx.MessageForm

open Ap3xSolana.Core Ap3xSolana.Lib Ap3xSolana.Lib.Cursor
open Ap3xSolana.Tx.TransactionAssembler Ap3xSolana.Tx.TransactionV1
open Ap3xSolana.Tx.TransactionCodec

/-! ## Fields -/

/-- `enc` is a length prefix for `n`. -/
def LenPrefix (n : Nat) (enc : List UInt8) : Prop :=
  CompactU16.decode enc 0 = .ok { value := n, length := enc.length }

/-- A compact array of bytes. -/
def Counted (items enc : List UInt8) : Prop :=
  ∃ size, LenPrefix items.length size ∧ enc = size ++ items

/-- A compact array of fields of one kind. -/
def CountedAll {α : Type} (Spells : α → List UInt8 → Prop) (items : List α)
    (enc : List UInt8) : Prop :=
  ∃ size encs, LenPrefix items.length size ∧ List.Forall₂ Spells items encs ∧
    enc = size ++ encs.flatten

def keyBytes (keys : List PublicKey) : List UInt8 := (keys.map (·.bytes)).flatten

/-- An instruction of a legacy or v0 message. -/
def SpellsInstruction (r : RawInstruction) (enc : List UInt8) : Prop :=
  ∃ program accounts accountsEnc dataEnc, r.program = UInt8.toNat program ∧
    r.accounts = accounts.map UInt8.toNat ∧ Counted accounts accountsEnc ∧
    Counted r.data dataEnc ∧ enc = [program] ++ accountsEnc ++ dataEnc

/-- An instruction of a v1 message: its header and what follows after all headers. -/
def SpellsV1Instruction (r : RawInstruction) (parts : List UInt8 × List UInt8) : Prop :=
  ∃ program nAccounts low high accounts, r.program = UInt8.toNat program ∧
    r.accounts = accounts.map UInt8.toNat ∧ accounts.length = UInt8.toNat nAccounts ∧
    r.data.length = UInt8.toNat low + UInt8.toNat high * 2 ^ 8 ∧
    parts = ([program, nAccounts, low, high], accounts ++ r.data)

/-- An entry of the lookup section: index bytes into a table. -/
structure LookupEntry where
  table : PublicKey
  writable : List UInt8
  readonly : List UInt8
  deriving DecidableEq, Repr

def SpellsLookup (lk : LookupEntry) (enc : List UInt8) : Prop :=
  ∃ writable readonly, Counted lk.writable writable ∧ Counted lk.readonly readonly ∧
    enc = lk.table.bytes ++ writable ++ readonly

/-! ## Messages -/

inductive MessageVersion where
  | legacy
  | v0
  | v1
  deriving DecidableEq, Repr

structure Frame where
  version : MessageVersion
  required : UInt8
  readonlySigned : UInt8
  readonlyUnsigned : UInt8
  keys : List PublicKey
  blockhash : List UInt8
  instructions : List RawInstruction
  lookups : List LookupEntry
  deriving DecidableEq, Repr

namespace Frame

def counts (f : Frame) : List UInt8 := [f.required, f.readonlySigned, f.readonlyUnsigned]

/-- What legacy and v0 messages share. -/
def SpellsBody (f : Frame) (enc : List UInt8) : Prop :=
  ∃ nKeys ixs, LenPrefix f.keys.length nKeys ∧
    CountedAll SpellsInstruction f.instructions ixs ∧
    enc = f.counts ++ nKeys ++ keyBytes f.keys ++ f.blockhash ++ ixs

def SpellsV1 (f : Frame) (enc : List UInt8) : Prop :=
  ∃ mask nInstructions nKeys config parts, mask.length = 4 ∧
    UInt8.toNat nInstructions = f.instructions.length ∧
    UInt8.toNat nKeys = f.keys.length ∧
    List.Forall₂ SpellsV1Instruction f.instructions parts ∧
    enc = [0x81] ++ f.counts ++ mask ++ f.blockhash ++ [nInstructions, nKeys] ++
      keyBytes f.keys ++ config ++ (parts.map (·.1)).flatten ++ (parts.map (·.2)).flatten

/-- `enc` is the message, all of it.  A legacy message is told from a versioned one by
the top bit of its first count. -/
def Spells (f : Frame) (enc : List UInt8) : Prop :=
  f.blockhash.length = 32 ∧
    match f.version with
    | .legacy => f.required.toNat < 128 ∧ f.lookups = [] ∧ f.SpellsBody enc
    | .v0 => ∃ body lookups, f.SpellsBody body ∧
        CountedAll SpellsLookup f.lookups lookups ∧ enc = [0x80] ++ body ++ lookups
    | .v1 => f.lookups = [] ∧ f.SpellsV1 enc

/-! ## Accounts from lookup tables -/

/-- The addresses that a lookup names, the writable and the readonly ones. -/
def Found (lookupTables : OrderedMap PublicKey (List PublicKey)) (lk : LookupEntry)
    (found : List PublicKey × List PublicKey) : Prop :=
  ∃ addresses, lookupTables.get? lk.table = some addresses ∧
    lk.writable.map (fun i => addresses[i.toNat]?) = found.1.map some ∧
    lk.readonly.map (fun i => addresses[i.toNat]?) = found.2.map some

/-- The writable and the readonly accounts that the lookups stand for: found in the
tables, or loaded elsewhere, as many as the message asks for. -/
def LooksUp (lookupTables : OrderedMap PublicKey (List PublicKey))
    (loaded : Option LoadedAddresses) (lookups : List LookupEntry)
    (writable readonly : List PublicKey) : Prop :=
  match loaded with
  | none => ∃ found, List.Forall₂ (Found lookupTables) lookups found ∧
      writable = (found.map (·.1)).flatten ∧ readonly = (found.map (·.2)).flatten
  | some l => writable = l.writable ∧ readonly = l.readonly ∧
      l.writable.length = (lookups.map (·.writable.length)).sum ∧
      l.readonly.length = (lookups.map (·.readonly.length)).sum

/-! ## What a message says -/

def layout (f : Frame) (writable : List PublicKey) : MessageLayout :=
  { required := f.required.toNat, readonlySigned := f.readonlySigned.toNat,
    readonlyUnsigned := f.readonlyUnsigned.toNat, nKeys := f.keys.length,
    nWritable := writable.length }

/-- Account `i` of the message, with its flags from the header. -/
def SaysAccount (f : Frame) (writable readonly : List PublicKey) (i : Nat)
    (a : AccountMeta) : Prop :=
  (f.keys ++ writable ++ readonly)[i]? = some a.pubkey ∧
    a.isSigner = decide (i < f.required.toNat) ∧
    a.isWritable = (f.layout writable).isWritable i

def SaysInstruction (f : Frame) (writable readonly : List PublicKey) (r : RawInstruction)
    (ix : Instruction) : Prop :=
  f.keys[r.program]? = some ix.programId ∧ ix.data = r.data ∧
    List.Forall₂ (f.SaysAccount writable readonly) r.accounts ix.keys

structure Describes (f : Frame) (writable readonly : List PublicKey)
    (d : DecompiledMessage) : Prop where
  accountKeys : d.accountKeys = f.keys
  required : f.required.toNat ≤ f.keys.length
  signers : d.signers = f.keys.take f.required.toNat
  recentBlockhash : d.recentBlockhash = Base58.encode f.blockhash
  instructions : List.Forall₂ (f.SaysInstruction writable readonly) f.instructions
    d.instructions

end Frame

end Ap3xSolana.Tx.MessageForm
