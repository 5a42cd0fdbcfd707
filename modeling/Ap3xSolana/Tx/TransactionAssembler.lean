import Ap3xSolana.Core.CompactU16
import Ap3xSolana.Core.PublicKey
import Ap3xSolana.Lib.OrderedMap
import Mathlib.Data.List.Sort

/-!
# `TransactionAssembler`

`compileAccounts` collects the accounts of a transaction, resolves what it can
through lookup tables and hands out account indices; `serializeMessage` writes
the v0 message.  Byte arrays are `List UInt8`; writing a number into one wraps
it modulo 256, as `Uint8Array` does.

`assemble` awaits one signature after the other, so it comes in parts: what runs
before the first signer is called (`prepare`), the check of one signature
(`checkSignature`) and the wire format at the end (`finish`).  `assemble` is these
parts in a row, for signers that answer at once.
-/

namespace Ap3xSolana.Tx.TransactionAssembler

open Ap3xSolana.Core Ap3xSolana.Lib

inductive TransactionErrorCode where
  | payerNotInSigners
  | missingSigner
  | invalidBlockhash
  | malformed
  | invalidTip
  | invalidTransfer
  deriving DecidableEq, Repr

structure TransactionErrorMeta where
  address : Option String := none
  actualLength : Option Nat := none
  expectedLength : Option Nat := none
  detail : Option String := none
  deriving DecidableEq, Repr

structure TransactionError where
  code : TransactionErrorCode
  message : String
  info : TransactionErrorMeta := {}
  deriving DecidableEq, Repr

/-- Everything the assembler and the readers can throw.  `undefined` is no error of
the source: it marks a `!` on an element that is not there, which the source would
carry on with. -/
inductive Thrown where
  | transaction (e : TransactionError)
  | compactU16 (e : CompactU16.CompactU16Error)
  | publicKey (e : PublicKey.PublicKeyError)
  | dataView (offset : Nat)
  | undefined (index : Nat)
  deriving DecidableEq, Repr

/-- The text of the error. -/
def Thrown.message : Thrown → String
  | .transaction e => e.message
  | .compactU16 e => e.message
  | .publicKey e => e.message
  | .dataView _ => "Offset is outside the bounds of the DataView"
  | .undefined _ => "undefined"

structure AccountMeta where
  pubkey : PublicKey
  isSigner : Bool
  isWritable : Bool
  deriving DecidableEq, Repr

structure Instruction where
  programId : PublicKey
  keys : List AccountMeta
  data : List UInt8
  deriving DecidableEq, Repr

structure AddressLookupTable where
  addresses : List PublicKey
  deriving DecidableEq, Repr

structure KeyedAlt where
  key : PublicKey
  alt : AddressLookupTable
  deriving DecidableEq, Repr

inductive AssemblerAlt where
  | bare (alt : AddressLookupTable)
  | keyed (a : KeyedAlt)
  deriving DecidableEq, Repr

structure CompileOptions where
  instructions : List Instruction
  payer : PublicKey
  recentBlockhash : String
  alts : List AssemblerAlt := []
  deriving DecidableEq, Repr

/-- Where a lookup table holds an account. -/
structure AltRef where
  key : PublicKey
  altIndex : Nat
  deriving DecidableEq, Repr

structure AccountInfo where
  pubkey : PublicKey
  isSigner : Bool
  isWritable : Bool
  alt : Option AltRef
  deriving DecidableEq, Repr

def zeroKey : PublicKey := ⟨List.replicate 32 0, by simp⟩

def normaliseAlt : AssemblerAlt → KeyedAlt
  | .keyed a => a
  | .bare alt => { key := zeroKey, alt := alt }

/-! ## Accounts -/

/-- Records one mention of an account; permissions only ever escalate. -/
def upsert (byKey : OrderedMap PublicKey AccountInfo) (m : AccountMeta) :
    OrderedMap PublicKey AccountInfo :=
  match byKey.get? m.pubkey with
  | some existing =>
      byKey.set m.pubkey
        { existing with
          isSigner := existing.isSigner || m.isSigner
          isWritable := existing.isWritable || m.isWritable }
  | none =>
      byKey.set m.pubkey
        { pubkey := m.pubkey, isSigner := m.isSigner, isWritable := m.isWritable,
          alt := none }

/-- Every mention of an instruction, program first. -/
def upsertInstruction (byKey : OrderedMap PublicKey AccountInfo) (ix : Instruction) :
    OrderedMap PublicKey AccountInfo :=
  ix.keys.foldl upsert
    (upsert byKey { pubkey := ix.programId, isSigner := false, isWritable := false })

def collectAccounts (instructions : List Instruction) (payer : PublicKey) :
    OrderedMap PublicKey AccountInfo :=
  instructions.foldl upsertInstruction
    (upsert .empty { pubkey := payer, isSigner := true, isWritable := true })

/-- The first table that holds the key, and where. -/
def findAlt (alts : List KeyedAlt) (key : PublicKey) : Option AltRef :=
  alts.findSome? fun a =>
    (a.alt.addresses.findIdx? (· = key)).map fun idx =>
      { key := a.key, altIndex := idx }

def resolveAlt (invoked : List PublicKey) (alts : List KeyedAlt) (acc : AccountInfo) :
    AccountInfo :=
  if acc.isSigner || decide (acc.pubkey ∈ invoked) then acc
  else { acc with alt := findAlt alts acc.pubkey }

/-- The comparator of `writableSigners.sort`. -/
def comparePayer (payer : PublicKey) (a b : AccountInfo) : Int :=
  if a.pubkey = payer then -1 else if b.pubkey = payer then 1 else 0

structure CompiledAccounts where
  staticAccounts : List AccountInfo
  altWritable : List AccountInfo
  altReadonly : List AccountInfo
  indexByBase58 : OrderedMap PublicKey Nat
  numRequiredSignatures : Nat
  numReadonlySigned : Nat
  numReadonlyUnsigned : Nat

/-- `for (const acc of accs) indexByBase58.set(acc.pubkey.toBase58(), idx++)`. -/
def setIndexes (accs : List AccountInfo) (st : OrderedMap PublicKey Nat × Nat) :
    OrderedMap PublicKey Nat × Nat :=
  accs.foldl (fun st acc => (st.1.set acc.pubkey st.2, st.2 + 1)) st

def compileAccounts (instructions : List Instruction) (payer : PublicKey)
    (alts : List KeyedAlt) : CompiledAccounts :=
  let invoked := instructions.map (·.programId)
  let accounts := (collectAccounts instructions payer).values.map
    (resolveAlt invoked alts)
  let writableSigners := accounts.filter fun a => a.isSigner && a.isWritable
  let readonlySigners := accounts.filter fun a => a.isSigner && !a.isWritable
  let writable := accounts.filter fun a => !a.isSigner && a.isWritable
  let readonly := accounts.filter fun a => !a.isSigner && !a.isWritable
  let writableAlt := writable.filter (·.alt.isSome)
  let writableStatic := writable.filter (!·.alt.isSome)
  let readonlyAlt := readonly.filter (·.alt.isSome)
  let readonlyStatic := readonly.filter (!·.alt.isSome)
  -- insertion sort is stable, as `Array.prototype.sort` is
  let writableSigners :=
    writableSigners.insertionSort fun a b => comparePayer payer a b ≤ 0
  let staticAccounts :=
    writableSigners ++ readonlySigners ++ writableStatic ++ readonlyStatic
  { staticAccounts := staticAccounts
    altWritable := writableAlt
    altReadonly := readonlyAlt
    indexByBase58 :=
      (setIndexes readonlyAlt
        (setIndexes writableAlt (setIndexes staticAccounts (.empty, 0)))).1
    numRequiredSignatures := writableSigners.length + readonlySigners.length
    numReadonlySigned := readonlySigners.length
    numReadonlyUnsigned := readonlyStatic.length }

/-! ## Lookup tables -/

structure TableLookup where
  accountKey : PublicKey
  writableIndexes : List Nat := []
  readonlyIndexes : List Nat := []
  deriving DecidableEq, Repr

/-- `lookup(acc)` followed by an update of the entry it returns. -/
def updateLookup (f : Nat → TableLookup → TableLookup)
    (perAlt : OrderedMap PublicKey TableLookup) (acc : AccountInfo) :
    OrderedMap PublicKey TableLookup :=
  match acc.alt with
  | none => perAlt
  | some ref =>
      perAlt.set ref.key
        (f ref.altIndex ((perAlt.get? ref.key).getD { accountKey := ref.key }))

def pushWritable (i : Nat) (entry : TableLookup) : TableLookup :=
  { entry with writableIndexes := entry.writableIndexes ++ [i] }

def pushReadonly (i : Nat) (entry : TableLookup) : TableLookup :=
  { entry with readonlyIndexes := entry.readonlyIndexes ++ [i] }

def buildAddressTableLookups (altWritable altReadonly : List AccountInfo) :
    List TableLookup :=
  (altReadonly.foldl (updateLookup pushReadonly)
    (altWritable.foldl (updateLookup pushWritable) .empty)).values

/-! ## The message -/

def compactU16 (n : Nat) : Except Thrown (List UInt8) :=
  match CompactU16.encode n with
  | .ok bytes => .ok bytes
  | .error e => .error (.compactU16 e)

/-- `pushCompactArrayU8`: a length prefix and the items, each one byte. -/
def compactArrayU8 (items : List Nat) : Except Thrown (List UInt8) := do
  let size ← compactU16 items.length
  return size ++ items.map UInt8.ofNat

def accountIndex (indexByBase58 : OrderedMap PublicKey Nat) (what where_ : String)
    (key : PublicKey) : Except Thrown Nat :=
  match indexByBase58.get? key with
  | some i => .ok i
  | none =>
      .error (.transaction
        { code := .missingSigner
          message := s!"serializeMessage: {what} {key.toBase58} not in {where_}"
          info := { address := some key.toBase58 } })

def serializeInstruction (indexByBase58 : OrderedMap PublicKey Nat)
    (ix : Instruction) : Except Thrown (List UInt8) := do
  let programIdIndex ←
    accountIndex indexByBase58 "program id" "account list" ix.programId
  let accountIndices ← ix.keys.mapM fun m =>
    accountIndex indexByBase58 "account" "resolved account list" m.pubkey
  let accounts ← compactArrayU8 accountIndices
  let data ← compactArrayU8 (ix.data.map UInt8.toNat)
  return [UInt8.ofNat programIdIndex] ++ accounts ++ data

def serializeLookup (lk : TableLookup) : Except Thrown (List UInt8) := do
  let writable ← compactArrayU8 lk.writableIndexes
  let readonly ← compactArrayU8 lk.readonlyIndexes
  return lk.accountKey.bytes ++ writable ++ readonly

def serializeMessage (c : CompiledAccounts) (instructions : List Instruction)
    (recentBlockhashBytes : List UInt8) : Except Thrown (List UInt8) := do
  let keyCount ← compactU16 c.staticAccounts.length
  let ixCount ← compactU16 instructions.length
  let ixs ← instructions.mapM (serializeInstruction c.indexByBase58)
  let lookups := buildAddressTableLookups c.altWritable c.altReadonly
  let lookupCount ← compactU16 lookups.length
  let lookupBytes ← lookups.mapM serializeLookup
  return [0x80] ++
    [UInt8.ofNat c.numRequiredSignatures, UInt8.ofNat c.numReadonlySigned,
      UInt8.ofNat c.numReadonlyUnsigned] ++
    (keyCount ++ (c.staticAccounts.map (·.pubkey.bytes)).flatten) ++
    recentBlockhashBytes ++
    (ixCount ++ ixs.flatten) ++
    (lookupCount ++ lookupBytes.flatten)

/-! ## Entry point -/

structure Compiled where
  compiled : CompiledAccounts
  messageBytes : List UInt8
  accountKeys : List PublicKey

def decodeBlockhash (recentBlockhash : String) : Except Thrown (List UInt8) :=
  match Base58.decode recentBlockhash with
  | .error e =>
      .error (.transaction
        { code := .invalidBlockhash
          message :=
            s!"assemble: recentBlockhash is not valid base58: {e.message}"
          info := { detail := some recentBlockhash } })
  | .ok bytes =>
      if bytes.length = 32 then .ok bytes
      else
        .error (.transaction
          { code := .invalidBlockhash
            message :=
              s!"assemble: recentBlockhash decodes to {bytes.length} bytes, expected 32"
            info := { actualLength := some bytes.length, expectedLength := some 32 } })

def compile (options : CompileOptions) : Except Thrown Compiled := do
  let alts := options.alts.map normaliseAlt
  let blockhashBytes ← decodeBlockhash options.recentBlockhash
  let compiled := compileAccounts options.instructions options.payer alts
  let messageBytes ← serializeMessage compiled options.instructions blockhashBytes
  return { compiled := compiled
           messageBytes := messageBytes
           accountKeys := compiled.staticAccounts.map (·.pubkey) ++
             compiled.altWritable.map (·.pubkey) ++
             compiled.altReadonly.map (·.pubkey) }

/-- `compactArray<signature> || message`. -/
def wire (signatures : List (List UInt8)) (messageBytes : List UInt8) :
    Except Thrown (List UInt8) := do
  let sigCountPrefix ← compactU16 signatures.length
  return sigCountPrefix ++ signatures.flatten ++ messageBytes

structure CompiledTransaction where
  messageBytes : List UInt8
  unsignedTransaction : List UInt8
  signers : List PublicKey
  accountKeys : List PublicKey
  deriving DecidableEq, Repr

def compileUnsigned (options : CompileOptions) :
    Except Thrown CompiledTransaction := do
  let c ← compile options
  let signers := (c.compiled.staticAccounts.take
    c.compiled.numRequiredSignatures).map (·.pubkey)
  let unsigned ← wire (signers.map fun _ => List.replicate 64 0) c.messageBytes
  return { messageBytes := c.messageBytes
           unsignedTransaction := unsigned
           signers := signers
           accountKeys := c.accountKeys }

end Ap3xSolana.Tx.TransactionAssembler

namespace Ap3xSolana.Tx.Assemble

open Ap3xSolana.Core Ap3xSolana.Tx.TransactionAssembler

structure AssemblerOptions extends CompileOptions where
  /-- The addresses of the signers. -/
  signers : List PublicKey

/-- A compiled transaction and the signers it waits for, in signature order. -/
structure Prepared where
  messageBytes : List UInt8
  accountKeys : List PublicKey
  required : List PublicKey
  deriving DecidableEq, Repr

def signerMissing (what : String) (key : PublicKey) : Thrown :=
  .transaction
    { code := .missingSigner
      message := s!"assemble: signer {what} {key.toBase58}"
      info := { address := some key.toBase58 } }

def prepare (options : AssemblerOptions) : Except Thrown Prepared := do
  if options.payer ∉ options.signers then
    throw (.transaction
      { code := .payerNotInSigners
        message :=
          s!"assemble: payer {options.payer.toBase58} is not present in signers[]"
        info := { address := some options.payer.toBase58 } })
  let c ← compile options.toCompileOptions
  match c.compiled.staticAccounts.find? fun acc =>
      acc.isSigner && acc.pubkey ∉ options.signers with
  | some acc => throw (signerMissing "missing for account" acc.pubkey)
  | none => pure ()
  return { messageBytes := c.messageBytes
           accountKeys := c.accountKeys
           required := (c.compiled.staticAccounts.take
             c.compiled.numRequiredSignatures).map (·.pubkey) }

def checkSignature (key : PublicKey) (sig : List UInt8) : Except Thrown Unit :=
  if sig.length ≠ 64 then
    .error (.transaction
      { code := .missingSigner
        message := s!"assemble: signer for {key.toBase58} returned " ++
          s!"{sig.length}-byte signature, expected 64"
        info := { address := some key.toBase58 } })
  else .ok ()

theorem checkSignature_ok {key : PublicKey} {sig : List UInt8}
    (h : checkSignature key sig = .ok ()) : sig.length = 64 := by
  unfold checkSignature at h
  split at h
  · cases h
  · rename_i hlen
    exact not_not.1 hlen

def finish (p : Prepared) (signatures : List (List UInt8)) :
    Except Thrown (List UInt8) := wire signatures p.messageBytes

structure AssemblerResult where
  signedTransaction : List UInt8
  messageBytes : List UInt8
  accountKeys : List PublicKey
  deriving DecidableEq, Repr

/-- `sign key` is the `sign` of the signer registered for `key`. -/
def assemble (options : AssemblerOptions)
    (sign : PublicKey → List UInt8 → Except Thrown (List UInt8)) :
    Except Thrown AssemblerResult := do
  let p ← prepare options
  let signatures ← p.required.mapM fun key => do
    let sig ← sign key p.messageBytes
    checkSignature key sig
    return sig
  let signedTransaction ← finish p signatures
  return { signedTransaction := signedTransaction
           messageBytes := p.messageBytes
           accountKeys := p.accountKeys }

end Ap3xSolana.Tx.Assemble
