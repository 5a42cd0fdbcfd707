import Ap3xSolana.Tx.TransactionV1

/-!
# Reading transactions back

`decodeTransaction` splits the signatures of a wire transaction from its message,
`messageSigners` lists who has to sign a message, and `decompileMessage` turns a
legacy, v0 or v1 message back into instructions.  A message that uses lookup tables
needs their contents, or the addresses a node already loaded for it.
-/

namespace Ap3xSolana.Tx.TransactionCodec

open Ap3xSolana.Core Ap3xSolana.Lib Ap3xSolana.Lib.Cursor
open Ap3xSolana.Tx.TransactionAssembler Ap3xSolana.Tx.TransactionV1

structure LoadedAddresses where
  writable : List PublicKey
  readonly : List PublicKey
  deriving DecidableEq, Repr

/-- The value of a length prefix and the offset after it. -/
def readCompact (bytes : List UInt8) (offset : Nat) : Except Thrown (Nat × Nat) :=
  match CompactU16.decode bytes offset with
  | .ok d => .ok (d.value, offset + d.length)
  | .error e => malformed s!"bad length prefix at {offset}: {e.message}"

structure DecodedTransaction where
  signatures : List (List UInt8)
  messageBytes : List UInt8
  deriving DecidableEq, Repr

/-- `count` signatures in a row from `start`. -/
def signaturesAt (bytes : List UInt8) (start count : Nat) : List (List UInt8) :=
  (List.range count).map fun i => slice bytes (start + i * 64) (start + (i + 1) * 64)

/-- Signatures stand after a v1 message and before any other. -/
def decodeTransaction (bytes : List UInt8) : Except Thrown DecodedTransaction := do
  if bytes[0]? = some 0x81 then
    if bytes.length < 42 ∨ bytes.length > 4096 then malformed "invalid v1 transaction size"
    let required ← byteOf bytes 1
    let messageEnd : Int := bytes.length - required * 64
    if messageEnd < 42 then malformed "v1 signatures run past the end"
    let messageBytes := slice bytes 0 messageEnd.toNat
    let _ ← parseV1Message messageBytes
    return { messageBytes := messageBytes
             signatures := signaturesAt bytes messageEnd.toNat required }
  else
    let (count, size) ← readCompact bytes 0
    let sigEnd := size + count * 64
    if sigEnd ≥ bytes.length then malformed "signature section runs past the end"
    return { signatures := signaturesAt bytes size count
             messageBytes := bytes.drop sigEnd }

structure RawInstruction where
  program : Nat
  accounts : List Nat
  data : List UInt8
  deriving DecidableEq, Repr

/-- One turn of the instruction loop, from `off` to the offset after it. -/
def readInstruction (bytes : List UInt8) (nKeys n off : Nat) :
    Except Thrown (RawInstruction × Nat) := do
  match bytes[off]? with
  | none => malformed s!"instruction {n} program index out of range"
  | some program =>
      if program.toNat ≥ nKeys then
        malformed s!"instruction {n} program index out of range"
      let (nAcc, off) ← readCompact bytes (off + 1)
      if off + nAcc > bytes.length then
        malformed s!"instruction {n} accounts run past the end"
      let accounts := (slice bytes off (off + nAcc)).map UInt8.toNat
      let (len, off) ← readCompact bytes (off + nAcc)
      if off + len > bytes.length then
        malformed s!"instruction {n} data runs past the end"
      return ({ program := program.toNat, accounts := accounts,
                data := slice bytes off (off + len) }, off + len)

/-- The instruction loop: `count` more, the next one being number `n`. -/
def readInstructions (bytes : List UInt8) (nKeys : Nat) :
    Nat → Nat → Nat → Except Thrown (List RawInstruction × Nat)
  | 0, _, off => .ok ([], off)
  | count + 1, n, off => do
      let (ix, off) ← readInstruction bytes nKeys n off
      let (ixs, off) ← readInstructions bytes nKeys count (n + 1) off
      return (ix :: ixs, off)

/-- What the lookup section has added up so far. -/
structure LookedUp where
  writable : List PublicKey := []
  readonly : List PublicKey := []
  writableCount : Nat := 0
  readonlyCount : Nat := 0
  deriving DecidableEq, Repr

/-- `addresses[i]` for one index byte. -/
def lookupAddress (table : PublicKey) (addresses : List PublicKey) (i : UInt8) :
    Except Thrown PublicKey :=
  match addresses[i.toNat]? with
  | none => malformed s!"lookup table {table.toBase58} has no index {i.toNat}"
  | some address => .ok address

/-- One index list of a lookup: the addresses it names (none when they were
loaded elsewhere), its length, and the offset after it. -/
def readIndexes (bytes : List UInt8) (table : PublicKey)
    (addresses : Option (List PublicKey)) (off : Nat) :
    Except Thrown (List PublicKey × Nat × Nat) := do
  let (n, off) ← readCompact bytes off
  if off + n > bytes.length then malformed "lookup indexes run past the end"
  match addresses with
  | none => return ([], n, off + n)
  | some addresses =>
      let found ← (slice bytes off (off + n)).mapM (lookupAddress table addresses)
      return (found, 0, off + n)

def readLookup (bytes : List UInt8) (lookupTables : OrderedMap PublicKey (List PublicKey))
    (loaded : Option LoadedAddresses) (acc : LookedUp) (off : Nat) :
    Except Thrown (LookedUp × Nat) := do
  if off + 32 > bytes.length then malformed "lookup table runs past the end"
  let table ← readKey bytes off
  let addresses := if loaded.isSome then none else lookupTables.get? table
  if loaded.isNone ∧ addresses.isNone then
    malformed s!"message uses address lookup tables: {table.toBase58} was not provided"
  let (writable, nWritable, off) ← readIndexes bytes table addresses (off + 32)
  let (readonly, nReadonly, off) ← readIndexes bytes table addresses off
  return ({ writable := acc.writable ++ writable
            readonly := acc.readonly ++ readonly
            writableCount := acc.writableCount + nWritable
            readonlyCount := acc.readonlyCount + nReadonly }, off)

def readLookups (bytes : List UInt8) (lookupTables : OrderedMap PublicKey (List PublicKey))
    (loaded : Option LoadedAddresses) :
    Nat → LookedUp → Nat → Except Thrown (LookedUp × Nat)
  | 0, acc, off => .ok (acc, off)
  | count + 1, acc, off => do
      let (acc, off) ← readLookup bytes lookupTables loaded acc off
      readLookups bytes lookupTables loaded count acc off

/-- The three counts of the header and the sizes of the account list. -/
structure MessageLayout where
  required : Nat
  readonlySigned : Nat
  readonlyUnsigned : Nat
  nKeys : Nat
  nWritable : Nat
  deriving DecidableEq, Repr

def MessageLayout.isWritable (m : MessageLayout) (i : Nat) : Bool :=
  if i < m.required then i < m.required - m.readonlySigned
  else if i < m.nKeys then i < m.nKeys - m.readonlyUnsigned
  else i < m.nKeys + m.nWritable

/-- One account of instruction `n`, with its flags from the header. -/
def resolveKey (m : MessageLayout) (resolved : List PublicKey) (n i : Nat) :
    Except Thrown AccountMeta :=
  match resolved[i]? with
  | none => malformed s!"instruction {n} account index {i} out of range"
  | some pubkey =>
      .ok { pubkey := pubkey, isSigner := i < m.required, isWritable := m.isWritable i }

def resolveInstruction (m : MessageLayout) (resolved : List PublicKey)
    (accountKeys : List PublicKey) (n : Nat) (r : RawInstruction) :
    Except Thrown Instruction := do
  let programId ← keyOf accountKeys r.program
  let keys ← r.accounts.mapM (resolveKey m resolved n)
  return { programId := programId, keys := keys, data := r.data }

def resolveInstructions (m : MessageLayout) (resolved accountKeys : List PublicKey) :
    Nat → List RawInstruction → Except Thrown (List Instruction)
  | _, [] => .ok []
  | n, r :: rs => do
      let ix ← resolveInstruction m resolved accountKeys n r
      let ixs ← resolveInstructions m resolved accountKeys (n + 1) rs
      return ix :: ixs

/-- Whether the first byte says the message is versioned; a version other than
v0 is refused. -/
def readVersion (messageBytes : List UInt8) : Except Thrown Bool :=
  let first := byteAt messageBytes 0
  if first &&& 0x80 = 0 then .ok false
  else if first &&& 0x7f ≠ 0 then
    malformed s!"unsupported message version {first &&& 0x7f}"
  else .ok true

/-- The accounts that must sign, in signature order.  Of the header it reads the
first count only. -/
def messageSigners (messageBytes : List UInt8) : Except Thrown (List PublicKey) := do
  if messageBytes[0]? = some 0x81 then
    let d ← parseV1Message messageBytes
    return d.signers
  else
    let versioned ← readVersion messageBytes
    let off := if versioned then 1 else 0
    match messageBytes[off]? with
    | none => malformed "message header missing"
    | some required =>
        let (nKeys, off) ← readCompact messageBytes (off + 3)
        if required.toNat > nKeys ∨ off + nKeys * 32 > messageBytes.length then
          malformed "account keys run past the end"
        readKeys messageBytes off required.toNat

def readHeader (messageBytes : List UInt8) (off : Nat) :
    Except Thrown (Nat × Nat × Nat) :=
  match messageBytes[off]?, messageBytes[off + 1]?, messageBytes[off + 2]? with
  | some required, some readonlySigned, some readonlyUnsigned =>
      .ok (required.toNat, readonlySigned.toNat, readonlyUnsigned.toNat)
  | _, _, _ => malformed "message header missing"

/-- The lookup section of a versioned message, or the loaded addresses. -/
def readLookupSection (messageBytes : List UInt8)
    (lookupTables : OrderedMap PublicKey (List PublicKey))
    (loaded : Option LoadedAddresses) (versioned : Bool) (off : Nat) :
    Except Thrown (LookedUp × Nat) := do
  let (lookedUp, off) ←
    if versioned then do
      let (nLookups, off) ← readCompact messageBytes off
      readLookups messageBytes lookupTables loaded nLookups {} off
    else pure ({}, off)
  match loaded with
  | none => return (lookedUp, off)
  | some l =>
      if l.writable.length ≠ lookedUp.writableCount ∨
          l.readonly.length ≠ lookedUp.readonlyCount then
        malformed "loaded addresses do not match the message lookups"
      return ({ lookedUp with
        writable := lookedUp.writable ++ l.writable
        readonly := lookedUp.readonly ++ l.readonly }, off)

def decompileMessage (messageBytes : List UInt8)
    (lookupTables : OrderedMap PublicKey (List PublicKey) := .empty)
    (loaded : Option LoadedAddresses := none) : Except Thrown DecompiledMessage := do
  if messageBytes[0]? = some 0x81 then
    if loaded.any fun l => l.writable.length ≠ 0 || l.readonly.length ≠ 0 then
      malformed "v1 does not use loaded addresses"
    parseV1Message messageBytes
  else
    let versioned ← readVersion messageBytes
    let off := if versioned then 1 else 0
    let (required, readonlySigned, readonlyUnsigned) ← readHeader messageBytes off
    let (nKeys, off) ← readCompact messageBytes (off + 3)
    if required > nKeys ∨ off + nKeys * 32 > messageBytes.length then
      malformed "account keys run past the end"
    let accountKeys ← readKeys messageBytes off nKeys
    let off := off + nKeys * 32
    if off + 32 > messageBytes.length then malformed "blockhash runs past the end"
    let recentBlockhash := Base58.encode (slice messageBytes off (off + 32))
    let (nIx, off) ← readCompact messageBytes (off + 32)
    let (raw, off) ← readInstructions messageBytes nKeys nIx 0 off
    let (lookedUp, off) ←
      readLookupSection messageBytes lookupTables loaded versioned off
    if off ≠ messageBytes.length then malformed "trailing bytes after the message"
    let layout : MessageLayout :=
      { required := required, readonlySigned := readonlySigned,
        readonlyUnsigned := readonlyUnsigned, nKeys := nKeys,
        nWritable := lookedUp.writable.length }
    let instructions ← resolveInstructions layout
      (accountKeys ++ lookedUp.writable ++ lookedUp.readonly) accountKeys 0 raw
    return { instructions := instructions
             accountKeys := accountKeys
             signers := accountKeys.take required
             recentBlockhash := recentBlockhash }

end Ap3xSolana.Tx.TransactionCodec
