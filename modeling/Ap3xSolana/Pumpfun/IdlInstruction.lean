import Ap3xSolana.Pumpfun.IdlSchema
import Ap3xSolana.Tx.FindProgramAddress
import Ap3xSolana.Tx.TransactionAssembler

/-!
# `buildIdlInstruction`

An instruction straight from the schema: accounts are resolved until nothing changes,
arguments are encoded in the schema's order behind the discriminator.
-/

namespace Ap3xSolana.Pumpfun

open Core Tx.FindProgramAddress Tx.TransactionAssembler

inductive BuildError where
  | notPositive (name : String)
  | noInstruction (name : String)
  | argSeeds (name : String)
  | accountMissing (name account : String)
  | publicKey (e : PublicKey.PublicKeyError)
  | pda (e : PdaError)
  | idl (e : IdlError)
  deriving DecidableEq, Repr

def BuildError.message : BuildError → String
  | .notPositive name => s!"{name} must be > 0"
  | .noInstruction name => s!"instruction {name} not in schema"
  | .argSeeds name => s!"{name}: arg seeds are not supported"
  | .accountMissing name account => s!"{name}: account {account} must be provided"
  | .publicKey e => e.message
  | .pda e => e.message
  | .idl e => e.message

abbrev Build := Except BuildError

/-- IDL account names and dotted paths to addresses. -/
abbrev Known := String → Option PublicKey

def fromBase58 (s : String) : Build PublicKey := (PublicKey.fromBase58 s).mapError .publicKey

def findAddress (noble : Noble) (seeds : List (List UInt8)) (programId : PublicKey) :
    Build PublicKey :=
  ((findProgramAddress noble seeds programId).map (·.address)).mapError .pda

/-! ## Accounts -/

def seedBytes (name : String) (resolved : Known) : IdlSeed → Build (Option (List UInt8))
  | .const value => .ok (some value)
  | .account path => .ok ((resolved path).map PublicKey.bytes)
  | .arg _ => .error (.argSeeds name)

def pdaOwner (programId : PublicKey) (resolved : Known) : Option IdlSeed → Build (Option PublicKey)
  | some (.const value) => ((PublicKey.fromBytes value).map some).mapError .publicKey
  | some (.account path) => .ok (resolved path)
  | some (.arg _) => .ok none
  | none => .ok (some programId)

def pdaAddress (noble : Noble) (name : String) (programId : PublicKey) (resolved : Known)
    (pda : IdlPda) : Build (Option PublicKey) := do
  let seeds ← pda.seeds.mapM (seedBytes name resolved)
  let owner ← pdaOwner programId resolved pda.program
  match owner, seeds.mapM id with
  | some owner, some seeds => do
      let address ← findAddress noble seeds owner
      return some address
  | _, _ => return none

/-- The address that the schema and what is resolved so far give an account. -/
def accountAddress (noble : Noble) (name : String) (programId : PublicKey) (resolved : Known)
    (a : IdlAccountSchema) : Build (Option PublicKey) :=
  match a.address with
  | some address => (fromBase58 address).map some
  | none =>
      if a.name = "program" then .ok (some programId)
      else
        match a.pda with
        | some pda => pdaAddress noble name programId resolved pda
        | none => .ok none

/-- One round over the accounts, and whether it resolved any. -/
def resolveRound (noble : Noble) (name : String) (programId : PublicKey) :
    List IdlAccountSchema → Known → Bool → Build (Known × Bool)
  | [], resolved, progress => .ok (resolved, progress)
  | a :: accounts, resolved, progress =>
      if (resolved a.name).isSome then resolveRound noble name programId accounts resolved progress
      else do
        let addr ← accountAddress noble name programId resolved a
        match addr with
        | some addr =>
            resolveRound noble name programId accounts
              (Function.update resolved a.name (some addr)) true
        | none => resolveRound noble name programId accounts resolved progress

/-- `while (progress)`.  A round that makes progress resolves an account, so `rounds` is
never used up when it starts at one more than there are accounts. -/
def resolveAccounts (noble : Noble) (name : String) (programId : PublicKey)
    (accounts : List IdlAccountSchema) : Nat → Known → Build Known
  | 0, resolved => .ok resolved
  | rounds + 1, resolved => do
      let (resolved, progress) ← resolveRound noble name programId accounts resolved false
      if progress then resolveAccounts noble name programId accounts rounds resolved
      else return resolved

def accountKey (name : String) (resolved : Known) (a : IdlAccountSchema) : Build AccountMeta :=
  match resolved a.name with
  | some pubkey => .ok { pubkey := pubkey, isSigner := a.signer, isWritable := a.writable }
  | none => .error (.accountMissing name a.name)

/-! ## Data -/

def hexDigit (c : Char) : Nat :=
  if c.isDigit then c.toNat - '0'.toNat else c.toNat - 'a'.toNat + 10

/-- `discriminator.match(/../g).map((h) => parseInt(h, 16))`. -/
def discriminatorBytes (discriminator : String) : List UInt8 :=
  let rec pairs : List Char → List UInt8
    | h :: l :: rest => UInt8.ofNat (hexDigit h * 16 + hexDigit l) :: pairs rest
    | _ => []
  pairs discriminator.toList

def IdlValue.isUndefined : IdlValue → Bool
  | .undefined => true
  | _ => false

/-- `partial_fill` is left out where it is the last argument and not given. -/
def argFields (args : List IdlField) (values : String → IdlValue) : List IdlField :=
  match args.getLast? with
  | some last =>
      if last.name = "partial_fill" ∧ (values "partialFill").isUndefined then args.dropLast
      else args
  | none => args

/-- How many calls fit on the stack. -/
def callStack : Nat := 1000

def encodeIdlFields (fields : List IdlField) (values : String → IdlValue)
    (types : String → Option IdlTypeDef) : Except IdlError (List UInt8) :=
  encodeFieldList (encodeIdlValue types callStack) (some (.named fields)) (.object values)

def instructionData (schema : IdlProgramSchema) (ix : IdlInstructionSchema)
    (args : String → IdlValue) : Build (List UInt8) := do
  let body ← (encodeIdlFields (argFields ix.args args) args schema.types).mapError .idl
  return discriminatorBytes ix.discriminator ++ body

/-! ## Instruction -/

def findInstruction (schema : IdlProgramSchema) (name : String) : Build IdlInstructionSchema :=
  match schema.instructions.find? (·.name = name) with
  | some ix => .ok ix
  | none => .error (.noInstruction name)

/-- The instruction's own accounts, and the program. -/
def instructionKeys (noble : Noble) (schema : IdlProgramSchema) (ix : IdlInstructionSchema)
    (known : Known) : Build (PublicKey × List AccountMeta) := do
  let programId ← fromBase58 schema.address
  let resolved ← resolveAccounts noble ix.name programId ix.accounts (ix.accounts.length + 1) known
  let keys ← ix.accounts.mapM (accountKey ix.name resolved)
  return (programId, keys)

def buildIdlInstruction (noble : Noble) (schema : IdlProgramSchema) (name : String) (known : Known)
    (args : String → IdlValue) (remaining : List AccountMeta) : Build Instruction := do
  let ix ← findInstruction schema name
  let (programId, keys) ← instructionKeys noble schema ix known
  let data ← instructionData schema ix args
  return { programId := programId, keys := keys ++ remaining, data := data }

end Ap3xSolana.Pumpfun
