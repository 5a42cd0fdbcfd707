import Ap3xSolana.Core.Borsh

/-!
# Mints and token accounts

The base fields stand at fixed offsets; an optional field has a tag of four bytes and its
slot whether it is there or not.  Behind the base layout, which is padded to 165 bytes,
stands an account type and then a list of Token-2022 extensions, each with a type, a length
and that many bytes.  Three extensions of a mint have a decoder; every other entry is handed
on as it stands.
-/

namespace Ap3xSolana.Spl

open Ap3xSolana.Core Ap3xSolana.Core.Borsh
open Ap3xSolana.Lib Ap3xSolana.Lib.Cursor Ap3xSolana.Lib.LittleEndian Ap3xSolana.Lib.Reading

inductive SplError where
  | mintTooShort (got : Nat)
  | tokenAccountTooShort (got : Nat)
  | invalidPubkeyTag (tag : Nat) (field : String)
  | invalidU64Tag (tag : Nat) (field : String)
  | invalidState (b : Nat)
  | closeAuthorityTooShort (got : Nat)
  | transferFeeTooShort (got : Nat)
  | defaultStateMissing
  | defaultStateInvalid (b : Nat)
  | entryOverrun (type length offset remaining : Nat)
  | borsh (e : BorshError)
  | publicKey (e : PublicKey.PublicKeyError)
  deriving DecidableEq, Repr

def SplError.message : SplError → String
  | .mintTooShort got => s!"decodeMint: data too short — got {got} bytes, need at least 82"
  | .tokenAccountTooShort got =>
      s!"decodeTokenAccount: data too short — got {got} bytes, need at least 165"
  | .invalidPubkeyTag tag field =>
      s!"spl: invalid COption<Pubkey> tag {tag} for {field} — expected 0 or 1"
  | .invalidU64Tag tag field =>
      s!"decodeTokenAccount: invalid COption<u64> tag {tag} for {field} — expected 0 or 1"
  | .invalidState b =>
      s!"decodeTokenAccount: invalid state byte {b} — expected 0 (uninit), 1 (init), " ++
        "or 2 (frozen)"
  | .closeAuthorityTooShort got =>
      s!"decodeExtensions: MintCloseAuthority payload too short — got {got}, need 32"
  | .transferFeeTooShort got =>
      s!"decodeExtensions: TransferFeeConfig payload too short — got {got}, need 108"
  | .defaultStateMissing => "decodeExtensions: DefaultAccountState payload missing state byte"
  | .defaultStateInvalid b =>
      s!"decodeExtensions: DefaultAccountState bad state byte {b} — expected 0, 1, or 2"
  | .entryOverrun type length offset remaining =>
      s!"decodeExtensions: TLV entry type {type} length {length} runs past end of buffer " ++
        s!"(offset {offset}, remaining {remaining})"
  | .borsh e => e.message
  | .publicKey e => e.message

abbrev SplReader (α : Type) := Reader SplError UInt8 α

/-- A read of the borsh reader, with its errors among the others. -/
def borsh {α : Type} (r : BorshReader α) : SplReader α := fun c => (r c).mapError .borsh

/-- `PublicKey.fromBytes`, with its errors among the others. -/
def keyFromBytes (bytes : List UInt8) : Except SplError PublicKey :=
  (PublicKey.fromBytes bytes).mapError .publicKey

/-! ## Program ids -/

def tokenProgramId : PublicKey :=
  ((PublicKey.fromBase58 "TokenkegQfeZyiNwAJbNbGKPFXCWuBvf9Ss623VQ5DA").toOption).getD
    (PublicKey.ofByte 0)

def token2022ProgramId : PublicKey :=
  ((PublicKey.fromBase58 "TokenzQdBNbLqP5VEhdkAS6EPFLC1PHnBqCXEpPxuEb").toOption).getD
    (PublicKey.ofByte 0)

inductive TokenProgramKind where
  | splV1
  | token2022
  deriving DecidableEq, Repr

structure AccountInfo where
  data : List UInt8
  owner : Option PublicKey
  deriving DecidableEq, Repr

def detectTokenProgram (account : AccountInfo) : TokenProgramKind :=
  match account.owner with
  | some owner => if owner = token2022ProgramId then .token2022 else .splV1
  | none => .splV1

/-! ## Entries -/

def accountTypeOffset : Nat := 165

def tlvStartOffset : Nat := 166

def accountTypeUninitialized : Nat := 0

namespace ExtensionType

def uninitialized : Nat := 0

def transferFeeConfig : Nat := 1

def mintCloseAuthority : Nat := 3

def defaultAccountState : Nat := 6

end ExtensionType

structure TlvEntry where
  type : Nat
  data : List UInt8
  deriving DecidableEq, Repr

/-- `data[i]! | (data[i + 1]! << 8)`. -/
def u16At (data : List UInt8) (i : Nat) : Nat :=
  (data.getD i 0).toNat ||| ((data.getD (i + 1) 0).toNat <<< 8)

/-- The loop of `readTlvEntries`.  A turn moves the offset, so that no more turns are
taken than there are bytes. -/
def tlvLoop (data : List UInt8) : Nat → Nat → List TlvEntry → Except SplError (List TlvEntry)
  | 0, _, out => .ok out
  | turns + 1, offset, out =>
      if offset + 4 ≤ data.length then
        let type := u16At data offset
        let length := u16At data (offset + 2)
        let offset := offset + 4
        if type = ExtensionType.uninitialized then .ok out
        else if offset + length > data.length then
          .error (.entryOverrun type length offset (data.length - offset))
        else
          tlvLoop data turns (offset + length)
            (out ++ [{ type := type, data := slice data offset (offset + length) }])
      else .ok out

def readTlvEntries (data : List UInt8) : Except SplError (List TlvEntry) :=
  tlvLoop data data.length 0 []

/-! ## Known extensions -/

structure MintCloseAuthorityExt where
  closeAuthority : Option PublicKey
  deriving DecidableEq, Repr

structure TransferFee where
  epoch : Nat
  maximumFee : Nat
  transferFeeBasisPoints : Nat
  deriving DecidableEq, Repr

structure TransferFeeConfigExt where
  transferFeeConfigAuthority : Option PublicKey
  withdrawWithheldAuthority : Option PublicKey
  withheldAmount : Nat
  olderTransferFee : TransferFee
  newerTransferFee : TransferFee
  deriving DecidableEq, Repr

inductive TokenAccountState where
  | uninitialized
  | initialized
  | frozen
  deriving DecidableEq, Repr

structure DefaultAccountStateExt where
  state : TokenAccountState
  deriving DecidableEq, Repr

structure TokenMintExtensions where
  mintCloseAuthority : Option MintCloseAuthorityExt := none
  transferFeeConfig : Option TransferFeeConfigExt := none
  defaultAccountState : Option DefaultAccountStateExt := none
  deriving DecidableEq, Repr

structure TokenAccountExtensions where
  deriving DecidableEq, Repr

def isZeroPubkey (bytes : List UInt8) : Bool := (bytes.take 32).all (· = 0)

/-- No key where the bytes are all zero. -/
def authorityFromBytes (bytes : List UInt8) : Except SplError (Option PublicKey) :=
  if isZeroPubkey bytes then .ok none
  else do
    let key ← keyFromBytes bytes
    return some key

def decodeMintCloseAuthority (data : List UInt8) : Except SplError MintCloseAuthorityExt :=
  if data.length < 32 then .error (.closeAuthorityTooShort data.length)
  else do
    let closeAuthority ← authorityFromBytes (slice data 0 32)
    return { closeAuthority := closeAuthority }

def readTransferFee : SplReader TransferFee := do
  let epoch ← borsh readU64
  let maximumFee ← borsh readU64
  let transferFeeBasisPoints ← borsh readU16
  return { epoch := epoch, maximumFee := maximumFee,
           transferFeeBasisPoints := transferFeeBasisPoints }

/-- The fields as they are read; the keys are made of their bytes afterwards. -/
def readTransferFeeConfig :
    SplReader (List UInt8 × List UInt8 × Nat × TransferFee × TransferFee) := do
  let configAuthorityBytes ← borsh (readBytes 32)
  let withdrawAuthorityBytes ← borsh (readBytes 32)
  let withheldAmount ← borsh readU64
  let older ← readTransferFee
  let newer ← readTransferFee
  return (configAuthorityBytes, withdrawAuthorityBytes, withheldAmount, older, newer)

def decodeTransferFeeConfig (data : List UInt8) : Except SplError TransferFeeConfigExt :=
  if data.length < 108 then .error (.transferFeeTooShort data.length)
  else do
    let ((configAuthorityBytes, withdrawAuthorityBytes, withheldAmount, older, newer), _) ←
      readTransferFeeConfig ⟨slice data 0 108, 0⟩
    let transferFeeConfigAuthority ← authorityFromBytes configAuthorityBytes
    let withdrawWithheldAuthority ← authorityFromBytes withdrawAuthorityBytes
    return {
      transferFeeConfigAuthority := transferFeeConfigAuthority
      withdrawWithheldAuthority := withdrawWithheldAuthority
      withheldAmount := withheldAmount
      olderTransferFee := older
      newerTransferFee := newer }

/-- Both state bytes of the layout, each with its own error. -/
def stateOfByte (invalid : Nat → SplError) (b : Nat) : Except SplError TokenAccountState :=
  if b = 0 then .ok .uninitialized
  else if b = 1 then .ok .initialized
  else if b = 2 then .ok .frozen
  else .error (invalid b)

def decodeDefaultAccountState (data : List UInt8) : Except SplError DefaultAccountStateExt :=
  match data with
  | [] => .error .defaultStateMissing
  | b :: _ => do
      let state ← stateOfByte .defaultStateInvalid b.toNat
      return { state := state }

/-! ## `decodeExtensions` -/

inductive AccountKind where
  | mint
  | account
  deriving DecidableEq, Repr

/-- Where the entries go. -/
structure Collected where
  mintExtensions : TokenMintExtensions := {}
  unknownExtensions : List TlvEntry := []
  deriving DecidableEq, Repr

namespace Collected

def unknown (out : Collected) (entry : TlvEntry) : Collected :=
  { out with unknownExtensions := out.unknownExtensions ++ [entry] }

/-- One turn of the loop over the entries. -/
def entry (kind : AccountKind) (out : Collected) (entry : TlvEntry) :
    Except SplError Collected :=
  if entry.type = ExtensionType.uninitialized then .ok out
  else
    match kind with
    | .account => .ok (out.unknown entry)
    | .mint =>
        if entry.type = ExtensionType.mintCloseAuthority then do
          let ext ← decodeMintCloseAuthority entry.data
          return { out with
            mintExtensions := { out.mintExtensions with mintCloseAuthority := some ext } }
        else if entry.type = ExtensionType.transferFeeConfig then do
          let ext ← decodeTransferFeeConfig entry.data
          return { out with
            mintExtensions := { out.mintExtensions with transferFeeConfig := some ext } }
        else if entry.type = ExtensionType.defaultAccountState then do
          let ext ← decodeDefaultAccountState entry.data
          return { out with
            mintExtensions := { out.mintExtensions with defaultAccountState := some ext } }
        else .ok (out.unknown entry)

end Collected

/-- For an account the mint's extensions stay empty. -/
def decodeExtensions (data : List UInt8) (kind : AccountKind) : Except SplError Collected :=
  if data.length ≤ accountTypeOffset then .ok {}
  else if (data.getD accountTypeOffset 0).toNat = accountTypeUninitialized then .ok {}
  else do
    let entries ← readTlvEntries (data.drop tlvStartOffset)
    entries.foldlM (Collected.entry kind) {}

/-- Fails with what `Except` failed with. -/
def lift {α : Type} (x : Except SplError α) : SplReader α := fun c => x.map (·, c)

def readCOptionPubkey (field : String) : SplReader (Option PublicKey) := do
  let tag ← borsh readU32
  let pkBytes ← borsh (readBytes 32)
  if tag = 0 then return none
  else if tag = 1 then do
    let key ← lift (keyFromBytes pkBytes)
    return some key
  else throw (.invalidPubkeyTag tag field)

def readCOptionU64 (field : String) : SplReader (Option Nat) := do
  let tag ← borsh readU32
  let value ← borsh readU64
  if tag = 0 then return none
  else if tag = 1 then return some value
  else throw (.invalidU64Tag tag field)

/-! ## Mints -/

def mintAccountSize : Nat := 82

/-- The fields of the base layout. -/
structure MintBase where
  mintAuthority : Option PublicKey
  supply : Nat
  decimals : Nat
  isInitialized : Bool
  freezeAuthority : Option PublicKey
  deriving DecidableEq, Repr

/-- Without a Token-2022 owner there are no extension fields. -/
structure TokenMint extends MintBase where
  tokenProgram : TokenProgramKind
  extensions : Option TokenMintExtensions := none
  unknownExtensions : Option (List TlvEntry) := none
  deriving DecidableEq, Repr

def readMintBase : SplReader MintBase := do
  let mintAuthority ← readCOptionPubkey "mintAuthority"
  let supply ← borsh readU64
  let decimals ← borsh readU8
  let isInitialized ← borsh readBool
  let freezeAuthority ← readCOptionPubkey "freezeAuthority"
  return {
    mintAuthority := mintAuthority
    supply := supply
    decimals := decimals
    isInitialized := isInitialized
    freezeAuthority := freezeAuthority }

def decodeMint (account : AccountInfo) : Except SplError TokenMint :=
  if account.data.length < mintAccountSize then .error (.mintTooShort account.data.length)
  else do
    let (base, _) ← readMintBase ⟨slice account.data 0 mintAccountSize, 0⟩
    let out : TokenMint := { base with tokenProgram := detectTokenProgram account }
    match detectTokenProgram account with
    | .splV1 => return out
    | .token2022 => do
        let decoded ← decodeExtensions account.data .mint
        return { out with
          extensions := some decoded.mintExtensions
          unknownExtensions := some decoded.unknownExtensions }

/-! ## Token accounts -/

def tokenAccountSize : Nat := 165

/-- The fields of the base layout. -/
structure TokenAccountBase where
  mint : PublicKey
  owner : PublicKey
  amount : Nat
  delegate : Option PublicKey
  state : TokenAccountState
  isNative : Option Nat
  delegatedAmount : Nat
  closeAuthority : Option PublicKey
  deriving DecidableEq, Repr

/-- Without a Token-2022 owner there are no extension fields. -/
structure TokenAccount extends TokenAccountBase where
  tokenProgram : TokenProgramKind
  extensions : Option TokenAccountExtensions := none
  unknownExtensions : Option (List TlvEntry) := none
  deriving DecidableEq, Repr

def stateFromByte (b : Nat) : Except SplError TokenAccountState := stateOfByte .invalidState b

def readTokenAccountBase : SplReader TokenAccountBase := do
  let mint ← borsh readPubkey
  let owner ← borsh readPubkey
  let amount ← borsh readU64
  let delegate ← readCOptionPubkey "delegate"
  let stateByte ← borsh readU8
  let state ← lift (stateFromByte stateByte)
  let isNative ← readCOptionU64 "isNative"
  let delegatedAmount ← borsh readU64
  let closeAuthority ← readCOptionPubkey "closeAuthority"
  return {
    mint := mint
    owner := owner
    amount := amount
    delegate := delegate
    state := state
    isNative := isNative
    delegatedAmount := delegatedAmount
    closeAuthority := closeAuthority }

def decodeTokenAccount (account : AccountInfo) : Except SplError TokenAccount :=
  if account.data.length < tokenAccountSize then
    .error (.tokenAccountTooShort account.data.length)
  else do
    let (base, _) ← readTokenAccountBase ⟨slice account.data 0 tokenAccountSize, 0⟩
    let out : TokenAccount := { base with tokenProgram := detectTokenProgram account }
    match detectTokenProgram account with
    | .splV1 => return out
    | .token2022 => do
        let decoded ← decodeExtensions account.data .account
        return { out with
          extensions := some {}
          unknownExtensions := some decoded.unknownExtensions }

end Ap3xSolana.Spl
