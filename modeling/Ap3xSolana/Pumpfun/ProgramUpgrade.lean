import Ap3xSolana.Core.PublicKey
import Ap3xSolana.Events.Base64
import Ap3xSolana.Lib.Cursor
import Ap3xSolana.Lib.Json
import Ap3xSolana.Lib.Radix
import Ap3xSolana.Lib.Requests
import Ap3xSolana.Pumpfun.IdlSchema

/-!
# Program upgrades

The readers of account data, one account or a batch at a time, and the two checks that
follow a program account to its program data.  A request is what is handed to
`rpcPool.call`, a response any JSON value.
-/

namespace Ap3xSolana.Pumpfun.ProgramUpgrade

open Core Events Lib Lib.Cursor Lib.Requests

/-! ## Requests -/

structure DataSlice where
  offset : Int
  length : Int
  deriving DecidableEq, Repr

/-- Without `encoding`, which is `base64` in every request. -/
structure AccountConfig where
  commitment : Option String := none
  dataSlice : Option DataSlice := none
  deriving DecidableEq, Repr

inductive AccountRequest where
  | getAccountInfo (address : String) (config : AccountConfig)
  | getMultipleAccounts (addresses : List String) (config : AccountConfig)
  deriving DecidableEq, Repr

/-- How many accounts the request names. -/
def AccountRequest.accounts : AccountRequest → Nat
  | .getAccountInfo _ _ => 1
  | .getMultipleAccounts addresses _ => addresses.length

inductive AccountError where
  /-- What `rpcPool.call` rejects with. -/
  | rpc (message : String)
  /-- `AccountLayoutError`. -/
  | layout (expected : String) (observed : List UInt8) (field : Option String)
  | batchBounds
  | batchSlice
  | publicKey (e : PublicKey.PublicKeyError)
  /-- The response is not what it is cast to. -/
  | illTyped
  deriving DecidableEq, Repr

def AccountError.message : AccountError → String
  | .rpc message => message
  | .layout expected _ none => s!"account layout mismatch: expected {expected}"
  | .layout expected _ (some field) =>
      s!"account layout mismatch: expected {expected} (field: {field})"
  | .batchBounds => "account batch bounds"
  | .batchSlice => "account batch slice"
  | .publicKey e => e.message
  | .illTyped => "TypeError"

/-- The pool while the chain does not change. -/
structure AccountRpc where
  call : AccountRequest → Except AccountError Json

abbrev AccountReads (α : Type) := Calls AccountError AccountRequest α

def AccountRpc.ask (rpcPool : AccountRpc) (request : AccountRequest) : AccountReads Json :=
  Requests.call rpcPool.call request

/-! ## Values -/

/-- Whether a value that may be missing is truthy. -/
def isTruthy : Option Json → Bool
  | none => false
  | some .null => false
  | some (.boolean b) => b
  | some (.number n) => n ≠ 0
  | some (.string s) => s ≠ ""
  | some (.array _) => true
  | some (.object _) => true

/-- The digit that a character stands for, in either alphabet. -/
def base64Kept (c : Char) : Option Char :=
  if isBase64Char c then some c
  else if c = '-' then some '+'
  else if c = '_' then some '/'
  else none

/-- `Buffer.from(s, 'base64')`: up to the padding, without the characters that are no digits. -/
def bufferFromBase64 (s : String) : List UInt8 :=
  base64Bytes ((s.toList.takeWhile (· ≠ '=')).filterMap base64Kept)

/-- `bytes.toString('base64')`. -/
def toBase64 (bytes : List UInt8) : String := String.ofList (encodeBase64 bytes)

/-- `view.getUint32(offset, true)`. -/
def getUint32 (data : List UInt8) (offset : Nat) : Nat :=
  LittleEndian.ofBytes (slice data offset (offset + 4))

/-- `view.getBigUint64(offset, true)`. -/
def getBigUint64 (data : List UInt8) (offset : Nat) : Nat :=
  LittleEndian.ofBytes (slice data offset (offset + 8))

/-! ## Account data -/

/-- `Uint8Array.from(Buffer.from(data[0], 'base64'))`. -/
def firstBytes : Option Json → Except AccountError (List UInt8)
  | some (.array (.string text :: _)) => .ok (bufferFromBase64 text)
  | _ => .error .illTyped

/-- `response?.value?.data`. -/
def responseData (response : Json) : Option Json :=
  (response.field "value").bind (·.field "data")

def fetchAccountData (rpcPool : AccountRpc) (address : PublicKey) (label : String) :
    AccountReads (List UInt8) := do
  let response ← rpcPool.ask
    (.getAccountInfo address.toBase58 { commitment := some "confirmed" })
  if isTruthy (responseData response) then lift (firstBytes (responseData response))
  else throw (.layout label [] (some "account not found"))

/-- One account of a batched response. -/
def batchEntry (label : String) (account : Json) : Except AccountError (List UInt8) :=
  if isTruthy (some account) then
    match account.field "data" with
    | some (.array [.string text, .string encoding]) =>
        if encoding = "base64" ∧ toBase64 (bufferFromBase64 text) = text then
          .ok (bufferFromBase64 text)
        else .error (.layout label [] (some "account encoding"))
    | _ => .error (.layout label [] (some "account encoding"))
  else .error (.layout label [] (some "account not found"))

/-- `Number.isSafeInteger`, and not negative. -/
def isBound (n : Int) : Bool := 0 ≤ n && n < 2 ^ 53

def batchEntries (requested : List (PublicKey × String)) (response : Json) :
    Except AccountError (List (List UInt8)) :=
  match response.field "value" with
  | some (.array accounts) =>
      if accounts.length ≠ requested.length then
        .error (.layout "account batch" [] (some "response length mismatch"))
      else (requested.zip accounts).mapM fun p => batchEntry p.1.2 p.2
  | _ => .error (.layout "account batch" [] (some "response length mismatch"))

/-- An account is its address and its label. -/
def fetchAccountDataBatch (rpcPool : AccountRpc) (requested : List (PublicKey × String))
    (dataSlice : Option DataSlice) : AccountReads (List (List UInt8)) :=
  if 100 < requested.length ∨ requested.any fun a => trim a.2.toList = [] then
    throw .batchBounds
  else if dataSlice.any fun s => !(isBound s.offset && isBound s.length) then throw .batchSlice
  else if requested = [] then return []
  else do
    let response ← rpcPool.ask (.getMultipleAccounts (requested.map fun a => a.1.toBase58)
      { commitment := some "confirmed", dataSlice := dataSlice })
    lift (batchEntries requested response)

/-! ## Deployments -/

def programTag : Nat := 2

def programDataTag : Nat := 3

/-- The program data account that a program account names. -/
def programDataKey (program : List UInt8) : Except AccountError PublicKey :=
  if program.length < 36 ∨ getUint32 program 0 ≠ programTag then
    .error (.layout "Program" program (some "not an upgradeable program account"))
  else
    match PublicKey.fromBytes (slice program 4 36) with
    | .ok key => .ok key
    | .error e => .error (.publicKey e)

/-- The slot in the header of a program data account. -/
def headerSlot (header : List UInt8) : Except AccountError Nat :=
  if header.length < 12 ∨ getUint32 header 0 ≠ programDataTag then
    .error (.layout "ProgramData" header (some "not a ProgramData account"))
  else .ok (getBigUint64 header 4)

/-- `{ offset: 0, length: 12 }`. -/
def headerSlice : DataSlice := ⟨0, 12⟩

def programDeploySlot (rpcPool : AccountRpc) (programId : PublicKey) : AccountReads Nat := do
  let program ← fetchAccountData rpcPool programId "Program"
  let programData ← lift (programDataKey program)
  let response ← rpcPool.ask
    (.getAccountInfo programData.toBase58 { dataSlice := some headerSlice })
  let header ← lift (if isTruthy (responseData response) then firstBytes (responseData response)
    else .ok [])
  lift (headerSlot header)

structure VerifiedDeploy where
  programId : PublicKey
  slot : Int
  deriving DecidableEq, Repr

/-- `VERIFIED_DEPLOYS`. -/
def verifiedDeploys : List VerifiedDeploy :=
  [⟨⟨bondingCurveProgram, rfl⟩, 452654932⟩, ⟨⟨pumpSwapProgram, rfl⟩, 452654882⟩,
    ⟨⟨feeProgram, rfl⟩, 452655002⟩]

structure UpgradeCheck where
  programId : PublicKey
  verifiedSlot : Int
  deployedSlot : Int
  upgraded : Bool
  deriving DecidableEq, Repr

def upgradeCheck (entry : VerifiedDeploy) (deployedSlot : Nat) : UpgradeCheck where
  programId := entry.programId
  verifiedSlot := entry.slot
  deployedSlot := deployedSlot
  upgraded := (deployedSlot : Int) ≠ entry.slot

/-- The loop over the headers of a batch. -/
def checkHeader (batch : List VerifiedDeploy) (header : List UInt8) (index : Nat) :
    Except AccountError UpgradeCheck := do
  let deployedSlot ← headerSlot header
  match batch[index]? with
  | some entry => return upgradeCheck entry deployedSlot
  | none => throw .illTyped

/-- One turn of the loop of `checkProgramUpgrades`. -/
def checkBatch (rpcPool : AccountRpc) (batch : List VerifiedDeploy) :
    AccountReads (List UpgradeCheck) := do
  let programs ← fetchAccountDataBatch rpcPool
    (batch.map fun entry => (entry.programId, "Program")) none
  let keys ← lift (programs.mapM programDataKey)
  let headers ← fetchAccountDataBatch rpcPool (keys.map fun key => (key, "ProgramData"))
    (some headerSlice)
  lift (headers.zipIdx.mapM fun p => checkHeader batch p.1 p.2)

/-- The turns from `start` on. -/
def checkFrom (rpcPool : AccountRpc) (requested : List VerifiedDeploy) (start : Nat)
    (checks : List UpgradeCheck) : AccountReads (List UpgradeCheck) :=
  if start < requested.length then do
    let checked ← checkBatch rpcPool ((requested.drop start).take 100)
    checkFrom rpcPool requested (start + 100) (checks ++ checked)
  else return checks
termination_by requested.length - start

def checkProgramUpgrades (rpcPool : AccountRpc)
    (verified : List VerifiedDeploy := verifiedDeploys) : AccountReads (List UpgradeCheck) :=
  checkFrom rpcPool verified 0 []

end Ap3xSolana.Pumpfun.ProgramUpgrade
