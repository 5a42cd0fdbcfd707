import Ap3xSolana.Events.Base64
import Ap3xSolana.Lib.Json
import Ap3xSolana.Spl.TokenAccount

/-!
# Holder queries

The two RPC methods behind a list of holders, and what the code makes of their responses.
A request is what the code hands to `rpcPool.call`; a response is any JSON value.
-/

namespace Ap3xSolana.Spl

open Ap3xSolana.Core Ap3xSolana.Events Ap3xSolana.Lib

inductive Commitment where
  | processed
  | confirmed
  | finalized
  deriving DecidableEq, Repr

inductive RpcFilter where
  | dataSize (size : Nat)
  /-- `bytes` is base58. -/
  | memcmp (offset : Nat) (bytes : String)
  deriving DecidableEq, Repr

structure ProgramAccountsConfig where
  encoding : String
  filters : List RpcFilter
  commitment : Option Commitment := none
  deriving DecidableEq, Repr

inductive RpcRequest where
  | getTokenLargestAccounts (mint : String) (commitment : Option Commitment)
  | getProgramAccounts (program : String) (config : ProgramAccountsConfig)
  deriving DecidableEq, Repr

inductive QueryError where
  /-- What `rpcPool.call` rejects with. -/
  | rpc (message : String)
  | envelope (message : String)
  | entry (method : String) (i : Nat) (what : String)
  | publicKey (e : PublicKey.PublicKeyError)
  /-- The `SyntaxError` of `BigInt`. -/
  | bigInt (text : String)
  /-- The `InvalidCharacterError` of `atob`. -/
  | atob
  | spl (e : SplError)
  deriving DecidableEq, Repr

def QueryError.message : QueryError → String
  | .rpc message => message
  | .envelope message => message
  | .entry method i what => s!"{method}: entry[{i}]{what}"
  | .publicKey e => e.message
  | .bigInt text => s!"Cannot convert {text} to a BigInt"
  | .atob => "The string to be decoded is not correctly encoded."
  | .spl e => e.message

structure RpcPoolLike where
  call : RpcRequest → Except QueryError Json

/-- `PublicKey.fromBase58`, with its errors among the others. -/
def keyFromBase58 (s : String) : Except QueryError PublicKey :=
  (PublicKey.fromBase58 s).mapError .publicKey

/-- `BigInt(text)`, with its error among the others. -/
def bigIntOf (text : String) : Except QueryError Int :=
  match bigInt text with
  | some n => .ok n
  | none => .error (.bigInt text)

/-! ## Shape checks -/

def checkObject (v : Json) (e : QueryError) : Except QueryError Unit :=
  if v.isObject then .ok () else .error e

def stringField (name : String) (v : Json) (e : QueryError) : Except QueryError String :=
  match v.field name with
  | some (.string s) => .ok s
  | _ => .error e

def numberField (name : String) (v : Json) (e : QueryError) : Except QueryError Rat :=
  match v.field name with
  | some (.number n) => .ok n
  | _ => .error e

def objectField (name : String) (v : Json) (e : QueryError) : Except QueryError Json :=
  match v.field name with
  | some x => if x.isObject then .ok x else .error e
  | none => .error e

def arrayOf (v : Option Json) (e : QueryError) : Except QueryError (List Json) :=
  match v with
  | some (.array items) => .ok items
  | _ => .error e

/-- `data[0]` of an array. -/
def payload (acc : Json) (e : QueryError) : Except QueryError String :=
  match acc.field "data" with
  | some (.array (.string data :: _)) => .ok data
  | _ => .error e

/-! ## `getTokenLargestAccounts` -/

structure LargestAccount where
  address : PublicKey
  amount : Int
  decimals : Rat

def largestEntry (entry : Json) (i : Nat) : Except QueryError LargestAccount := do
  checkObject entry (.entry "getTokenLargestAccounts" i " is not an object")
  let address ← stringField "address" entry
    (.entry "getTokenLargestAccounts" i ".address is not a string")
  let amount ← stringField "amount" entry
    (.entry "getTokenLargestAccounts" i ".amount is not a string")
  let decimals ← numberField "decimals" entry
    (.entry "getTokenLargestAccounts" i ".decimals is not a number")
  let address ← keyFromBase58 address
  let amount ← bigIntOf amount
  return { address := address, amount := amount, decimals := decimals }

def getTokenLargestAccounts (rpcPool : RpcPoolLike) (mint : PublicKey)
    (commitment : Option Commitment) : Except QueryError (List LargestAccount) := do
  let raw ← rpcPool.call (.getTokenLargestAccounts mint.toBase58 commitment)
  checkObject raw
    (.envelope "getTokenLargestAccounts: unexpected response envelope (not an object)")
  let value ← arrayOf (raw.field "value")
    (.envelope "getTokenLargestAccounts: response.value is not an array")
  value.zipIdx.mapM fun (entry, i) => largestEntry entry i

/-! ## `getTokenAccountsByMint` -/

structure TokenAccountHolding where
  pubkey : PublicKey
  account : TokenAccount
  deriving DecidableEq, Repr

structure GetTokenAccountsByMintOptions where
  commitment : Option Commitment := none
  tokenProgramId : Option PublicKey := none
  deriving DecidableEq, Repr

/-- Up to two `=` go where the length is a multiple of four; white space never counts. -/
def unpadded (cs : List Char) : List Char :=
  if cs.length % 4 = 0 then
    if cs.drop (cs.length - 2) = ['=', '='] then cs.take (cs.length - 2)
    else if cs.drop (cs.length - 1) = ['='] then cs.take (cs.length - 1)
    else cs
  else cs

/-- `atob`, with the characters as bytes. -/
def base64ToBytes (b64 : String) : Except QueryError (List UInt8) :=
  let cs := unpadded (b64.toList.filter fun c => c.toNat ∉ [9, 10, 12, 13, 32])
  if cs.length % 4 = 1 then .error .atob
  else if cs.all isBase64Char then .ok (base64Bytes cs)
  else .error .atob

/-- An account without an owner is taken to be of the program that was asked for. -/
def ownerKey (acc : Json) (tokenProgramId : PublicKey) : Except QueryError PublicKey :=
  match acc.field "owner" with
  | some (.string owner) => keyFromBase58 owner
  | _ => .ok tokenProgramId

def programEntry (tokenProgramId : PublicKey) (entry : Json) (i : Nat) :
    Except QueryError TokenAccountHolding := do
  checkObject entry (.entry "getTokenAccountsByMint" i " is not an object")
  let pubkey ← stringField "pubkey" entry
    (.entry "getTokenAccountsByMint" i ".pubkey is not a string")
  let acc ← objectField "account" entry
    (.entry "getTokenAccountsByMint" i ".account is not an object")
  let data ← payload acc
    (.entry "getTokenAccountsByMint" i ".account.data must be [string, 'base64']")
  let dataBytes ← base64ToBytes data
  let ownerPk ← ownerKey acc tokenProgramId
  let decoded ← (decodeTokenAccount { data := dataBytes, owner := some ownerPk }).mapError .spl
  let pubkey ← keyFromBase58 pubkey
  return { pubkey := pubkey, account := decoded }

def byMintConfig (mint : PublicKey) (commitment : Option Commitment) : ProgramAccountsConfig where
  encoding := "base64"
  filters := [.dataSize tokenAccountSize, .memcmp 0 mint.toBase58]
  commitment := commitment

def getTokenAccountsByMint (rpcPool : RpcPoolLike) (mint : PublicKey)
    (options : GetTokenAccountsByMintOptions) : Except QueryError (List TokenAccountHolding) := do
  let tokenProgramId := options.tokenProgramId.getD Spl.tokenProgramId
  let raw ← rpcPool.call (.getProgramAccounts tokenProgramId.toBase58
    (byMintConfig mint options.commitment))
  let entries ← arrayOf (some raw) (.envelope <|
    "getTokenAccountsByMint: response is not an array (expected getProgramAccounts shape)")
  entries.zipIdx.mapM fun (entry, i) => programEntry tokenProgramId entry i

end Ap3xSolana.Spl
