import Ap3xSolana.Core.PublicKey
import Ap3xSolana.Lib.Grouping
import Ap3xSolana.Lib.OrderedMap
import Ap3xSolana.Portfolio.Accounting

/-!
# `CostBasisReconstructor`

Cold-start cost basis: walk a wallet's transactions newest first, back to the one that
opened the position, and replay them oldest first.  The RPC node, the swap tracers and
the `transferBasis` hook are parameters.  JSON fields that may be missing are options;
a missing and an empty text are told apart only where the code does.
-/

namespace Ap3xSolana.Portfolio.Reconstructor

open Ap3xSolana.Core Ap3xSolana.Lib Ap3xSolana.Lib.Grouping
open Ap3xSolana.Portfolio.Accounting

/-! ## What the node answers -/

structure SignatureEntry where
  signature : String
  slot : Nat
  blockTime : Option Int
  /-- `err` is truthy. -/
  err : Bool := false
  deriving DecidableEq, Repr

/-- `amount` is the number in `uiTokenAmount.amount`. -/
structure TokenBalanceEntry where
  owner : Option String
  mint : Option String
  amount : Option Int
  deriving DecidableEq, Repr

structure RpcInstruction where
  programIdIndex : Nat
  accounts : Option (List Nat) := none
  data : Option String := none
  deriving DecidableEq, Repr

/-- `getTransaction`, with the fields of `meta` and `message` side by side. -/
structure RpcTransaction where
  err : Bool := false
  preBalances : Option (List Int) := none
  postBalances : Option (List Int) := none
  fee : Option Int := none
  preTokenBalances : Option (List TokenBalanceEntry) := none
  postTokenBalances : Option (List TokenBalanceEntry) := none
  logMessages : Option (List String) := none
  loadedWritable : Option (List String) := none
  loadedReadonly : Option (List String) := none
  accountKeys : List String
  instructions : Option (List RpcInstruction) := none
  deriving DecidableEq, Repr

structure RpcPool where
  /-- The page of a wallet's signatures before the given one. -/
  getSignaturesForAddress : PublicKey → Option String → List SignatureEntry
  getTransaction : String → Option RpcTransaction

inductive ReconstructError where
  | publicKey (e : PublicKey.PublicKeyError)
  | base58 (e : Base58.Base58Error)
  | reduce (e : ReduceError)
  deriving DecidableEq, Repr

def parseKey (s : String) : Except ReconstructError PublicKey :=
  match PublicKey.fromBase58 s with
  | .ok key => .ok key
  | .error e => .error (.publicKey e)

/-- A text that is there and not empty. -/
def truthy (s : Option String) : Option String := s.filter (· ≠ "")

/-! ## RPC transaction helpers -/

/-- Static keys followed by address-lookup-table keys (writable, then readonly). -/
def accountKeys (tx : RpcTransaction) : List String :=
  tx.accountKeys ++ tx.loadedWritable.getD [] ++ tx.loadedReadonly.getD []

/-- Sum of `owner`'s balances of `mint` across all its token accounts. -/
def ownedAmount (entries : Option (List TokenBalanceEntry)) (owner mint : PublicKey) : Int :=
  (((entries.getD []).filter fun b =>
    b.owner = some owner.toBase58 && b.mint = some mint.toBase58).map
      fun b => b.amount.getD 0).sum

/-- The other owners of `mint` in the transaction, each once. -/
def otherOwners (tx : RpcTransaction) (wallet mint : PublicKey) : List String :=
  firstSeen (((tx.preTokenBalances.getD [] ++ tx.postTokenBalances.getD []).filter
    fun b => b.mint = some mint.toBase58).filterMap fun b =>
      (truthy b.owner).filter (· ≠ wallet.toBase58))

/-- Keeps the owner whose balance fell the most so far. -/
def fellMost (tx : RpcTransaction) (mint : PublicKey) (best : Option (PublicKey × Int))
    (owner : String) : Except ReconstructError (Option (PublicKey × Int)) := do
  let pk ← parseKey owner
  let drop := ownedAmount tx.preTokenBalances pk mint - ownedAmount tx.postTokenBalances pk mint
  if drop > 0 ∧ best.all (fun b => drop > b.2) then return some (pk, drop)
  return best

/-- The other owner whose balance of `mint` fell the most in this transaction. -/
def transferSource (tx : RpcTransaction) (wallet mint : PublicKey) :
    Except ReconstructError (Option PublicKey) := do
  let best ← (otherOwners tx wallet mint).foldlM (fellMost tx mint) none
  return best.map (·.1)

structure ParsedInstruction where
  programId : PublicKey
  accounts : List PublicKey
  data : List UInt8
  deriving DecidableEq, Repr

structure ParsedTokenBalance where
  owner : PublicKey
  mint : PublicKey
  amount : Int
  deriving DecidableEq, Repr

structure ParsedTransaction where
  signature : String
  slot : Nat
  programIds : List PublicKey
  preBalances : OrderedMap String Int
  postBalances : OrderedMap String Int
  preTokenBalances : List ParsedTokenBalance
  postTokenBalances : List ParsedTokenBalance
  feeLamports : Int
  logMessages : List String
  instructions : List ParsedInstruction

/-- An instruction whose program is among the accounts. -/
def parseInstruction (accounts : List PublicKey) (ix : RpcInstruction) :
    Except ReconstructError (Option ParsedInstruction) :=
  match accounts[ix.programIdIndex]? with
  | none => .ok none
  | some programId =>
      let ixAccounts := (ix.accounts.getD []).filterMap (accounts[·]?)
      match Base58.decode ((truthy ix.data).getD "") with
      | .error e => .error (.base58 e)
      | .ok data =>
          .ok (some { programId := programId, accounts := ixAccounts, data := data })

/-- `lamports(arr)`, by account. -/
def lamportsOf (keys : List String) (arr : Option (List Int)) : OrderedMap String Int :=
  (arr.getD []).zipIdx.foldl
    (fun m (v, i) => m.set ((keys[i]?).getD (toString i)) v) .empty

/-- `tokens(arr)` for one entry: none without owner and mint. -/
def parseTokenBalance (b : TokenBalanceEntry) :
    Except ReconstructError (Option ParsedTokenBalance) :=
  match truthy b.owner, truthy b.mint with
  | some owner, some mint => do
      let owner ← parseKey owner
      let mint ← parseKey mint
      return some { owner := owner, mint := mint, amount := b.amount.getD 0 }
  | _, _ => .ok none

def toParsedTransaction (tx : RpcTransaction) (sig : String) (slot : Nat) :
    Except ReconstructError ParsedTransaction := do
  let keys := accountKeys tx
  let accounts ← keys.mapM parseKey
  let ixs ← (tx.instructions.getD []).mapM (parseInstruction accounts)
  let ixs := ixs.filterMap id
  let preTokenBalances ← (tx.preTokenBalances.getD []).mapM parseTokenBalance
  let postTokenBalances ← (tx.postTokenBalances.getD []).mapM parseTokenBalance
  return { signature := sig
           slot := slot
           programIds := firstSeen (ixs.map (·.programId))
           preBalances := lamportsOf keys tx.preBalances
           postBalances := lamportsOf keys tx.postBalances
           preTokenBalances := preTokenBalances.filterMap id
           postTokenBalances := postTokenBalances.filterMap id
           feeLamports := tx.fee.getD 0
           logMessages := tx.logMessages.getD []
           instructions := ixs }

/-! ## Options -/

inductive TraceResult where
  | swap (solOut tokensIn : Int)
  | transferIn (sourceWallet : Option PublicKey)
  deriving DecidableEq, Repr

/-- `trace(tx, wallet, mint)`. -/
abbrev SwapTracer := ParsedTransaction → PublicKey → PublicKey → Option TraceResult

structure Transfer where
  source : Option PublicKey
  mint : PublicKey
  amount : Int
  slot : Nat
  signature : TextField
  deriving DecidableEq, Repr

structure CostBasisReconstructorOpts where
  rpcPool : RpcPool
  tracersFor : PublicKey → List SwapTracer
  lookbackDays : Int := 90
  transferBasis : Option (Transfer → Option Int) := none

/-! ## The walk -/

def sigPageSize : Nat := 1000

structure BalanceChange where
  signature : String
  slot : Nat
  tx : RpcTransaction
  pre : Int
  post : Int
  deriving DecidableEq, Repr

/-- The variables of the walk; `changes` is newest first. -/
structure Walk where
  changes : List BalanceChange := []
  oldestSlotWalked : Nat := 0
  seen : List String := []
  deriving DecidableEq, Repr

/-- The change of the balance in a transaction, if it is there and did not fail. -/
def changeOf (wallet mint : PublicKey) (e : SignatureEntry) (tx : RpcTransaction) :
    Option BalanceChange :=
  let pre := ownedAmount tx.preTokenBalances wallet mint
  let post := ownedAmount tx.postTokenBalances wallet mint
  if pre = post then none
  else some { signature := e.signature, slot := e.slot, tx := tx, pre := pre, post := post }

/-- The transaction of an entry that did not fail. -/
def transactionOf (rpc : RpcPool) (e : SignatureEntry) : Option RpcTransaction :=
  if e.err then none else (rpc.getTransaction e.signature).filter (!·.err)

/-- `blockTime < cutoffSec`, in milliseconds. -/
def beforeCutoff (cutoffMs : Int) (e : SignatureEntry) : Bool :=
  e.blockTime.any (· * 1000 < cutoffMs)

/-- One turn of the inner loop, and whether the walk is over. -/
def walkEntry (rpc : RpcPool) (wallet mint : PublicKey) (cutoffMs : Int) (w : Walk)
    (e : SignatureEntry) : Walk × Bool :=
  let w := { w with seen := w.seen ++ [e.signature] }
  if beforeCutoff cutoffMs e then (w, true)
  else
    match transactionOf rpc e with
    | none => (w, false)
    | some tx =>
        let w := { w with oldestSlotWalked := e.slot }
        match changeOf wallet mint e tx with
        | none => (w, false)
        -- the transaction that opened the current position ends the walk
        | some c => ({ w with changes := w.changes ++ [c] }, c.pre = 0)

/-- The inner loop. -/
def walkEntries (rpc : RpcPool) (wallet mint : PublicKey) (cutoffMs : Int) :
    Walk → List SignatureEntry → Walk × Bool
  | w, [] => (w, false)
  | w, e :: es =>
      match walkEntry rpc wallet mint cutoffMs w e with
      | (w, true) => (w, true)
      | (w, false) => walkEntries rpc wallet mint cutoffMs w es

/-- The outer loop, a page each turn; `none` if it takes more than the given number of
turns. -/
def walkPages (rpc : RpcPool) (wallet mint : PublicKey) (cutoffMs : Int) :
    Nat → Walk → Option String → Option Walk
  | 0, _, _ => none
  | turns + 1, w, before =>
      let page := rpc.getSignaturesForAddress wallet (truthy before)
      let fresh := page.filter fun s => !w.seen.contains s.signature
      if fresh = [] then some w
      else
        match walkEntries rpc wallet mint cutoffMs w fresh with
        | (w, true) => some w
        | (w, false) =>
            if page.length < sigPageSize then some w
            else walkPages rpc wallet mint cutoffMs turns w
              (page.getLast?.map (·.signature))

/-! ## Classification -/

/-- The lot of an inflow before its basis is known. -/
def baseLot (c : BalanceChange) (delta now : Int) : Lot :=
  { amount := delta, costBasisLamports := 0, acquiredSlot := c.slot,
    acquiredSig := c.signature, source := .airdrop, reconstructedAt := some now }

def transferIn (opts : CostBasisReconstructorOpts) (base : Lot) (source : Option PublicKey)
    (mint : PublicKey) : Lot :=
  let basis := opts.transferBasis.bind fun f =>
    f { source := source, mint := mint, amount := base.amount, slot := base.acquiredSlot,
        signature := base.acquiredSig }
  match basis with
  | none =>
      { base with costBasisLamports := 0, source := .transferIn, basisUnresolved := some true }
  | some basis => { base with costBasisLamports := basis, source := .transferIn }

/-- SOL the wallet spent beyond the network fee. -/
def solOut (tx : RpcTransaction) (wallet : PublicKey) : Int :=
  match (accountKeys tx).findIdx? (· = wallet.toBase58) with
  | none => 0
  | some idx =>
      match (tx.preBalances.getD [])[idx]?, (tx.postBalances.getD [])[idx]? with
      | some preBal, some postBal =>
          preBal - postBal - (if idx = 0 then tx.fee.getD 0 else 0)
      | _, _ => 0

/-- The first tracer that knows the transaction, by program. -/
def traced (opts : CostBasisReconstructorOpts) (parsedTx : ParsedTransaction)
    (wallet mint : PublicKey) : Option TraceResult :=
  parsedTx.programIds.findSome? fun programId =>
    (opts.tracersFor programId).findSome? fun trace => trace parsedTx wallet mint

def classifyInflow (opts : CostBasisReconstructorOpts) (wallet mint : PublicKey) (now : Int)
    (c : BalanceChange) (delta : Int) : Except ReconstructError Lot := do
  let base := baseLot c delta now
  let parsedTx ← toParsedTransaction c.tx c.signature c.slot
  match traced opts parsedTx wallet mint with
  | some (.swap solOut tokensIn) =>
      return { base with amount := tokensIn, costBasisLamports := solOut,
                         source := .coldStartReconstructed }
  | some (.transferIn (some sourceWallet)) =>
      return transferIn opts base (some sourceWallet) mint
  | some (.transferIn none) => do
      let source ← transferSource c.tx wallet mint
      return transferIn opts base source mint
  | none =>
      if solOut c.tx wallet > 0 then
        return { base with costBasisLamports := solOut c.tx wallet,
                           source := .coldStartReconstructed }
      let source ← transferSource c.tx wallet mint
      match source with
      | some source => return transferIn opts base (some source) mint
      | none => return { base with costBasisLamports := 0, source := .airdrop }

/-! ## Reconstruction -/

def unresolved (now amount : Int) (slot : Nat) : Lot :=
  { amount := amount, costBasisLamports := 0, acquiredSlot := slot, acquiredSig := "",
    source := .coldStartUnresolved, basisUnresolved := some true,
    reconstructedAt := some now }

/-- `reduceLots(lots, amount, 0n, 'fifo').remaining`. -/
def reduceFifo (lots : List Lot) (amount : Int) : Except ReconstructError (List Lot) :=
  match reduceLots lots amount 0 .fifo with
  | .ok r => .ok r.remaining
  | .error e => .error (.reduce e)

/-- One turn of the replay. -/
def replayChange (opts : CostBasisReconstructorOpts) (wallet mint : PublicKey) (now : Int)
    (lots : List Lot) (c : BalanceChange) : Except ReconstructError (List Lot) := do
  let delta := c.post - c.pre
  if delta > 0 then
    let lot ← classifyInflow opts wallet mint now c delta
    return lots ++ [lot]
  else
    let held := totalAmount lots
    reduceFifo lots (if -delta < held then -delta else held)

/-- The replay of changes that are ordered oldest first, from whatever was held before
them. -/
def replay (opts : CostBasisReconstructorOpts) (wallet mint : PublicKey) (now : Int)
    (oldestSlotWalked : Nat) (ordered : List BalanceChange) :
    Except ReconstructError (List Lot) :=
  let opening := (ordered.head?.map (·.pre)).getD 0
  ordered.foldlM (replayChange opts wallet mint now)
    (if opening > 0 then [unresolved now opening oldestSlotWalked] else [])

/-- Trims to the live balance, or adds what the walk does not explain. -/
def reconcile (now : Int) (oldestSlotWalked : Nat) (currentBalance : Int)
    (lots : List Lot) : Except ReconstructError (List Lot) :=
  let total := totalAmount lots
  if total > currentBalance then reduceFifo lots (total - currentBalance)
  else if total < currentBalance then
    .ok (lots ++ [unresolved now (currentBalance - total) oldestSlotWalked])
  else .ok lots

/-- What `reconstruct` makes of a walk. -/
def fromWalk (opts : CostBasisReconstructorOpts) (wallet mint : PublicKey)
    (currentBalance now : Int) (w : Walk) : Except ReconstructError (List Lot) := do
  let lots ← replay opts wallet mint now w.oldestSlotWalked w.changes.reverse
  reconcile now w.oldestSlotWalked currentBalance lots

/-- `startedAt` and `now` are the two readings of the clock. -/
def reconstruct (opts : CostBasisReconstructorOpts) (wallet mint : PublicKey)
    (currentBalance : Int) (lookbackDays : Option Int) (startedAt now : Int) (turns : Nat) :
    Option (Except ReconstructError (List Lot)) :=
  let days := lookbackDays.getD opts.lookbackDays
  (walkPages opts.rpcPool wallet mint (startedAt - days * (24 * 60 * 60 * 1000)) turns {}
    none).map (fromWalk opts wallet mint currentBalance now)

end Ap3xSolana.Portfolio.Reconstructor
