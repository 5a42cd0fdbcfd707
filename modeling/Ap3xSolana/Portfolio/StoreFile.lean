import Ap3xSolana.Lib.OrderedMap
import Ap3xSolana.Lib.Throwing
import Ap3xSolana.Portfolio.Position

/-!
# `FilePortfolioStore`

One file a wallet, written whole on every trade and read back on every call.  JSON has
no `bigint`: the replacer writes one as a text that ends in `n`, and the reviver takes
every text of that form for a `bigint`, whatever field it is in.  A `Stored…` record is
what is in a file, its texts as they are written.
-/

namespace Ap3xSolana.Portfolio.StoreFile

open Ap3xSolana.Core Ap3xSolana.Lib Ap3xSolana.Portfolio.Accounting

/-! ## `bigint` as text -/

/-- `${value}n`. -/
def bigintReplacer (n : Int) : String := String.ofList ((toString n).toList ++ ['n'])

/-- The number that `\d+n` spells. -/
def digitsThenN (cs : List Char) : Option Nat :=
  let ds := cs.dropLast
  if cs.getLast? = some 'n' ∧ ds ≠ [] ∧ ds.all Char.isDigit then
    some (Nat.ofDigitChars 10 ds 0)
  else none

/-- `/^-?\d+n$/`, and the value. -/
def bigintText (s : String) : Option Int :=
  match s.toList with
  | '-' :: cs => (digitsThenN cs).map fun (n : Nat) => -(n : Int)
  | cs => (digitsThenN cs).map fun (n : Nat) => (n : Int)

def bigintReviver (s : String) : TextField :=
  match bigintText s with
  | some n => .bigint n
  | none => .text s

/-- A text field as it is written. -/
def writeText : TextField → String
  | .text s => s
  | .bigint n => bigintReplacer n

/-! ## The file -/

structure StoredLot where
  amount : String
  costBasisLamports : String
  acquiredSlot : Nat
  acquiredSig : String
  source : LotSource
  reconstructedAt : Option Int
  basisUnresolved : Option Bool
  deriving DecidableEq, Repr

structure StoredPosition where
  mint : String
  walletAddress : String
  lots : List StoredLot
  lastUpdatedSlot : Nat
  deriving DecidableEq, Repr

structure StoredWallet where
  positions : List StoredPosition
  realizedPnl : String
  /-- Files written before this existed have none. -/
  realizedPnlByMint : Option (List (String × String))
  method : Option AccountingMethod
  deriving DecidableEq, Repr

structure WalletData where
  positions : List Position
  realizedPnl : Int
  realizedPnlByMint : OrderedMap String Int
  method : Option AccountingMethod := none

def emptyWallet : WalletData :=
  { positions := [], realizedPnl := 0, realizedPnlByMint := .empty }

/-- `mistyped` is a text where a `bigint` belongs, which this store never writes. -/
inductive StoreError where
  | publicKey (e : PublicKey.PublicKeyError)
  | reduce (e : ReduceError)
  | mistyped (value : String)
  deriving DecidableEq, Repr

/-! ## Reading and writing -/

def readBigint (s : String) : Except StoreError Int :=
  match bigintReviver s with
  | .bigint n => .ok n
  | .text s => .error (.mistyped s)

/-- `PublicKey.fromBase58` of a revived text.  A `bigint` has no characters to decode. -/
def readKey (s : String) : Except StoreError PublicKey :=
  match bigintReviver s with
  | .bigint _ => .error (.publicKey (.invalidLength 0))
  | .text s =>
      match PublicKey.fromBase58 s with
      | .ok key => .ok key
      | .error e => .error (.publicKey e)

def readLot (l : StoredLot) : Except StoreError Lot := do
  let amount ← readBigint l.amount
  let costBasisLamports ← readBigint l.costBasisLamports
  return { amount := amount, costBasisLamports := costBasisLamports,
           acquiredSlot := l.acquiredSlot, acquiredSig := bigintReviver l.acquiredSig,
           source := l.source, reconstructedAt := l.reconstructedAt,
           basisUnresolved := l.basisUnresolved }

def readPosition (p : StoredPosition) : Except StoreError Position := do
  let lots ← p.lots.mapM readLot
  let mint ← readKey p.mint
  let walletAddress ← readKey p.walletAddress
  return { mint := mint, walletAddress := walletAddress, lots := lots,
           lastUpdatedSlot := p.lastUpdatedSlot }

def readPnl (entry : String × String) : Except StoreError (String × Int) := do
  let realized ← readBigint entry.2
  return (entry.1, realized)

def readWallet (file : StoredWallet) : Except StoreError WalletData := do
  let positions ← file.positions.mapM readPosition
  let realizedPnl ← readBigint file.realizedPnl
  let entries ← (file.realizedPnlByMint.getD []).mapM readPnl
  return { positions := positions, realizedPnl := realizedPnl,
           realizedPnlByMint := OrderedMap.ofEntries entries, method := file.method }

def writeLot (l : Lot) : StoredLot :=
  { amount := bigintReplacer l.amount
    costBasisLamports := bigintReplacer l.costBasisLamports
    acquiredSlot := l.acquiredSlot
    acquiredSig := writeText l.acquiredSig
    source := l.source
    reconstructedAt := l.reconstructedAt
    basisUnresolved := l.basisUnresolved }

def writePosition (p : Position) : StoredPosition :=
  { mint := p.mint.toBase58
    walletAddress := p.walletAddress.toBase58
    lots := p.lots.map writeLot
    lastUpdatedSlot := p.lastUpdatedSlot }

def writeWallet (data : WalletData) : StoredWallet :=
  { positions := data.positions.map writePosition
    realizedPnl := bigintReplacer data.realizedPnl
    realizedPnlByMint :=
      some (data.realizedPnlByMint.entries.map fun e => (e.1, bigintReplacer e.2))
    method := data.method }

/-! ## The store -/

/-- The wallet files; `none` is `ENOENT`. -/
abbrev Files := PublicKey → Option StoredWallet

def noFiles : Files := fun _ => none

def loadWalletData (files : Files) (wallet : PublicKey) :
    Except StoreError (Option WalletData) :=
  match files wallet with
  | none => .ok none
  | some file => do
      let data ← readWallet file
      return some data

def writeWalletData (files : Files) (wallet : PublicKey) (data : WalletData) : Files :=
  Function.update files wallet (some (writeWallet data))

def WalletData.position (data : WalletData) (mint : PublicKey) : Option Position :=
  data.positions.find? (·.mint = mint)

def getPosition (files : Files) (wallet mint : PublicKey) :
    Except StoreError (Option Position) := do
  let data ← loadWalletData files wallet
  return data.bind (·.position mint)

def getRealizedPnl (files : Files) (wallet mint : PublicKey) : Except StoreError Int := do
  let data ← loadWalletData files wallet
  return (data.bind (·.realizedPnlByMint.get? mint.toBase58)).getD 0

/-- The position a trade leaves, and the data with the profit of a sale booked. -/
def tradePosition (data : WalletData) (pos : Position) (trade : LandedTrade) :
    Except StoreError (WalletData × Position) :=
  if trade.amountDelta > 0 then
    .ok (data, { pos with lots := pos.lots ++ [boughtLot trade],
                          lastUpdatedSlot := trade.slot })
  else if trade.amountDelta < 0 then
    match reduceLots pos.lots (-trade.amountDelta) (saleProceeds trade)
        (data.method.getD .fifo) with
    | .error e => .error (.reduce e)
    | .ok r =>
        let mintKey := trade.mint.toBase58
        .ok ({ data with
                realizedPnl := data.realizedPnl + r.realized
                realizedPnlByMint := data.realizedPnlByMint.set mintKey
                  ((data.realizedPnlByMint.get? mintKey).getD 0 + r.realized) },
             { pos with lots := r.remaining, lastUpdatedSlot := trade.slot })
  else .ok (data, pos)

/-- `data.positions[idx] = pos`, or a push when there is no index. -/
def putPosition (data : WalletData) (idx : Option Nat) (pos : Position) : WalletData :=
  { data with
      positions :=
        match idx with
        | some i => data.positions.set i pos
        | none => data.positions ++ [pos] }

def applyTo (data : WalletData) (trade : LandedTrade) :
    Except StoreError (WalletData × PositionChange) := do
  let idx := data.positions.findIdx? (·.mint = trade.mint)
  let existingPos := idx.bind (data.positions[·]?)
  let (data, pos) ← tradePosition data (existingPos.getD (newPosition trade)) trade
  return (putPosition data idx pos,
    { wallet := trade.wallet, mint := trade.mint, before := existingPos, after := pos,
      reason := .applyLandedTrade })

/-- Nothing is written if something throws. -/
def applyLandedTrade (files : Files) (trade : LandedTrade) :
    Except StoreError (Files × PositionChange) := do
  let data ← loadWalletData files trade.wallet
  let (data, change) ← applyTo (data.getD emptyWallet) trade
  return (writeWalletData files trade.wallet data, change)

end Ap3xSolana.Portfolio.StoreFile
