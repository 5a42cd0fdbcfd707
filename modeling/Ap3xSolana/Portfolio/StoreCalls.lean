import Ap3xSolana.Lib.KeyedMutex
import Ap3xSolana.Lib.Run
import Ap3xSolana.Portfolio.StoreFile

/-!
# The calls that write a wallet file

`observe`, `rebuildPosition`, `correctLotBasis` and `applyLandedTrade` all read the
file, compute new data from it, write it and append to the audit log, inside one
critical section.  A `StoreCall` is such a call at the moment it asks for the mutex:
what it learnt from the chain before that is part of it.

In `withMutex` every call waits for the promise that the map holds for its wallet and
chains its own behind it.  The calls are listed in the order in which they asked for the
mutex; inside the critical section a call goes from one `await` to the next, and anything
it awaits can fail.  `finally` releases the mutex when the call settles.
-/

namespace Ap3xSolana.Portfolio.StoreFile

open Ap3xSolana.Core Ap3xSolana.Lib Ap3xSolana.Portfolio.Accounting

structure RealizedPnlEvent where
  wallet : PublicKey
  mint : PublicKey
  realized : Int
  costBasis : Int
  proceeds : Int
  basisUnresolved : Bool
  slot : Nat
  deriving DecidableEq, Repr

/-- What `reconstructor.reconstruct` gives for a mint and the balance of it. -/
abbrev Reconstruct := PublicKey → Int → Except String (List Lot)

inductive StoreCall where
  | observe (wallet : PublicKey) (method : Option AccountingMethod)
      (balances : OrderedMap String Int) (reconstruct : Reconstruct)
  | rebuildPosition (wallet mint : PublicKey) (lots : List Lot)
  | correctLotBasis (wallet mint : PublicKey) (lotIndex costBasisLamports : Int)
  | applyLandedTrade (trade : LandedTrade)

/-- The wallet whose mutex the call takes. -/
def StoreCall.wallet : StoreCall → PublicKey
  | .observe wallet .. => wallet
  | .rebuildPosition wallet .. => wallet
  | .correctLotBasis wallet .. => wallet
  | .applyLandedTrade trade => trade.wallet

/-- `other` is what the file system, the chain or a listener threw. -/
inductive CallError where
  | store (e : StoreError)
  | noPosition
  | lotIndexOutOfRange
  | other (message : String)
  deriving DecidableEq, Repr

def CallError.message : CallError → String
  | .store (.publicKey e) => e.message
  | .store (.reduce e) => e.message
  | .store (.mistyped value) => s!"not a bigint: {value}"
  | .noPosition => "no position"
  | .lotIndexOutOfRange => "lot index out of range"
  | .other message => message

/-- The data a call writes, the changes it reports and what it resolves to. -/
structure Computed where
  data : WalletData
  changes : List PositionChange
  realized : Option RealizedPnlEvent := none
  oldBasis : Option Int := none

/-! ## The four computations -/

/-- `lots.reduce((m, l) => Math.max(m, l.acquiredSlot), 0)`. -/
def maxSlot (lots : List Lot) : Nat := lots.foldl (fun m l => max m l.acquiredSlot) 0

/-- A position whose lots were reconstructed from the chain. -/
def rebuiltPosition (wallet mint : PublicKey) (lots : List Lot) : Position :=
  { mint := mint, walletAddress := wallet, lots := lots, lastUpdatedSlot := maxSlot lots }

/-- One round of the loop over the balances: a mint without a position is
cold-started. -/
def observeBalance (wallet : PublicKey) (reconstruct : Reconstruct)
    (acc : WalletData × List PositionChange) (entry : String × Int) :
    Except CallError (WalletData × List PositionChange) :=
  if entry.2 = 0 then .ok acc
  else
    match PublicKey.fromBase58 entry.1 with
    | .error e => .error (.store (.publicKey e))
    | .ok mint =>
        if acc.1.positions.any (·.mint = mint) then .ok acc
        else
          match reconstruct mint entry.2 with
          | .error message => .error (.other message)
          | .ok lots =>
              let after := rebuiltPosition wallet mint lots
              .ok (putPosition acc.1 none after, acc.2 ++
                [{ wallet := wallet, mint := mint, before := none, after := after,
                   reason := .coldStart }])

def observe (wallet : PublicKey) (method : Option AccountingMethod)
    (balances : OrderedMap String Int) (reconstruct : Reconstruct) (data : WalletData) :
    Except CallError Computed := do
  let data := { data with method := method <|> data.method }
  let (data, changes) ←
    balances.entries.foldlM (observeBalance wallet reconstruct) (data, [])
  return { data := data, changes := changes }

def rebuildPosition (wallet mint : PublicKey) (lots : List Lot) (data : WalletData) :
    Computed :=
  let idx := data.positions.findIdx? (·.mint = mint)
  let after := rebuiltPosition wallet mint lots
  { data := putPosition data idx after
    changes :=
      [{ wallet := wallet, mint := mint, before := idx.bind (data.positions[·]?),
         after := after, reason := .reconcile }] }

/-- `pos.lots[lotIndex]`: there is nothing at an index below zero. -/
def lotAt (lots : List Lot) (lotIndex : Int) : Option Lot :=
  if 0 ≤ lotIndex then lots[lotIndex.toNat]? else none

def correctLotBasis (wallet mint : PublicKey) (lotIndex costBasisLamports : Int)
    (data : Option WalletData) : Except CallError Computed :=
  match data with
  | none => .error .noPosition
  | some data =>
      let idx := data.positions.findIdx? (·.mint = mint)
      match idx.bind (data.positions[·]?) with
      | none => .error .noPosition
      | some before =>
          match lotAt before.lots lotIndex with
          | none => .error .lotIndexOutOfRange
          | some lot =>
              let lot' := { lot with
                costBasisLamports := costBasisLamports, basisUnresolved := some false }
              let after := { before with lots := before.lots.set lotIndex.toNat lot' }
              .ok { data := putPosition data idx after
                    changes :=
                      [{ wallet := wallet, mint := mint, before := some before,
                         after := after, reason := .manualCorrection }]
                    oldBasis := some lot.costBasisLamports }

/-- What a sale emits: `reduceLots` on the lots that were there. -/
def realizedEvent (data : WalletData) (lots : List Lot) (trade : LandedTrade) :
    Option RealizedPnlEvent :=
  if trade.amountDelta < 0 then
    match reduceLots lots (-trade.amountDelta) (saleProceeds trade)
        (data.method.getD .fifo) with
    | .error _ => none
    | .ok r =>
        some { wallet := trade.wallet, mint := trade.mint, realized := r.realized,
               costBasis := r.costBasis, proceeds := r.proceeds,
               basisUnresolved := r.basisUnresolved, slot := trade.slot }
  else none

def computeTrade (trade : LandedTrade) (data : WalletData) : Except CallError Computed :=
  match applyTo data trade with
  | .error e => .error (.store e)
  | .ok (data', change) =>
      let lots := ((data.position trade.mint).map (·.lots)).getD []
      .ok { data := data', changes := [change], realized := realizedEvent data lots trade }

/-! ## The critical section -/

/-- From the data that was read to the data that is written. -/
def compute (loaded : Option WalletData) : StoreCall → Except CallError Computed
  | .observe wallet method balances reconstruct =>
      observe wallet method balances reconstruct (loaded.getD emptyWallet)
  | .rebuildPosition wallet mint lots =>
      .ok (rebuildPosition wallet mint lots (loaded.getD emptyWallet))
  | .correctLotBasis wallet mint lotIndex costBasisLamports =>
      correctLotBasis wallet mint lotIndex costBasisLamports loaded
  | .applyLandedTrade trade => computeTrade trade (loaded.getD emptyWallet)

/-- `loadWalletData` as the calls see it. -/
def load (files : Files) (wallet : PublicKey) : Except CallError (Option WalletData) :=
  match loadWalletData files wallet with
  | .error e => .error (.store e)
  | .ok loaded => .ok loaded

theorem load_congr {files files' : Files} {wallet : PublicKey}
    (h : files wallet = files' wallet) : load files wallet = load files' wallet := by
  unfold load loadWalletData
  rw [h]

/-- A whole critical section in which nothing outside the store fails. -/
def runCall (files : Files) (call : StoreCall) : Except CallError (Files × Computed) := do
  let loaded ← load files call.wallet
  let computed ← compute loaded call
  return (writeWalletData files call.wallet computed.data, computed)

/-- Successful calls one after the other, with the `realized-pnl` events they emit. -/
def runCalls (files : Files) (calls : List StoreCall) :
    Except CallError (Files × List RealizedPnlEvent) :=
  calls.foldlM (fun s call => do
    let (files, computed) ← runCall s.1 call
    return (files, s.2 ++ computed.realized.toList)) (files, [])

open Ap3xSolana.Core Ap3xSolana.Lib

inductive Stage where
  /-- `await prev`. -/
  | waiting (prev : Gate)
  | loading
  | computing (loaded : Option WalletData)
  | writing (computed : Computed)
  /-- The file is replaced; the audit log is awaited. -/
  | auditing (computed : Computed)
  | settled (written : Bool) (result : Except CallError Computed)

structure CallRecord where
  call : StoreCall
  stage : Stage

structure StoreState where
  files : Files
  mutexes : PublicKey → Option Gate := fun _ => none
  calls : List CallRecord := []
  events : List RealizedPnlEvent := []

inductive StoreAction where
  | enter (call : StoreCall)
  /-- The promise that the call waits for has settled. -/
  | begin (call : Nat)
  /-- `readFile` settles. -/
  | loaded (call : Nat) (failure : Option String)
  /-- The new data is there; a listener of `realized-pnl` may throw. -/
  | computed (call : Nat) (thrown : Option String)
  /-- The write of the file settles. -/
  | wrote (call : Nat) (failure : Option String)
  /-- The audit log is written and the listeners are called. -/
  | audited (call : Nat) (failure : Option String)

def Stage.isSettled : Stage → Bool
  | .settled .. => true
  | _ => false

/-- `resolveOuter` of the call was called. -/
def StoreState.released (st : StoreState) (i : Nat) : Bool :=
  match st.calls[i]? with
  | some x => x.stage.isSettled
  | none => false

/-- `withMutex`, up to `await prev`. -/
def enter (st : StoreState) (call : StoreCall) : StoreState :=
  let prev := (st.mutexes call.wallet).getD .resolved
  { st with
    mutexes := Function.update st.mutexes call.wallet (some (.chained prev st.calls.length))
    calls := st.calls ++ [{ call := call, stage := .waiting prev }] }

def setStage (st : StoreState) (i : Nat) (call : StoreCall) (stage : Stage) : StoreState :=
  { st with calls := st.calls.set i { call := call, stage := stage } }

/-- The call rejects before its file is replaced. -/
def failCall (st : StoreState) (i : Nat) (call : StoreCall) (e : CallError) : StoreState :=
  setStage st i call (.settled false (.error e))

def loadedStep (st : StoreState) (i : Nat) (call : StoreCall) : Option String → StoreState
  | some message => failCall st i call (.other message)
  | none =>
      match load st.files call.wallet with
      | .error e => failCall st i call e
      | .ok loaded => setStage st i call (.computing loaded)

/-- The event goes out before the file is written. -/
def computedStep (st : StoreState) (i : Nat) (call : StoreCall) (loaded : Option WalletData)
    (thrown : Option String) : StoreState :=
  match compute loaded call with
  | .error e => failCall st i call e
  | .ok computed =>
      let st := { st with events := st.events ++ computed.realized.toList }
      match computed.realized, thrown with
      | some _, some message => failCall st i call (.other message)
      | _, _ => setStage st i call (.writing computed)

def wroteStep (st : StoreState) (i : Nat) (call : StoreCall) (computed : Computed) :
    Option String → StoreState
  | some message => failCall st i call (.other message)
  | none =>
      setStage { st with files := writeWalletData st.files call.wallet computed.data } i call
        (.auditing computed)

/-- A failure now comes too late for the file. -/
def auditedStep (st : StoreState) (i : Nat) (call : StoreCall) (computed : Computed) :
    Option String → StoreState
  | some message => setStage st i call (.settled true (.error (.other message)))
  | none => setStage st i call (.settled true (.ok computed))

def step (st : StoreState) : StoreAction → Option StoreState
  | .enter call => some (enter st call)
  | .begin i =>
      match st.calls[i]? with
      | some ⟨call, .waiting prev⟩ =>
          if prev.settled st.released then some (setStage st i call .loading) else none
      | _ => none
  | .loaded i failure =>
      match st.calls[i]? with
      | some ⟨call, .loading⟩ => some (loadedStep st i call failure)
      | _ => none
  | .computed i thrown =>
      match st.calls[i]? with
      | some ⟨call, .computing loaded⟩ => some (computedStep st i call loaded thrown)
      | _ => none
  | .wrote i failure =>
      match st.calls[i]? with
      | some ⟨call, .writing computed⟩ => some (wroteStep st i call computed failure)
      | _ => none
  | .audited i failure =>
      match st.calls[i]? with
      | some ⟨call, .auditing computed⟩ => some (auditedStep st i call computed failure)
      | _ => none

/-- The call that an action takes further. -/
def StoreAction.takes : StoreAction → Option Nat
  | .enter _ => none
  | .begin i => some i
  | .loaded i _ => some i
  | .computed i _ => some i
  | .wrote i _ => some i
  | .audited i _ => some i

end Ap3xSolana.Portfolio.StoreFile
