import Ap3xSolana.Events.Registry
import Ap3xSolana.Signals.Signal

/-!
# Signal sources

`HistoricalSignalSource` walks blocks over RPC, `GeyserSignalSource` receives updates of a
subscription.  What they make of the log lines of one transaction is the same code
(`transactionSignals`).
-/

namespace Ap3xSolana.Signals

open Ap3xSolana.Core Ap3xSolana.Events Ap3xSolana.Signals.SignalId

variable {δ : Type}

/-- `dataKind` is the `kind` of a decoded event, where that is a text; the hash is a library
function. -/
structure SourceOpts (δ : Type) where
  decoderRegistry : EventDecoderRegistry δ
  programIds : List PublicKey
  dataKind : δ → Option String
  sha256 : List UInt8 → List UInt8

mutual

/-- The first chunk of the program, a chunk before its children. -/
def findChunk (programId : String) : ProgramLogChunk → Option ProgramLogChunk
  | ⟨id, depth, success, failureReason, logs, dataPayloads, computeUnits, returnData, children,
      rawLines⟩ =>
      if id = programId then
        some ⟨id, depth, success, failureReason, logs, dataPayloads, computeUnits, returnData,
          children, rawLines⟩
      else findChunkByProgramId programId children

def findChunkByProgramId (programId : String) : List ProgramLogChunk → Option ProgramLogChunk
  | [] => none
  | chunk :: chunks =>
      match findChunk programId chunk with
      | some found => some found
      | none => findChunkByProgramId programId chunks

end

/-- The signal of one decoded event.  A text in `programIdSet` is that of a key, so
`fromBase58` does not throw. -/
def signalOf (opts : SourceOpts δ) (chunks : List ProgramLogChunk) (slot : Nat) (ts : Int)
    (signature : String) (logIndex : Nat) : EventUnion δ → Option (Signal δ)
  | .unknown _ => none
  | .decoded programId data =>
      if programId ∈ opts.programIds.map (·.toBase58) then
        match PublicKey.fromBase58 programId with
        | .error _ => none
        | .ok key =>
            some
              { signalId := signalId opts.sha256
                  { signature := signature
                    programId := key
                    kind := eventKind opts.dataKind data
                    logIndex := logIndex }
                ts := ts
                slot := slot
                signature := signature
                programId := key
                kind := eventKind opts.dataKind data
                decoded := data
                raw := (findChunkByProgramId programId chunks).getD
                  { programId := programId, depth := 1, success := true } }
      else none

/-- The signals of one transaction; the index of an event is its `logIndex`. -/
def transactionSignals (opts : SourceOpts δ) (slot : Nat) (ts : Int) (signature : String)
    (logs : List String) : List (Signal δ) :=
  let transactionLog := parseLogs logs
  (opts.decoderRegistry.decode transactionLog).events.zipIdx.filterMap fun ev =>
    signalOf opts transactionLog.chunks slot ts signature ev.2 ev.1

/-- Slot and time of a transaction are not part of the ids. -/
theorem transactionSignals_ids (opts : SourceOpts δ) (slot slot' : Nat) (ts ts' : Int)
    (signature : String) (logs : List String) :
    (transactionSignals opts slot ts signature logs).map (·.signalId) =
      (transactionSignals opts slot' ts' signature logs).map (·.signalId) := by
  simp only [transactionSignals, List.map_filterMap]
  apply List.filterMap_congr
  intro ev _
  cases ev.1 with
  | unknown u => rfl
  | decoded programId data =>
      simp only [signalOf]
      split
      · split <;> rfl
      · rfl

/-! ## Historical -/

structure BlockTransaction where
  signatures : List String
  logMessages : Option (List String)

structure BlockResponse where
  blockTime : Option Int
  transactions : Option (List BlockTransaction)

/-- `rpcPool.call` for the two methods that the source calls. -/
structure BlockRpc where
  getBlocks : Int → Int → List Nat
  getBlock : Nat → Option BlockResponse

structure HistoricalOpts where
  slotFrom : Int
  slotTo : Int
  batchSize : Int := 100

namespace HistoricalSignalSource

/-- The signals of one slot. -/
def blockSignals (opts : SourceOpts δ) (rpc : BlockRpc) (slot : Nat) : List (Signal δ) :=
  match rpc.getBlock slot with
  | none => []
  | some block =>
      match block.transactions with
      | none => []
      | some transactions =>
          transactions.flatMap fun tx =>
            match tx.signatures.head?, tx.logMessages with
            | some sig, some logs =>
                if sig = "" then []
                else transactionSignals opts slot (block.blockTime.getD 0 * 1000) sig logs
            | _, _ => []

/-- The loop of `start` from `cursor` on, for as many turns as it is given: `none` while it
has not come to its end. -/
def batches (opts : SourceOpts δ) (rpc : BlockRpc) (range : HistoricalOpts) :
    Nat → Int → Option (List (Signal δ))
  | 0, cursor => if cursor ≤ range.slotTo then none else some []
  | turns + 1, cursor =>
      if cursor ≤ range.slotTo then
        let chunkTo := min (cursor + range.batchSize - 1) range.slotTo
        let signals := (rpc.getBlocks cursor chunkTo).flatMap (blockSignals opts rpc)
        (batches opts rpc range turns (cursor + range.batchSize)).map (signals ++ ·)
      else some []

def start (opts : SourceOpts δ) (rpc : BlockRpc) (range : HistoricalOpts) (turns : Nat) :
    Option (List (Signal δ)) :=
  batches opts rpc range turns range.slotFrom

end HistoricalSignalSource

/-! ## Live -/

inductive SignatureValue where
  | text (s : String)
  | bytes (b : List UInt8)
  deriving DecidableEq, Repr

structure TransactionInfo where
  signature : Option SignatureValue
  firstSignature : Option SignatureValue
  logMessages : Option (List String)
  deriving DecidableEq, Repr

/-- An update: the normalised shape, a transaction as the server sends it, or anything
else.  `slot` is `none` where it is no number. -/
inductive GeyserUpdate where
  | normalised (slot : Nat) (signature : String) (logs : List String)
  | transaction (slot : Option Nat) (info : Option TransactionInfo)
  | other
  deriving DecidableEq, Repr

structure GeyserTxUpdate where
  slot : Nat
  signature : String
  logs : List String
  deriving DecidableEq, Repr

def signatureString : SignatureValue → Option String
  | .text s => some s
  | .bytes b => if b.length = 64 then some (Base58.encode b) else none

def extractTxUpdate : GeyserUpdate → Option GeyserTxUpdate
  | .normalised slot signature logs => some ⟨slot, signature, logs⟩
  | .transaction (some slot) (some info) =>
      match (info.signature.or info.firstSignature).bind signatureString with
      | none => none
      | some signature =>
          if signature = "" then none else some ⟨slot, signature, info.logMessages.getD []⟩
  | _ => none

inductive SourceEvent (δ : Type) where
  | gap (gap : GapEvent)
  | signal (signal : Signal δ)

def SourceEvent.signal? : SourceEvent δ → Option (Signal δ)
  | .signal s => some s
  | .gap _ => none

namespace GeyserSignalSource

/-- The handler of the subscription: `lastSlot` after it, and what it emits. -/
def onUpdate (opts : SourceOpts δ) (lastSlot : Nat) (update : GeyserUpdate) (now : Int) :
    Nat × List (SourceEvent δ) :=
  match extractTxUpdate update with
  | none => (lastSlot, [])
  | some tx =>
      let gap :=
        if lastSlot ≠ 0 ∧ lastSlot + 1 < tx.slot then
          [.gap { fromSlot := lastSlot + 1, toSlot := tx.slot - 1, reason := .skip }]
        else []
      (tx.slot, gap ++ (transactionSignals opts tx.slot now tx.signature tx.logs).map .signal)

/-- The updates of a subscription one after the other, each with the time of its arrival. -/
def receive (opts : SourceOpts δ) : Nat → List (GeyserUpdate × Int) → List (SourceEvent δ)
  | _, [] => []
  | lastSlot, u :: updates =>
      (onUpdate opts lastSlot u.1 u.2).2 ++
        receive opts (onUpdate opts lastSlot u.1 u.2).1 updates

end GeyserSignalSource

end Ap3xSolana.Signals
