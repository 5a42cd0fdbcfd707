import Ap3xSolana.Lib.Json

/-!
# Historical backfill

`iterateSignaturesForAddress` pages through the history of an address, newest first;
`fetchEventsForProgram` keeps what lies in a range of slots, fetches the transactions oldest
first and decodes them; `gapBackfill` does so for each program of a stream.  The methods of
the node are parameters.  An asynchronous generator is the list of what it yields and how it
ends; the page loop is bounded by fuel.
-/

namespace Ap3xSolana.Connectivity

open Ap3xSolana.Lib

inductive Commitment where
  | processed
  | confirmed
  | finalized
  deriving DecidableEq, Repr

structure GetSignaturesOptions where
  limit : Option Nat := none
  before : Option String := none
  «until» : Option String := none
  commitment : Option Commitment := none
  minContextSlot : Option Nat := none
  deriving DecidableEq, Repr

structure IterateSignaturesOptions extends GetSignaturesOptions where
  /-- None is `Infinity`. -/
  maxPages : Option Nat := none
  deriving DecidableEq, Repr

structure GetTransactionOptions where
  encoding : Option String := none
  maxSupportedTransactionVersion : Option Nat := none
  commitment : Option Commitment := none
  deriving DecidableEq, Repr

structure SignatureInfo where
  signature : String
  slot : Nat
  /-- None is `undefined`. -/
  err : Option Json := none

/-- Both ends belong to the range. -/
structure SlotRange where
  fromSlot : Int
  toSlot : Int
  deriving DecidableEq, Repr

variable {τ δ ε : Type}

/-- The methods of the node, for transactions of type `τ`. -/
structure RpcMethods (τ ε : Type) where
  getSignaturesForAddress : String → GetSignaturesOptions → Except ε (List SignatureInfo)
  /-- None is `null`: the node has no such transaction. -/
  getTransaction : String → GetTransactionOptions → Except ε (Option τ)

/-! ## Decoders -/

inductive EventDecodeResult (δ : Type) where
  | decoded (slot : Nat) (signature programId : String) (data : δ)
  | unknown (slot : Nat) (signature programId reason : String) (rawLogs : Option (List String))
  deriving DecidableEq, Repr

/-- What a decoder returns: one result, or an array. -/
inductive Produced (δ : Type) where
  | one (result : EventDecodeResult δ)
  | many (results : List (EventDecodeResult δ))
  deriving DecidableEq, Repr

/-- An error is the message of what was thrown. -/
abbrev TransactionDecoder (τ δ : Type) := τ → Except String (Produced δ)

def Produced.results : Produced δ → List (EventDecodeResult δ)
  | .one result => [result]
  | .many results => results

/-! ## Generators -/

inductive Ending (ε : Type) where
  | returned
  | threw (e : ε)
  /-- Out of fuel. -/
  | running
  deriving DecidableEq, Repr

structure Generated (α ε : Type) where
  yielded : List α
  ending : Ending ε
  deriving DecidableEq, Repr

/-- `xs` is yielded before. -/
def Generated.after {α : Type} (g : Generated α ε) (xs : List α) : Generated α ε :=
  { g with yielded := xs ++ g.yielded }

/-! ## Signatures -/

def DEFAULT_SIG_LIMIT : Nat := 1000

/-- The page loop, from the given page on. -/
def iteratePages (rpc : RpcMethods τ ε) (address : String) (opts : IterateSignaturesOptions)
    (limit : Nat) : Nat → Nat → Option String → Generated SignatureInfo ε
  | 0, _, _ => { yielded := [], ending := .running }
  | fuel + 1, page, before =>
      if opts.maxPages.all (page < ·) then
        match rpc.getSignaturesForAddress address
            { opts.toGetSignaturesOptions with limit := some limit, before := before } with
        | .error e => { yielded := [], ending := .threw e }
        | .ok sigs =>
            if sigs.length = 0 then { yielded := [], ending := .returned }
            else if sigs.length < limit then { yielded := sigs, ending := .returned }
            else
              (iteratePages rpc address opts limit fuel (page + 1)
                (sigs.getLast?.map (·.signature))).after sigs
      else { yielded := [], ending := .returned }

def iterateSignaturesForAddress (rpc : RpcMethods τ ε) (address : String)
    (opts : IterateSignaturesOptions) (fuel : Nat) : Generated SignatureInfo ε :=
  iteratePages rpc address opts (opts.limit.getD DEFAULT_SIG_LIMIT) fuel 0 opts.before

/-! ## Transactions -/

/-- A value that an `if` takes for true. -/
def truthy : Json → Bool
  | .null => false
  | .boolean b => b
  | .number n => n ≠ 0
  | .string s => s ≠ ""
  | _ => true

def SignatureInfo.failed (s : SignatureInfo) : Bool := s.err.any truthy

/-- The defaults of `getTransaction`. -/
def transactionDefaults : GetTransactionOptions := { maxSupportedTransactionVersion := some 1 }

def decodeTransaction (programId : String) (decoder : TransactionDecoder τ δ)
    (sigInfo : SignatureInfo) (tx : τ) : List (EventDecodeResult δ) :=
  match decoder tx with
  | .ok produced => produced.results
  | .error reason => [.unknown sigInfo.slot sigInfo.signature programId reason none]

/-- The walk from the newest signature down, and whether it left the loop. -/
def collectRange (range : SlotRange) : List SignatureInfo → List SignatureInfo × Bool
  | [] => ([], false)
  | sig :: sigs =>
      if range.toSlot < sig.slot then collectRange range sigs
      else if sig.slot < range.fromSlot then ([], true)
      else
        let (inRange, left) := collectRange range sigs
        (sig :: inRange, left)

/-- Fetches and decodes the transactions in order. -/
def decodeAll (rpc : RpcMethods τ ε) (programId : String) (decoder : TransactionDecoder τ δ) :
    List SignatureInfo → Generated (EventDecodeResult δ) ε
  | [] => { yielded := [], ending := .returned }
  | sigInfo :: sigInfos =>
      if sigInfo.failed then decodeAll rpc programId decoder sigInfos
      else
        match rpc.getTransaction sigInfo.signature transactionDefaults with
        | .error e => { yielded := [], ending := .threw e }
        | .ok none => decodeAll rpc programId decoder sigInfos
        | .ok (some tx) =>
            (decodeAll rpc programId decoder sigInfos).after
              (decodeTransaction programId decoder sigInfo tx)

def fetchEventsForProgram (rpc : RpcMethods τ ε) (programId : String) (range : SlotRange)
    (decoder : TransactionDecoder τ δ) (fuel : Nat) : Generated (EventDecodeResult δ) ε :=
  if range.toSlot < range.fromSlot then { yielded := [], ending := .returned }
  else
    let sigs := iterateSignaturesForAddress rpc programId {} fuel
    match collectRange range sigs.yielded, sigs.ending with
    | (inRange, true), _ => decodeAll rpc programId decoder inRange.reverse
    | (inRange, false), .returned => decodeAll rpc programId decoder inRange.reverse
    | (_, false), .threw e => { yielded := [], ending := .threw e }
    | (_, false), .running => { yielded := [], ending := .running }

/-- The handler that `gapBackfill` returns: what it hands to `deliver`, in order. -/
def gapBackfill (rpc : RpcMethods τ ε) (decoder : TransactionDecoder τ δ)
    (fromSlot toSlot : Int) (fuel : Nat) :
    List String → Generated (EventDecodeResult δ) ε
  | [] => { yielded := [], ending := .returned }
  | programId :: programIds =>
      let events := fetchEventsForProgram rpc programId
        { fromSlot := fromSlot, toSlot := toSlot - 1 } decoder fuel
      match events.ending with
      | .returned =>
          (gapBackfill rpc decoder fromSlot toSlot fuel programIds).after events.yielded
      | ending => { yielded := events.yielded, ending := ending }

end Ap3xSolana.Connectivity
