import Ap3xSolana.Lib.Table
import Mathlib.Algebra.Order.Floor.Semiring
import Mathlib.Data.Finset.Card
import Mathlib.Data.Rat.Floor

/-!
# `PriorityFeeEstimator`

The rolling window of fee samples and its tiers.  Slots are integers and rates exact
rationals; a number of an update that is absent or not finite is `none`.  The `onSlot` hook
changes nothing: what it throws is caught.
-/

namespace Ap3xSolana.Tx.PriorityFee

open Ap3xSolana.Lib.Compaction

inductive FeeTier where
  | low | med | high | turbo
  deriving DecidableEq, Repr

def signatureFeeLamports : Rat := 5000

def microlamportsPerLamport : Rat := 1000000

def warmupDefaults : FeeTier → Rat
  | .low => 1
  | .med => 10
  | .high => 100
  | .turbo => 1000

structure PriorityFeeEstimatorOptions where
  windowSlots : Option Nat := none
  warmupSlots : Option Nat := none
  deriving DecidableEq, Repr

/-- What the constructor keeps of its options. -/
structure Config where
  windowSlots : Nat
  warmupSlots : Nat
  windowSlots_pos : 1 ≤ windowSlots
  deriving DecidableEq, Repr

/-- The constructor.  A negative `warmupSlots` is no `Nat`. -/
def construct (opts : PriorityFeeEstimatorOptions) : Except String Config :=
  if h : 1 ≤ opts.windowSlots.getD 150 then
    .ok { windowSlots := opts.windowSlots.getD 150
          warmupSlots := opts.warmupSlots.getD 30
          windowSlots_pos := h }
  else .error "PriorityFeeEstimator: windowSlots must be >= 1"

structure FeeSample where
  slot : Int
  microLamportsPerCu : Rat
  deriving DecidableEq, Repr

structure State where
  samples : List FeeSample := []
  slotsSeen : Finset Int := ∅
  lastSlot : Int := -1
  deriving DecidableEq

/-! ## The window -/

def pruneWindow (cfg : Config) (s : State) : State :=
  if s.lastSlot < 0 then s
  else
    let minSlot := s.lastSlot - cfg.windowSlots + 1
    if minSlot ≤ 0 then s
    else
      { s with
        samples := compact (fun sample => minSlot ≤ sample.slot) s.samples
        slotsSeen := s.slotsSeen.filter fun slot => ¬ slot < minSlot }

def observeSlot (cfg : Config) (s : State) (slot : Int) : State :=
  if slot < 0 then s
  else
    pruneWindow cfg
      { s with
        slotsSeen := insert slot s.slotsSeen
        lastSlot := if slot > s.lastSlot then slot else s.lastSlot }

def ingestSample (cfg : Config) (s : State) (sample : FeeSample) : State :=
  if sample.microLamportsPerCu < 0 then s
  else
    let s := observeSlot cfg s sample.slot
    pruneWindow cfg { s with samples := s.samples ++ [sample] }

/-! ## Updates -/

structure TransactionMeta where
  fee : Option Rat
  err : Bool
  computeUnitsConsumed : Option Rat
  deriving DecidableEq, Repr

structure TransactionUpdate where
  slot : Option Int
  info : Option TransactionMeta
  numRequiredSignatures : Option Rat
  /-- The lengths of the two arrays of signatures. -/
  signatures : Option Nat
  innerSignatures : Option Nat
  deriving DecidableEq, Repr

structure GeyserUpdate where
  slot : Option Int
  transaction : Option TransactionUpdate
  deriving DecidableEq, Repr

def nonEmpty (size : Option Nat) : Option Nat := size.filter (0 < ·)

def extractSigCount (u : TransactionUpdate) : Rat :=
  match u.numRequiredSignatures.filter (0 < ·) with
  | some n => n
  | none =>
      match nonEmpty u.signatures with
      | some n => n
      | none =>
          match nonEmpty u.innerSignatures with
          | some n => n
          | none => 1

/-- The sample that a transaction gives, if it gives one. -/
def sampleOf (lastSlot : Int) (tx : TransactionUpdate) : Option FeeSample :=
  match tx.info with
  | none => none
  | some info =>
      if info.err then none
      else
        match info.fee, info.computeUnitsConsumed with
        | some feeLamports, some unitsConsumed =>
            if unitsConsumed ≤ 0 then none
            else
              let priorityLamports := feeLamports - extractSigCount tx * signatureFeeLamports
              if priorityLamports < 0 then none
              else
                let sampleSlot := tx.slot.getD lastSlot
                if sampleSlot < 0 then none
                else
                  some { slot := sampleSlot
                         microLamportsPerCu :=
                           priorityLamports * microlamportsPerLamport / unitsConsumed }
        | _, _ => none

/-- The slot that an update is seen to be of, before anything is made of its fee. -/
def slotOf (update : GeyserUpdate) : Option Int :=
  match update.slot with
  | some slot => some slot
  | none => update.transaction.bind (·.slot)

/-- What an update gives the window, once its slot is observed. -/
def sampleOfUpdate (lastSlot : Int) (update : GeyserUpdate) : Option FeeSample :=
  match update.slot with
  | some _ => none
  | none => update.transaction.bind (sampleOf lastSlot)

def observe (cfg : Config) (s : State) (update : GeyserUpdate) : State :=
  match slotOf update with
  | none => s
  | some slot => observeSlot cfg s slot

def onUpdate (cfg : Config) (s : State) (update : GeyserUpdate) : State :=
  let s := observe cfg s update
  match sampleOfUpdate s.lastSlot update with
  | none => s
  | some sample => ingestSample cfg s sample

/-! ## Tiers -/

/-- `throw` on an empty list is `none`. -/
def quantile (sortedAsc : List Rat) (p : Rat) : Option Rat :=
  if sortedAsc.length = 0 then none
  else if p ≤ 0 then some (sortedAsc.getD 0 0)
  else if 1 ≤ p then some (sortedAsc.getD (sortedAsc.length - 1) 0)
  else
    let idx : Rat := p * ((sortedAsc.length : Rat) - 1)
    let lo := ⌊idx⌋₊
    let hi := ⌈idx⌉₊
    if lo = hi then some (sortedAsc.getD lo 0)
    else
      let frac := idx - lo
      some (sortedAsc.getD lo 0 * (1 - frac) + sortedAsc.getD hi 0 * frac)

def tierPercentile : FeeTier → Rat
  | .low => 1 / 2
  | .med => 3 / 4
  | .high => 9 / 10
  | .turbo => 99 / 100

def isWarmup (cfg : Config) (s : State) : Bool := s.slotsSeen.card < cfg.warmupSlots

def sortedRates (s : State) : List Rat :=
  (s.samples.map (·.microLamportsPerCu)).mergeSort fun a b => a ≤ b

def tier (cfg : Config) (s : State) (t : FeeTier) : Rat :=
  if isWarmup cfg s then warmupDefaults t
  else
    match quantile (sortedRates s) (tierPercentile t) with
    | none => warmupDefaults t
    | some base => if t = .turbo then base * (11 / 10) else base

end Ap3xSolana.Tx.PriorityFee
