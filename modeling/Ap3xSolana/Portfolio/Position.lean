import Ap3xSolana.Core.PublicKey
import Ap3xSolana.Portfolio.Accounting

/-!
# Positions and landed trades

The records the portfolio exchanges with the strategy runtime.
-/

namespace Ap3xSolana.Portfolio

open Ap3xSolana.Core Ap3xSolana.Portfolio.Accounting

structure Position where
  mint : PublicKey
  walletAddress : PublicKey
  lots : List Lot
  lastUpdatedSlot : Nat
  deriving DecidableEq, Repr

inductive TradeSource where
  | executor
  | external
  deriving DecidableEq, Repr

structure LandedTrade where
  signature : String
  slot : Nat
  wallet : PublicKey
  mint : PublicKey
  amountDelta : Int
  solFlowLamports : Int
  feeLamports : Int
  source : TradeSource
  deriving DecidableEq, Repr

inductive ChangeReason where
  | applyLandedTrade
  | coldStart
  | reconcile
  | manualCorrection
  deriving DecidableEq, Repr

structure PositionChange where
  wallet : PublicKey
  mint : PublicKey
  before : Option Position
  after : Position
  reason : ChangeReason
  deriving DecidableEq, Repr

/-- A position before its first trade. -/
def newPosition (trade : LandedTrade) : Position :=
  { mint := trade.mint, walletAddress := trade.wallet, lots := [], lastUpdatedSlot := 0 }

/-- The lot of a buy, at what it cost. -/
def boughtLot (trade : LandedTrade) : Lot :=
  { amount := trade.amountDelta
    costBasisLamports := if trade.solFlowLamports < 0 then -trade.solFlowLamports else 0
    acquiredSlot := trade.slot
    acquiredSig := trade.signature
    source := .trade }

def saleProceeds (trade : LandedTrade) : Int :=
  if trade.solFlowLamports > 0 then trade.solFlowLamports else 0

/-- Some lot still holds tokens. -/
def Position.isOpen (p : Position) : Bool := p.lots.any (0 < ·.amount)

end Ap3xSolana.Portfolio
