import Ap3xSolana.Core.PublicKey
import Ap3xSolana.Tx.TransactionAssembler

/-!
# Intents and execution results
-/

namespace Ap3xSolana.Executor

open Ap3xSolana.Core Ap3xSolana.Tx.TransactionAssembler

/-- The executor's own instruction shape: `accounts` where the assembler has
`keys`. -/
structure ExecutorInstruction where
  programId : PublicKey
  accounts : List AccountMeta
  data : List UInt8
  deriving DecidableEq, Repr

inductive FeeTier where
  | low
  | med
  | high
  | turbo
  deriving DecidableEq, Repr

inductive SubmitterKind where
  | rpc
  | jitoHttp
  | jitoGrpc
  deriving DecidableEq, Repr

structure SubmitterHint where
  kind : SubmitterKind
  bundleGroup : Option String := none
  tipLamports : Option Int := none
  deriving DecidableEq, Repr

structure RetryPolicy where
  maxAttempts : Option Int := none
  bumpProgression : Option Bool := none
  deriving DecidableEq, Repr

structure TradeIntent where
  intentId : String
  wallet : String
  instructions : List ExecutorInstruction
  feeTier : FeeTier
  deadline : Int
  submitter : Option SubmitterHint := none
  retry : Option RetryPolicy := none
  deriving DecidableEq, Repr

structure RejectError where
  code : String
  message : String
  deriving DecidableEq, Repr

inductive ExecutionResult where
  | landed (intentId signature : String) (slot : Nat) (submitterUsed : String)
      (landedAt : Int)
  | dropped (intentId : String) (signature : Option String) (submitterUsed : String)
      (lastSeenSlot : Option Nat)
  | timeout (intentId : String) (signature : Option String) (submitterUsed : String)
  | reverted (intentId signature : String) (slot : Nat) (submitterUsed : String)
      (logs : List String) (error : String)
  | rejected (intentId : String) (submitterUsed : Option String) (error : RejectError)
  deriving DecidableEq, Repr

end Ap3xSolana.Executor
