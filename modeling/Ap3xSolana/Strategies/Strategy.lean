import Ap3xSolana.Core.Base58
import Ap3xSolana.Executor.Types
import Ap3xSolana.Portfolio.Position

/-!
# Signals, filters and strategies

What the runtime sees of a strategy: its name, its filters and which optional
hooks it has.  What a hook does is up to the strategy; the runtime only learns
how its promise settles.

The id of an intent is
`base58(sha256(signalId NUL strategyName NUL instanceId NUL decisionVersion))`.
The hash is a library function of the source, here a parameter.
-/

/-! ## Intent ids -/

namespace Ap3xSolana.Strategies.IntentId

open Ap3xSolana.Core

structure IntentIdInput where
  signalId : String
  strategyName : String
  instanceId : String
  decisionVersion : Option String := none
  deriving DecidableEq, Repr

/-- The four fields in UTF-8 with a NUL byte between them. -/
def hashedBytes (input : IntentIdInput) : List UInt8 :=
  let parts := [input.signalId, input.strategyName, input.instanceId,
    input.decisionVersion.getD "v1"].map (·.toUTF8.toList)
  [0].intercalate parts

def intentId (sha256 : List UInt8 → List UInt8) (input : IntentIdInput) : String :=
  Base58.encode (sha256 (hashedBytes input))

end Ap3xSolana.Strategies.IntentId

/-! ## Strategies -/

namespace Ap3xSolana.Strategies

open Ap3xSolana.Core Ap3xSolana.Executor Ap3xSolana.Portfolio

/-- The fields of a signal that filters and the runtime look at. -/
structure Signal where
  signalId : String
  programId : PublicKey
  kind : String
  venue : Option String := none
  deriving DecidableEq, Repr

/-- A kind is matched by name or by a regular expression's `test`. -/
inductive KindFilter where
  | exact (kind : String)
  | pattern (test : String → Bool)

/-- An empty text is falsy, so an empty `venue` or `kind` filters nothing. -/
structure SignalFilter where
  programId : Option (List PublicKey) := none
  venue : Option String := none
  kind : Option KindFilter := none

def KindFilter.accepts : KindFilter → String → Bool
  | .exact kind, got => kind = "" || kind = got
  | .pattern test, got => test got

def SignalFilter.matches (filter : SignalFilter) (signal : Signal) : Bool :=
  (match filter.programId with
    | none => true
    | some arr => arr.any (· = signal.programId)) &&
  (match filter.venue with
    | none => true
    | some venue => venue = "" || some venue = signal.venue) &&
  (match filter.kind with
    | none => true
    | some kind => kind.accepts signal.kind)

def matchesAny (filters : List SignalFilter) (signal : Signal) : Bool :=
  filters.any (SignalFilter.matches · signal)

structure BalanceDelta where
  mint : PublicKey
  delta : Int
  preAmount : Int
  postAmount : Int
  slot : Nat
  deriving DecidableEq, Repr

structure Strategy where
  name : String
  filters : List SignalFilter
  hasOnStart : Bool := false
  hasOnShutdown : Bool := false
  hasOnExecutionResult : Bool := false
  hasOnPositionChange : Bool := false
  hasOnBalanceChange : Bool := false
  hasOnTick : Bool := false

inductive HookPhase where
  | onStart
  | onSignal
  | onExecutionResult
  | onPositionChange
  | onBalanceChange
  | onTick
  | onShutdown
  deriving DecidableEq, Repr

/-- A hook with the arguments it is called with. -/
inductive HookCall where
  | onStart
  | onSignal (signal : Signal)
  | onExecutionResult (result : ExecutionResult)
  | onPositionChange (change : PositionChange)
  | onBalanceChange (wallet : String) (deltas : List BalanceDelta)
  | onTick (tsMs : Int)
  | onShutdown
  deriving DecidableEq, Repr

def HookCall.phase : HookCall → HookPhase
  | .onStart => .onStart
  | .onSignal _ => .onSignal
  | .onExecutionResult _ => .onExecutionResult
  | .onPositionChange _ => .onPositionChange
  | .onBalanceChange _ _ => .onBalanceChange
  | .onTick _ => .onTick
  | .onShutdown => .onShutdown

end Ap3xSolana.Strategies
