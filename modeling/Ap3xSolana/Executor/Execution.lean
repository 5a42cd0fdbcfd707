import Ap3xSolana.Executor.Types
import Ap3xSolana.Tx.SystemTransfer
import Ap3xSolana.Tx.TransactionAssembler

/-!
# One execution of an intent

`#runWithRetry` with the `#execute` of its current attempt.  `Running` names the
promise the execution awaits; `settle` is what happens from there to the next
`await`, once that promise settles.  Whatever the code reads on the way (the
clock, the health of the submitters, the fee estimator) comes in as `Readings`.
-/

namespace Ap3xSolana.Executor

open Ap3xSolana.Core Ap3xSolana.Tx Ap3xSolana.Tx.TransactionAssembler
open Ap3xSolana.Tx.Assemble Ap3xSolana.Tx.SystemTransfer

structure Submitter where
  /-- The object's identity. -/
  id : Nat
  name : String
  kind : SubmitterKind
  deriving DecidableEq, Repr

structure ExecutorOpts where
  submitters : List Submitter
  jitoTipAccount : Option PublicKey := none
  defaultSubmitter : SubmitterKind := .rpc
  fallbackChain : List SubmitterKind := [.jitoGrpc, .jitoHttp, .rpc]
  bundleMaxIntents : Int := 5
  deriving DecidableEq, Repr

/-- An unlocked handle: the object and its address. -/
structure WalletRef where
  ref : Nat
  address : PublicKey
  deriving DecidableEq, Repr

/-- The errors the executor tells apart. -/
inductive ThrownError where
  | reserveBreach (message : String)
  | bundleWithoutTip
  | other (message : String)
  deriving DecidableEq, Repr

def ThrownError.message : ThrownError → String
  | .reserveBreach message => message
  | .bundleWithoutTip =>
      "bundle has no tip: set submitter.tipLamports on at least one intent in the group"
  | .other message => message

structure SignatureStatus where
  slot : Nat
  confirmationStatus : String
  /-- `JSON.stringify(status.err)`, when that is truthy. -/
  err : Option String
  deriving DecidableEq, Repr

structure BundleEntry where
  signedTx : List UInt8
  tipped : Bool
  deriving DecidableEq, Repr

/-- The promise an execution awaits. -/
inductive Running where
  | wallet
  | blockhash (handle : WalletRef)
  | sign (handle : WalletRef) (tipped : Bool) (prepared : Prepared)
      (signatures : List (List UInt8)) (key : PublicKey) (rest : List PublicKey)
  | bundle (signedTx : List UInt8) (name : String)
  | bundled (signedTx : List UInt8) (name : String) (outcome : Except ThrownError String)
  | submit (signedTx : List UInt8) (current : Submitter) (rest : List Submitter)
      (errors : List String) (first : String)
  | poll (signature submitterUsed : String)
  | logs (signature submitterUsed : String) (slot : Nat) (error : String)
  | sleep (signature submitterUsed : String)
  | settled (result : Except String ExecutionResult)

/-- How an awaited promise settles. -/
inductive Reply where
  | threw (err : ThrownError)
  | wallet (handle : WalletRef)
  | blockhash (hash : String)
  | signature (sig : List UInt8)
  | ack (signature : Option String)
  | statuses (status : Option SignatureStatus)
  | transaction (logMessages : Option (List String))
  | slept

/-- What the code reads between two awaits. -/
structure Readings where
  now : Int
  /-- The submitters whose `health()` says `unhealthy`. -/
  unhealthy : List Nat := []
  /-- `feeEstimator.tier` throws. -/
  tierThrows : Option String := none
  deriving DecidableEq, Repr

/-- What an execution does that others can see. -/
inductive Output where
  | attempt (attempt : Nat) (feeTier : FeeTier)
  | sign (handle : WalletRef) (messageBytes : List UInt8)
  | signed (signedTx : List UInt8)
  | addToBundle (group : String) (entry : BundleEntry)
  | submit (submitter : Submitter) (signedTx : List UInt8)
  | poll (signature : String)
  | result (r : ExecutionResult)
  | landed (signedTx : List UInt8)
  deriving DecidableEq, Repr

/-! ## Retry policy -/

def bumpProgression : List FeeTier := [.low, .med, .high, .turbo]

/-- The tier after `tier`, which stays at the top. -/
def bump (tier : FeeTier) : FeeTier :=
  match bumpProgression.findIdx? (· = tier) with
  | some i => (bumpProgression[i + 1]?).getD tier
  | none => tier

/-- `0` and negative numbers count as one attempt. -/
def maxAttempts (intent : TradeIntent) : Int :=
  let rawMax := (intent.retry.bind (·.maxAttempts)).getD 1
  if rawMax > 0 then rawMax else 1

def bumps (intent : TradeIntent) : Bool :=
  (intent.retry.bind (·.bumpProgression)).getD false

def terminalRejectCodes : List String :=
  ["reserve_breach", "sign_failed", "wallet_locked", "no_jito_submitter_for_bundle",
    "no_tip_account", "bundle_without_tip"]

def isTerminalResult : ExecutionResult → Bool
  | .landed .. => true
  | .reverted .. => true
  | .rejected _ _ error => terminalRejectCodes.contains error.code
  | .timeout .. => false
  | .dropped .. => false

/-! ## Routing -/

def SubmitterKind.isJito : SubmitterKind → Bool
  | .jitoHttp => true
  | .jitoGrpc => true
  | _ => false

def bundleGroup (intent : TradeIntent) : Option String :=
  intent.submitter.bind (·.bundleGroup)

def healthyOf (opts : ExecutorOpts) (unhealthy : List Nat) (kind : SubmitterKind) :
    List Submitter :=
  opts.submitters.filter fun s => s.kind = kind && s.id ∉ unhealthy

/-- The requested kind first, then the fallback chain. -/
def candidates (opts : ExecutorOpts) (unhealthy : List Nat) (intent : TradeIntent) :
    List Submitter :=
  let wantedKind := (intent.submitter.map (·.kind)).getD opts.defaultSubmitter
  (wantedKind :: opts.fallbackChain.filter (· ≠ wantedKind)).flatMap
    (healthyOf opts unhealthy)

/-- A bundle intent needs a healthy Jito submitter before anything starts. -/
def hasJito (opts : ExecutorOpts) (unhealthy : List Nat) : Bool :=
  opts.submitters.any fun s => s.kind.isJito && s.id ∉ unhealthy

def rejected (intent : TradeIntent) (submitterUsed : Option String)
    (code message : String) : ExecutionResult :=
  .rejected intent.intentId submitterUsed { code := code, message := message }

def adaptInstruction (ix : ExecutorInstruction) : Instruction :=
  { programId := ix.programId, keys := ix.accounts, data := ix.data }

/-- Only bundle intents tip. -/
def tipLamports (intent : TradeIntent) : Int :=
  if (bundleGroup intent).isSome then
    (intent.submitter.bind (·.tipLamports)).getD 0
  else 0

/-! ## The execution -/

structure Execution where
  intent : TradeIntent
  attempt : Nat := 1
  currentTier : FeeTier
  running : Running := .wallet

namespace Execution

/-- The first attempt, up to its first `await`. -/
def begin (intent : TradeIntent) : Execution × List Output :=
  ({ intent := intent, currentTier := intent.feeTier }, [.attempt 1 intent.feeTier])

/-- The promise of `#runWithRetry` rejects. -/
def fail (x : Execution) (message : String) : Execution × List Output :=
  ({ x with running := .settled (.error message) }, [])

def await (x : Execution) (next : Running) : Execution := { x with running := next }

/-- The end of an attempt: the retry loop returns the result or goes round again. -/
def conclude (x : Execution) (r : ExecutionResult) : Execution × List Output :=
  if isTerminalResult r ∨ ¬ x.attempt < maxAttempts x.intent then
    ({ x with running := .settled (.ok r) }, [.result r])
  else
    let tier := if bumps x.intent then bump x.currentTier else x.currentTier
    ({ x with attempt := x.attempt + 1, currentTier := tier, running := .wallet },
      [.result r, .attempt (x.attempt + 1) tier])

/-- The head of the poll loop of `confirmLanded`. -/
def confirm (x : Execution) (signature submitterUsed : String) (now : Int) :
    Execution × List Output :=
  if now < x.intent.deadline then
    (x.await (.poll signature submitterUsed), [.poll signature])
  else x.conclude (.timeout x.intent.intentId (some signature) submitterUsed)

/-- The failover loop over the submitters that take single transactions. -/
def trySubmit (x : Execution) (signedTx : List UInt8) (first : String)
    (errors : List String) : List Submitter → Execution × List Output
  | [] =>
      x.conclude (rejected x.intent (some first) "submit_failed"
        (if errors = [] then "no submitter accepts single transactions"
         else "; ".intercalate errors))
  | current :: rest =>
      (x.await (.submit signedTx current rest errors first), [.submit current signedTx])

/-- From a signed transaction to a bundle or to the first submitter. -/
def route (opts : ExecutorOpts) (x : Execution) (signedTx : List UInt8) (tipped : Bool)
    (env : Readings) : Execution × List Output :=
  match candidates opts env.unhealthy x.intent with
  | [] =>
      x.conclude (rejected x.intent none "no_submitter"
        "no healthy submitter for requested kind")
  | submitter :: rest =>
      match bundleGroup x.intent with
      | some group =>
          (x.await (.bundle signedTx submitter.name),
            [.addToBundle group { signedTx := signedTx, tipped := tipped }])
      | none =>
          x.trySubmit signedTx submitter.name []
            ((submitter :: rest).filter (¬ ·.kind.isJito))

def signFailed (x : Execution) (message : String) : Execution × List Output :=
  x.conclude (rejected x.intent none "sign_failed" message)

/-- The loop over the required signatures; the signed transaction at its end. -/
def collect (opts : ExecutorOpts) (x : Execution) (handle : WalletRef) (tipped : Bool)
    (prepared : Prepared) (signatures : List (List UInt8)) (env : Readings) :
    List PublicKey → Execution × List Output
  | key :: rest =>
      (x.await (.sign handle tipped prepared signatures key rest),
        [.sign handle prepared.messageBytes])
  | [] =>
      match finish prepared signatures with
      | .error e => x.signFailed e.message
      | .ok signedTx =>
          let (x, out) := x.route opts signedTx tipped env
          (x, .signed signedTx :: out)

/-- The instructions with the tip, if the intent pays one.  Building the tip is
outside every `try`. -/
def withTip (opts : ExecutorOpts) (x : Execution) (handle : WalletRef) :
    Except Thrown (Option (List Instruction)) :=
  let txInstructions := x.intent.instructions.map adaptInstruction
  if tipLamports x.intent > 0 then
    match opts.jitoTipAccount with
    | none => .ok none
    | some account =>
        match tipInstruction handle.address account (tipLamports x.intent) with
        | .error e => .error e
        | .ok ix => .ok (some (txInstructions ++ [ix]))
  else .ok (some txInstructions)

/-- Assembly, up to the first signer. -/
def assemble (opts : ExecutorOpts) (x : Execution) (handle : WalletRef)
    (recentBlockhash : String) (env : Readings) : Execution × List Output :=
  match x.withTip opts handle with
  | .error e => x.fail e.message
  | .ok none =>
      x.conclude (rejected x.intent none "no_tip_account"
        "tipLamports set but no jitoTipAccount configured")
  | .ok (some instructions) =>
      match prepare { instructions := instructions
                      payer := handle.address
                      recentBlockhash := recentBlockhash
                      signers := [handle.address] } with
      | .error e => x.signFailed e.message
      | .ok prepared =>
          x.collect opts handle (tipLamports x.intent > 0) prepared [] env prepared.required

def signThrew (x : Execution) : ThrownError → Execution × List Output
  | .reserveBreach message =>
      x.conclude (rejected x.intent none "reserve_breach" message)
  | err => x.signFailed err.message

/-- `catch` or no signature: on to the next submitter. -/
def submitFailed (x : Execution) (signedTx : List UInt8) (current : Submitter)
    (rest : List Submitter) (errors : List String) (first message : String) :
    Execution × List Output :=
  x.trySubmit signedTx first (errors ++ [s!"{current.name}: {message}"]) rest

/-- One status of `getSignatureStatuses`. -/
def status (x : Execution) (signature submitterUsed : String) (now : Int) :
    Option SignatureStatus → Execution × List Output
  | none => (x.await (.sleep signature submitterUsed), [])
  | some s =>
      match s.err with
      | some err => (x.await (.logs signature submitterUsed s.slot err), [])
      | none =>
          if s.confirmationStatus = "confirmed" ∨ s.confirmationStatus = "finalized" then
            x.conclude (.landed x.intent.intentId signature s.slot submitterUsed now)
          else (x.await (.sleep signature submitterUsed), [])

/-- The awaited promise settles with `reply`. -/
def settle (opts : ExecutorOpts) (x : Execution) (reply : Reply) (env : Readings) :
    Option (Execution × List Output) :=
  match x.running, reply with
  | .wallet, .threw err =>
      some (x.conclude (rejected x.intent none "wallet_locked" err.message))
  | .wallet, .wallet handle =>
      match env.tierThrows with
      | some message => some (x.fail message)
      | none => some (x.await (.blockhash handle), [])
  | .blockhash _, .threw err =>
      some (x.conclude (rejected x.intent none "blockhash_fetch_failed" err.message))
  | .blockhash handle, .blockhash hash => some (x.assemble opts handle hash env)
  | .sign .., .threw err => some (x.signThrew err)
  | .sign handle tipped prepared signatures key rest, .signature sig =>
      match checkSignature key sig with
      | .error e => some (x.signFailed e.message)
      | .ok () => some (x.collect opts handle tipped prepared (signatures ++ [sig]) env rest)
  | .submit signedTx current rest errors first, .threw err =>
      some (x.submitFailed signedTx current rest errors first err.message)
  | .submit signedTx current rest errors first, .ack signature =>
      match signature with
      | some signature =>
          if signature = "" then
            some (x.submitFailed signedTx current rest errors first
              "returned no signature for tx payload")
          else some (x.confirm signature current.name env.now)
      | none =>
          some (x.submitFailed signedTx current rest errors first
            "returned no signature for tx payload")
  | .poll .., .threw err => some (x.fail err.message)
  | .poll signature submitterUsed, .statuses s =>
      some (x.status signature submitterUsed env.now s)
  | .logs .., .threw err => some (x.fail err.message)
  | .logs signature submitterUsed slot error, .transaction logMessages =>
      some (x.conclude (.reverted x.intent.intentId signature slot submitterUsed
        (logMessages.getD []) error))
  | .sleep signature submitterUsed, .slept =>
      some (x.confirm signature submitterUsed env.now)
  | _, _ => none

/-- A bundle intent goes on once its flush is over. -/
def resume (x : Execution) (lastBundleSubmitter : Option String) (env : Readings) :
    Option (Execution × List Output) :=
  match x.running with
  | .bundled _ name (.ok signature) =>
      some (x.confirm signature (lastBundleSubmitter.getD name) env.now)
  | .bundled _ _ (.error .bundleWithoutTip) =>
      some (x.conclude (rejected x.intent none "bundle_without_tip"
        ThrownError.bundleWithoutTip.message))
  | .bundled _ _ (.error err) =>
      some (x.conclude (rejected x.intent none "bundle_flush_failed" err.message))
  | _ => none

end Execution

end Ap3xSolana.Executor
