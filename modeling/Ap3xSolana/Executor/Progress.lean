import Ap3xSolana.Executor.Execution
import Mathlib.Data.Prod.Lex
import Mathlib.Order.WellFounded

/-!
# How an execution goes on

One analysis of every step of an execution: whether it makes the promise of
`#runWithRetry` reject (`uncaught`: nothing catches there), what an execution that
is over has resolved with, and how far it still has to go.  The rank counts the
attempts left, the promises of an attempt still ahead and the items of the loop
under way; only a poll before the deadline can raise it.
-/

namespace Ap3xSolana.Executor

open Ap3xSolana.Core Ap3xSolana.Tx Ap3xSolana.Tx.Assemble
open Ap3xSolana.Tx.TransactionAssembler

/-- The promise is rejected. -/
def Running.rejects : Running → Bool
  | .settled (.error _) => true
  | _ => false

def Running.isSettled : Running → Bool
  | .settled _ => true
  | _ => false

/-- A result of the kinds that `submit` gives, for this intent. -/
def IsResultOf (intent : TradeIntent) : ExecutionResult → Prop
  | .landed intentId .. => intentId = intent.intentId
  | .timeout intentId .. => intentId = intent.intentId
  | .reverted intentId .. => intentId = intent.intentId
  | .rejected intentId .. => intentId = intent.intentId
  | .dropped .. => False

/-! ## Rank -/

/-- The promises still ahead in an attempt, at most. -/
def Running.phase : Running → Nat
  | .wallet => 6
  | .blockhash _ => 5
  | .sign .. => 4
  | .bundle .. => 3
  | .submit .. => 3
  | .bundled .. => 2
  | .poll .. => 2
  | .logs .. => 1
  | .sleep .. => 1
  | .settled _ => 0

/-- The items still ahead in the loop under way. -/
def Running.left : Running → Nat
  | .sign _ _ _ _ _ rest => rest.length
  | .submit _ _ rest _ _ => rest.length
  | _ => 0

abbrev Rank := Nat ×ₗ Nat ×ₗ Nat

namespace Execution

def attemptsLeft (x : Execution) : Nat := (maxAttempts x.intent - x.attempt).toNat

def rank (x : Execution) : Rank :=
  toLex (x.attemptsLeft, toLex (x.running.phase, x.running.left))

/-- Where a step of `x` that throws nothing, or that nothing catches, leads to. -/
structure Advances (x : Execution) (late throws : Prop) (r : Execution) : Prop where
  intent : r.intent = x.intent
  rejects : r.running.rejects ↔ throws
  result : ∀ res, r.running = .settled (.ok res) → IsResultOf x.intent res
  rank : late → r.rank < x.rank

variable {x : Execution} {late throws : Prop}

theorem rank_lt_of_phase {r : Execution} (hleft : r.attemptsLeft = x.attemptsLeft)
    (hphase : r.running.phase < x.running.phase) : r.rank < x.rank := by
  refine Prod.Lex.toLex_lt_toLex.2 (.inr ⟨hleft, ?_⟩)
  exact Prod.Lex.toLex_lt_toLex.2 (.inl hphase)

theorem rank_lt_of_left {r : Execution} (hleft : r.attemptsLeft = x.attemptsLeft)
    (hphase : r.running.phase = x.running.phase) (h : r.running.left < x.running.left) :
    r.rank < x.rank := by
  refine Prod.Lex.toLex_lt_toLex.2 (.inr ⟨hleft, ?_⟩)
  exact Prod.Lex.toLex_lt_toLex.2 (.inr ⟨hphase, h⟩)

/-- Waiting for the next promise. -/
theorem advances_await {next : Running} (hnext : next.isSettled = false)
    (hphase : late → next.phase < x.running.phase) :
    x.Advances late False (x.await next) where
  intent := rfl
  rejects := by
    cases next with
    | settled r => cases hnext
    | _ => simp [await, Running.rejects]
  result res hres := by
    simp only [await] at hres
    rw [hres] at hnext
    cases hnext
  rank hlate := rank_lt_of_phase rfl (hphase hlate)

theorem advances_fail (message : String) (h : 0 < x.running.phase) :
    x.Advances late True (x.fail message).1 where
  intent := rfl
  rejects := by simp [fail, Running.rejects]
  result res hres := by cases hres
  rank _ := rank_lt_of_phase rfl h

/-- The end of an attempt: the execution is over, or it has an attempt less. -/
theorem advances_conclude {r : ExecutionResult} (hr : IsResultOf x.intent r)
    (h : 0 < x.running.phase) : x.Advances late False (x.conclude r).1 := by
  unfold conclude
  split
  · refine ⟨rfl, by simp [Running.rejects], fun res hres => ?_, fun _ => ?_⟩
    · cases hres
      exact hr
    · exact rank_lt_of_phase rfl h
  · rename_i hgo
    rw [not_or, not_not] at hgo
    refine ⟨rfl, by simp [Running.rejects], nofun, fun _ => ?_⟩
    refine Prod.Lex.toLex_lt_toLex.2 (.inl ?_)
    have hlt := hgo.2
    simp only [attemptsLeft]
    push_cast
    omega

theorem advances_rejected (submitterUsed : Option String) (code message : String)
    (h : 0 < x.running.phase) :
    x.Advances late False
      (x.conclude (rejected x.intent submitterUsed code message)).1 :=
  advances_conclude rfl h

/-- A late execution polls no more. -/
theorem advances_confirm (signature submitterUsed : String) (now : Int)
    (h : 0 < x.running.phase) :
    x.Advances (x.intent.deadline ≤ now) False (x.confirm signature submitterUsed now).1 := by
  unfold confirm
  split
  · rename_i hearly
    exact advances_await rfl fun hlate => absurd hearly (Int.not_lt.2 hlate)
  · exact advances_conclude rfl h

theorem advances_trySubmit (signedTx : List UInt8) (first : String) (errors : List String)
    (subs : List Submitter)
    (h : 3 < x.running.phase ∨ x.running.phase = 3 ∧ subs.length ≤ x.running.left) :
    x.Advances late False (x.trySubmit signedTx first errors subs).1 := by
  cases subs with
  | nil => exact advances_rejected _ _ _ (by omega)
  | cons current rest =>
      refine ⟨rfl, by simp [trySubmit, await, Running.rejects],
        nofun, fun _ => ?_⟩
      rcases h with h | ⟨hphase, hleft⟩
      · exact rank_lt_of_phase rfl h
      · exact rank_lt_of_left rfl hphase.symm hleft

theorem advances_route (opts : ExecutorOpts) (signedTx : List UInt8) (tipped : Bool)
    (env : Readings) (h : 3 < x.running.phase) :
    x.Advances late False (x.route opts signedTx tipped env).1 := by
  unfold route
  split
  · exact advances_rejected _ _ _ (by omega)
  · split
    · exact advances_await rfl fun _ => h
    · exact advances_trySubmit _ _ _ _ (.inl h)

theorem advances_collect (opts : ExecutorOpts) (handle : WalletRef) (tipped : Bool)
    (prepared : Prepared) (signatures : List (List UInt8)) (env : Readings)
    (keys : List PublicKey)
    (h : 4 < x.running.phase ∨ x.running.phase = 4 ∧ keys.length ≤ x.running.left) :
    x.Advances late False
      (x.collect opts handle tipped prepared signatures env keys).1 := by
  cases keys with
  | cons key rest =>
      refine ⟨rfl, by simp [collect, await, Running.rejects],
        nofun, fun _ => ?_⟩
      rcases h with h | ⟨hphase, hleft⟩
      · exact rank_lt_of_phase rfl h
      · exact rank_lt_of_left rfl hphase.symm hleft
  | nil =>
      simp only [collect]
      split
      · exact advances_rejected _ _ _ (by omega)
      · exact advances_route opts _ _ _ (by omega)

/-- Only the tip is built outside of every `try`. -/
theorem advances_assemble (opts : ExecutorOpts) (handle : WalletRef) (hash : String)
    (env : Readings) (h : 4 < x.running.phase) :
    x.Advances late ((!(x.withTip opts handle).isOk) = true)
      (x.assemble opts handle hash env).1 := by
  unfold assemble
  cases htip : x.withTip opts handle with
  | error e => simpa [Except.isOk, Except.toBool] using advances_fail e.message (by omega)
  | ok instructions =>
      have hok : ((!(.ok instructions : Except Thrown (Option (List Instruction))).isOk) =
          true) = False := by simp [Except.isOk, Except.toBool]
      rw [hok]
      cases instructions with
      | none => exact advances_rejected _ _ _ (by omega)
      | some instructions =>
          dsimp only
          split
          · exact advances_rejected _ _ _ (by omega)
          · exact advances_collect opts _ _ _ _ _ _ (.inl h)

theorem advances_status (signature submitterUsed : String) (now : Int)
    (s : Option SignatureStatus) (h : 1 < x.running.phase) :
    x.Advances late False (x.status signature submitterUsed now s).1 := by
  cases s with
  | none => exact advances_await rfl fun _ => h
  | some s =>
      unfold status
      dsimp only
      split
      · exact advances_await rfl fun _ => h
      · split
        · exact advances_conclude rfl (by omega)
        · exact advances_await rfl fun _ => h

/-! ## Steps -/

/-- The replies that nothing catches: `feeEstimator.tier` throws, building the tip
throws, or a call of `confirmLanded` does. -/
def uncaught (opts : ExecutorOpts) (x : Execution) (reply : Reply) (env : Readings) :
    Bool :=
  match x.running, reply with
  | .wallet, .wallet _ => env.tierThrows.isSome
  | .blockhash handle, .blockhash _ => !(x.withTip opts handle).isOk
  | .poll .., .threw _ => true
  | .logs .., .threw _ => true
  | _, _ => false

theorem settle_advances {opts : ExecutorOpts} {reply : Reply} {env : Readings}
    {r : Execution × List Output} (h : x.settle opts reply env = some r) :
    x.Advances (x.intent.deadline ≤ env.now) (x.uncaught opts reply env) r.1 := by
  unfold settle at h
  unfold uncaught
  split at h
  all_goals first | cases h | skip
  all_goals
    rename_i hrun
    rw [hrun]
    simp only [Bool.false_eq_true]
  · exact advances_rejected _ _ _ (by simp [hrun, Running.phase])
  · split at h
    · rename_i htier
      cases h
      simpa [htier] using advances_fail _ (by simp [hrun, Running.phase])
    · rename_i htier
      cases h
      simpa [htier] using advances_await rfl fun _ => by simp [hrun, Running.phase]
  · exact advances_rejected _ _ _ (by simp [hrun, Running.phase])
  · exact advances_assemble opts _ _ _ (by simp [hrun, Running.phase])
  · unfold signThrew
    split <;> exact advances_rejected _ _ _ (by simp [hrun, Running.phase])
  · split at h
    · cases h
      exact advances_rejected _ _ _ (by simp [hrun, Running.phase])
    · cases h
      exact advances_collect opts _ _ _ _ _ _
        (.inr (by simp [hrun, Running.phase, Running.left]))
  · exact advances_trySubmit _ _ _ _ (.inr (by simp [hrun, Running.phase, Running.left]))
  · have htry : ∀ (tx : List UInt8) (current : Submitter) (rest : List Submitter)
        (errors : List String) (first message : String),
        x.running = .submit tx current rest errors first →
        x.Advances (x.intent.deadline ≤ env.now) False
          (x.submitFailed tx current rest errors first message).1 :=
      fun tx current rest errors first message hrun => advances_trySubmit _ _ _ _
        (.inr (by simp [hrun, Running.phase, Running.left]))
    split at h
    · split at h
      · cases h
        exact htry _ _ _ _ _ _ hrun
      · cases h
        exact advances_confirm _ _ _ (by simp [hrun, Running.phase])
    · cases h
      exact htry _ _ _ _ _ _ hrun
  · exact advances_fail _ (by simp [hrun, Running.phase])
  · exact advances_status _ _ _ _ (by simp [hrun, Running.phase])
  · exact advances_fail _ (by simp [hrun, Running.phase])
  · exact advances_conclude rfl (by simp [hrun, Running.phase])
  · exact advances_confirm _ _ _ (by simp [hrun, Running.phase])

theorem resume_advances {last : Option String} {env : Readings}
    {r : Execution × List Output} (h : x.resume last env = some r) :
    x.Advances (x.intent.deadline ≤ env.now) False r.1 := by
  unfold resume at h
  split at h
  all_goals cases h
  all_goals rename_i hrun
  · exact advances_confirm _ _ _ (by simp [hrun, Running.phase])
  · exact advances_rejected _ _ _ (by simp [hrun, Running.phase])
  · exact advances_rejected _ _ _ (by simp [hrun, Running.phase])

/-- An execution that is over has no steps. -/
theorem settle_unsettled {opts : ExecutorOpts} {reply : Reply} {env : Readings}
    {r : Execution × List Output} (h : x.settle opts reply env = some r) :
    x.running.isSettled = false := by
  cases hrun : x.running with
  | settled res =>
      unfold settle at h
      rw [hrun] at h
      cases h
  | _ => rfl

theorem resume_unsettled {last : Option String} {env : Readings}
    {r : Execution × List Output} (h : x.resume last env = some r) :
    x.running.isSettled = false := by
  cases hrun : x.running with
  | settled res =>
      unfold resume at h
      rw [hrun] at h
      cases h
  | _ => rfl

end Execution

end Ap3xSolana.Executor
