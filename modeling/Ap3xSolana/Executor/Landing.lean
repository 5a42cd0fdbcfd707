import Mathlib.Data.List.Dedup
import Ap3xSolana.Executor.Invariant

/-!
# Landing and the deadline

A retry signs anew with a fresh blockhash, so each attempt can put one transaction
on chain, however the attempt before it seemed to end.  Within an attempt every
submitter gets the same bytes.

Only `confirmLanded` looks at the deadline: it bounds the polling and it decides
when an attempt times out.  Submissions are bounded by the retry policy.
-/

/-! ## How many transactions of an intent can land -/

namespace Ap3xSolana.Executor

open Ap3xSolana.Core Ap3xSolana.Lib Ap3xSolana.Lib.Monitor AttemptLog

/-- The transactions that have landed for an execution. -/
def landedOf (events : List Event) (i : Nat) : List (List UInt8) :=
  (logOf events i).filterMap fun e =>
    match e.2 with
    | .landed tx => some tx
    | _ => none

theorem landed_mem_signed {intent : TradeIntent} {log : List Timed}
    (h : Accepts next (Allows intent) {} log) {time : Int} {tx : List UInt8}
    (htx : (time, .landed tx) ∈ log) : tx ∈ (log.foldl next {}).signed := by
  obtain ⟨before, after, rfl⟩ := List.append_of_mem htx
  have hmem : tx ∈ (before.foldl next {}).signed := h.at
  rw [List.foldl_append]
  exact signed_subset_foldl _ _ hmem

theorem landedOf_subset {x : Execution} {events : List Event} {i : Nat}
    (h : Logged x (logOf events i)) :
    landedOf events i ⊆ ((logOf events i).foldl next {}).signed := by
  intro tx htx
  obtain ⟨⟨time, o⟩, he, hmatch⟩ := List.mem_filterMap.1 htx
  cases o with
  | landed tx' =>
      cases hmatch
      exact landed_mem_signed h.accepts he
  | _ => cases hmatch

/-- One transaction an attempt: what any submitter gets is what the attempt under
way signed, an attempt signs once, it follows on a retryable result only, and so no
more transactions land than the retry policy allows attempts. -/
theorem landed_le_maxAttempts (opts : ExecutorOpts) (acts : List Action) (st : State)
    (hrun : Run.exec (step opts) {} acts = some st) (i : Nat) (x : Execution)
    (hx : st.executions[i]? = some x) :
    Accepts next (Allows x.intent) {} (logOf st.events i) ∧
      ((landedOf st.events i).dedup.length : Int) ≤ maxAttempts x.intent := by
  have hlog := run_logged hrun hx
  refine ⟨hlog.accepts, ?_⟩
  have hsubset : (landedOf st.events i).dedup ⊆
      ((logOf st.events i).foldl next {}).signed := fun tx htx =>
    landedOf_subset hlog (List.mem_dedup.1 htx)
  have hlen := ((List.nodup_dedup _).subperm hsubset).length_le
  exact Int.le_trans (Int.ofNat_le.2 hlen) (signed_le_maxAttempts hlog.accepts)

def hotWallet : WalletRef :=
  { ref := 0, address := ⟨List.replicate 32 7, rfl⟩ }

def rpcOnly : ExecutorOpts := { submitters := [{ id := 0, name := "rpc", kind := .rpc }] }

def twoAttempts : TradeIntent :=
  { intentId := "i1", wallet := "main", instructions := [], feeTier := .med,
    deadline := 10, retry := some { maxAttempts := some 2 } }

def act (time : Int) (kind : ActionKind) : Action :=
  { kind := kind, env := { now := time } }

/-- An attempt up to its call of the submitter, with a blockhash and a signature made
of the byte `b`. -/
def signAndSubmit (time : Int) (b : UInt8) : List Action :=
  [act time (.settle 0 (.wallet hotWallet)),
    act time (.settle 0 (.blockhash (Base58.encode (List.replicate 32 b)))),
    act time (.settle 0 (.signature (List.replicate 64 b)))]

/-- The transaction of such an attempt. -/
def signedWith (b : UInt8) : List UInt8 :=
  [1] ++ List.replicate 64 b ++ [0x80, 1, 0, 0, 1] ++ hotWallet.address.bytes ++
    List.replicate 32 b ++ [0, 0]

/-- The submitter throws although the network has the transaction. -/
def landTwice : List Action :=
  [act 0 (.submit twoAttempts)] ++ signAndSubmit 1 1 ++
    [act 2 (.settle 0 (.threw (.other "socket hang up")))] ++ signAndSubmit 3 2 ++
    [act 4 (.land 0 (signedWith 1)), act 5 (.land 0 (signedWith 2))]

/-- The run, once for both. -/
theorem landTwice_run :
    ∃ st, Run.exec (step rpcOnly) {} landTwice = some st ∧
      (∃ x, st.executions[0]? = some x ∧ x.intent = twoAttempts) ∧
      signedWith 1 ∈ landedOf st.events 0 ∧ signedWith 2 ∈ landedOf st.events 0 ∧
      signedWith 1 ≠ signedWith 2 := by
  decide +kernel

theorem landed_le_maxAttempts_landTwice :
    ∃ st, Run.exec (step rpcOnly) {} landTwice = some st ∧
      ((landedOf st.events 0).dedup.length : Int) ≤ 2 := by
  obtain ⟨st, hrun, ⟨x, hx, hintent⟩, -⟩ := landTwice_run
  have hle := (landed_le_maxAttempts rpcOnly landTwice st hrun 0 x hx).2
  rw [hintent] at hle
  exact ⟨st, hrun, hle⟩

/-- Two different transactions of one intent land. -/
theorem retry_lands_two :
    ∃ st, Run.exec (step rpcOnly) {} landTwice = some st ∧
      signedWith 1 ∈ landedOf st.events 0 ∧ signedWith 2 ∈ landedOf st.events 0 ∧
      signedWith 1 ≠ signedWith 2 := by
  obtain ⟨st, hrun, -, hlanded⟩ := landTwice_run
  exact ⟨st, hrun, hlanded⟩

end Ap3xSolana.Executor

/-! ## The deadline -/

namespace Ap3xSolana.Executor

open Ap3xSolana.Core Ap3xSolana.Lib Ap3xSolana.Lib.Monitor AttemptLog

/-- What the deadline and the retry policy promise of the log of an intent. -/
structure DeadlineKept (intent : TradeIntent) (entries : List Timed) : Prop where
  /-- No status is polled at or after the deadline. -/
  polls : ∀ time signature, (time, .poll signature) ∈ entries → time < intent.deadline
  /-- No attempt times out before the deadline. -/
  timeouts : ∀ time intentId signature submitterUsed,
    (time, .result (.timeout intentId signature submitterUsed)) ∈ entries →
      intent.deadline ≤ time
  attempts : (entries.countP isAttempt : Int) ≤ maxAttempts intent
  /-- A submitter is only called within an attempt that has no result yet. -/
  submits : ∀ before after time submitter tx,
    entries = before ++ (time, .submit submitter tx) :: after →
      (before.foldl next {}).result = none
  /-- A further attempt follows on a retryable result only. -/
  retries : ∀ before after time n tier,
    entries = before ++ (time, .attempt n tier) :: after → (before.foldl next {}).Retryable

theorem deadlineKept_of_accepts {intent : TradeIntent} {entries : List Timed}
    (h : Accepts next (Allows intent) {} entries) : DeadlineKept intent entries where
  polls time signature hmem := by
    obtain ⟨before, after, rfl⟩ := List.append_of_mem hmem
    exact h.at.2
  timeouts time intentId signature submitterUsed hmem := by
    obtain ⟨before, after, rfl⟩ := List.append_of_mem hmem
    exact h.at.2
  attempts := countP_isAttempt_le h
  submits before after time submitter tx heq := by
    subst heq
    exact h.at.2
  retries before after time n tier heq := by
    subst heq
    exact h.at.2.2

/-- The deadline bounds polling and timeouts in every run. -/
theorem deadline_kept (opts : ExecutorOpts) (acts : List Action) (st : State)
    (hrun : Run.exec (step opts) {} acts = some st) (i : Nat) (x : Execution)
    (hx : st.executions[i]? = some x) : DeadlineKept x.intent (logOf st.events i) :=
  deadlineKept_of_accepts (run_logged hrun hx).accepts

/-- The signature is never seen: the first attempt times out at its deadline, and the
second one signs and submits after it. -/
def lateRetry : List Action :=
  [act 0 (.submit twoAttempts)] ++ signAndSubmit 1 1 ++
    [act 2 (.settle 0 (.ack (some "sig"))), act 3 (.settle 0 (.statuses none)),
      act 10 (.settle 0 .slept)] ++ signAndSubmit 11 2

theorem lateRetry_run :
    ∃ st, Run.exec (step rpcOnly) {} lateRetry = some st ∧
      (∃ x, st.executions[0]? = some x ∧ x.intent = twoAttempts) ∧
      (11, .submit { id := 0, name := "rpc", kind := .rpc } (signedWith 2)) ∈
        logOf st.events 0 := by
  decide +kernel

theorem deadline_kept_lateRetry :
    ∃ st, Run.exec (step rpcOnly) {} lateRetry = some st ∧
      DeadlineKept twoAttempts (logOf st.events 0) := by
  obtain ⟨st, hrun, ⟨x, hx, hintent⟩, -⟩ := lateRetry_run
  have hkept := deadline_kept rpcOnly lateRetry st hrun 0 x hx
  rw [hintent] at hkept
  exact ⟨st, hrun, hkept⟩

/-- The retry after a timeout submits a new transaction past the deadline. -/
theorem lateRetry_submits_past_deadline :
    ∃ st, Run.exec (step rpcOnly) {} lateRetry = some st ∧
      (11, .submit { id := 0, name := "rpc", kind := .rpc } (signedWith 2)) ∈
        logOf st.events 0 ∧
      twoAttempts.deadline ≤ 11 := by
  obtain ⟨st, hrun, -, hsubmit⟩ := lateRetry_run
  exact ⟨st, hrun, hsubmit, by decide⟩

end Ap3xSolana.Executor
