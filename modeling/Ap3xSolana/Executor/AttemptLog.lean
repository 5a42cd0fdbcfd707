import Ap3xSolana.Executor.Execution
import Ap3xSolana.Lib.Monitor

/-!
# What an execution may put out

The log of an execution is read by a monitor that knows the attempt under way, the
transaction it signed and how it ended.  `settle_follows` and `resume_follows` say
that every step of an execution stays within what the monitor allows.
-/

namespace Ap3xSolana.Executor

open Ap3xSolana.Core Ap3xSolana.Lib.Monitor Ap3xSolana.Tx Ap3xSolana.Tx.Assemble
open Ap3xSolana.Tx.TransactionAssembler

/-- An output and the time it was made. -/
abbrev Timed := Int × Output

/-- What the outputs so far amount to. -/
structure AttemptLog where
  attempts : Nat := 0
  /-- The transaction the current attempt signed. -/
  current : Option (List UInt8) := none
  /-- The result of the current attempt. -/
  result : Option ExecutionResult := none
  /-- Every transaction signed so far. -/
  signed : List (List UInt8) := []
  deriving DecidableEq, Repr

namespace AttemptLog

def next (s : AttemptLog) (e : Timed) : AttemptLog :=
  match e.2 with
  | .attempt n _ => { s with attempts := n, current := none, result := none }
  | .signed tx => { s with current := some tx, signed := s.signed ++ [tx] }
  | .result r => { s with result := some r }
  | _ => s

/-- The previous attempt, if there was one, ended with a retryable result. -/
def Retryable (s : AttemptLog) : Prop :=
  s.attempts = 0 ∨ ∃ r ∈ s.result, isTerminalResult r = false

/-- A timeout is only given once the deadline has come. -/
def TimelyResult (intent : TradeIntent) (time : Int) : ExecutionResult → Prop
  | .timeout .. => intent.deadline ≤ time
  | _ => True

/-- What may come next. -/
def Allows (intent : TradeIntent) (s : AttemptLog) (e : Timed) : Prop :=
  match e.2 with
  | .attempt n _ => n = s.attempts + 1 ∧ (n : Int) ≤ maxAttempts intent ∧ s.Retryable
  | .sign .. => s.current = none ∧ s.result = none
  | .signed _ => 0 < s.attempts ∧ s.current = none ∧ s.result = none
  | .addToBundle _ entry => s.current = some entry.signedTx ∧ s.result = none
  | .submit _ tx => s.current = some tx ∧ s.result = none
  | .poll _ => s.result = none ∧ e.1 < intent.deadline
  | .result r => s.result = none ∧ TimelyResult intent e.1 r
  | .landed tx => tx ∈ s.signed

/-- Each attempt signs at most once. -/
structure Bounded (intent : TradeIntent) (s : AttemptLog) : Prop where
  attempts : (s.attempts : Int) ≤ maxAttempts intent
  signed : s.signed.length ≤ s.attempts
  unsigned : s.current = none → 0 < s.attempts → s.signed.length < s.attempts

theorem maxAttempts_pos (intent : TradeIntent) : 0 < maxAttempts intent := by
  unfold maxAttempts
  dsimp only
  split
  · assumption
  · exact Int.one_pos

theorem bounded_init (intent : TradeIntent) : Bounded intent {} :=
  ⟨(maxAttempts_pos intent).le, Nat.le_refl 0, fun _ h => absurd h (Nat.lt_irrefl 0)⟩

theorem bounded_next (intent : TradeIntent) (s : AttemptLog) (e : Timed)
    (hs : Bounded intent s) (h : Allows intent s e) : Bounded intent (s.next e) := by
  obtain ⟨time, o⟩ := e
  have hsigned := hs.signed
  cases o with
  | attempt n tier =>
      obtain ⟨rfl, hmax, -⟩ := h
      exact ⟨hmax, Nat.le_succ_of_le hsigned, fun _ _ => Nat.lt_succ_of_le hsigned⟩
  | signed tx =>
      obtain ⟨hpos, hnone, -⟩ := h
      have hlt := hs.unsigned hnone hpos
      refine ⟨hs.attempts, ?_, fun hnone => by cases hnone⟩
      simpa [next] using hlt
  | result r => exact ⟨hs.attempts, hsigned, hs.unsigned⟩
  | sign handle messageBytes => exact hs
  | addToBundle group entry => exact hs
  | submit submitter tx => exact hs
  | poll signature => exact hs
  | landed tx => exact hs

/-- An accepted log has at most as many signed transactions as attempts. -/
theorem signed_le_maxAttempts {intent : TradeIntent} {log : List Timed}
    (h : Accepts next (Allows intent) {} log) :
    ((log.foldl next {}).signed.length : Int) ≤ maxAttempts intent := by
  have hb := Accepts.foldl (bounded_next intent) h (bounded_init intent)
  exact Int.le_trans (Int.ofNat_le.2 hb.signed) hb.attempts

/-- The current transaction is one of those signed. -/
theorem current_mem_signed {intent : TradeIntent} {log : List Timed}
    (h : Accepts next (Allows intent) {} log) {tx : List UInt8}
    (htx : (log.foldl next {}).current = some tx) : tx ∈ (log.foldl next {}).signed := by
  have hP : ∀ (s : AttemptLog) (e : Timed), (∀ tx, s.current = some tx → tx ∈ s.signed) →
      Allows intent s e → ∀ tx, (s.next e).current = some tx → tx ∈ (s.next e).signed := by
    rintro s ⟨time, o⟩ hs - tx htx
    cases o with
    | attempt n tier => cases htx
    | signed tx' =>
        cases htx
        exact List.mem_append_right _ List.mem_cons_self
    | _ => exact hs tx htx
  exact h.foldl (P := fun s => ∀ tx, s.current = some tx → tx ∈ s.signed) hP
    (fun _ htx => by cases htx) tx htx

theorem signed_subset_foldl (s : AttemptLog) (log : List Timed) :
    s.signed ⊆ (log.foldl next s).signed := by
  induction log generalizing s with
  | nil => exact fun _ h => h
  | cons e log ih =>
      refine List.Subset.trans ?_ (ih (s.next e))
      obtain ⟨time, o⟩ := e
      cases o with
      | signed tx => exact List.subset_append_left _ _
      | _ => exact fun _ h => h

/-- What a submitter was called with was signed before. -/
theorem submitted_mem_signed {intent : TradeIntent} {log : List Timed}
    (h : Accepts next (Allows intent) {} log) {time : Int} {sub : Submitter}
    {tx : List UInt8} (htx : (time, .submit sub tx) ∈ log) :
    tx ∈ (log.foldl next {}).signed := by
  obtain ⟨before, after, rfl⟩ := List.append_of_mem htx
  have hmem := current_mem_signed (accepts_append.1 h).1 h.at.1
  rw [List.foldl_append]
  exact signed_subset_foldl _ _ hmem

def isAttempt (e : Timed) : Bool :=
  match e.2 with
  | .attempt .. => true
  | _ => false

/-- The monitor counts the attempts. -/
theorem countP_isAttempt {intent : TradeIntent} {s : AttemptLog} {log : List Timed}
    (h : Accepts next (Allows intent) s log) :
    (log.foldl next s).attempts = s.attempts + log.countP isAttempt := by
  induction log generalizing s with
  | nil => rfl
  | cons e log ih =>
      obtain ⟨hok, hrest⟩ := h
      rw [List.foldl_cons, ih hrest]
      obtain ⟨time, o⟩ := e
      cases o with
      | attempt n tier =>
          rw [List.countP_cons_of_pos rfl]
          have hn : n = s.attempts + 1 := hok.1
          simp only [next, hn]
          omega
      | _ => exact congrArg _ (List.countP_cons_of_neg (by simp [isAttempt])).symm

theorem countP_isAttempt_le {intent : TradeIntent} {log : List Timed}
    (h : Accepts next (Allows intent) {} log) :
    (log.countP isAttempt : Int) ≤ maxAttempts intent := by
  have hb := Accepts.foldl (bounded_next intent) h (bounded_init intent)
  have hcount := countP_isAttempt h
  have hmax := hb.attempts
  rw [hcount, Nat.zero_add] at hmax
  exact hmax

end AttemptLog

/-! ## Steps of an execution -/

open AttemptLog

/-- How the promise an execution awaits fits its log. -/
def Fits (s : AttemptLog) : Running → Prop
  | .wallet | .blockhash _ | .sign .. => s.current = none ∧ s.result = none
  | .bundle tx _ | .bundled tx _ _ | .submit tx .. => s.current = some tx ∧ s.result = none
  | .poll .. | .logs .. | .sleep .. => s.result = none
  | .settled (.ok r) => s.result = some r
  | .settled (.error _) => True

/-- The execution is where its log says. -/
structure Tracks (x : Execution) (s : AttemptLog) : Prop where
  attempts : s.attempts = x.attempt
  positive : 0 < x.attempt
  fits : Fits s x.running

/-- The bundle entries among the outputs, with their groups. -/
def bundleEntries (out : List Output) : List (String × BundleEntry) :=
  out.filterMap fun o =>
    match o with
    | .addToBundle group entry => some (group, entry)
    | _ => none

/-- The transaction an execution waits for a bundle with. -/
def waitingTx : Running → List (List UInt8)
  | .bundle tx _ => [tx]
  | _ => []

/-- A step from a log in state `s`, at time `now`, to `r`. -/
structure Follows (intent : TradeIntent) (now : Int) (s : AttemptLog)
    (r : Execution × List Output) : Prop where
  same : r.1.intent = intent
  accepts : Accepts next (Allows intent) s (r.2.map (now, ·))
  tracks : Tracks r.1 ((r.2.map (now, ·)).foldl next s)
  /-- It waits for a bundle exactly when it hands an entry to one. -/
  handed : (bundleEntries r.2).map (·.2.signedTx) = waitingTx r.1.running

/-- The attempt under way has no result yet. -/
structure Open (x : Execution) (s : AttemptLog) : Prop where
  attempts : s.attempts = x.attempt
  positive : 0 < x.attempt
  result : s.result = none

namespace Execution

variable {opts : ExecutorOpts} {x : Execution} {s : AttemptLog} {now : Int}

/-- A step that only goes on to wait. -/
theorem follows_await {next : Running} (hx : Open x s) (hfits : Fits s next)
    (hnext : waitingTx next = []) : Follows x.intent now s (x.await next, []) :=
  ⟨rfl, trivial, ⟨hx.attempts, hx.positive, hfits⟩, hnext.symm⟩

theorem follows_fail (hx : Open x s) (message : String) :
    Follows x.intent now s (x.fail message) :=
  ⟨rfl, trivial, ⟨hx.attempts, hx.positive, trivial⟩, rfl⟩

theorem follows_conclude (hx : Open x s) (r : ExecutionResult)
    (hr : TimelyResult x.intent now r) : Follows x.intent now s (x.conclude r) := by
  unfold conclude
  split
  · exact ⟨rfl, ⟨⟨hx.result, hr⟩, trivial⟩, ⟨hx.attempts, hx.positive, rfl⟩, rfl⟩
  · rename_i hnot
    rw [not_or, not_not, Bool.not_eq_true] at hnot
    have hattempts := hx.attempts
    refine ⟨rfl, ⟨⟨hx.result, hr⟩, ⟨?_, ?_, .inr ⟨r, rfl, hnot.1⟩⟩, trivial⟩, ?_, rfl⟩
    · exact congrArg (· + 1) hattempts.symm
    · push_cast
      omega
    · exact ⟨rfl, Nat.succ_pos _, rfl, rfl⟩

theorem follows_rejected (hx : Open x s) (submitterUsed : Option String)
    (code message : String) :
    Follows x.intent now s (x.conclude (rejected x.intent submitterUsed code message)) :=
  follows_conclude hx _ trivial

theorem follows_confirm (hx : Open x s) (signature submitterUsed : String) :
    Follows x.intent now s (x.confirm signature submitterUsed now) := by
  unfold confirm
  split
  · rename_i hlt
    exact ⟨rfl, ⟨⟨hx.result, hlt⟩, trivial⟩, ⟨hx.attempts, hx.positive, hx.result⟩, rfl⟩
  · rename_i hge
    exact follows_conclude hx _ (Int.not_lt.1 hge)

theorem follows_trySubmit (hx : Open x s) {tx : List UInt8} (hs : s.current = some tx)
    (first : String) (errors : List String) (subs : List Submitter) :
    Follows x.intent now s (x.trySubmit tx first errors subs) := by
  cases subs with
  | nil => exact follows_rejected hx _ _ _
  | cons current rest =>
      exact ⟨rfl, ⟨⟨hs, hx.result⟩, trivial⟩, ⟨hx.attempts, hx.positive, hs, hx.result⟩,
        rfl⟩

theorem follows_route (hx : Open x s) {tx : List UInt8} (hs : s.current = some tx)
    (tipped : Bool) (env : Readings) :
    Follows x.intent now s (x.route opts tx tipped env) := by
  unfold route
  split
  · exact follows_rejected hx _ _ _
  · split
    · exact ⟨rfl, ⟨⟨hs, hx.result⟩, trivial⟩, ⟨hx.attempts, hx.positive, hs, hx.result⟩,
        rfl⟩
    · exact follows_trySubmit hx hs _ _ _

theorem follows_collect (hx : Open x s) (hs : s.current = none) (handle : WalletRef)
    (tipped : Bool) (prepared : Prepared) (signatures : List (List UInt8))
    (env : Readings) (keys : List PublicKey) :
    Follows x.intent now s (x.collect opts handle tipped prepared signatures env keys) := by
  cases keys with
  | cons key rest =>
      exact ⟨rfl, ⟨⟨hs, hx.result⟩, trivial⟩, ⟨hx.attempts, hx.positive, hs, hx.result⟩,
        rfl⟩
  | nil =>
      simp only [collect]
      split
      · exact follows_rejected hx _ _ _
      · rename_i tx _
        have hopen : Open x (s.next (now, .signed tx)) :=
          ⟨hx.attempts, hx.positive, hx.result⟩
        have hroute : Follows x.intent now (s.next (now, .signed tx))
            (x.route opts tx tipped env) := follows_route hopen rfl tipped env
        have hpos : 0 < s.attempts := by
          rw [hx.attempts]
          exact hx.positive
        exact ⟨hroute.same, ⟨⟨hpos, hs, hx.result⟩, hroute.accepts⟩, hroute.tracks,
          hroute.handed⟩

theorem follows_assemble (hx : Open x s) (hs : s.current = none) (handle : WalletRef)
    (hash : String) (env : Readings) :
    Follows x.intent now s (x.assemble opts handle hash env) := by
  unfold assemble
  split
  · exact follows_fail hx _
  · exact follows_rejected hx _ _ _
  · split
    · exact follows_rejected hx _ _ _
    · exact follows_collect hx hs _ _ _ _ _ _

theorem follows_status (hx : Open x s) (signature submitterUsed : String)
    (st : Option SignatureStatus) :
    Follows x.intent now s (x.status signature submitterUsed now st) := by
  cases st with
  | none => exact follows_await hx hx.result rfl
  | some st =>
      unfold status
      dsimp only
      split
      · exact follows_await hx hx.result rfl
      · split
        · exact follows_conclude hx _ trivial
        · exact follows_await hx hx.result rfl

/-- A waiting execution has an attempt under way. -/
theorem open_of_tracks (hx : Tracks x s) (hrun : ∀ r, x.running ≠ .settled r) :
    Open x s := by
  refine ⟨hx.attempts, hx.positive, ?_⟩
  have hfits := hx.fits
  cases hr : x.running with
  | settled r => exact absurd hr (hrun r)
  | poll => rw [hr] at hfits; exact hfits
  | logs => rw [hr] at hfits; exact hfits
  | sleep => rw [hr] at hfits; exact hfits
  | _ => rw [hr] at hfits; exact hfits.2

/-- One case for each promise an execution may wait for. -/
theorem settle_follows {reply : Reply} {env : Readings} {r : Execution × List Output}
    (hx : Tracks x s) (h : x.settle opts reply env = some r) :
    Follows x.intent env.now s r ∧ waitingTx x.running = [] := by
  have hfits := hx.fits
  have hopen := open_of_tracks hx
  unfold settle at h
  split at h
  all_goals first | cases h | skip
  all_goals
    rename_i hrun
    rw [hrun] at hfits hopen ⊢
    have hopen := hopen (by simp)
  · exact ⟨follows_rejected hopen _ _ _, rfl⟩
  · split at h
    · cases h
      exact ⟨follows_fail hopen _, rfl⟩
    · cases h
      exact ⟨follows_await hopen hfits rfl, rfl⟩
  · exact ⟨follows_rejected hopen _ _ _, rfl⟩
  · exact ⟨follows_assemble hopen hfits.1 _ _ _, rfl⟩
  · refine ⟨?_, rfl⟩
    unfold signThrew
    split <;> exact follows_rejected hopen _ _ _
  · split at h
    · cases h
      exact ⟨follows_rejected hopen _ _ _, rfl⟩
    · cases h
      exact ⟨follows_collect hopen hfits.1 _ _ _ _ _ _, rfl⟩
  · exact ⟨follows_trySubmit hopen hfits.1 _ _ _, rfl⟩
  · split at h
    · split at h
      · cases h
        exact ⟨follows_trySubmit hopen hfits.1 _ _ _, rfl⟩
      · cases h
        exact ⟨follows_confirm hopen _ _, rfl⟩
    · cases h
      exact ⟨follows_trySubmit hopen hfits.1 _ _ _, rfl⟩
  · exact ⟨follows_fail hopen _, rfl⟩
  · exact ⟨follows_status hopen _ _ _, rfl⟩
  · exact ⟨follows_fail hopen _, rfl⟩
  · exact ⟨follows_conclude hopen _ trivial, rfl⟩
  · exact ⟨follows_confirm hopen _ _, rfl⟩

theorem resume_follows {last : Option String} {env : Readings}
    {r : Execution × List Output} (hx : Tracks x s) (h : x.resume last env = some r) :
    Follows x.intent env.now s r ∧ waitingTx x.running = [] := by
  have hopen := open_of_tracks hx
  unfold resume at h
  split at h
  all_goals cases h
  all_goals
    rename_i hrun
    rw [hrun] at hopen ⊢
    have hopen := hopen (by simp)
  · exact ⟨follows_confirm hopen _ _, rfl⟩
  · exact ⟨follows_rejected hopen _ _ _, rfl⟩
  · exact ⟨follows_rejected hopen _ _ _, rfl⟩

end Execution

end Ap3xSolana.Executor
