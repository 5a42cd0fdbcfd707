import Ap3xSolana.Executor.Executor

/-!
# When the executor asks a signer

An execution calls `signer.sign` when the blockhash is there and the message
compiles, and again after each signature but the last.  `settle_signs` and
`step_signs` say that these are the only calls.
-/

namespace Ap3xSolana.Executor

open Ap3xSolana.Core Ap3xSolana.Lib Ap3xSolana.Tx Ap3xSolana.Tx.Assemble
open Ap3xSolana.Tx.TransactionAssembler

/-- A signer and the message it is called with. -/
abbrev SignerCall := WalletRef × List UInt8

def signerCallOf : Output → Option SignerCall
  | .sign handle messageBytes => some (handle, messageBytes)
  | _ => none

/-- The calls of signers among the outputs. -/
def signerCalls (out : List Output) : List SignerCall := out.filterMap signerCallOf

namespace Execution

/-- The signer that a reply makes the execution call. -/
def signerCalled (opts : ExecutorOpts) (x : Execution) (reply : Reply) : Option SignerCall :=
  match x.running, reply with
  | .blockhash handle, .blockhash hash =>
      match x.withTip opts handle with
      | .ok (some instructions) =>
          match prepare { instructions := instructions
                          payer := handle.address
                          recentBlockhash := hash
                          signers := [handle.address] } with
          | .ok prepared =>
              if prepared.required = [] then none else some (handle, prepared.messageBytes)
          | .error _ => none
      | _ => none
  | .sign handle _ prepared _ key rest, .signature sig =>
      match checkSignature key sig with
      | .ok () => if rest = [] then none else some (handle, prepared.messageBytes)
      | .error _ => none
  | _, _ => none

/-! ## Steps of an execution -/

@[simp] theorem signerCalls_conclude (x : Execution) (r : ExecutionResult) :
    signerCalls (x.conclude r).2 = [] := by
  unfold conclude
  split <;> rfl

@[simp] theorem signerCalls_fail (x : Execution) (message : String) :
    signerCalls (x.fail message).2 = [] := rfl

@[simp] theorem signerCalls_signFailed (x : Execution) (message : String) :
    signerCalls (x.signFailed message).2 = [] := signerCalls_conclude _ _

@[simp] theorem signerCalls_confirm (x : Execution) (signature submitterUsed : String)
    (now : Int) : signerCalls (x.confirm signature submitterUsed now).2 = [] := by
  unfold confirm
  split
  · rfl
  · exact signerCalls_conclude _ _

@[simp] theorem signerCalls_trySubmit (x : Execution) (signedTx : List UInt8)
    (first : String) (errors : List String) (submitters : List Submitter) :
    signerCalls (x.trySubmit signedTx first errors submitters).2 = [] := by
  cases submitters with
  | nil => exact signerCalls_conclude _ _
  | cons current rest => rfl

@[simp] theorem signerCalls_submitFailed (x : Execution) (signedTx : List UInt8)
    (current : Submitter) (rest : List Submitter) (errors : List String)
    (first message : String) :
    signerCalls (x.submitFailed signedTx current rest errors first message).2 = [] :=
  signerCalls_trySubmit _ _ _ _ _

@[simp] theorem signerCalls_route (opts : ExecutorOpts) (x : Execution)
    (signedTx : List UInt8) (tipped : Bool) (env : Readings) :
    signerCalls (x.route opts signedTx tipped env).2 = [] := by
  unfold route
  split
  · exact signerCalls_conclude _ _
  · split
    · rfl
    · exact signerCalls_trySubmit _ _ _ _ _

@[simp] theorem signerCalls_signThrew (x : Execution) (err : ThrownError) :
    signerCalls (x.signThrew err).2 = [] := by
  cases err <;> exact signerCalls_conclude _ _

@[simp] theorem signerCalls_status (x : Execution) (signature submitterUsed : String)
    (now : Int) (s : Option SignatureStatus) :
    signerCalls (x.status signature submitterUsed now s).2 = [] := by
  unfold status
  split
  · rfl
  · split
    · rfl
    · split
      · exact signerCalls_conclude _ _
      · rfl

theorem signerCalls_collect (opts : ExecutorOpts) (x : Execution) (handle : WalletRef)
    (tipped : Bool) (prepared : Prepared) (signatures : List (List UInt8))
    (env : Readings) (keys : List PublicKey) :
    signerCalls (x.collect opts handle tipped prepared signatures env keys).2 =
      if keys = [] then [] else [(handle, prepared.messageBytes)] := by
  cases keys with
  | nil =>
      rw [if_pos rfl]
      unfold collect
      cases finish prepared signatures with
      | error e => exact signerCalls_signFailed x e.message
      | ok signedTx => exact signerCalls_route opts x signedTx tipped env
  | cons key rest => rfl

theorem signerCalls_assemble (opts : ExecutorOpts) (x : Execution) (handle : WalletRef)
    (hash : String) (env : Readings) (hrun : x.running = .blockhash handle) :
    signerCalls (x.assemble opts handle hash env).2 =
      (x.signerCalled opts (.blockhash hash)).toList := by
  unfold assemble signerCalled
  rw [hrun]
  dsimp only
  cases x.withTip opts handle with
  | error e => rfl
  | ok instructions =>
      cases instructions with
      | none => exact signerCalls_conclude _ _
      | some instructions =>
          dsimp only
          cases prepare { instructions := instructions
                          payer := handle.address
                          recentBlockhash := hash
                          signers := [handle.address] } with
          | error e => exact signerCalls_signFailed x e.message
          | ok prepared =>
              dsimp only
              rw [signerCalls_collect]
              split <;> rfl

/-- A step of an execution calls the signer that `signerCalled` names. -/
theorem settle_signs {opts : ExecutorOpts} {x : Execution} {reply : Reply} {env : Readings}
    {r : Execution × List Output} (h : x.settle opts reply env = some r) :
    signerCalls r.2 = (x.signerCalled opts reply).toList := by
  unfold settle at h
  split at h
  all_goals first | cases h | skip
  all_goals rename_i hrun
  case h_4 => exact signerCalls_assemble opts x _ _ env hrun
  all_goals
    unfold signerCalled
    rw [hrun]
  · exact signerCalls_conclude _ _
  · split at h
    · cases h
      exact signerCalls_fail _ _
    · cases h
      rfl
  · exact signerCalls_conclude _ _
  · exact signerCalls_signThrew _ _
  · dsimp only
    split at h
    · rename_i hcheck
      cases h
      rw [hcheck]
      exact signerCalls_signFailed _ _
    · rename_i hcheck
      cases h
      rw [hcheck, signerCalls_collect]
      dsimp only
      split <;> rfl
  · exact signerCalls_submitFailed _ _ _ _ _ _ _
  · split at h
    · split at h
      · cases h
        exact signerCalls_submitFailed _ _ _ _ _ _ _
      · cases h
        exact signerCalls_confirm _ _ _ _
    · cases h
      exact signerCalls_submitFailed _ _ _ _ _ _ _
  · exact signerCalls_fail _ _
  · exact signerCalls_status _ _ _ _ _
  · exact signerCalls_fail _ _
  · exact signerCalls_conclude _ _
  · exact signerCalls_confirm _ _ _ _

theorem resume_signs {x : Execution} {last : Option String} {env : Readings}
    {r : Execution × List Output} (h : x.resume last env = some r) :
    signerCalls r.2 = [] := by
  unfold resume at h
  split at h
  all_goals cases h
  · exact signerCalls_confirm _ _ _ _
  · exact signerCalls_conclude _ _
  · exact signerCalls_conclude _ _

end Execution

/-! ## Steps of the executor -/

/-- The calls of signers in a log, with the execution that made them. -/
def signersOf (events : List Event) : List (Nat × SignerCall) :=
  events.filterMap fun e => (signerCallOf e.output).map (e.exec, ·)

theorem signersOf_append (events es : List Event) :
    signersOf (events ++ es) = signersOf events ++ signersOf es := List.filterMap_append

theorem signersOf_log (time : Int) (exec : Nat) (out : List Output) :
    signersOf (log time exec out) = (signerCalls out).map (exec, ·) := by
  unfold signersOf log signerCalls
  rw [List.filterMap_map, List.map_filterMap]
  rfl

/-- From `st` to `st'` the log grows by events that call the signers `calls`. -/
def Grows (st st' : State) (calls : List (Nat × SignerCall)) : Prop :=
  ∃ es, st'.events = st.events ++ es ∧ signersOf es = calls

theorem Grows.rfl {st : State} : Grows st st [] := ⟨[], (List.append_nil _).symm, Eq.refl _⟩

theorem Grows.of_events {st st' : State} (h : st'.events = st.events) : Grows st st' [] :=
  ⟨[], by rw [h, List.append_nil], Eq.refl _⟩

theorem Grows.trans {st₁ st₂ st₃ : State} {calls calls' : List (Nat × SignerCall)}
    (h : Grows st₁ st₂ calls) (h' : Grows st₂ st₃ calls') :
    Grows st₁ st₃ (calls ++ calls') := by
  obtain ⟨es, hes, rfl⟩ := h
  obtain ⟨es', hes', rfl⟩ := h'
  exact ⟨es ++ es', by rw [hes', hes, List.append_assoc], signersOf_append es es'⟩

theorem signersOf_submitBundle (st : State) (entries : List PendingEntry)
    (current : Submitter) : signersOf (submitBundle st entries current) = [] := by
  refine List.filterMap_eq_nil_iff.2 fun e he => ?_
  obtain ⟨entry, -, he⟩ := List.mem_flatMap.1 he
  obtain rfl := List.mem_singleton.1 he
  rfl

theorem grows_startFlush (opts : ExecutorOpts) (st : State) (unhealthy : List Nat)
    (entries : List PendingEntry) : Grows st (startFlush opts st unhealthy entries) [] := by
  unfold startFlush
  split
  · exact .of_events rfl
  · split
    · exact .of_events rfl
    · exact ⟨_, rfl, signersOf_submitBundle _ _ _⟩

theorem grows_startFlushIf (opts : ExecutorOpts) (st : State) (unhealthy : List Nat)
    (batch : Option (List PendingEntry)) :
    Grows st (startFlushIf opts st unhealthy batch) [] := by
  cases batch with
  | none => exact .rfl
  | some entries => exact grows_startFlush opts st unhealthy entries

theorem grows_addBundles (opts : ExecutorOpts) (st : State) (exec : Nat)
    (unhealthy : List Nat) (out : List Output) :
    Grows st (addBundles opts st exec unhealthy out) [] := by
  induction out generalizing st with
  | nil => exact .rfl
  | cons o out ih =>
      have hhead : Grows st (addBundles opts st exec unhealthy [o]) [] := by
        cases o with
        | addToBundle group entry => exact grows_startFlushIf opts _ unhealthy _
        | _ => exact .rfl
      exact hhead.trans (ih _)

theorem grows_putExecution (opts : ExecutorOpts) (st : State) (exec : Nat)
    (unhealthy : List Nat) (r : Execution × List Output) :
    Grows st (putExecution opts st exec unhealthy r)
      ((signerCalls r.2).map (exec, ·)) := by
  have hlog : Grows st { st with
      executions := st.executions.set exec r.1
      events := st.events ++ log st.now exec r.2 } ((signerCalls r.2).map (exec, ·)) :=
    ⟨_, rfl, signersOf_log _ _ _⟩
  have hput := hlog.trans (grows_addBundles opts _ exec unhealthy r.2)
  rwa [List.append_nil] at hput

theorem grows_flushed {st st' : State} {f : Nat} {outcome : Except String Unit}
    (h : flushedStep st f outcome = some st') : Grows st st' [] := by
  unfold flushedStep at h
  split at h
  · cases h
    unfold flushDone
    split <;> exact .of_events rfl
  · cases h
    unfold flushThrew
    dsimp only
    split
    · exact .of_events rfl
    · exact ⟨_, rfl, signersOf_submitBundle _ _ _⟩
  · cases h

theorem grows_submit (opts : ExecutorOpts) (st : State) (intent : TradeIntent)
    (unhealthy : List Nat) : Grows st (submit opts st intent unhealthy) [] := by
  unfold submit
  split
  · exact .of_events rfl
  · split
    · exact .rfl
    · exact ⟨_, rfl, signersOf_log _ _ _⟩

/-- The execution and the signer that an action makes it call. -/
def signerCalled (opts : ExecutorOpts) (st : State) (a : Action) :
    Option (Nat × SignerCall) :=
  match a.kind with
  | .settle exec reply =>
      (st.executions[exec]?).bind fun x => (x.signerCalled opts reply).map (exec, ·)
  | _ => none

/-- A step of the executor calls the signer that `signerCalled` names. -/
theorem step_signs {opts : ExecutorOpts} {st st' : State} {a : Action}
    (h : step opts st a = some st') : Grows st st' (signerCalled opts st a).toList := by
  unfold step at h
  split at h
  swap
  · cases h
  unfold stepAt at h
  unfold signerCalled
  cases hkind : a.kind with
  | submit intent =>
      rw [hkind] at h
      cases h
      exact grows_submit opts _ intent _
  | settle exec reply =>
      rw [hkind] at h
      dsimp only [settleStep] at h ⊢
      cases hx : st.executions[exec]? with
      | none => simp [hx] at h
      | some x =>
          simp only [hx] at h
          obtain ⟨r, hr, rfl⟩ := Option.map_eq_some_iff.1 h
          have hput := grows_putExecution opts { st with now := a.env.now } exec
            a.env.unhealthy r
          rw [Execution.settle_signs hr, ← Option.toList_map] at hput
          exact hput
  | timer timer =>
      rw [hkind] at h
      obtain ⟨⟨bundles, batch⟩, -, rfl⟩ := Option.map_eq_some_iff.1 h
      exact grows_startFlushIf opts { st with bundles := bundles, now := a.env.now } _ batch
  | flushed f outcome =>
      rw [hkind] at h
      have hflushed : Grows { st with now := a.env.now } st' [] := grows_flushed h
      exact hflushed
  | resume exec =>
      rw [hkind] at h
      dsimp only [resumeStep] at h
      split at h
      · cases h
      · obtain ⟨r, hr, rfl⟩ := Option.map_eq_some_iff.1 h
        have hput := grows_putExecution opts { st with now := a.env.now } exec
          a.env.unhealthy r
        rw [Execution.resume_signs hr] at hput
        exact hput
  | release exec =>
      rw [hkind] at h
      dsimp only [release] at h
      split at h
      · split at h
        · split at h
          · cases h
            exact .of_events rfl
          · cases h
        · cases h
      · cases h
  | land exec tx =>
      rw [hkind] at h
      dsimp only at h
      split at h
      · cases h
        exact ⟨_, rfl, signersOf_log _ _ _⟩
      · cases h

end Ap3xSolana.Executor
