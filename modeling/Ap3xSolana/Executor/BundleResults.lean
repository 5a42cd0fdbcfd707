import Ap3xSolana.Executor.Progress
import Ap3xSolana.Executor.WireReadBack

/-!
# The submitter that a bundled intent names

`Named` says what an execution knows of the submitter that accepted the bundle of its
attempt: nothing before the flush, and the name itself from the poll loop on.  In
between it is the shared field that has to hold the name (`Named` of `.bundled`).
`settle_names` and `resume_names` carry this through every step of an execution.
-/

namespace Ap3xSolana.Executor

open Ap3xSolana.Core Ap3xSolana.Lib Ap3xSolana.Lib.Throwing Ap3xSolana.Tx
open Ap3xSolana.Tx.TransactionAssembler Ap3xSolana.Tx.Assemble

/-- `submitterUsed` of a result. -/
def ExecutionResult.submitterUsed : ExecutionResult → Option String
  | .landed _ _ _ submitterUsed _ => some submitterUsed
  | .dropped _ _ submitterUsed _ => some submitterUsed
  | .timeout _ _ submitterUsed => some submitterUsed
  | .reverted _ _ _ submitterUsed _ _ => some submitterUsed
  | .rejected _ submitterUsed _ => submitterUsed

/-! ## Signed transactions carry a signature -/

theorem encodeLoop_head (turns n : Nat) (hn : 0 < n) (hfirst : turns = 0 → n < 256) :
    ∃ b bs, CompactU16.encodeLoop turns n = b :: bs ∧ b ≠ 0 := by
  have hne : ∀ m : Nat, 0 < m → m < 256 → UInt8.ofNat m ≠ 0 := by
    intro m hpos hlt heq
    have hbyte := congrArg UInt8.toNat heq
    rw [UInt8.toNat_ofNat', Nat.mod_eq_of_lt hlt] at hbyte
    have hzero : (0 : UInt8).toNat = 0 := rfl
    omega
  cases turns with
  | zero => exact ⟨_, _, rfl, hne n hn (hfirst rfl)⟩
  | succ turns =>
      unfold CompactU16.encodeLoop
      split
      · refine ⟨_, _, rfl, hne _ (Nat.lt_of_lt_of_le (by decide) Nat.right_le_or) ?_⟩
        exact Nat.or_lt_two_pow (n := 8)
          (Nat.lt_of_le_of_lt Nat.and_le_right (by decide)) (by decide)
      · exact ⟨_, _, rfl, hne n hn (by omega)⟩

/-- A count that is not zero does not start with a zero byte. -/
theorem compactU16_head {n : Nat} {enc : List UInt8} (hn : 0 < n)
    (h : compactU16 n = .ok enc) : ∃ b bs, enc = b :: bs ∧ b ≠ 0 := by
  have henc := ReadBack.encode_of_compactU16 h
  unfold CompactU16.encode at henc
  split at henc
  · cases henc
  · split at henc
    · cases henc
      exact encodeLoop_head 0 n hn (by omega)
    · cases henc
      exact encodeLoop_head 2 n hn (by omega)

theorem transactionSignature_ok_of_wire {signatures : List (List UInt8)}
    {message w : List UInt8} (hsome : signatures ≠ [])
    (hsizes : ∀ sig ∈ signatures, sig.length = 64)
    (h : wire signatures message = .ok w) : ∃ sig, transactionSignature w = .ok sig := by
  obtain ⟨enc, henc, hw⟩ := bind_eq_ok.1 h
  obtain rfl := pure_eq_ok.1 hw
  obtain ⟨b, bs, rfl, hb⟩ := compactU16_head (List.length_pos_of_ne_nil hsome) henc
  unfold transactionSignature
  rw [if_neg]
  · exact ⟨_, rfl⟩
  cases signatures with
  | nil => exact absurd rfl hsome
  | cons sig rest =>
      have hsize := hsizes sig List.mem_cons_self
      rintro (hshort | hzero)
      · simp only [List.length_append, List.length_cons, List.flatten_cons] at hshort
        omega
      · exact hb (Option.some.inj hzero)

/-- The payer has to sign. -/
theorem prepare_required_ne_nil {options : AssemblerOptions} {p : Prepared}
    (h : prepare options = .ok p) : p.required ≠ [] := by
  unfold prepare at h
  dsimp only at h
  split at h
  · cases h
  · obtain ⟨c, hcompile, hrest⟩ := bind_eq_ok.1 h
    split at hrest
    · cases hrest
    · cases hrest
      simp only [compile, bind_eq_ok, pure_eq_ok] at hcompile
      obtain ⟨blockhash, -, message, hser, rfl⟩ := hcompile
      obtain ⟨hpos, hle⟩ := RoundTrip.numRequiredSignatures_pos options.instructions
        options.payer (options.alts.map normaliseAlt)
      intro hnil
      have hlen := congrArg List.length hnil
      rw [List.length_map, List.length_take_of_le hle, List.length_nil] at hlen
      omega

/-! ## What an execution knows -/

/-- The intent goes the bundle path. -/
def Bundled (intent : TradeIntent) : Prop := (bundleGroup intent).isSome = true

instance decidableBundled (intent : TradeIntent) : Decidable (Bundled intent) :=
  inferInstanceAs (Decidable (_ = true))

/-- What an execution knows when `acceptor` is the name of the submitter that accepted
the bundle of its attempt and `last` the shared field. -/
def Named (intent : TradeIntent) (acceptor last : Option String) : Running → Prop
  | .wallet | .blockhash _ => acceptor = none
  | .sign _ _ _ signatures _ _ =>
      acceptor = none ∧ ∀ sig ∈ signatures, sig.length = 64
  | .bundle signedTx _ => acceptor = none ∧ ∃ sig, transactionSignature signedTx = .ok sig
  | .bundled _ _ (.ok _) => acceptor = last ∧ acceptor.isSome
  | .bundled _ _ (.error _) => acceptor = none
  | .submit .. => ¬ Bundled intent
  | .poll _ submitterUsed | .logs _ submitterUsed _ _ | .sleep _ submitterUsed =>
      Bundled intent → acceptor = some submitterUsed
  | .settled _ => True

/-- A step in an attempt whose bundle `acceptor` accepted: every result a bundled intent
ends in names `acceptor`, and the next attempt starts without a bundle. -/
structure Names (acceptor : Option String) (x : Execution)
    (r : Execution × List Output) : Prop where
  intent : r.1.intent = x.intent
  results : ∀ result, .result result ∈ r.2 → Bundled x.intent →
    result.submitterUsed = acceptor
  goesOn : r.1.attempt = x.attempt ∧ (∀ last, Named x.intent acceptor last r.1.running) ∧
      (∀ result, .result result ∈ r.2 → r.1.running.isSettled = true) ∨
    r.1.attempt = x.attempt + 1 ∧ r.1.running = .wallet

namespace Execution

variable {opts : ExecutorOpts} {x : Execution} {acceptor : Option String} {now : Int}

theorem names_await {next : Running} {out : List Output}
    (hnext : ∀ last, Named x.intent acceptor last next)
    (hout : ∀ result, Output.result result ∉ out) :
    Names acceptor x (x.await next, out) where
  intent := rfl
  results result hmem := absurd hmem (hout result)
  goesOn := .inl ⟨rfl, hnext, fun result hmem => absurd hmem (hout result)⟩

theorem names_fail (message : String) : Names acceptor x (x.fail message) where
  intent := rfl
  results _ hmem := absurd hmem List.not_mem_nil
  goesOn := .inl ⟨rfl, fun _ => trivial, fun _ _ => rfl⟩

theorem names_conclude {r : ExecutionResult}
    (hr : Bundled x.intent → r.submitterUsed = acceptor) :
    Names acceptor x (x.conclude r) := by
  unfold conclude
  split
  · refine ⟨rfl, fun result hmem => ?_, .inl ⟨rfl, fun _ => trivial, fun _ _ => rfl⟩⟩
    cases List.mem_singleton.1 hmem
    exact hr
  · refine ⟨rfl, fun result hmem => ?_, .inr ⟨rfl, rfl⟩⟩
    rcases List.mem_cons.1 hmem with heq | hmem
    · cases heq
      exact hr
    · cases List.mem_singleton.1 hmem

theorem names_confirm {signature submitterUsed : String}
    (h : Bundled x.intent → acceptor = some submitterUsed) :
    Names acceptor x (x.confirm signature submitterUsed now) := by
  unfold confirm
  split
  · apply names_await
    · exact fun _ => h
    · intro result hmem
      cases List.mem_singleton.1 hmem
  · exact names_conclude fun hbundled => (h hbundled).symm

/-- No submitter has been called before there is a bundle. -/
theorem names_rejected (code message : String) :
    Names none x (x.conclude (rejected x.intent none code message)) :=
  names_conclude fun _ => rfl

theorem names_trySubmit {signedTx : List UInt8} {first : String} {errors : List String}
    {submitters : List Submitter} (hsingle : ¬ Bundled x.intent) :
    Names acceptor x (x.trySubmit signedTx first errors submitters) := by
  cases submitters with
  | nil => exact names_conclude fun hbundled => absurd hbundled hsingle
  | cons current rest =>
      apply names_await
      · exact fun _ => hsingle
      · intro result hmem
        cases List.mem_singleton.1 hmem

theorem names_route {signedTx : List UInt8} {tipped : Bool} {env : Readings}
    (hsig : ∃ sig, transactionSignature signedTx = .ok sig) :
    Names none x (x.route opts signedTx tipped env) := by
  unfold route
  cases hcandidates : candidates opts env.unhealthy x.intent with
  | nil => exact names_rejected _ _
  | cons submitter rest =>
      cases hgroup : bundleGroup x.intent with
      | none =>
          apply names_trySubmit
          unfold Bundled
          rw [hgroup]
          exact Bool.false_ne_true
      | some group =>
          apply names_await
          · exact fun _ => ⟨rfl, hsig⟩
          · intro result hmem
            cases List.mem_singleton.1 hmem

theorem names_collect {handle : WalletRef} {tipped : Bool} {prepared : Prepared}
    {signatures : List (List UInt8)} {env : Readings} {keys : List PublicKey}
    (hsizes : ∀ sig ∈ signatures, sig.length = 64)
    (hsome : keys = [] → signatures ≠ []) :
    Names none x (x.collect opts handle tipped prepared signatures env keys) := by
  cases keys with
  | cons key rest =>
      apply names_await
      · exact fun _ => ⟨rfl, hsizes⟩
      · intro result hmem
        cases List.mem_singleton.1 hmem
  | nil =>
      unfold collect
      cases hfinish : finish prepared signatures with
      | error e => exact names_rejected _ _
      | ok signedTx =>
          have hroute : Names none x (x.route opts signedTx tipped env) :=
            names_route (transactionSignature_ok_of_wire (hsome rfl) hsizes hfinish)
          have hmem : ∀ result, Output.result result ∈ Output.signed signedTx ::
              (x.route opts signedTx tipped env).2 →
                Output.result result ∈ (x.route opts signedTx tipped env).2 := by
            intro result hmem
            rcases List.mem_cons.1 hmem with heq | hmem
            · cases heq
            · exact hmem
          refine ⟨hroute.intent, fun result h => hroute.results result (hmem result h), ?_⟩
          rcases hroute.goesOn with ⟨hattempt, hnamed, hover⟩ | hretry
          · exact .inl ⟨hattempt, hnamed, fun result h => hover result (hmem result h)⟩
          · exact .inr hretry

theorem names_assemble {handle : WalletRef} {hash : String} {env : Readings} :
    Names none x (x.assemble opts handle hash env) := by
  unfold assemble
  cases x.withTip opts handle with
  | error e => exact names_fail _
  | ok instructions =>
      cases instructions with
      | none => exact names_rejected _ _
      | some instructions =>
          dsimp only
          split
          · exact names_rejected _ _
          · rename_i prepared hprepare
            exact names_collect (List.forall_mem_nil _)
              fun hnil => absurd hnil (prepare_required_ne_nil hprepare)

theorem names_status {signature submitterUsed : String} {s : Option SignatureStatus}
    (h : Bundled x.intent → acceptor = some submitterUsed) :
    Names acceptor x (x.status signature submitterUsed now s) := by
  have hnone : ∀ result, Output.result result ∉ ([] : List Output) :=
    fun _ => List.not_mem_nil
  unfold status
  split
  · exact names_await (fun _ => h) hnone
  · split
    · exact names_await (fun _ => h) hnone
    · split
      · exact names_conclude fun hbundled => (h hbundled).symm
      · exact names_await (fun _ => h) hnone

/-- One case for each promise an execution may wait for. -/
theorem settle_names {reply : Reply} {env : Readings} {r : Execution × List Output}
    {last : Option String} (hx : Named x.intent acceptor last x.running)
    (h : x.settle opts reply env = some r) : Names acceptor x r := by
  unfold settle at h
  split at h
  all_goals first | cases h | skip
  all_goals
    rename_i hrun
    rw [hrun] at hx
  · cases hx
    exact names_rejected _ _
  · cases hx
    split at h
    · cases h
      exact names_fail _
    · cases h
      exact names_await (fun _ => rfl) fun _ => List.not_mem_nil
  · cases hx
    exact names_rejected _ _
  · cases hx
    exact names_assemble
  · obtain ⟨rfl, -⟩ := hx
    unfold signThrew
    split <;> exact names_rejected _ _
  · obtain ⟨rfl, hsizes⟩ := hx
    split at h
    · cases h
      exact names_rejected _ _
    · rename_i sig _ hcheck
      cases h
      apply names_collect
      · intro s hs
        rcases List.mem_append.1 hs with hs | hs
        · exact hsizes s hs
        · rw [List.mem_singleton.1 hs]
          exact checkSignature_ok hcheck
      · exact fun _ => List.append_ne_nil_of_right_ne_nil _ (List.cons_ne_nil _ _)
  · exact names_trySubmit hx
  · split at h
    · split at h
      · cases h
        exact names_trySubmit hx
      · cases h
        exact names_confirm fun hbundled => absurd hbundled hx
    · cases h
      exact names_trySubmit hx
  · exact names_fail _
  · exact names_status hx
  · exact names_fail _
  · exact names_conclude fun hbundled => (hx hbundled).symm
  · exact names_confirm hx

/-- The field has to hold the name when the execution goes on. -/
theorem resume_names {env : Readings} {r : Execution × List Output} {last : Option String}
    (hx : Named x.intent acceptor last x.running) (h : x.resume last env = some r) :
    Names acceptor x r := by
  unfold resume at h
  split at h
  all_goals cases h
  all_goals
    rename_i hrun
    rw [hrun] at hx
  · obtain ⟨rfl, hsome⟩ := hx
    apply names_confirm
    obtain ⟨name, rfl⟩ := Option.isSome_iff_exists.1 hsome
    exact fun _ => rfl
  · cases hx
    exact names_rejected _ _
  · cases hx
    exact names_rejected _ _

end Execution

end Ap3xSolana.Executor
