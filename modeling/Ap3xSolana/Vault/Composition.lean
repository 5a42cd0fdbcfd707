import Ap3xSolana.Executor.Signers
import Ap3xSolana.Vault.ReserveKept

/-!
# A vault and the executor that signs with its handles

The executor's signers are the handles of the vault: what `resolveWallet` gives is
one of them, and the call of `signer.sign` in `assemble` is a call of
`WalletHandle.sign`.  That method has no reserve to look at, so an intent is signed
whatever it spends (`reserveKept_iff`).
-/

namespace Ap3xSolana.Vault.Composition

open Ap3xSolana.Core Ap3xSolana.Lib Ap3xSolana.Lib.Monitor Ap3xSolana.Lib.Run Ap3xSolana.Vault
open Ap3xSolana.Executor (ExecutorOpts Reply ThrownError TradeIntent WalletRef)

structure State where
  vault : Vault.State := {}
  executor : Executor.State := {}
  /-- The call of `sign` that an execution awaits. -/
  signing : OrderedMap Nat Nat := .empty

/-- Direct calls of `sign` are for off-chain messages; they are not among the
actions. -/
inductive Action where
  | vault (a : Vault.Action)
  | executor (a : Executor.Action)

/-- The executor tells a reserve breach from every other error. -/
def thrown : VaultError → ThrownError
  | .walletReserveBreach role projectedBalance reserveLamports =>
      .reserveBreach
        (VaultError.walletReserveBreach role projectedBalance reserveLamports).message
  | e => .other e.message

/-- What the awaited call of `sign` has resolved to. -/
def answer (st : State) (exec : Nat) : Option Reply :=
  match (st.signing.get? exec).bind (st.vault.calls[·]?) with
  | some (.settled (.ok (.bytes sig))) => some (.signature sig)
  | some (.settled (.error e)) => some (.threw (thrown e))
  | _ => none

/-- The wallets that an execution gets are handles of the vault, and the signatures
are what their `sign` resolved to. -/
def supplied (st : State) (exec : Nat) (reply : Reply) : Option Reply :=
  match (st.executor.executions[exec]?).map Executor.Execution.running, reply with
  | some .wallet, .wallet w =>
      if (st.vault.handles[w.ref]?).map WalletHandle.address = some w.address then
        some reply
      else none
  | some (.sign ..), _ => answer st exec
  | _, _ => some reply

/-- The action with what the vault supplies in it. -/
def withSupplied (st : State) (a : Executor.Action) : Option Executor.Action :=
  match a.kind with
  | .settle exec reply =>
      (supplied st exec reply).map fun reply => { a with kind := .settle exec reply }
  | _ => some a

/-- `signer.sign(messageBytes)`. -/
def callSigner (opts : VaultOptions) (st : State) (c : Nat × Executor.SignerCall) :
    Option State :=
  (st.vault.handles[c.2.1.ref]?).map fun h =>
    { st with
      vault := Vault.sign opts st.vault h c.2.2
      signing := st.signing.set c.1 st.vault.calls.length }

def executorStep (opts : VaultOptions) (execOpts : ExecutorOpts) (st : State)
    (a : Executor.Action) : Option State :=
  match withSupplied st a with
  | none => none
  | some a =>
      match Executor.step execOpts st.executor a with
      | none => none
      | some executor =>
          let events := executor.events.drop st.executor.events.length
          (Executor.signersOf events).foldlM (callSigner opts) { st with executor := executor }

def step (opts : VaultOptions) (execOpts : ExecutorOpts) (st : State) :
    Action → Option State
  | .vault (.sign ..) => none
  | .vault a => (Vault.step opts st.vault a).map fun vault => { st with vault := vault }
  | .executor a => executorStep opts execOpts st a

/-! ## The reserve -/

/-- The key with which an action signs without a check: the execution calls
`signer.sign` on an unlocked handle, or the wallet's role has no reserve. -/
def skipsGuard (opts : VaultOptions) (execOpts : ExecutorOpts) (st : State) :
    Action → Option Seed
  | .vault a => Vault.skipsGuard opts st.vault a
  | .executor a =>
      match (withSupplied st a).bind (Executor.signerCalled execOpts st.executor) with
      | some (_, w, _) => (st.vault.handles[w.ref]?).bind (·.secretKey)
      | none => none

/-- No action signs without a check with the key of a wallet that has a reserve. -/
def GuardNotSkipped (opts : VaultOptions) (execOpts : ExecutorOpts) (st : State)
    (a : Action) (_ : State) : Prop :=
  ∀ key ∈ skipsGuard opts execOpts st a, ¬ Reserved opts key

theorem executorStep_moves {opts : VaultOptions} {execOpts : ExecutorOpts}
    {st st' : State} {a : Executor.Action} (h : Sound opts st.vault)
    (hstep : executorStep opts execOpts st a = some st') :
    Moves opts st.vault st'.vault (skipsGuard opts execOpts st (.executor a)) := by
  unfold executorStep at hstep
  unfold skipsGuard
  cases hsupplied : withSupplied st a with
  | none => simp [hsupplied] at hstep
  | some b =>
      simp only [hsupplied] at hstep
      cases hexec : Executor.step execOpts st.executor b with
      | none => simp [hexec] at hstep
      | some executor =>
          simp only [hexec] at hstep
          obtain ⟨es, hes, hcalls⟩ := Executor.step_signs hexec
          rw [hes, List.drop_left, hcalls] at hstep
          dsimp only
          rw [hsupplied, Option.bind_some]
          cases hcalled : Executor.signerCalled execOpts st.executor b with
          | none =>
              simp only [hcalled, Option.toList_none, List.foldlM_nil] at hstep
              cases hstep
              exact moves_unsigned h rfl (Nat.le_refl _) h.roles
          | some c =>
              simp only [hcalled, Option.toList_some, List.foldlM_cons, List.foldlM_nil]
                at hstep
              obtain ⟨st₁, hst₁, hst'⟩ := Option.bind_eq_some_iff.1 hstep
              cases hst'
              obtain ⟨hd, hhd, rfl⟩ := Option.map_eq_some_iff.1 hst₁
              dsimp only at hhd ⊢
              rw [hhd]
              exact moves_sign h hd c.2.2

theorem step_moves {opts : VaultOptions} {execOpts : ExecutorOpts} {st st' : State}
    {a : Action} (h : Sound opts st.vault) (hstep : step opts execOpts st a = some st') :
    Moves opts st.vault st'.vault (skipsGuard opts execOpts st a) := by
  cases a with
  | executor a => exact executorStep_moves h hstep
  | vault a =>
      unfold step at hstep
      split at hstep
      · cases hstep
      · rename_i heq
        cases heq
        obtain ⟨v, hv, rfl⟩ := Option.map_eq_some_iff.1 hstep
        exact Vault.step_moves h hv
      · rename_i heq
        cases heq

/-- The reserve holds in exactly those runs in which nothing signs without a check
with the key of a wallet that has a reserve. -/
theorem reserveKept_iff (opts : VaultOptions) (execOpts : ExecutorOpts)
    (acts : List Action) :
    Along (step opts execOpts) (fun _ _ st => ReserveKept opts st.vault.events) {} acts ↔
      Along (step opts execOpts) (GuardNotSkipped opts execOpts) {} acts := by
  refine along_iff_of_inv
    (fun st : State => Sound opts st.vault ∧ ReserveKept opts st.vault.events) ?_ ?_ acts {}
    ⟨sound_init opts, accepts_nil _⟩
  · rintro st a st' ⟨hsound, hkept⟩ hstep
    exact (step_moves hsound hstep).kept hkept
  · rintro st a st' ⟨hsound, hkept⟩ hstep hok
    have hmoves := step_moves hsound hstep
    exact ⟨hmoves.sound, (hmoves.kept hkept).2 hok⟩

/-! ## A signature past the reserve -/

def traderSeed : Seed :=
  ⟨[0x9d, 0x61, 0xb1, 0x9d, 0xef, 0xfd, 0x5a, 0x60, 0xba, 0x84, 0x4a, 0xf4, 0x92, 0xec,
    0x2c, 0xc4, 0x44, 0x49, 0xc5, 0x69, 0x7b, 0x32, 0x69, 0x19, 0x70, 0x3b, 0xac, 0x03,
    0x1c, 0xae, 0x7f, 0x60], rfl⟩

/-- The public key of `traderSeed`. -/
def traderKey : PublicKey :=
  ⟨[0xd7, 0x5a, 0x98, 0x01, 0x82, 0xb1, 0x0a, 0xb7, 0xd5, 0x4b, 0xfe, 0xd3, 0xc9, 0x64,
    0x07, 0x3a, 0x0e, 0xe1, 0x72, 0xf3, 0xda, 0xa6, 0x23, 0x25, 0xaf, 0x02, 0x1a, 0x68,
    0xf7, 0x07, 0x51, 0x1a], rfl⟩

def traderRecord : EncryptedRecord :=
  { role := "trader", address := traderKey.toBase58, salt := List.replicate 16 3,
    opslimit := 3, memlimit := 268435456, nonce := List.replicate 24 4,
    ciphertext := List.replicate 48 5 }

/-- What `signAsync` gives for the message of `drain` and `traderSeed`. -/
def drainSignature : List UInt8 :=
  [0x57, 0x8f, 0x9b, 0x96, 0x82, 0x77, 0x31, 0x71, 0x47, 0x40, 0xaf, 0xdb, 0xaf, 0xb9,
    0xc6, 0x6e, 0x10, 0xf3, 0x7b, 0x93, 0x01, 0x31, 0x32, 0x3b, 0x0b, 0xbf, 0x72, 0x0b,
    0x62, 0x5a, 0x63, 0x01, 0x20, 0x3e, 0x71, 0xc5, 0xfa, 0x6a, 0x0f, 0x80, 0x96, 0xb5,
    0xd1, 0x27, 0x1d, 0x4e, 0xfe, 0xf1, 0x70, 0x15, 0x5f, 0xda, 0x3e, 0x46, 0x11, 0x5f,
    0x3e, 0x8b, 0x93, 0xa2, 0x5a, 0xd7, 0xbc, 0x08]

/-- One wallet, with a reserve of one SOL. -/
def traderVault : VaultOptions where
  storage name := if name = "trader" then some traderRecord else none
  solReserveByRole role := if role = "trader" then some 1000000000 else none
  sodium :=
    { pwhash := fun passphrase _ _ _ =>
        .ok (List.replicate 32 (if passphrase = "Correct-horse-1" then 1 else 2))
      secretboxOpenEasy := fun _ _ key =>
        if key = List.replicate 32 1 then .ok traderSeed.bytes
        else .error "wrong secret key for the given ciphertext"
      ed25519Sign := fun _ _ => drainSignature }

/-- A transfer of five SOL to another wallet. -/
def drain : TradeIntent :=
  { intentId := "drain", wallet := "trader", feeTier := .med, deadline := 60000
    instructions :=
      [{ programId := Tx.SystemTransfer.systemProgramId
         accounts := [{ pubkey := traderKey, isSigner := true, isWritable := true },
           { pubkey := ⟨List.replicate 32 8, List.length_replicate⟩, isSigner := false,
             isWritable := true }]
         data := Tx.SystemTransfer.littleEndian 2 4 ++
           Tx.SystemTransfer.littleEndian 5000000000 8 }] }

def drainTrader : List Action :=
  [.vault (.unlock "trader" "Correct-horse-1" { getBalance := true, estimateDelta := true }),
    .vault (.opened 0 none), .vault (.audited 0 (.ok ()))] ++
  [Executor.ActionKind.submit drain, .settle 0 (.wallet { ref := 0, address := traderKey }),
    .settle 0 (.blockhash (Base58.encode (List.replicate 32 7)))].map
    fun kind => .executor { kind := kind, env := { now := 0 } }

/-- The message that spends below the reserve. -/
def drainMessage : List UInt8 :=
  match Tx.TransactionAssembler.compile
    { instructions := drain.instructions.map Executor.adaptInstruction
      payer := traderKey
      recentBlockhash := Base58.encode (List.replicate 32 7) } with
  | .ok compiled => compiled.messageBytes
  | .error _ => []

/-- The executor has the trader's handle sign, and no check was made. -/
theorem drainTrader_skips_reserve :
    ∃ st, exec (step traderVault { submitters := [] }) {} drainTrader = some st ∧
      ¬ ReserveKept traderVault st.vault.events := by
  obtain ⟨st, hst, hevents⟩ :
      ∃ st, exec (step traderVault { submitters := [] }) {} drainTrader = some st ∧
        st.vault.events = [.signed 1 traderSeed drainMessage] := by
    decide +kernel
  refine ⟨st, hst, fun h => ?_⟩
  rw [hevents] at h
  obtain ⟨tx, -, hmem⟩ := h.1 ⟨"trader", "Correct-horse-1", traderRecord, rfl, rfl⟩
  cases hmem

end Ap3xSolana.Vault.Composition
