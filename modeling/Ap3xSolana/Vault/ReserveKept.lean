import Ap3xSolana.Lib.Monitor
import Ap3xSolana.Vault.Vault

/-!
# The reserve, in one vault

A signature with the key of a wallet that has a reserve has to follow a successful
check of its transaction, in the same call.  `step_kept` says which steps break
this: those that sign without a check (`skipsGuard`).
-/

namespace Ap3xSolana.Vault

open Ap3xSolana.Lib Ap3xSolana.Lib.Monitor Ap3xSolana.Vault.ReserveGuard

/-- The key of a wallet in the storage whose role has a reserve. -/
def Reserved (opts : VaultOptions) (key : Seed) : Prop :=
  ∃ name passphrase record, openRecord opts name passphrase = .ok (record, key.bytes) ∧
    (opts.solReserveByRole record.role).isSome

/-- What may follow the events seen so far. -/
def Guarded (opts : VaultOptions) (seen : List Event) : Event → Prop
  | .checkSpend .. => True
  | .signed call key message =>
      Reserved opts key →
        ∃ tx, WalletHandle.messageOf tx = message ∧ .checkSpend call tx .ok ∈ seen

/-- Every signature with a reserved key was checked before, in its own call. -/
def ReserveKept (opts : VaultOptions) (events : List Event) : Prop :=
  Accepts (fun seen e => seen ++ [e]) (Guarded opts) [] events

/-- The key with which an action signs without a check: `sign` has none, and
`signTransaction` has none for a role without a reserve. -/
def skipsGuard (opts : VaultOptions) (v : State) : Action → Option Seed
  | .sign ref _ => (v.handles[ref]?).bind (·.secretKey)
  | .signTransaction ref tx =>
      match v.handles[ref]? with
      | some h =>
          if opts.solReserveByRole h.role = none ∧ 66 ≤ tx.length ∧ tx[0]? = some 1 then
            h.secretKey
          else none
      | none => none
  | _ => none

def Event.call : Event → Nat
  | .checkSpend call _ _ => call
  | .signed call _ _ => call

/-- Events belong to calls, and each handle has the reserve of its role. -/
structure Sound (opts : VaultOptions) (v : State) : Prop where
  calls : ∀ e ∈ v.events, e.call < v.calls.length
  roles : ∀ h ∈ v.handles, h.reserve.reserveLamports = opts.solReserveByRole h.role

theorem sound_init (opts : VaultOptions) : Sound opts {} :=
  ⟨fun _ h => absurd h List.not_mem_nil, fun _ h => absurd h List.not_mem_nil⟩

/-! ## Events -/

theorem foldl_seen (seen events : List Event) :
    events.foldl (fun seen e => seen ++ [e]) seen = seen ++ events := by
  induction events generalizing seen with
  | nil => exact (List.append_nil _).symm
  | cons e events ih => rw [List.foldl_cons, ih, List.append_assoc, List.singleton_append]

theorem reserveKept_append {opts : VaultOptions} {events es : List Event} :
    ReserveKept opts (events ++ es) ↔ ReserveKept opts events ∧
      Accepts (fun seen e => seen ++ [e]) (Guarded opts) events es := by
  unfold ReserveKept
  rw [accepts_append, foldl_seen, List.nil_append]

/-- A signature in a call that has checked nothing. -/
theorem reserveKept_signed {opts : VaultOptions} {events : List Event} {call : Nat}
    {key : Seed} {message : List UInt8} (hkept : ReserveKept opts events)
    (hcall : ∀ e ∈ events, e.call < call) :
    ReserveKept opts (events ++ [.signed call key message]) ↔ ¬ Reserved opts key := by
  have hnone : ∀ tx, Event.checkSpend call tx .ok ∉ events := fun tx hmem =>
    Nat.lt_irrefl _ (hcall _ hmem)
  simp only [reserveKept_append, hkept, accepts_cons, accepts_nil, Guarded, hnone, and_false,
    exists_false, and_true, true_and]

/-- A signature right after a successful check of its transaction. -/
theorem reserveKept_checked {opts : VaultOptions} {events : List Event} {call : Nat}
    {key : Seed} {tx : List UInt8} (hkept : ReserveKept opts events) :
    ReserveKept opts (events ++ [.checkSpend call tx .ok] ++
      [.signed call key (WalletHandle.messageOf tx)]) := by
  rw [reserveKept_append, reserveKept_append]
  refine ⟨⟨hkept, trivial, trivial⟩, fun _ => ⟨tx, rfl, ?_⟩, trivial⟩
  exact List.mem_append_right _ List.mem_cons_self

/-! ## Steps -/

/-- From `v` to `v'` at most `key` signs, without a check. -/
structure Moves (opts : VaultOptions) (v v' : State) (key : Option Seed) : Prop where
  sound : Sound opts v'
  kept : ReserveKept opts v.events →
    (ReserveKept opts v'.events ↔ ∀ k ∈ key, ¬ Reserved opts k)

theorem moves_unsigned {opts : VaultOptions} {v v' : State} (h : Sound opts v)
    (hevents : v'.events = v.events) (hcalls : v.calls.length ≤ v'.calls.length)
    (hroles : ∀ h ∈ v'.handles, h.reserve.reserveLamports = opts.solReserveByRole h.role) :
    Moves opts v v' none where
  sound := ⟨fun e he => (h.calls e (hevents ▸ he)).trans_le hcalls, hroles⟩
  kept hkept := by
    rw [hevents]
    simp [hkept]

theorem Sound.begin {opts : VaultOptions} {v : State} (h : Sound opts v) (call : Call) :
    Sound opts (begin v call) :=
  ⟨fun e he => (h.calls e he).trans_le (by simp [Vault.begin]), h.roles⟩

theorem moves_begin {opts : VaultOptions} {v : State} (h : Sound opts v) (call : Call) :
    Moves opts v (begin v call) none :=
  moves_unsigned h rfl (by simp [Vault.begin]) h.roles

theorem moves_settle {opts : VaultOptions} {v : State} (h : Sound opts v) (call : Nat)
    (result : Except VaultError Resolved) : Moves opts v (settle v call result) none :=
  moves_unsigned h rfl (by simp [settle]) h.roles

theorem moves_lockHandle {opts : VaultOptions} {v : State} (h : Sound opts v) (ref : Nat) :
    Moves opts v (lockHandle v ref) none := by
  refine moves_unsigned h rfl (Nat.le_refl _) fun hd hmem => ?_
  obtain ⟨i, hi⟩ := List.mem_iff_getElem?.1 hmem
  simp only [lockHandle, List.getElem?_modify] at hi
  obtain ⟨hd₀, hd₀mem, rfl⟩ := Option.map_eq_some_iff.1 hi
  have hrole := h.roles hd₀ (List.mem_of_getElem? hd₀mem)
  split
  · exact hrole
  · exact hrole

/-- Unlocking gives a handle the reserve of its role. -/
theorem newHandle_reserve {opts : VaultOptions} {record : EncryptedRecord}
    {secretKey : List UInt8} {options : UnlockOptions} {h : WalletHandle}
    (hnew : newHandle opts record secretKey options = .ok h) :
    h.reserve.reserveLamports = opts.solReserveByRole h.role ∧
      (h.reserve.reserveLamports.isSome → h.reserve.getBalance ∧ h.reserve.estimateDelta) := by
  unfold newHandle at hnew
  split at hnew
  · cases hnew
  · dsimp only at hnew
    split at hnew
    · cases hnew
    · rename_i hhooks
      unfold WalletHandle.create at hnew
      split at hnew
      · cases hnew
        exact ⟨rfl, fun hsome => not_not.1 fun hnot => hhooks ⟨hsome, hnot⟩⟩
      · cases hnew

theorem lockExisting_eq (v : State) (name : String) :
    lockExisting v name = v ∨ ∃ ref, lockExisting v name = lockHandle v ref := by
  unfold lockExisting
  split
  · exact .inr ⟨_, rfl⟩
  · exact .inl rfl

theorem moves_opened {opts : VaultOptions} {v : State} (h : Sound opts v) (call : Nat)
    (name passphrase : String) (options : UnlockOptions) (failure : Option String) :
    Moves opts v (opened opts v call name passphrase options failure) none := by
  unfold opened
  split
  · exact moves_settle h call _
  · split
    · exact moves_settle h call _
    · rename_i record secretKey _
      dsimp only
      -- locking the first handle is all that a failure leaves behind
      obtain ⟨hevents, hcalls, hroles⟩ :
          (lockExisting v name).events = v.events ∧
            (lockExisting v name).calls = v.calls ∧
            ∀ h ∈ (lockExisting v name).handles,
              h.reserve.reserveLamports = opts.solReserveByRole h.role := by
        rcases lockExisting_eq v name with heq | ⟨ref, heq⟩
        · rw [heq]
          exact ⟨rfl, rfl, h.roles⟩
        · rw [heq]
          exact ⟨rfl, rfl, (moves_lockHandle h ref).sound.roles⟩
      split
      · exact moves_unsigned h hevents (by simp [settle, hcalls]) hroles
      · rename_i hd hnew
        refine moves_unsigned h hevents (by simp [hcalls]) fun hd' hmem => ?_
        rcases List.mem_append.1 hmem with hmem | hmem
        · exact hroles hd' hmem
        · obtain rfl := List.mem_singleton.1 hmem
          exact (newHandle_reserve hnew).1

theorem moves_lock {opts : VaultOptions} {v : State} (h : Sound opts v) (name : String) :
    Moves opts v (lock v name) none := by
  unfold lock
  split
  · exact moves_unsigned h rfl (Nat.le_refl _) (moves_lockHandle h _).sound.roles
  · exact moves_unsigned h rfl (Nat.le_refl _) h.roles

theorem moves_lockAll {opts : VaultOptions} {v : State} (h : Sound opts v) :
    Moves opts v (lockAll v) none := by
  have hall : ∀ refs : List Nat, ∀ w, Sound opts w →
      (refs.foldl lockHandle w).events = w.events ∧
        (refs.foldl lockHandle w).calls = w.calls ∧ Sound opts (refs.foldl lockHandle w) := by
    intro refs
    induction refs with
    | nil => exact fun w hw => ⟨rfl, rfl, hw⟩
    | cons ref refs ih => exact fun w hw => ih _ (moves_lockHandle hw ref).sound
  obtain ⟨hevents, hcalls, hsound⟩ := hall v.unlocked.values v h
  exact moves_unsigned h hevents (Nat.le_of_eq (congrArg List.length hcalls.symm)) hsound.roles

/-- A signature in a new call, which has checked nothing. -/
theorem moves_signed {opts : VaultOptions} {v v' : State} (h : Sound opts v) (key : Seed)
    (message : List UInt8)
    (hevents : v'.events = v.events ++ [.signed v.calls.length key message])
    (hcalls : v'.calls.length = v.calls.length + 1) (hhandles : v'.handles = v.handles) :
    Moves opts v v' (some key) where
  sound := by
    refine ⟨fun e he => ?_, fun hd hmem => h.roles hd (hhandles ▸ hmem)⟩
    rw [hevents, List.mem_append, List.mem_singleton] at he
    rw [hcalls]
    rcases he with he | rfl
    · exact Nat.lt_succ_of_lt (h.calls e he)
    · exact Nat.lt_succ_self _
  kept hkept := by
    rw [hevents, reserveKept_signed hkept h.calls]
    simp

theorem moves_sign {opts : VaultOptions} {v : State} (h : Sound opts v) (hd : WalletHandle)
    (message : List UInt8) : Moves opts v (sign opts v hd message) hd.secretKey := by
  unfold sign WalletHandle.sign
  cases hd.secretKey with
  | none => exact moves_begin h _
  | some key => exact moves_signed h key message rfl (by simp [Vault.begin]) rfl

theorem moves_signTransaction {opts : VaultOptions} {v : State} (h : Sound opts v)
    {ref : Nat} {hd : WalletHandle} (hmem : hd ∈ v.handles) (tx : List UInt8) :
    Moves opts v (signTransaction opts v ref hd tx)
      (if opts.solReserveByRole hd.role = none ∧ 66 ≤ tx.length ∧ tx[0]? = some 1 then
        hd.secretKey
      else none) := by
  have hsigns : ∀ key, hd.signTransaction tx = .ok (.signs key) ↔
      hd.secretKey = some key ∧ opts.solReserveByRole hd.role = none ∧ 66 ≤ tx.length ∧
        tx[0]? = some 1 := by
    intro key
    rw [← h.roles hd hmem]
    exact WalletHandle.signTransaction_eq_signs
  have hnone : (∀ key, hd.signTransaction tx ≠ .ok (.signs key)) →
      (if opts.solReserveByRole hd.role = none ∧ 66 ≤ tx.length ∧ tx[0]? = some 1 then
        hd.secretKey
      else none) = none := by
    intro hne
    split
    · rename_i hcond
      cases hkey : hd.secretKey with
      | none => rfl
      | some key => exact absurd ((hsigns key).2 ⟨hkey, hcond⟩) (hne key)
    · rfl
  unfold signTransaction
  cases hstart : hd.signTransaction tx with
  | error e =>
      rw [hnone fun key heq => by simp [hstart] at heq]
      exact moves_begin h _
  | ok start =>
      cases start with
      | signs key =>
          obtain ⟨hkey, hcond⟩ := (hsigns key).1 hstart
          rw [if_pos hcond, hkey]
          exact moves_signed h key (WalletHandle.messageOf tx) rfl
            (by simp [emit, Vault.begin]) rfl
      | awaitsBalance reserveLamports =>
          rw [hnone fun key heq => by simp [hstart] at heq]
          exact moves_begin h _

/-- Once the balance is there, nothing is signed before the check has passed. -/
theorem moves_balanceArrived {opts : VaultOptions} {v : State} (h : Sound opts v)
    {call : Nat} (hcall : call < v.calls.length) (hd : WalletHandle) (tx : List UInt8)
    (reserveLamports : Int) (balance delta : Except String Int) :
    Moves opts v (balanceArrived opts v call hd tx reserveLamports balance delta) none := by
  unfold balanceArrived
  split
  · exact moves_settle h call _
  · exact moves_settle h call _
  · dsimp only
    split
    · refine ⟨⟨fun e he => ?_, h.roles⟩, fun hkept => ?_⟩
      · simp only [settle, List.length_set, List.mem_append, List.mem_singleton] at he ⊢
        rcases he with he | rfl
        · exact h.calls e he
        · exact hcall
      · simp only [settle, reserveKept_append]
        simp [hkept, accepts_cons, Guarded]
    · rename_i hok
      refine ⟨⟨fun e he => ?_, h.roles⟩, fun hkept => ?_⟩
      · simp only [emit, List.length_set, List.mem_append, List.mem_singleton] at he ⊢
        rcases he with (he | rfl) | rfl
        · exact h.calls e he
        · exact hcall
        · exact hcall
      · simp only [emit, hok, Option.mem_def, reduceCtorEq, false_implies, implies_true,
          iff_true]
        exact reserveKept_checked hkept

/-- What a step signs without a check is what `skipsGuard` names. -/
theorem step_moves {opts : VaultOptions} {v v' : State} {a : Action} (h : Sound opts v)
    (hstep : step opts v a = some v') : Moves opts v v' (skipsGuard opts v a) := by
  cases a with
  | unlock name passphrase options =>
      cases hstep
      exact moves_begin h _
  | opened call failure =>
      simp only [step] at hstep
      split at hstep
      · cases hstep
        exact moves_opened h call _ _ _ failure
      · cases hstep
  | lock name =>
      cases hstep
      exact moves_lock h name
  | lockAll =>
      cases hstep
      exact moves_lockAll h
  | sign ref message =>
      obtain ⟨hd, hhd, rfl⟩ := Option.map_eq_some_iff.1 hstep
      simp only [skipsGuard, hhd, Option.bind_some]
      exact moves_sign h hd message
  | signTransaction ref tx =>
      obtain ⟨hd, hhd, rfl⟩ := Option.map_eq_some_iff.1 hstep
      simp only [skipsGuard, hhd]
      exact moves_signTransaction h (List.mem_of_getElem? hhd) tx
  | balance call balance delta =>
      simp only [step] at hstep
      split at hstep
      · rename_i hcall
        obtain ⟨hd, -, rfl⟩ := Option.map_eq_some_iff.1 hstep
        exact moves_balanceArrived h (List.getElem?_eq_some_iff.1 hcall).1 hd _ _ _ _
      · cases hstep
  | audited call outcome =>
      simp only [step] at hstep
      split at hstep
      · cases hstep
        cases outcome <;> exact moves_settle h call _
      · cases hstep
        cases outcome <;> exact moves_settle h call _
      · cases hstep

end Ap3xSolana.Vault
