import Ap3xSolana.Vault.OneHandle

/-!
# An unlock that fails

`unlock` on its own, with the plaintext buffers that it makes: `decrypt` returns one, and the
code zeroes it where it refuses a reserved role and after the handle has its copy.

The previous handle is locked before the address, the hooks and the key are checked, and the
new one is in the map before the audit entry is written.
-/

namespace Ap3xSolana.Vault.FailedUnlock

open Ap3xSolana.Core Ap3xSolana.Lib Ap3xSolana.Lib.Run

/-- What `fill(0)` leaves. -/
def zeroed (buffer : List UInt8) : List UInt8 := List.replicate buffer.length 0

/-- The vault after the call, the plaintext buffers as the call leaves them, and how it
settled. -/
structure Outcome where
  vault : State
  buffers : List (List UInt8) := []
  result : Except VaultError Nat

/-- The environment of a call: `storage.read` may fail, and so may the audit entry. -/
structure Environment where
  readFailure : Option String := none
  audit : Except String Unit := .ok ()

/-- The handle is made and in the map; its audit entry is awaited. -/
def finish (v : State) (name : String) (h : WalletHandle) (secretKey : List UInt8)
    (audit : Except String Unit) : Outcome where
  vault :=
    { v with
      handles := v.handles ++ [h]
      unlocked := v.unlocked.set name v.handles.length }
  buffers := [zeroed secretKey]
  result :=
    match audit with
    | .ok () => .ok v.handles.length
    | .error message => .error (.other message)

def unlock (opts : VaultOptions) (env : Environment) (v : State) (name passphrase : String)
    (options : UnlockOptions) : Outcome :=
  match env.readFailure with
  | some message => { vault := v, result := .error (.other message) }
  | none =>
      match openRecord opts name passphrase with
      | .error e => { vault := v, result := .error e }
      | .ok (record, secretKey) =>
          let v := lockExisting v name
          match PublicKey.fromBase58 record.address with
          | .error e => { vault := v, buffers := [secretKey], result := .error (.address e) }
          | .ok address =>
              let reserveLamports := opts.solReserveByRole record.role
              if reserveLamports.isSome ∧ ¬ (options.getBalance ∧ options.estimateDelta) then
                { vault := v
                  buffers := [zeroed secretKey]
                  result := .error (.reserveNeedsHooks record.role) }
              else
                match WalletHandle.create record.role address secretKey
                    { reserveLamports := reserveLamports, getBalance := options.getBalance,
                      estimateDelta := options.estimateDelta } with
                | .error e => { vault := v, buffers := [secretKey], result := .error e }
                | .ok h => finish v name h secretKey env.audit

/-! ## The call of the machine -/

theorem begin_get (v : State) (call : Call) : (begin v call).calls[v.calls.length]? = some call :=
  List.getElem?_concat_length

theorem lockExisting_begin (v : State) (call : Call) (name : String) :
    lockExisting (begin v call) name = begin (lockExisting v name) call := by
  have hmap : (begin v call).unlocked = v.unlocked := rfl
  unfold lockExisting
  rw [hmap]
  cases v.unlocked.get? name <;> rfl

theorem lockExisting_calls (v : State) (name : String) :
    (lockExisting v name).calls = v.calls := by
  unfold lockExisting
  split <;> rfl

/-- What follows the key of the call: it rejects on the spot, or the handle is in the map. -/
theorem opened_cases (opts : VaultOptions) (env : Environment) (v : State)
    (name passphrase : String) (options : UnlockOptions) (call : Call) (c : Nat) :
    (∃ e w, opened opts (begin v call) c name passphrase options env.readFailure =
        settle (begin w call) c (.error e) ∧ w.calls = v.calls ∧
      unlock opts env v name passphrase options =
        { vault := w
          buffers := (unlock opts env v name passphrase options).buffers
          result := .error e }) ∨
    ∃ w h secretKey, opened opts (begin v call) c name passphrase options env.readFailure =
        { begin w call with
          handles := w.handles ++ [h]
          unlocked := w.unlocked.set name w.handles.length
          calls := (begin w call).calls.set c (.unlocking w.handles.length) } ∧
      w.calls = v.calls ∧
      unlock opts env v name passphrase options = finish w name h secretKey env.audit := by
  unfold opened unlock
  cases env.readFailure with
  | some message => exact .inl ⟨_, v, rfl, rfl, rfl⟩
  | none =>
      dsimp only
      cases openRecord opts name passphrase with
      | error e => exact .inl ⟨_, v, rfl, rfl, rfl⟩
      | ok opened =>
          obtain ⟨record, secretKey⟩ := opened
          dsimp only
          rw [lockExisting_begin]
          have hcalls := lockExisting_calls v name
          unfold newHandle
          cases PublicKey.fromBase58 record.address with
          | error e => exact .inl ⟨_, lockExisting v name, rfl, hcalls, rfl⟩
          | ok address =>
              dsimp only
              by_cases hrefused : (opts.solReserveByRole record.role).isSome ∧
                ¬ (options.getBalance ∧ options.estimateDelta)
              · rw [if_pos hrefused, if_pos hrefused]
                exact .inl ⟨_, lockExisting v name, rfl, hcalls, rfl⟩
              · rw [if_neg hrefused, if_neg hrefused]
                generalize WalletHandle.create record.role address secretKey _ = created
                cases created with
                | error e => exact .inl ⟨_, lockExisting v name, rfl, hcalls, rfl⟩
                | ok h => exact .inr ⟨lockExisting v name, h, secretKey, rfl, hcalls, rfl⟩

/-- The steps of one call in a row do to the handles and to the map what `unlock` does. -/
theorem unlock_run (opts : VaultOptions) (env : Environment) (v : State)
    (name passphrase : String) (options : UnlockOptions) :
    ∃ acts v', exec (step opts) v
        (.unlock name passphrase options :: .opened v.calls.length env.readFailure :: acts) =
          some v' ∧
      v'.handles = (unlock opts env v name passphrase options).vault.handles ∧
      v'.unlocked = (unlock opts env v name passphrase options).vault.unlocked ∧
      v'.calls[v.calls.length]? =
        some (.settled ((unlock opts env v name passphrase options).result.map .handle)) := by
  let call : Call := .opening name passphrase options
  have hopened : step opts (begin v call) (.opened v.calls.length env.readFailure) =
      some (opened opts (begin v call) v.calls.length name passphrase options
        env.readFailure) := by
    simp only [step, begin_get, call]
  have hget : ∀ (w : State) c, w.calls = v.calls →
      ((begin w call).calls.set v.calls.length c)[v.calls.length]? = some c := by
    intro w c hcalls
    show ((w.calls ++ [call]).set v.calls.length c)[v.calls.length]? = some c
    rw [hcalls, List.getElem?_set_self (by simp)]
  rcases opened_cases opts env v name passphrase options call v.calls.length with
    ⟨e, w, hsettles, hcalls, hunlock⟩ | ⟨w, h, secretKey, hmade, hcalls, hunlock⟩
  · refine ⟨[], settle (begin w call) v.calls.length (.error e), ?_, ?_, ?_, ?_⟩
    · rw [exec_cons rfl, exec_cons (hopened.trans (congrArg some hsettles))]
      rfl
    · rw [hunlock]
      rfl
    · rw [hunlock]
      rfl
    · rw [hunlock]
      exact hget w _ hcalls
  · have hwaits := hget w (.unlocking w.handles.length) hcalls
    let made : State :=
      { begin w call with
        handles := w.handles ++ [h]
        unlocked := w.unlocked.set name w.handles.length
        calls := (begin w call).calls.set v.calls.length (.unlocking w.handles.length) }
    have haudited : step opts made (.audited v.calls.length env.audit) =
        some (audited made v.calls.length (.handle w.handles.length) env.audit) := by
      simp only [step, made, hwaits]
    have hsettled : ∀ result, (settle made v.calls.length result).calls[v.calls.length]? =
        some (.settled result) := by
      intro result
      show (made.calls.set _ _)[_]? = _
      rw [List.getElem?_set_self (List.getElem?_eq_some_iff.1 hwaits).1]
    refine ⟨[.audited v.calls.length env.audit],
      audited made v.calls.length (.handle w.handles.length) env.audit, ?_, ?_, ?_, ?_⟩
    · rw [exec_cons rfl, exec_cons (hopened.trans (congrArg some hmade)), exec_cons haudited]
      rfl
    · rw [hunlock]
      cases env.audit <;> rfl
    · rw [hunlock]
      cases env.audit <;> rfl
    · rw [hunlock]
      cases env.audit with
      | ok _ => exact hsettled _
      | error message => exact hsettled _

/-! ## What a failed call should leave alone -/

/-- The handle that a second unlock locks. -/
def Held (v : State) (name : String) : Prop :=
  ∃ ref, ∃ h : WalletHandle, ∃ key, v.unlocked.get? name = some ref ∧ v.handles[ref]? = some h ∧
    h.secretKey = some key

def Zero (buffer : List UInt8) : Prop := ∀ b ∈ buffer, b = 0

structure Unchanged (v : State) (o : Outcome) : Prop where
  signs : ∀ (ref : Nat) (h : WalletHandle) key, v.handles[ref]? = some h → h.secretKey = some key →
    o.vault.handles[ref]? = some h
  map : o.vault.unlocked = v.unlocked
  buffers : ∀ buffer ∈ o.buffers, Zero buffer
  handles : ∀ ref h, v.handles.length ≤ ref → o.vault.handles[ref]? = some h →
    WalletHandle.keyBuffer h = Seed.zero

/-- No handle is locked, and the key is refused and zeroed, or was zero all along. -/
def RefusedClean (opts : VaultOptions) (v : State) (name : String) (options : UnlockOptions)
    (record : EncryptedRecord) (secretKey : List UInt8) : Prop :=
  ¬ Held v name ∧
    match PublicKey.fromBase58 record.address with
    | .error _ => Zero secretKey
    | .ok _ =>
        (opts.solReserveByRole record.role).isSome ∧
            ¬ (options.getBalance ∧ options.estimateDelta) ∨
          Zero secretKey ∧ secretKey.length ≠ 32

/-- The call fails before it locks the previous handle, or has none to lock. -/
def FailsClean (opts : VaultOptions) (env : Environment) (v : State)
    (name passphrase : String) (options : UnlockOptions) : Prop :=
  match env.readFailure, openRecord opts name passphrase with
  | some _, _ => True
  | none, .error _ => True
  | none, .ok (record, secretKey) => RefusedClean opts v name options record secretKey

theorem zero_zeroed (buffer : List UInt8) : Zero (zeroed buffer) := fun _ hb =>
  List.eq_of_mem_replicate hb

/-- Locking the previous handle changes nothing exactly if there is none to lock. -/
theorem lockExisting_signs (v : State) (name : String) :
    (∀ (ref : Nat) (h : WalletHandle) key, v.handles[ref]? = some h → h.secretKey = some key →
      (lockExisting v name).handles[ref]? = some h) ↔ ¬ Held v name := by
  rw [lockExisting_handles]
  constructor
  · rintro hsigns ⟨ref, h, key, hget, hh, hkey⟩
    have hlocked := secretKey_lockRefs_of_mem (mem_toList_get hget) (hsigns ref h key hh hkey)
    rw [hkey] at hlocked
    cases hlocked
  · intro hnot ref h key hh hkey
    rw [getElem?_lockRefs_of_notMem]
    · exact hh
    · intro hmem
      exact hnot ⟨ref, h, key, Option.mem_toList.1 hmem, hh, hkey⟩

theorem lockExisting_unlocked (v : State) (name : String) :
    (lockExisting v name).unlocked = v.unlocked := by
  unfold lockExisting
  split <;> rfl

theorem lockExisting_length (v : State) (name : String) :
    (lockExisting v name).handles.length = v.handles.length := by
  rw [lockExisting_handles, length_lockRefs]

/-- A call that ends after it has locked the previous handle, with no new one. -/
theorem unchanged_locked (v : State) (name : String) (buffers : List (List UInt8))
    (result : Except VaultError Nat) :
    Unchanged v { vault := lockExisting v name, buffers := buffers, result := result } ↔
      ¬ Held v name ∧ ∀ buffer ∈ buffers, Zero buffer := by
  constructor
  · intro h
    exact ⟨(lockExisting_signs v name).1 h.signs, h.buffers⟩
  · rintro ⟨hheld, hzero⟩
    refine ⟨(lockExisting_signs v name).2 hheld, lockExisting_unlocked v name, hzero,
      fun ref h hge hh => ?_⟩
    have hlt := (List.getElem?_eq_some_iff.1 hh).1
    rw [lockExisting_length] at hlt
    omega

theorem unchanged_self (v : State) (result : Except VaultError Nat) :
    Unchanged v { vault := v, result := result } where
  signs := fun _ _ _ hh _ => hh
  map := rfl
  buffers := fun _ hbuffer => absurd hbuffer List.not_mem_nil
  handles := fun ref h hge hh => by
    have hlt : ref < v.handles.length := (List.getElem?_eq_some_iff.1 hh).1
    omega

/-- The map holds handles that were made. -/
def Made (v : State) : Prop :=
  ∀ name ref, v.unlocked.get? name = some ref → ref < v.handles.length

theorem made_step {opts : VaultOptions} {v v' : State} {a : Action} (h : Made v)
    (hstep : step opts v a = some v') : Made v' := by
  intro name ref hget
  cases handleStep hstep with
  | same hhandles hmap =>
      rw [hmap] at hget
      rw [hhandles]
      exact h name ref hget
  | relocked _ hhandles hmap =>
      rw [hmap] at hget
      rw [hhandles, length_lockRefs]
      exact h name ref hget
  | opened hd hhandles hmap =>
      rw [hmap, OrderedMap.get?_set] at hget
      rw [hhandles, List.length_append, length_lockRefs, List.length_singleton]
      split at hget
      · cases hget
        omega
      · have hlt := h name ref hget
        omega
  | locked other hhandles hmap =>
      rw [hmap, OrderedMap.get?_erase] at hget
      rw [hhandles, length_lockRefs]
      split at hget
      · cases hget
      · exact h name ref hget
  | lockedAll _ hmap =>
      rw [hmap] at hget
      cases hget

/-- Once the handle is made the map has changed. -/
theorem not_unchanged_finish {v w : State} (hmade : Made v)
    (hlength : w.handles.length = v.handles.length) (name : String) (h : WalletHandle)
    (secretKey : List UInt8) (audit : Except String Unit) :
    ¬ Unchanged v (finish w name h secretKey audit) := by
  intro hsame
  have hget := congrArg (·.get? name) hsame.map
  simp only [finish, OrderedMap.get?_set, if_true, hlength] at hget
  exact Nat.lt_irrefl _ (hmade name _ hget.symm)

theorem refused_iff {opts : VaultOptions} {v : State} (hmade : Made v) (env : Environment)
    (name : String) (options : UnlockOptions) (record : EncryptedRecord)
    (secretKey : List UInt8) (address : PublicKey)
    (haddress : PublicKey.fromBase58 record.address = .ok address)
    (hhooks : ¬ ((opts.solReserveByRole record.role).isSome ∧
      ¬ (options.getBalance ∧ options.estimateDelta))) :
    Unchanged v
        (match WalletHandle.create record.role address secretKey
            { reserveLamports := opts.solReserveByRole record.role
              getBalance := options.getBalance
              estimateDelta := options.estimateDelta } with
        | .error e => { vault := lockExisting v name, buffers := [secretKey], result := .error e }
        | .ok h => finish (lockExisting v name) name h secretKey env.audit) ↔
      RefusedClean opts v name options record secretKey := by
  unfold RefusedClean
  rw [haddress]
  unfold WalletHandle.create
  by_cases hlength : secretKey.length = 32
  · rw [dif_pos hlength]
    refine iff_of_false (not_unchanged_finish hmade (lockExisting_length v name) _ _ _ _) ?_
    rintro ⟨-, hrefused | ⟨-, hother⟩⟩
    · exact hhooks hrefused
    · exact hother hlength
  · rw [dif_neg hlength]
    dsimp only
    rw [unchanged_locked, or_iff_right hhooks, and_iff_left hlength]
    simp

/-- A call leaves the vault as it was exactly if it fails clean. -/
theorem failed_unlock_iff (opts : VaultOptions) (acts : List Action) {v : State}
    (hrun : exec (step opts) {} acts = some v) (env : Environment) (name passphrase : String)
    (options : UnlockOptions) :
    Unchanged v (unlock opts env v name passphrase options) ↔
      FailsClean opts env v name passphrase options := by
  have hmade : Made v := exec_inv (fun _ _ _ => made_step) (fun _ _ h => by cases h) hrun
  unfold unlock FailsClean
  cases env.readFailure with
  | some message => exact iff_of_true (unchanged_self v _) trivial
  | none =>
      cases openRecord opts name passphrase with
      | error e => exact iff_of_true (unchanged_self v _) trivial
      | ok opened =>
          obtain ⟨record, secretKey⟩ := opened
          dsimp only
          cases haddress : PublicKey.fromBase58 record.address with
          | error e => simp [unchanged_locked, RefusedClean, haddress]
          | ok address =>
              dsimp only
              split
              · rename_i hhooks
                simp [unchanged_locked, RefusedClean, haddress, hhooks, zero_zeroed]
              · rename_i hhooks
                exact refused_iff hmade env name options record secretKey address haddress hhooks

/-! ## A refused unlock -/

/-- The trader's handle is live. -/
def unlocked : List Action :=
  [.unlock "trader" "Correct-horse-1" { getBalance := true, estimateDelta := true },
    .opened 0 none, .audited 0 (.ok ())]

theorem failed_unlock_wrongPassphrase :
    ∃ v, exec (step Composition.traderVault) {} unlocked = some v ∧
      (Unchanged v (unlock Composition.traderVault {} v "trader" "wrong-horse" {}) ↔
        FailsClean Composition.traderVault {} v "trader" "wrong-horse" {}) := by
  obtain ⟨v, hv⟩ : ∃ v, exec (step Composition.traderVault) {} unlocked = some v :=
    Option.isSome_iff_exists.1 (by decide +kernel)
  exact ⟨v, hv, failed_unlock_iff Composition.traderVault unlocked hv {} "trader" "wrong-horse" {}⟩

/-- Without the hooks the call is refused, and the trader's handle no longer signs. -/
theorem refused_unlock_locks :
    ∃ v, exec (step Composition.traderVault) {} unlocked = some v ∧
      (unlock Composition.traderVault {} v "trader" "Correct-horse-1" {}).result =
        .error (.reserveNeedsHooks "trader") ∧
      ¬ Unchanged v (unlock Composition.traderVault {} v "trader" "Correct-horse-1" {}) := by
  obtain ⟨v, hv, hresult, h, hh, hkey, hlocked⟩ :
      ∃ v, exec (step Composition.traderVault) {} unlocked = some v ∧
        (unlock Composition.traderVault {} v "trader" "Correct-horse-1" {}).result =
          .error (.reserveNeedsHooks "trader") ∧
        ∃ h, v.handles[0]? = some h ∧ h.secretKey = some Composition.traderSeed ∧
          (unlock Composition.traderVault {} v "trader" "Correct-horse-1" {}).vault.handles[0]? ≠
            some h := by
    decide +kernel
  exact ⟨v, hv, hresult, fun hsame => hlocked (hsame.signs 0 h _ hh hkey)⟩

end Ap3xSolana.Vault.FailedUnlock
