import Ap3xSolana.Vault.Composition

/-!
# Locking as revocation

What locking a wallet should mean is stated by an observer that sees every step: the
key each handle was made with, the handle each call belongs to, and the calls that
were still waiting when their handle was locked (`Watch`).  `Revoked` asks that such
a call never resolves with a signature and that every signature returned was made
with the key of its wallet.

`signTransaction` keeps its reference to the key while it awaits the balance, and
`lock` overwrites the bytes behind it.  So the steps to exclude are those that lock
a handle while one of its calls waits (`Quiet`).
-/

namespace Ap3xSolana.Vault

open Ap3xSolana.Core Ap3xSolana.Lib Ap3xSolana.Lib.Run

/-! ## The observer -/

structure Watch where
  /-- The key of each handle when it was made. -/
  seeds : List (Option Seed) := []
  /-- The handle of each call; an `unlock` has none. -/
  owners : List (Option Nat) := []
  /-- The calls that waited when their handle was locked. -/
  revoked : List Nat := []
  deriving DecidableEq, Repr

/-- The owner of the call that an action begins. -/
def owner : Action → List (Option Nat)
  | .unlock .. => [none]
  | .sign ref _ => [some ref]
  | .signTransaction ref _ => [some ref]
  | _ => []

/-- A call of `sign` or `signTransaction` that has not settled. -/
def Call.waits : Call → Bool
  | .balance .. => true
  | .signing _ => true
  | _ => false

/-- The bytes that a call has resolved with. -/
def Call.returned : Call → Option (List UInt8)
  | .settled (.ok (.bytes bytes)) => some bytes
  | _ => none

/-- The handle still has its key. -/
def State.live (v : State) (ref : Nat) : Bool :=
  (v.handles[ref]?).any (·.secretKey.isSome)

/-- The calls that wait on a handle which a step from `v` to `v'` locks. -/
def cutOff (v v' : State) (w : Watch) : List Nat :=
  (List.range v.calls.length).filter fun call =>
    match w.owners[call]? with
    | some (some ref) =>
        (v.calls[call]?).any Call.waits && v.live ref && !v'.live ref
    | _ => false

def watch (v v' : State) (w : Watch) (a : Action) : Watch where
  seeds := w.seeds ++ (v'.handles.drop v.handles.length).map WalletHandle.secretKey
  owners := w.owners ++ owner a
  revoked := w.revoked ++ cutOff v v' w

/-- A step of the vault, and of its observer. -/
def watchedStep (opts : VaultOptions) (s : State × Watch) (a : Action) :
    Option (State × Watch) :=
  (step opts s.1 a).map fun v' => (v', watch s.1 v' s.2 a)

/-! ## The property -/

/-- The call belongs to a handle that was made with `key`. -/
def OwnKey (w : Watch) (call : Nat) (key : Seed) : Prop :=
  ∃ ref, w.owners[call]? = some (some ref) ∧ w.seeds[ref]? = some (some key)

/-- `bytes` is the result of a signature the call made with `key`: the signature, or
the transaction that carries it. -/
def MadeWith (opts : VaultOptions) (events : List Event) (call : Nat) (key : Seed)
    (bytes : List UInt8) : Prop :=
  ∃ message, .signed call key message ∈ events ∧
    (bytes = opts.sodium.ed25519Sign message key ∨
      ∃ tx, message = WalletHandle.messageOf tx ∧
        bytes = WalletHandle.withSignature tx (opts.sodium.ed25519Sign message key))

structure Revoked (opts : VaultOptions) (s : State × Watch) : Prop where
  silent : ∀ call ∈ s.2.revoked, (s.1.calls[call]?).bind Call.returned = none
  own : ∀ call bytes, (s.1.calls[call]?).bind Call.returned = some bytes →
    ∃ key, OwnKey s.2 call key ∧ MadeWith opts s.1.events call key bytes

/-! ## Which handles a step locks -/

/-- The handles that an action locks: that of the name, all that are in the map, or
the one that a second `unlock` of the name finds there once it has the key. -/
def locks (opts : VaultOptions) (v : State) : Action → List Nat
  | .lock name => (v.unlocked.get? name).toList
  | .lockAll => v.unlocked.values
  | .opened call none =>
      match v.calls[call]? with
      | some (.opening name passphrase _) =>
          match openRecord opts name passphrase with
          | .ok _ => (v.unlocked.get? name).toList
          | .error _ => []
      | _ => []
  | _ => []

/-- `call` is a waiting call of the handle `ref`. -/
def WaitsOn (v : State) (w : Watch) (call ref : Nat) : Prop :=
  (v.calls[call]?).any Call.waits ∧ w.owners[call]? = some (some ref)

instance (v : State) (w : Watch) (call ref : Nat) : Decidable (WaitsOn v w call ref) :=
  inferInstanceAs (Decidable (_ ∧ _))

/-- No handle is locked while one of its calls waits. -/
def Quiet (opts : VaultOptions) (s : State × Watch) (a : Action) : Prop :=
  ∀ ref ∈ locks opts s.1 a, ∀ call < s.1.calls.length, ¬ WaitsOn s.1 s.2 call ref

instance (opts : VaultOptions) (s : State × Watch) (a : Action) :
    Decidable (Quiet opts s a) :=
  inferInstanceAs (Decidable (∀ ref ∈ _, ∀ call < _, _))

theorem Quiet.notMem_locks {opts : VaultOptions} {v : State} {w : Watch} {a : Action}
    {call ref : Nat} (h : Quiet opts (v, w) a) (hwaits : WaitsOn v w call ref) :
    ref ∉ locks opts v a := by
  intro hmem
  obtain ⟨c, hc, -⟩ := (Option.any_eq_true _ _).1 hwaits.1
  exact h ref hmem call (List.getElem?_eq_some_iff.1 hc).1 hwaits

def lockRefs (handles : List WalletHandle) (refs : List Nat) : List WalletHandle :=
  refs.foldl (fun handles ref => handles.modify ref WalletHandle.lock) handles

@[simp] theorem length_lockRefs (handles : List WalletHandle) (refs : List Nat) :
    (lockRefs handles refs).length = handles.length := by
  induction refs generalizing handles with
  | nil => rfl
  | cons ref refs ih =>
      show (lockRefs (handles.modify ref WalletHandle.lock) refs).length = _
      rw [ih, List.length_modify]

theorem getElem?_lockRefs_of_notMem {handles : List WalletHandle} {refs : List Nat}
    {ref : Nat} (h : ref ∉ refs) : (lockRefs handles refs)[ref]? = handles[ref]? := by
  induction refs generalizing handles with
  | nil => rfl
  | cons r refs ih =>
      show (lockRefs (handles.modify r WalletHandle.lock) refs)[ref]? = _
      have hne : r ≠ ref := fun heq => h (heq ▸ List.mem_cons_self)
      rw [ih fun hmem => h (List.mem_cons_of_mem _ hmem), List.getElem?_modify]
      simp only [hne, if_false, Option.map_eq_map, Option.map_id_fun', id]

/-- Locking only takes keys away. -/
theorem secretKey_of_lockRefs {handles : List WalletHandle} {refs : List Nat} {ref : Nat}
    {h : WalletHandle} {key : Seed} (hh : (lockRefs handles refs)[ref]? = some h)
    (hkey : h.secretKey = some key) :
    ∃ h₀, handles[ref]? = some h₀ ∧ h₀.secretKey = some key := by
  induction refs generalizing handles with
  | nil => exact ⟨h, hh, hkey⟩
  | cons r refs ih =>
      obtain ⟨h₁, hh₁, hkey₁⟩ := ih hh
      rw [List.getElem?_modify] at hh₁
      obtain ⟨h₀, hh₀, rfl⟩ := Option.map_eq_some_iff.1 hh₁
      by_cases heq : r = ref
      · rw [if_pos heq] at hkey₁
        cases hkey₁
      · rw [if_neg heq] at hkey₁
        exact ⟨h₀, hh₀, hkey₁⟩

theorem foldl_lockHandle (v : State) (refs : List Nat) :
    refs.foldl lockHandle v = { v with handles := lockRefs v.handles refs } := by
  induction refs generalizing v with
  | nil => rfl
  | cons ref refs ih =>
      show refs.foldl lockHandle (lockHandle v ref) = _
      rw [ih]
      rfl

theorem lockExisting_handles (v : State) (name : String) :
    lockExisting v name =
      { v with handles := lockRefs v.handles (v.unlocked.get? name).toList } := by
  unfold lockExisting
  cases v.unlocked.get? name <;> rfl

/-- What a step does to the handles: it locks those that `locks` names and may add
one at the end. -/
theorem step_handles {opts : VaultOptions} {v v' : State} {a : Action}
    (hstep : step opts v a = some v') :
    ∃ new, v'.handles = lockRefs v.handles (locks opts v a) ++ new := by
  have hsame : ∀ refs, ∃ new, lockRefs v.handles refs = lockRefs v.handles refs ++ new :=
    fun refs => ⟨[], (List.append_nil _).symm⟩
  cases a with
  | unlock name passphrase options =>
      cases hstep
      exact hsame []
  | opened call failure =>
      simp only [step] at hstep
      split at hstep
      · rename_i name passphrase options hcall
        cases hstep
        cases failure with
        | some message => exact hsame []
        | none =>
            simp only [opened, locks, hcall, lockExisting_handles]
            cases openRecord opts name passphrase with
            | error e => exact hsame []
            | ok opened =>
                dsimp only
                split
                · exact hsame _
                · exact ⟨_, rfl⟩
      · cases hstep
  | lock name =>
      cases hstep
      simp only [lock, locks]
      cases v.unlocked.get? name with
      | none => exact hsame []
      | some ref => exact hsame [ref]
  | lockAll =>
      cases hstep
      simp only [lockAll, locks, foldl_lockHandle]
      exact hsame _
  | sign ref message =>
      obtain ⟨h, -, rfl⟩ := Option.map_eq_some_iff.1 hstep
      unfold sign
      split <;> exact hsame []
  | signTransaction ref tx =>
      obtain ⟨h, -, rfl⟩ := Option.map_eq_some_iff.1 hstep
      unfold signTransaction
      split <;> exact hsame []
  | balance call balance delta =>
      simp only [step] at hstep
      split at hstep
      · obtain ⟨h, -, rfl⟩ := Option.map_eq_some_iff.1 hstep
        unfold balanceArrived
        split
        · exact hsame []
        · exact hsame []
        · dsimp only
          split <;> exact hsame []
      · cases hstep
  | audited call outcome =>
      simp only [step] at hstep
      split at hstep
      · cases hstep
        cases outcome <;> exact hsame []
      · cases hstep
        cases outcome <;> exact hsame []
      · cases hstep

/-! ## The invariant -/

/-- What the observer knows of a call: it holds a live key while it waits for the
balance, and what it has signed was signed with the key of its wallet. -/
def CallOk (opts : VaultOptions) (v : State) (w : Watch) (call : Nat) : Call → Prop
  | .balance ref _ _ => w.owners[call]? = some (some ref) ∧ v.live ref
  | .signing bytes => ∃ key, OwnKey w call key ∧ MadeWith opts v.events call key bytes
  | .settled (.ok (.bytes bytes)) =>
      ∃ key, OwnKey w call key ∧ MadeWith opts v.events call key bytes
  | _ => True

structure WatchInv (opts : VaultOptions) (s : State × Watch) : Prop where
  owners : s.2.owners.length = s.1.calls.length
  seeds : s.2.seeds.length = s.1.handles.length
  keys : ∀ (ref : Nat) (h : WalletHandle) key, s.1.handles[ref]? = some h →
    h.secretKey = some key → s.2.seeds[ref]? = some (some key)
  calls : ∀ call c, s.1.calls[call]? = some c → CallOk opts s.1 s.2 call c
  revoked : s.2.revoked = []

theorem watchInv_init (opts : VaultOptions) : WatchInv opts ({}, {}) where
  owners := rfl
  seeds := rfl
  keys ref h key hh := by simp at hh
  calls call c hc := by simp at hc
  revoked := rfl

theorem WatchInv.revokes {opts : VaultOptions} {s : State × Watch} (h : WatchInv opts s) :
    Revoked opts s where
  silent call hcall := by
    rw [h.revoked] at hcall
    cases hcall
  own call bytes hbytes := by
    obtain ⟨c, hc, hbytes⟩ := Option.bind_eq_some_iff.1 hbytes
    have hok := h.calls call c hc
    cases c with
    | settled result =>
        cases result with
        | error e => cases hbytes
        | ok resolved =>
            cases resolved with
            | handle ref => cases hbytes
            | bytes b =>
                cases hbytes
                exact hok
    | opening name passphrase options => cases hbytes
    | unlocking ref => cases hbytes
    | balance ref tx reserveLamports => cases hbytes
    | signing result => cases hbytes

theorem live_iff {v : State} {ref : Nat} :
    v.live ref ↔ ∃ h key, v.handles[ref]? = some h ∧ h.secretKey = some key := by
  unfold State.live
  cases v.handles[ref]? with
  | none => simp
  | some h => simp [Option.isSome_iff_exists]

/-- A handle that the step does not lock is still there. -/
theorem step_handle {opts : VaultOptions} {v v' : State} {a : Action} {ref : Nat}
    {h : WalletHandle} (hstep : step opts v a = some v') (hh : v.handles[ref]? = some h)
    (hunlocked : ref ∉ locks opts v a) : v'.handles[ref]? = some h := by
  obtain ⟨new, hnew⟩ := step_handles hstep
  have hlt := (List.getElem?_eq_some_iff.1 hh).1
  rw [hnew, List.getElem?_append_left (by rw [length_lockRefs]; exact hlt),
    getElem?_lockRefs_of_notMem hunlocked, hh]

/-- The observer sees the key of each handle, also of one that the step adds. -/
theorem step_seeds {opts : VaultOptions} {v v' : State} {w : Watch} {a : Action}
    (h : WatchInv opts (v, w)) (hstep : step opts v a = some v') :
    (watch v v' w a).seeds.length = v'.handles.length ∧
      ∀ (ref : Nat) (h : WalletHandle) key, v'.handles[ref]? = some h → h.secretKey = some key →
        (watch v v' w a).seeds[ref]? = some (some key) := by
  obtain ⟨new, hnew⟩ := step_handles hstep
  have hdrop : v'.handles.drop v.handles.length = new := by
    rw [hnew, List.drop_append_of_le_length (by simp), ← length_lockRefs v.handles,
      List.drop_length, List.nil_append]
  have hlen : w.seeds.length = v.handles.length := h.seeds
  simp only [watch, hdrop]
  constructor
  · rw [hnew, List.length_append, List.length_append, List.length_map, length_lockRefs, hlen]
  · intro ref hd key hhd hkey
    rw [hnew] at hhd
    by_cases hlt : ref < v.handles.length
    · rw [List.getElem?_append_left (by rw [length_lockRefs]; exact hlt)] at hhd
      obtain ⟨hd₀, hhd₀, hkey₀⟩ := secretKey_of_lockRefs hhd hkey
      rw [List.getElem?_append_left (by omega)]
      exact h.keys ref hd₀ key hhd₀ hkey₀
    · rw [List.getElem?_append_right (by rw [length_lockRefs]; omega), length_lockRefs] at hhd
      rw [List.getElem?_append_right (by omega), hlen, List.getElem?_map, hhd]
      exact congrArg some hkey

/-! ### Calls -/

theorem MadeWith.mono {opts : VaultOptions} {events events' : List Event} {call : Nat}
    {key : Seed} {bytes : List UInt8} (h : MadeWith opts events call key bytes)
    (hevents : events ⊆ events') : MadeWith opts events' call key bytes := by
  obtain ⟨message, hmem, hbytes⟩ := h
  exact ⟨message, hevents hmem, hbytes⟩

theorem OwnKey.watch {v v' : State} {w : Watch} {call : Nat} {key : Seed}
    (h : OwnKey w call key) (a : Action) : OwnKey (watch v v' w a) call key := by
  obtain ⟨ref, howner, hseed⟩ := h
  refine ⟨ref, ?_, ?_⟩
  · show (w.owners ++ owner a)[call]? = _
    rw [List.getElem?_append_left (List.getElem?_eq_some_iff.1 howner).1, howner]
  · show (w.seeds ++ _)[ref]? = _
    rw [List.getElem?_append_left (List.getElem?_eq_some_iff.1 hseed).1, hseed]

/-- What is known of a call stays so over a quiet step. -/
theorem CallOk.watch {opts : VaultOptions} {v v' : State} {w : Watch} {a : Action}
    {call : Nat} {c : Call} (h : CallOk opts v w call c) (hc : v.calls[call]? = some c)
    (hstep : step opts v a = some v') (hquiet : Quiet opts (v, w) a)
    (hevents : v.events ⊆ v'.events) : CallOk opts v' (watch v v' w a) call c := by
  cases c with
  | balance ref tx reserveLamports =>
      obtain ⟨howner, hlive⟩ := h
      obtain ⟨hd, key, hhd, hkey⟩ := live_iff.1 hlive
      have hunlocked := hquiet.notMem_locks ⟨by rw [hc]; rfl, howner⟩
      refine ⟨?_, live_iff.2 ⟨hd, key, step_handle hstep hhd hunlocked, hkey⟩⟩
      show (w.owners ++ owner a)[call]? = _
      rw [List.getElem?_append_left (List.getElem?_eq_some_iff.1 howner).1, howner]
  | signing bytes =>
      obtain ⟨key, hown, hmade⟩ := h
      exact ⟨key, hown.watch a, hmade.mono hevents⟩
  | settled result =>
      cases result with
      | error e => trivial
      | ok resolved =>
          cases resolved with
          | handle ref => trivial
          | bytes bytes =>
              obtain ⟨key, hown, hmade⟩ := h
              exact ⟨key, hown.watch a, hmade.mono hevents⟩
  | opening name passphrase options => trivial
  | unlocking handle => trivial

/-- A call that a step begins on a handle with a key. -/
theorem ownKey_begun {opts : VaultOptions} {v : State} (v' : State) {w : Watch}
    (a : Action) {ref : Nat} {h : WalletHandle} {key : Seed} (hinv : WatchInv opts (v, w))
    (hh : v.handles[ref]? = some h) (hkey : h.secretKey = some key)
    (ha : owner a = [some ref]) : OwnKey (watch v v' w a) v.calls.length key := by
  have hseed : w.seeds[ref]? = some (some key) := hinv.keys ref h key hh hkey
  refine ⟨ref, ?_, ?_⟩
  · show (w.owners ++ owner a)[v.calls.length]? = _
    rw [ha, ← hinv.owners, List.getElem?_concat_length]
  · show (w.seeds ++ _)[ref]? = _
    rw [List.getElem?_append_left (List.getElem?_eq_some_iff.1 hseed).1, hseed]

/-- What a step does to the calls: it appends the one that the action begins, or
replaces one, and what it puts there is known. -/
structure CallStep (opts : VaultOptions) (v v' : State) (w' : Watch) (begun : Nat) :
    Prop where
  length : v'.calls.length = v.calls.length + begun
  events : v.events ⊆ v'.events
  calls : ∀ call c, v'.calls[call]? = some c →
    v.calls[call]? = some c ∨ CallOk opts v' w' call c

theorem callStep_same {opts : VaultOptions} {v v' : State} {w' : Watch}
    (hcalls : v'.calls = v.calls) (hevents : v'.events = v.events) :
    CallStep opts v v' w' 0 where
  length := by rw [hcalls, Nat.add_zero]
  events := fun e he => hevents ▸ he
  calls call c hc := .inl (hcalls ▸ hc)

theorem callStep_begin {opts : VaultOptions} {v v' : State} {w' : Watch} {n : Call}
    (hcalls : v'.calls = v.calls ++ [n]) (hevents : v.events ⊆ v'.events)
    (hnew : CallOk opts v' w' v.calls.length n) : CallStep opts v v' w' 1 where
  length := by rw [hcalls, List.length_append, List.length_singleton]
  events := hevents
  calls call c hc := by
    rw [hcalls] at hc
    by_cases hlt : call < v.calls.length
    · rw [List.getElem?_append_left hlt] at hc
      exact .inl hc
    · rw [List.getElem?_append_right (Nat.not_lt.1 hlt)] at hc
      have hzero : call - v.calls.length = 0 := by
        have := (List.getElem?_eq_some_iff.1 hc).1
        rw [List.length_singleton] at this
        omega
      rw [hzero] at hc
      cases hc
      have heq : call = v.calls.length := by omega
      exact .inr (heq ▸ hnew)

theorem callStep_set {opts : VaultOptions} {v v' : State} {w' : Watch} {call : Nat}
    {new : Call} (hcalls : v'.calls = v.calls.set call new)
    (hevents : v.events ⊆ v'.events) (hnew : CallOk opts v' w' call new) :
    CallStep opts v v' w' 0 where
  length := by rw [hcalls, List.length_set, Nat.add_zero]
  events := hevents
  calls i c hc := by
    rw [hcalls, List.getElem?_set] at hc
    by_cases heq : call = i
    · rw [if_pos heq] at hc
      subst heq
      split at hc
      · cases hc
        exact .inr hnew
      · cases hc
    · rw [if_neg heq] at hc
      exact .inl hc

theorem callStep_settle_error {opts : VaultOptions} {v : State} {w' : Watch} (call : Nat)
    (e : VaultError) : CallStep opts v (settle v call (.error e)) w' 0 :=
  callStep_set rfl (List.Subset.refl _) trivial

theorem callStep_opened {opts : VaultOptions} {v : State} {w' : Watch} (call : Nat)
    (name passphrase : String) (options : UnlockOptions) (failure : Option String) :
    CallStep opts v (opened opts v call name passphrase options failure) w' 0 := by
  unfold opened
  split
  · exact callStep_settle_error call _
  · split
    · exact callStep_settle_error call _
    · simp only [lockExisting_handles]
      split
      · exact callStep_set rfl (List.Subset.refl _) trivial
      · exact callStep_set rfl (List.Subset.refl _) trivial

theorem callStep_sign {opts : VaultOptions} {v : State} {w : Watch} {ref : Nat}
    {h : WalletHandle} (hinv : WatchInv opts (v, w)) (hh : v.handles[ref]? = some h)
    (message : List UInt8) :
    CallStep opts v (sign opts v h message)
      (watch v (sign opts v h message) w (.sign ref message)) 1 := by
  cases hkey : h.secretKey with
  | none =>
      have hsign : sign opts v h message = begin v (.settled (.error .locked)) := by
        simp only [sign, WalletHandle.sign, hkey]
      rw [hsign]
      exact callStep_begin rfl (List.Subset.refl _) trivial
  | some key =>
      have hown := ownKey_begun (sign opts v h message) (.sign ref message)
        hinv hh hkey rfl
      simp only [sign, WalletHandle.sign, hkey] at hown ⊢
      apply callStep_begin rfl (List.subset_append_left _ _)
      refine ⟨key, hown, message, ?_, .inl rfl⟩
      exact List.mem_append_right _ List.mem_cons_self

theorem callStep_signTransaction {opts : VaultOptions} {v : State} {w : Watch} {ref : Nat}
    {h : WalletHandle} (hinv : WatchInv opts (v, w)) (hh : v.handles[ref]? = some h)
    (tx : List UInt8) :
    CallStep opts v (signTransaction opts v ref h tx)
      (watch v (signTransaction opts v ref h tx) w (.signTransaction ref tx)) 1 := by
  cases hkey : h.secretKey with
  | none =>
      have hsign : signTransaction opts v ref h tx =
          begin v (.settled (.error .locked)) := by
        simp only [signTransaction, WalletHandle.signTransaction, hkey]
      rw [hsign]
      exact callStep_begin rfl (List.Subset.refl _) trivial
  | some key =>
      have hown := ownKey_begun (signTransaction opts v ref h tx)
        (.signTransaction ref tx) hinv hh hkey rfl
      have howner : (watch v (signTransaction opts v ref h tx) w
          (.signTransaction ref tx)).owners[v.calls.length]? = some (some ref) := by
        show (w.owners ++ [some ref])[v.calls.length]? = _
        rw [← hinv.owners, List.getElem?_concat_length]
      revert hown howner
      unfold signTransaction
      cases hstart : h.signTransaction tx with
      | error e =>
          intro _ _
          exact callStep_begin rfl (List.Subset.refl _) trivial
      | ok start =>
          cases start with
          | signs k =>
              intro hown _
              have hk : k = key := by
                have := (WalletHandle.signTransaction_eq_signs.1 hstart).1
                rw [hkey] at this
                cases this
                rfl
              subst hk
              refine callStep_begin (n := .signing (WalletHandle.withSignature tx
                (opts.sodium.ed25519Sign (WalletHandle.messageOf tx) k))) ?_
                (List.subset_append_left _ _) ?_
              · simp [emit, begin]
              · refine ⟨k, hown, WalletHandle.messageOf tx, ?_, .inr ⟨tx, rfl, rfl⟩⟩
                exact List.mem_append_right _ List.mem_cons_self
          | awaitsBalance reserveLamports =>
              intro _ howner
              exact callStep_begin (n := .balance ref tx reserveLamports) rfl
                (List.Subset.refl _) ⟨howner, live_iff.2 ⟨h, key, hh, hkey⟩⟩

/-- Once the balance is there, a handle that was not locked signs with its own key. -/
theorem callStep_balanceArrived {opts : VaultOptions} {v : State} {w w' : Watch}
    {call ref : Nat} {h : WalletHandle} {tx : List UInt8} {reserveLamports : Int}
    (hinv : WatchInv opts (v, w)) (hh : v.handles[ref]? = some h)
    (hcall : v.calls[call]? = some (.balance ref tx reserveLamports))
    (hown : ∀ key, OwnKey w call key → OwnKey w' call key)
    (balance delta : Except String Int) :
    CallStep opts v (balanceArrived opts v call h tx reserveLamports balance delta) w' 0 := by
  obtain ⟨howner, hlive⟩ := hinv.calls call _ hcall
  obtain ⟨h', key, hh', hkey⟩ := live_iff.1 hlive
  obtain rfl : h = h' := by
    rw [hh] at hh'
    exact Option.some.inj hh'
  have hbuffer : h.keyBuffer = key := by
    simp only [WalletHandle.keyBuffer, hkey, Option.getD_some]
  unfold balanceArrived
  split
  · exact callStep_settle_error call _
  · exact callStep_settle_error call _
  · dsimp only
    split
    · exact callStep_set rfl (List.subset_append_left _ _) trivial
    · rw [hbuffer]
      apply callStep_set rfl
      · intro e he
        exact List.mem_append_left _ (List.mem_append_left _ he)
      · refine ⟨key, hown key ⟨ref, howner, hinv.keys ref h key hh hkey⟩,
          WalletHandle.messageOf tx, ?_, .inr ⟨tx, rfl, rfl⟩⟩
        exact List.mem_append_right _ List.mem_cons_self

theorem callStep_audited {opts : VaultOptions} {v : State} {w' : Watch} {call : Nat}
    (resolved : Resolved) (hok : CallOk opts v w' call (.settled (.ok resolved)))
    (outcome : Except String Unit) :
    CallStep opts v (audited v call resolved outcome) w' 0 := by
  cases outcome with
  | error message => exact callStep_settle_error call _
  | ok u => exact callStep_set rfl (List.Subset.refl _) hok

theorem step_calls {opts : VaultOptions} {v v' : State} {w : Watch} {a : Action}
    (hinv : WatchInv opts (v, w)) (hstep : step opts v a = some v') :
    CallStep opts v v' (watch v v' w a) (owner a).length := by
  cases a with
  | unlock name passphrase options =>
      cases hstep
      exact callStep_begin rfl (List.Subset.refl _) trivial
  | opened call failure =>
      simp only [step] at hstep
      split at hstep
      · cases hstep
        exact callStep_opened call _ _ _ failure
      · cases hstep
  | lock name =>
      cases hstep
      unfold lock
      split <;> exact callStep_same rfl rfl
  | lockAll =>
      cases hstep
      simp only [lockAll, foldl_lockHandle]
      exact callStep_same rfl rfl
  | sign ref message =>
      obtain ⟨h, hh, rfl⟩ := Option.map_eq_some_iff.1 hstep
      exact callStep_sign hinv hh message
  | signTransaction ref tx =>
      obtain ⟨h, hh, rfl⟩ := Option.map_eq_some_iff.1 hstep
      exact callStep_signTransaction hinv hh tx
  | balance call balance delta =>
      simp only [step] at hstep
      split at hstep
      · rename_i hcall
        obtain ⟨h, hh, rfl⟩ := Option.map_eq_some_iff.1 hstep
        exact callStep_balanceArrived hinv hh hcall (fun _ hown => hown.watch _) balance delta
      · cases hstep
  | audited call outcome =>
      simp only [step] at hstep
      split at hstep
      · cases hstep
        exact callStep_audited (.handle _) trivial outcome
      · rename_i result hcall
        cases hstep
        obtain ⟨key, hown, hmade⟩ := hinv.calls call _ hcall
        exact callStep_audited (.bytes result) ⟨key, hown.watch _, hmade⟩ outcome
      · cases hstep

/-! ## Runs -/

/-- A quiet step cuts no waiting call off. -/
theorem cutOff_of_quiet {opts : VaultOptions} {v v' : State} {w : Watch} {a : Action}
    (hstep : step opts v a = some v') (hquiet : Quiet opts (v, w) a) :
    cutOff v v' w = [] := by
  refine List.filter_eq_nil_iff.2 fun call _ hcut => ?_
  split at hcut
  · rename_i ref howner
    simp only [Bool.and_eq_true, Bool.not_eq_true'] at hcut
    obtain ⟨⟨hwaits, hlive⟩, hdead⟩ := hcut
    obtain ⟨h, key, hh, hkey⟩ := live_iff.1 hlive
    have hunlocked := hquiet.notMem_locks ⟨hwaits, howner⟩
    have hlive' := live_iff.2 ⟨h, key, step_handle hstep hh hunlocked, hkey⟩
    rw [hdead] at hlive'
    cases hlive'
  · cases hcut

theorem watchedStep_inv {opts : VaultOptions} {s s' : State × Watch} {a : Action}
    (hinv : WatchInv opts s) (hstep : watchedStep opts s a = some s')
    (hquiet : Quiet opts s a) : WatchInv opts s' := by
  obtain ⟨v, w⟩ := s
  obtain ⟨v', hv', rfl⟩ := Option.map_eq_some_iff.1 hstep
  have hcalls := step_calls hinv hv'
  obtain ⟨hseeds, hkeys⟩ := step_seeds hinv hv'
  refine ⟨?_, hseeds, hkeys, fun call c hc => ?_, ?_⟩
  · show (w.owners ++ owner a).length = _
    rw [List.length_append, hcalls.length, hinv.owners]
  · rcases hcalls.calls call c hc with hold | hnew
    · exact (hinv.calls call c hold).watch hold hv' hquiet hcalls.events
    · exact hnew
  · show w.revoked ++ cutOff v v' w = []
    rw [hinv.revoked, cutOff_of_quiet hv' hquiet, List.nil_append]

/-- Where no handle is locked while one of its calls waits, locking revokes: in every
state the run reaches. -/
theorem lock_revokes (opts : VaultOptions) (acts : List Action) (s : State × Watch)
    (hrun : exec (watchedStep opts) ({}, {}) acts = some s)
    (hquiet : Along (watchedStep opts) (fun s a _ => Quiet opts s a) ({}, {}) acts) :
    Revoked opts s := by
  have hinv : WatchInv opts s := hquiet.inv (WatchInv opts)
    (fun s a s' hinv hstep hquiet => watchedStep_inv hinv hstep hquiet)
    (watchInv_init opts) hrun
  exact hinv.revokes

/-! ## A lock while the balance is awaited -/

section Trader

open Ap3xSolana.Vault.Composition

/-- What `signAsync` gives for `drainMessage` and a key of zeros. -/
def zeroKeySignature : List UInt8 :=
  [0x0f, 0x09, 0xff, 0x57, 0x35, 0x6e, 0x55, 0xfa, 0x4e, 0xd3, 0x53, 0x1d, 0x27, 0x35,
    0x8d, 0xa0, 0x11, 0x6b, 0x8c, 0x21, 0xf8, 0x47, 0xb9, 0x78, 0x24, 0xe5, 0x71, 0x05,
    0xbb, 0x8d, 0x1a, 0x63, 0x2a, 0x81, 0x7b, 0x88, 0x94, 0x63, 0x2e, 0xb0, 0xca, 0x0e,
    0x22, 0xf7, 0x3f, 0x34, 0xd7, 0xba, 0xaa, 0xea, 0xeb, 0xa5, 0xab, 0x8b, 0xbb, 0x78,
    0x8e, 0x48, 0x2a, 0x11, 0x09, 0x3e, 0x56, 0x02]

/-- `traderVault`, with the signatures of both keys. -/
def lockableVault : VaultOptions :=
  { traderVault with
    sodium :=
      { traderVault.sodium with
        ed25519Sign := fun _ key => if key = .zero then zeroKeySignature else drainSignature } }

def drainTransaction : List UInt8 := [1] ++ List.replicate 64 0 ++ drainMessage

def unlockTrader : List Action :=
  [.unlock "trader" "Correct-horse-1" { getBalance := true, estimateDelta := true },
    .opened 0 none, .audited 0 (.ok ())]

/-- The balance of ten SOL allows the transfer of five. -/
def signDrain : List Action :=
  [.signTransaction 0 drainTransaction, .balance 1 (.ok 10000000000) (.ok (-5000005000)),
    .audited 1 (.ok ())]

theorem lock_revokes_trader :
    ∃ s, exec (watchedStep lockableVault) ({}, {})
        (unlockTrader ++ signDrain ++ [.lock "trader"]) = some s ∧
      Revoked lockableVault s := by
  have hquiet : Along (watchedStep lockableVault) (fun s a _ => Quiet lockableVault s a) ({}, {})
      (unlockTrader ++ signDrain ++ [.lock "trader"]) := by decide +kernel
  obtain ⟨s, hs⟩ := hquiet.exec
  exact ⟨s, hs, lock_revokes _ _ s hs hquiet⟩

/-- The wallet is locked between the call of `getBalance` and its answer: the call
goes on, signs with the zeros that are left of the key, and resolves. -/
theorem lockDuringBalance_signs_with_zeros :
    ∃ s, exec (watchedStep lockableVault) ({}, {})
        (unlockTrader ++ [.signTransaction 0 drainTransaction, .lock "trader",
          .balance 1 (.ok 10000000000) (.ok (-5000005000)), .audited 1 (.ok ())]) = some s ∧
      ¬ Revoked lockableVault s := by
  obtain ⟨s, hs, hrevoked, hreturned⟩ :
      ∃ s, exec (watchedStep lockableVault) ({}, {})
          (unlockTrader ++ [.signTransaction 0 drainTransaction, .lock "trader",
            .balance 1 (.ok 10000000000) (.ok (-5000005000)), .audited 1 (.ok ())]) =
          some s ∧
        1 ∈ s.2.revoked ∧
        (s.1.calls[1]?).bind Call.returned =
          some (WalletHandle.withSignature drainTransaction zeroKeySignature) := by
    decide +kernel
  refine ⟨s, hs, fun h => ?_⟩
  rw [h.silent 1 hrevoked] at hreturned
  cases hreturned

end Trader

end Ap3xSolana.Vault
