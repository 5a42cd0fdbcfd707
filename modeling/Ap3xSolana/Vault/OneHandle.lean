import Ap3xSolana.Vault.Revocation

/-!
# One live handle a wallet

A handle does not know the name it was unlocked under; an observer does (`namedStep`).
Every handle that still has its key is the one that the map holds for its name, also
between the lock of the previous handle and the error that `unlock` may end in.
-/

namespace Ap3xSolana.Vault

open Ap3xSolana.Lib Ap3xSolana.Lib.Run

/-- The name that an action unlocks. -/
def openedName (v : State) : Action → String
  | .opened call _ =>
      match v.calls[call]? with
      | some (.opening name ..) => name
      | _ => ""
  | _ => ""

/-- A step of the vault that notes the name of each handle it makes. -/
def namedStep (opts : VaultOptions) (s : State × List String) (a : Action) :
    Option (State × List String) :=
  (step opts s.1 a).map fun v' =>
    (v', s.2 ++ (v'.handles.drop s.1.handles.length).map fun _ => openedName s.1 a)

/-- Every unlocked handle is the one in the map, under its name. -/
def InMap (s : State × List String) : Prop :=
  ∀ ref, s.1.live ref = true →
    ∃ name, s.2[ref]? = some name ∧ s.1.unlocked.get? name = some ref

/-- Two unlocked handles have different names. -/
def OnePerName (s : State × List String) : Prop :=
  ∀ ref ref' name, s.1.live ref = true → s.1.live ref' = true →
    s.2[ref]? = some name → s.2[ref']? = some name → ref = ref'

theorem InMap.onePerName {s : State × List String} (h : InMap s) : OnePerName s := by
  intro ref ref' name hlive hlive' hname hname'
  obtain ⟨n, hn, hget⟩ := h ref hlive
  obtain ⟨n', hn', hget'⟩ := h ref' hlive'
  rw [hname] at hn
  rw [hname'] at hn'
  cases hn
  cases hn'
  rw [hget] at hget'
  exact Option.some.inj hget'

/-! ## What a step does to the handles and the map -/

inductive HandleStep (opts : VaultOptions) (v v' : State) (a : Action) : Prop where
  | same (handles : v'.handles = v.handles) (unlocked : v'.unlocked = v.unlocked)
  /-- `unlock` has locked the previous handle and then throws. -/
  | relocked (name : String)
      (handles : v'.handles = lockRefs v.handles (v.unlocked.get? name).toList)
      (unlocked : v'.unlocked = v.unlocked)
  | opened (h : WalletHandle)
      (handles : v'.handles =
        lockRefs v.handles (v.unlocked.get? (openedName v a)).toList ++ [h])
      (unlocked : v'.unlocked = v.unlocked.set (openedName v a) v.handles.length)
  | locked (name : String)
      (handles : v'.handles = lockRefs v.handles (v.unlocked.get? name).toList)
      (unlocked : v'.unlocked = v.unlocked.erase name)
  | lockedAll (handles : v'.handles = lockRefs v.handles v.unlocked.values)
      (unlocked : v'.unlocked = .empty)

theorem handleStep_opened {opts : VaultOptions} {v : State} {call : Nat}
    {name passphrase : String} {options : UnlockOptions}
    (hcall : v.calls[call]? = some (.opening name passphrase options))
    (failure : Option String) :
    HandleStep opts v (opened opts v call name passphrase options failure)
      (.opened call failure) := by
  have hname : openedName v (.opened call failure) = name := by
    simp only [openedName, hcall]
  cases failure with
  | some message => exact .same rfl rfl
  | none =>
      simp only [opened, lockExisting_handles]
      cases openRecord opts name passphrase with
      | error e => exact .same rfl rfl
      | ok opened =>
          dsimp only
          split
          · exact .relocked name rfl rfl
          · rename_i h _
            exact .opened h (by rw [hname]) (by rw [hname, length_lockRefs])

theorem handleStep {opts : VaultOptions} {v v' : State} {a : Action}
    (hstep : step opts v a = some v') : HandleStep opts v v' a := by
  cases a with
  | unlock name passphrase options =>
      cases hstep
      exact .same rfl rfl
  | opened call failure =>
      simp only [step] at hstep
      split at hstep
      · rename_i name passphrase options hcall
        cases hstep
        exact handleStep_opened hcall failure
      · cases hstep
  | lock name =>
      cases hstep
      unfold lock
      cases hget : v.unlocked.get? name with
      | none => exact .same rfl rfl
      | some ref => exact .locked name (by rw [hget]; rfl) rfl
  | lockAll =>
      cases hstep
      exact .lockedAll (by simp only [lockAll, foldl_lockHandle]) rfl
  | sign ref message =>
      obtain ⟨h, -, rfl⟩ := Option.map_eq_some_iff.1 hstep
      unfold sign
      split <;> exact .same rfl rfl
  | signTransaction ref tx =>
      obtain ⟨h, -, rfl⟩ := Option.map_eq_some_iff.1 hstep
      unfold signTransaction
      split <;> exact .same rfl rfl
  | balance call balance delta =>
      simp only [step] at hstep
      split at hstep
      · obtain ⟨h, -, rfl⟩ := Option.map_eq_some_iff.1 hstep
        unfold balanceArrived
        split
        · exact .same rfl rfl
        · exact .same rfl rfl
        · dsimp only
          split <;> exact .same rfl rfl
      · cases hstep
  | audited call outcome =>
      simp only [step] at hstep
      split at hstep
      · cases hstep
        cases outcome <;> exact .same rfl rfl
      · cases hstep
        cases outcome <;> exact .same rfl rfl
      · cases hstep

/-! ## Locked handles -/

/-- A handle that is locked has no key. -/
theorem secretKey_lockRefs_of_mem {handles : List WalletHandle} {refs : List Nat}
    {ref : Nat} (hmem : ref ∈ refs) {h : WalletHandle}
    (hh : (lockRefs handles refs)[ref]? = some h) : h.secretKey = none := by
  induction refs generalizing handles with
  | nil => cases hmem
  | cons r refs ih =>
      by_cases hrest : ref ∈ refs
      · exact ih hrest hh
      · have hself : ref = r := (List.mem_cons.1 hmem).resolve_right hrest
        have hmod : (handles.modify r WalletHandle.lock)[ref]? = some h := by
          rw [← getElem?_lockRefs_of_notMem hrest]
          exact hh
        rw [List.getElem?_modify] at hmod
        obtain ⟨h₀, -, rfl⟩ := Option.map_eq_some_iff.1 hmod
        rw [if_pos hself.symm]
        rfl

/-- Locking leaves alive what was alive and is not locked. -/
theorem live_lockRefs {handles : List WalletHandle} {refs : List Nat} {ref : Nat}
    {h : WalletHandle} (hh : (lockRefs handles refs)[ref]? = some h)
    (hkey : h.secretKey.isSome = true) : ref ∉ refs ∧ handles[ref]? = some h := by
  have hmem : ref ∉ refs := by
    intro hmem
    rw [secretKey_lockRefs_of_mem hmem hh] at hkey
    cases hkey
  rw [getElem?_lockRefs_of_notMem hmem] at hh
  exact ⟨hmem, hh⟩

theorem live_of_lockRefs {v v' : State} {refs : List Nat} {ref : Nat}
    (hhandles : v'.handles = lockRefs v.handles refs) (hlive : v'.live ref = true) :
    ref ∉ refs ∧ v.live ref = true := by
  unfold State.live at hlive ⊢
  obtain ⟨h, hh, hkey⟩ := (Option.any_eq_true _ _).1 hlive
  rw [hhandles] at hh
  obtain ⟨hmem, hh⟩ := live_lockRefs hh hkey
  exact ⟨hmem, (Option.any_eq_true _ _).2 ⟨h, hh, hkey⟩⟩

theorem mem_toList_get {v : State} {name : String} {ref : Nat}
    (h : v.unlocked.get? name = some ref) : ref ∈ (v.unlocked.get? name).toList := by
  rw [h]
  exact List.mem_singleton.2 rfl

/-! ## The invariant -/

structure NameInv (s : State × List String) : Prop where
  length : s.2.length = s.1.handles.length
  inMap : InMap s

theorem nameInv_init : NameInv ({}, []) where
  length := rfl
  inMap ref hlive := by simp [State.live] at hlive

/-- A step that makes no handle: what is alive was alive, and is still in the map. -/
theorem NameInv.same_names {v v' : State} {names : List String} {refs : List Nat}
    (h : NameInv (v, names)) (hhandles : v'.handles = lockRefs v.handles refs)
    (hmap : ∀ name ref, ref ∉ refs → v.unlocked.get? name = some ref →
      v'.unlocked.get? name = some ref) : NameInv (v', names) where
  length := by
    show names.length = v'.handles.length
    rw [hhandles, length_lockRefs]
    exact h.length
  inMap ref hlive := by
    obtain ⟨hmem, hbefore⟩ := live_of_lockRefs hhandles hlive
    obtain ⟨name, hname, hget⟩ := h.inMap ref hbefore
    exact ⟨name, hname, hmap name ref hmem hget⟩

/-- A new handle takes its name in the map; the previous one of that name is locked. -/
theorem NameInv.added {v v' : State} {names : List String} {name : String}
    {new : WalletHandle} (h : NameInv (v, names))
    (hhandles : v'.handles =
      lockRefs v.handles (v.unlocked.get? name).toList ++ [new])
    (hmap : v'.unlocked = v.unlocked.set name v.handles.length) :
    NameInv (v', names ++ [name]) where
  length := by
    show (names ++ [name]).length = v'.handles.length
    rw [hhandles, List.length_append, List.length_append, length_lockRefs]
    exact congrArg (· + 1) h.length
  inMap ref hlive := by
    show ∃ n, (names ++ [name])[ref]? = some n ∧ v'.unlocked.get? n = some ref
    have hlen : names.length = v.handles.length := h.length
    unfold State.live at hlive
    rw [hhandles] at hlive
    by_cases hold : ref < v.handles.length
    · rw [List.getElem?_append_left (by rw [length_lockRefs]; exact hold)] at hlive
      have hlocked : State.live { v with
          handles := lockRefs v.handles (v.unlocked.get? name).toList } ref = true := hlive
      obtain ⟨hmem, hbefore⟩ : ref ∉ (v.unlocked.get? name).toList ∧ v.live ref = true :=
        live_of_lockRefs rfl hlocked
      obtain ⟨n, hn, hget⟩ := h.inMap ref hbefore
      have hne : n ≠ name := fun heq => hmem (heq ▸ mem_toList_get hget)
      apply Exists.intro n
      rw [List.getElem?_append_left (hlen ▸ hold), hmap, OrderedMap.get?_set, if_neg hne]
      exact ⟨hn, hget⟩
    · have hself : ref = v.handles.length := by
        obtain ⟨x, hx, -⟩ := (Option.any_eq_true _ _).1 hlive
        have hlt := (List.getElem?_eq_some_iff.1 hx).1
        rw [List.length_append, length_lockRefs, List.length_singleton] at hlt
        omega
      apply Exists.intro name
      rw [hself, hmap, OrderedMap.get?_set, if_pos rfl, ← hlen, List.getElem?_concat_length]
      exact ⟨rfl, rfl⟩

/-- No step that only locks adds a name. -/
theorem drop_lockRefs {v v' : State} {refs : List Nat}
    (hhandles : v'.handles = lockRefs v.handles refs) :
    v'.handles.drop v.handles.length = [] := by
  rw [hhandles, List.drop_eq_nil_iff, length_lockRefs]

theorem drop_added {v v' : State} {refs : List Nat} {new : WalletHandle}
    (hhandles : v'.handles = lockRefs v.handles refs ++ [new]) :
    v'.handles.drop v.handles.length = [new] := by
  rw [hhandles, ← length_lockRefs v.handles refs, List.drop_left]

theorem namedStep_inv {opts : VaultOptions} {s s' : State × List String} {a : Action}
    (h : NameInv s) (hstep : namedStep opts s a = some s') : NameInv s' := by
  obtain ⟨v, names⟩ := s
  obtain ⟨v', hv, rfl⟩ := Option.map_eq_some_iff.1 hstep
  cases handleStep hv with
  | same hhandles hmap =>
      have hlocked : v'.handles = lockRefs v.handles [] := hhandles
      rw [drop_lockRefs hlocked, List.map_nil, List.append_nil]
      apply h.same_names hlocked
      intro name ref _ hget
      rw [hmap]
      exact hget
  | relocked name hhandles hmap =>
      rw [drop_lockRefs hhandles, List.map_nil, List.append_nil]
      apply h.same_names hhandles
      intro n ref _ hget
      rw [hmap]
      exact hget
  | opened new hhandles hmap =>
      rw [drop_added hhandles]
      exact h.added hhandles hmap
  | locked name hhandles hmap =>
      rw [drop_lockRefs hhandles, List.map_nil, List.append_nil]
      apply h.same_names hhandles
      intro n ref hmem hget
      have hne : n ≠ name := fun heq => hmem (heq ▸ mem_toList_get hget)
      rw [hmap, OrderedMap.get?_erase, if_neg hne]
      exact hget
  | lockedAll hhandles hmap =>
      rw [drop_lockRefs hhandles, List.map_nil, List.append_nil]
      apply h.same_names hhandles
      intro n ref hmem hget
      exact absurd (OrderedMap.mem_values_of_get? hget) hmem

theorem nameInv_of_exec {opts : VaultOptions} {acts : List Action}
    {s : State × List String} (hrun : exec (namedStep opts) ({}, []) acts = some s) :
    NameInv s :=
  exec_inv (fun _ _ _ hinv hstep => namedStep_inv hinv hstep) nameInv_init hrun

/-! ## `lockAll` -/

/-- What every handle that is alive has in the map, `lockAll` locks. -/
theorem InMap.lockAll {s : State × List String} (h : InMap s) (ref : Nat) :
    (Vault.lockAll s.1).live ref = false := by
  rw [← Bool.not_eq_true]
  intro hlive
  have hhandles : (Vault.lockAll s.1).handles =
      lockRefs s.1.handles s.1.unlocked.values := by
    simp only [Vault.lockAll, foldl_lockHandle]
  obtain ⟨hmem, hbefore⟩ := live_of_lockRefs hhandles hlive
  obtain ⟨name, -, hget⟩ := h ref hbefore
  exact hmem (OrderedMap.mem_values_of_get? hget)

/-- After every step of every run: a handle that is alive is the one in the map under the
name it was unlocked with, no other handle of that name is alive, and `lockAll` would
leave none alive. -/
theorem one_live_handle (opts : VaultOptions) (acts : List Action)
    (s : State × List String) (hrun : exec (namedStep opts) ({}, []) acts = some s) :
    InMap s ∧ OnePerName s ∧ ∀ ref, (lockAll s.1).live ref = false := by
  have hmap := (nameInv_of_exec hrun).inMap
  exact ⟨hmap, hmap.onePerName, hmap.lockAll⟩

/-- Three calls of `unlock` at once: the second locks the handle of the first, which is
still being returned, and the third locks that of the second and then throws. -/
def overlappingUnlocks : List Action :=
  [.unlock "trader" "Correct-horse-1" { getBalance := true, estimateDelta := true },
    .unlock "trader" "Correct-horse-1" { getBalance := true, estimateDelta := true },
    .unlock "trader" "Correct-horse-1" {}, .unlock "trader" "wrong-horse" {},
    .opened 1 none, .opened 0 none, .audited 1 (.ok ()), .opened 3 none, .opened 2 none,
    .audited 0 (.ok ())]

theorem one_live_handle_overlapping :
    ∃ s, exec (namedStep Composition.traderVault) ({}, []) overlappingUnlocks = some s ∧
      s.2 = ["trader", "trader"] ∧
      InMap s ∧ OnePerName s ∧ ∀ ref, (lockAll s.1).live ref = false := by
  obtain ⟨s, hs, hnames⟩ : ∃ s, exec (namedStep Composition.traderVault) ({}, [])
      overlappingUnlocks = some s ∧ s.2 = ["trader", "trader"] := by
    decide +kernel
  exact ⟨s, hs, hnames, one_live_handle _ _ s hs⟩

end Ap3xSolana.Vault
