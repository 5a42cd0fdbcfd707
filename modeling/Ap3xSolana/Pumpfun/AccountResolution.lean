import Ap3xSolana.Lib.Saturation
import Ap3xSolana.Pumpfun.TradeAmounts
import Mathlib.Data.Set.Basic

/-!
# How accounts are resolved

The seeds of an account may be accounts that come later, or each other's.  The loop of
`buildIdlInstruction` is the saturation of a table (`resolveRound_eq_scan`): it ends, and what
it leaves depends on the order of the accounts in nothing.  The accounts that it leaves out
are those outside the least set that is closed under the schema's rules.
-/

namespace Ap3xSolana.Pumpfun.AccountResolution

open Core Tx.FindProgramAddress Tx.TransactionAssembler
open Lib.Saturation Lib.Throwing

/-! ## The loop and the rules -/

/-- `while (progress)`: the names it resolves in the end, or what it throws. -/
inductive Resolves (noble : Noble) (name : String) (programId : PublicKey)
    (accounts : List IdlAccountSchema) : Known → Build Known → Prop where
  | threw {resolved : Known} {e : BuildError}
      (h : resolveRound noble name programId accounts resolved false = .error e) :
      Resolves noble name programId accounts resolved (.error e)
  | stop {resolved resolved' : Known}
      (h : resolveRound noble name programId accounts resolved false = .ok (resolved', false)) :
      Resolves noble name programId accounts resolved (.ok resolved')
  | again {resolved resolved' : Known} {out : Build Known}
      (h : resolveRound noble name programId accounts resolved false = .ok (resolved', true))
      (hrest : Resolves noble name programId accounts resolved' out) :
      Resolves noble name programId accounts resolved out

/-- The owner of a derived address is resolved. -/
def OwnerIn (S : Set String) : Option IdlSeed → Prop
  | none => True
  | some (.const _) => True
  | some (.account path) => path ∈ S
  | some (.arg _) => False

/-- The schema gives the account an address: a fixed one, the program's, or one derived from
seeds and an owner that are resolved. -/
def Derivable (S : Set String) (a : IdlAccountSchema) : Prop :=
  a.address.isSome = true ∨ a.name = "program" ∨
    ∃ pda, a.pda = some pda ∧ (∀ path, .account path ∈ pda.seeds → path ∈ S) ∧
      OwnerIn S pda.program

/-- The names that are known, and those of the accounts that are derivable from them. -/
structure ClosedSet (accounts : List IdlAccountSchema) (known : Known) (S : Set String) :
    Prop where
  keeps : ∀ n, (known n).isSome = true → n ∈ S
  derived : ∀ a ∈ accounts, Derivable S a → a.name ∈ S

/-- The least closed set. -/
def resolvable (accounts : List IdlAccountSchema) (known : Known) : Set String :=
  { n | ∀ S, ClosedSet accounts known S → n ∈ S }

/-- The bytes that a seed may stand for. -/
def SeedValue : IdlSeed → List UInt8 → Prop
  | .const value, bytes => bytes = value
  | .account _, bytes => ∃ key : PublicKey, bytes = key.bytes
  | .arg _, _ => False

def IsArg : IdlSeed → Prop
  | .arg _ => True
  | _ => False

instance : DecidablePred IsArg
  | .arg _ => .isTrue trivial
  | .const _ => .isFalse id
  | .account _ => .isFalse id

/-- An owner that is written out is an address. -/
def OwnerIsKey : Option IdlSeed → Prop
  | some (.const value) => value.length = 32
  | _ => True

instance : DecidablePred OwnerIsKey
  | some (.const value) => inferInstanceAs (Decidable (value.length = 32))
  | none => .isTrue trivial
  | some (.account _) => .isTrue trivial
  | some (.arg _) => .isTrue trivial

/-- The accounts of an IDL instruction whose seeds are no arguments: each has a name of its
own, and its fixed address and owner are addresses. -/
structure WellFormed (accounts : List IdlAccountSchema) : Prop where
  distinct : (accounts.map (·.name)).Nodup
  addresses : ∀ a ∈ accounts, ∀ s ∈ a.address, (fromBase58 s).isOk = true
  owners : ∀ a ∈ accounts, ∀ pda ∈ a.pda, OwnerIsKey pda.program
  noArgs : ∀ a ∈ accounts, ∀ pda ∈ a.pda, ∀ seed ∈ pda.seeds, ¬ IsArg seed

/-- `findProgramAddress` finds an address for whatever the seeds stand for. -/
def FindsAddresses (noble : Noble) (accounts : List IdlAccountSchema) : Prop :=
  ∀ a ∈ accounts, ∀ pda ∈ a.pda, ∀ seeds owner, List.Forall₂ SeedValue pda.seeds seeds →
    ∃ key, findAddress noble seeds owner = .ok key

/-- The instructions that the trade builders name are such. -/
theorem wellFormed_pump : ∀ ix ∈ pumpSchema.instructions ++ pumpAmmSchema.instructions,
    WellFormed ix.accounts := by
  have hchecked : ∀ ix ∈ pumpSchema.instructions ++ pumpAmmSchema.instructions,
      (ix.accounts.map (·.name)).Nodup ∧
      (∀ a ∈ ix.accounts, ∀ s ∈ a.address, (fromBase58 s).isOk = true) ∧
      (∀ a ∈ ix.accounts, ∀ pda ∈ a.pda, OwnerIsKey pda.program) ∧
      ∀ a ∈ ix.accounts, ∀ pda ∈ a.pda, ∀ seed ∈ pda.seeds, ¬ IsArg seed := by
    decide +kernel
  intro ix hix
  obtain ⟨hdistinct, haddresses, howners, hargs⟩ := hchecked ix hix
  exact ⟨hdistinct, haddresses, howners, hargs⟩

/-! ## Seeds and owners -/

theorem isOk_iff {α : Type} {x : Build α} : x.isOk = true ↔ ∃ a, x = .ok a := by
  cases x with
  | error e => exact ⟨(fun h => nomatch h), fun ⟨_, h⟩ => nomatch h⟩
  | ok a => exact ⟨fun _ => ⟨a, rfl⟩, fun _ => rfl⟩

variable {noble : Noble} {name : String} {programId : PublicKey}

theorem seedBytes_mono {m m' : Known} (h : Extends m m') {seed : IdlSeed} {bytes : List UInt8}
    (hbytes : seedBytes name m seed = .ok (some bytes)) :
    seedBytes name m' seed = .ok (some bytes) := by
  cases seed with
  | const value => exact hbytes
  | account path =>
      have hsome : (m path).map PublicKey.bytes = some bytes := Except.ok.inj hbytes
      obtain ⟨key, hkey, rfl⟩ := Option.map_eq_some_iff.1 hsome
      show Except.ok ((m' path).map _) = _
      rw [h path key hkey]
      rfl
  | arg path => cases hbytes

theorem pdaOwner_mono {m m' : Known} (h : Extends m m') {program : Option IdlSeed}
    {owner : PublicKey} (howner : pdaOwner programId m program = .ok (some owner)) :
    pdaOwner programId m' program = .ok (some owner) := by
  cases program with
  | none => exact howner
  | some seed =>
      cases seed with
      | const value => exact howner
      | account path => exact congrArg Except.ok (h path owner (Except.ok.inj howner))
      | arg path => cases howner

theorem mapM_id_eq_some {α : Type} {opts : List (Option α)} {xs : List α} :
    opts.mapM id = some xs ↔ opts = xs.map some := by
  induction opts generalizing xs with
  | nil =>
      rw [List.mapM_nil, eq_comm (a := []), List.map_eq_nil_iff]
      exact Option.some_inj.trans eq_comm
  | cons o opts ih =>
      rw [List.mapM_cons]
      simp only [Option.bind_eq_bind, Option.bind_eq_some_iff, ih, id_eq]
      constructor
      · rintro ⟨x, rfl, ys, rfl, h⟩
        cases h
        rfl
      · intro h
        cases xs with
        | nil => cases h
        | cons x xs =>
            obtain ⟨rfl, rfl⟩ := List.cons.inj h
            exact ⟨x, rfl, xs, rfl, rfl⟩

/-- A derived address comes from an owner and from the bytes of every seed. -/
theorem pdaAddress_eq_some {m : Known} {pda : IdlPda} {key : PublicKey} :
    pdaAddress noble name programId m pda = .ok (some key) ↔
      ∃ owner seeds, pdaOwner programId m pda.program = .ok (some owner) ∧
        List.Forall₂ (fun seed bytes => seedBytes name m seed = .ok (some bytes)) pda.seeds
          seeds ∧
        findAddress noble seeds owner = .ok key := by
  have hseeds : ∀ seeds : List (List UInt8),
      pda.seeds.mapM (seedBytes name m) = .ok (seeds.map some) ↔
        List.Forall₂ (fun seed bytes => seedBytes name m seed = .ok (some bytes)) pda.seeds
          seeds := by
    intro seeds
    rw [mapM_eq_ok, List.forall₂_map_right_iff]
  unfold pdaAddress
  constructor
  · intro h
    obtain ⟨opts, hopts, h⟩ := bind_eq_ok.1 h
    obtain ⟨owner, howner, h⟩ := bind_eq_ok.1 h
    split at h
    · rename_i owner seeds hall
      obtain ⟨address, haddress, h⟩ := bind_eq_ok.1 h
      cases pure_eq_ok.1 h
      rw [mapM_id_eq_some.1 hall] at hopts
      exact ⟨owner, seeds, howner, (hseeds seeds).1 hopts, haddress⟩
    · cases pure_eq_ok.1 h
  · rintro ⟨owner, seeds, howner, hall, haddress⟩
    refine bind_eq_ok.2 ⟨seeds.map some, (hseeds seeds).2 hall, ?_⟩
    refine bind_eq_ok.2 ⟨some owner, howner, ?_⟩
    rw [mapM_id_eq_some.2 rfl]
    exact bind_eq_ok.2 ⟨key, haddress, rfl⟩

theorem pdaAddress_mono {m m' : Known} (h : Extends m m') {pda : IdlPda} {key : PublicKey}
    (hkey : pdaAddress noble name programId m pda = .ok (some key)) :
    pdaAddress noble name programId m' pda = .ok (some key) := by
  obtain ⟨owner, seeds, howner, hseeds, haddress⟩ := pdaAddress_eq_some.1 hkey
  exact pdaAddress_eq_some.2 ⟨owner, seeds, pdaOwner_mono h howner,
    hseeds.imp fun _ _ hbytes => seedBytes_mono h hbytes, haddress⟩

/-! ## Rules -/

/-- Where the address of an account comes from. -/
theorem accountAddress_cases (noble : Noble) (name : String) (programId : PublicKey)
    (a : IdlAccountSchema) :
    (∃ s, a.address = some s ∧
      ∀ m, accountAddress noble name programId m a = (fromBase58 s).map some) ∨
    (a.name = "program" ∧ ∀ m, accountAddress noble name programId m a = .ok (some programId)) ∨
    (a.address = none ∧ a.name ≠ "program" ∧ ∃ pda, a.pda = some pda ∧
      ∀ m, accountAddress noble name programId m a = pdaAddress noble name programId m pda) ∨
    (a.address = none ∧ a.name ≠ "program" ∧ a.pda = none ∧
      ∀ m, accountAddress noble name programId m a = .ok none) := by
  unfold accountAddress
  cases a.address with
  | some s => exact .inl ⟨s, rfl, fun _ => rfl⟩
  | none =>
      by_cases hname : a.name = "program"
      · exact .inr (.inl ⟨hname, fun _ => if_pos hname⟩)
      · cases a.pda with
        | some pda =>
            exact .inr (.inr (.inl ⟨rfl, hname, pda, rfl, fun _ => if_neg hname⟩))
        | none => exact .inr (.inr (.inr ⟨rfl, hname, rfl, fun _ => if_neg hname⟩))

/-- The schema's accounts as the rules of a saturation. -/
def accountRules (noble : Noble) (name : String) (programId : PublicKey) :
    Rules IdlAccountSchema String PublicKey BuildError where
  key := IdlAccountSchema.name
  derive := accountAddress noble name programId
  mono := by
    intro m m' h a key hkey
    rcases accountAddress_cases noble name programId a with
      ⟨_, _, heq⟩ | ⟨_, heq⟩ | ⟨_, _, _, _, heq⟩ | ⟨_, _, _, heq⟩
    · rw [heq] at hkey ⊢
      exact hkey
    · rw [heq] at hkey ⊢
      exact hkey
    · rw [heq] at hkey ⊢
      exact pdaAddress_mono h hkey
    · rw [heq] at hkey
      cases hkey

theorem resolveRound_eq_scan (accounts : List IdlAccountSchema) (m : Known) (progress : Bool) :
    resolveRound noble name programId accounts m progress =
      scan (accountRules noble name programId) accounts m progress := by
  induction accounts generalizing m progress with
  | nil => rfl
  | cons a accounts ih =>
      rw [resolveRound, scan]
      show (if (m a.name).isSome = true then _ else _) = if (m a.name).isSome = true then _ else _
      split
      · exact ih m progress
      · refine bind_congr fun addr => ?_
        cases addr with
        | some addr => exact ih _ true
        | none => exact ih m progress

theorem resolves_iff {accounts : List IdlAccountSchema} {m : Known} {out : Build Known} :
    Resolves noble name programId accounts m out ↔
      Ends (accountRules noble name programId) accounts m out := by
  constructor
  · intro h
    induction h with
    | threw h => exact .threw (resolveRound_eq_scan .. ▸ h)
    | stop h => exact .stop (resolveRound_eq_scan .. ▸ h)
    | again h _ ih => exact .again (resolveRound_eq_scan .. ▸ h) ih
  · intro h
    induction h with
    | threw h => exact .threw (resolveRound_eq_scan .. ▸ h)
    | stop h => exact .stop (resolveRound_eq_scan .. ▸ h)
    | again h _ ih => exact .again (resolveRound_eq_scan .. ▸ h) ih

theorem resolveAccounts_eq_saturate (accounts : List IdlAccountSchema) (rounds : Nat)
    (m : Known) :
    resolveAccounts noble name programId accounts rounds m =
      saturate (accountRules noble name programId) accounts rounds m := by
  induction rounds generalizing m with
  | zero => rfl
  | succ rounds ih =>
      rw [resolveAccounts, saturate, resolveRound_eq_scan]
      refine bind_congr fun result => ?_
      obtain ⟨m', progress⟩ := result
      cases progress with
      | true => exact ih m'
      | false => rfl

/-- The loop ends, with what the rounds give that there is an account for. -/
theorem resolves_resolveAccounts (noble : Noble) (name : String) (programId : PublicKey)
    (accounts : List IdlAccountSchema) (known : Known) :
    Resolves noble name programId accounts known
      (resolveAccounts noble name programId accounts (accounts.length + 1) known) := by
  rw [resolves_iff, resolveAccounts_eq_saturate]
  exact ends_saturate (Nat.lt_succ_of_le (unresolved_le accounts known))

/-! ## What is derivable -/

theorem seedBytes_eq_some {m : Known} {seed : IdlSeed} :
    (∃ bytes, seedBytes name m seed = .ok (some bytes)) ↔
      (∃ value, seed = .const value) ∨ ∃ path, seed = .account path ∧ (m path).isSome = true := by
  cases seed with
  | const value => simp [seedBytes]
  | account path => simp [seedBytes, Option.isSome_iff_exists]
  | arg path => simp [seedBytes]

theorem seedValue_of_seedBytes {m : Known} {seed : IdlSeed} {bytes : List UInt8}
    (h : seedBytes name m seed = .ok (some bytes)) : SeedValue seed bytes := by
  cases seed with
  | const value =>
      cases h
      exact rfl
  | account path =>
      obtain ⟨key, _, rfl⟩ := Option.map_eq_some_iff.1 (Except.ok.inj h)
      exact ⟨key, rfl⟩
  | arg path => cases h

/-- The names that a table resolves. -/
def names (m : Known) : Set String := { n | (m n).isSome = true }

theorem mem_names {m : Known} {n : String} : n ∈ names m ↔ (m n).isSome = true := Iff.rfl

section WellFormed

variable {accounts : List IdlAccountSchema} (h : WellFormed accounts)

include h

theorem pdaOwner_eq_some {a : IdlAccountSchema} (ha : a ∈ accounts) {pda : IdlPda}
    (hpda : a.pda = some pda) (m : Known) :
    (∃ owner, pdaOwner programId m pda.program = .ok (some owner)) ↔
      OwnerIn (names m) pda.program := by
  cases hprogram : pda.program with
  | none => simp [pdaOwner, OwnerIn]
  | some seed =>
      cases seed with
      | const value =>
          have hlength : value.length = 32 := by
            have howner := h.owners a ha pda hpda
            rw [hprogram] at howner
            exact howner
          refine ⟨fun _ => trivial, fun _ => ⟨⟨value, hlength⟩, ?_⟩⟩
          show ((PublicKey.fromBytes value).map some).mapError _ = _
          rw [PublicKey.fromBytes, dif_pos hlength]
          rfl
      | account path => simp [pdaOwner, OwnerIn, mem_names, Option.isSome_iff_exists]
      | arg path => simp [pdaOwner, OwnerIn]

theorem pdaAddress_ok (htotal : FindsAddresses noble accounts) {a : IdlAccountSchema}
    (ha : a ∈ accounts) {pda : IdlPda} (hpda : a.pda = some pda) (m : Known) :
    ∃ o, pdaAddress noble name programId m pda = .ok o := by
  have hseed : ∀ seed ∈ pda.seeds, ∃ o, seedBytes name m seed = .ok o := by
    intro seed hseed
    cases seed with
    | const value => exact ⟨_, rfl⟩
    | account path => exact ⟨_, rfl⟩
    | arg path => exact absurd trivial (h.noArgs a ha pda hpda _ hseed)
  have howner : ∃ o, pdaOwner programId m pda.program = .ok o := by
    cases hprogram : pda.program with
    | none => exact ⟨_, rfl⟩
    | some seed =>
        cases seed with
        | const value =>
            have hin : OwnerIn (names m) pda.program := by
              rw [hprogram]
              exact trivial
            have howner : ∃ owner, pdaOwner programId m pda.program = .ok (some owner) :=
              (pdaOwner_eq_some h ha hpda m).2 hin
            obtain ⟨owner, howner⟩ := howner
            rw [hprogram] at howner
            exact ⟨_, howner⟩
        | account path => exact ⟨_, rfl⟩
        | arg path => exact ⟨_, rfl⟩
  obtain ⟨opts, hopts⟩ := exists_mapM_ok hseed
  obtain ⟨owner, howner⟩ := howner
  cases owner with
  | none =>
      refine ⟨none, ?_⟩
      rw [pdaAddress, hopts, howner]
      rfl
  | some owner =>
      cases hall : opts.mapM id with
      | none =>
          refine ⟨none, bind_eq_ok.2 ⟨opts, hopts, bind_eq_ok.2 ⟨some owner, howner, ?_⟩⟩⟩
          rw [hall]
          rfl
      | some seeds =>
          rw [mapM_id_eq_some.1 hall, mapM_eq_ok, List.forall₂_map_right_iff] at hopts
          obtain ⟨key, hkey⟩ := htotal a ha pda hpda seeds owner
            (hopts.imp fun _ _ => seedValue_of_seedBytes)
          exact ⟨some key, pdaAddress_eq_some.2 ⟨owner, seeds, howner, hopts, hkey⟩⟩

theorem pdaAddress_some_iff (htotal : FindsAddresses noble accounts) {a : IdlAccountSchema}
    (ha : a ∈ accounts) {pda : IdlPda} (hpda : a.pda = some pda) (m : Known) :
    (∃ key, pdaAddress noble name programId m pda = .ok (some key)) ↔
      (∀ path, .account path ∈ pda.seeds → path ∈ names m) ∧ OwnerIn (names m) pda.program := by
  constructor
  · rintro ⟨key, hkey⟩
    obtain ⟨owner, seeds, howner, hseeds, _⟩ := pdaAddress_eq_some.1 hkey
    refine ⟨fun path hpath => ?_, (pdaOwner_eq_some h ha hpda m).1 ⟨owner, howner⟩⟩
    rcases seedBytes_eq_some.1 (exists_forall₂_iff.1 ⟨seeds, hseeds⟩ _ hpath) with
      ⟨value, hvalue⟩ | ⟨path', hpath', hsome⟩
    · cases hvalue
    · cases hpath'
      exact hsome
  · rintro ⟨hpaths, howner⟩
    have howner : ∃ owner, pdaOwner programId m pda.program = .ok (some owner) :=
      (pdaOwner_eq_some h ha hpda m).2 howner
    obtain ⟨owner, howner⟩ := howner
    have hbytes : ∀ seed ∈ pda.seeds, ∃ bytes, seedBytes name m seed = .ok (some bytes) := by
      intro seed hseed
      rw [seedBytes_eq_some]
      cases seed with
      | const value => exact .inl ⟨value, rfl⟩
      | account path => exact .inr ⟨path, rfl, hpaths path hseed⟩
      | arg path => exact absurd trivial (h.noArgs a ha pda hpda _ hseed)
    obtain ⟨seeds, hseeds⟩ := exists_forall₂_iff.2 hbytes
    obtain ⟨key, hkey⟩ := htotal a ha pda hpda seeds owner
      (hseeds.imp fun _ _ => seedValue_of_seedBytes)
    exact ⟨key, pdaAddress_eq_some.2 ⟨owner, seeds, howner, hseeds, hkey⟩⟩

/-- No account throws. -/
theorem accountAddress_ok (htotal : FindsAddresses noble accounts) {a : IdlAccountSchema}
    (ha : a ∈ accounts) (m : Known) :
    ∃ o, accountAddress noble name programId m a = .ok o := by
  rcases accountAddress_cases noble name programId a with
    ⟨s, hs, heq⟩ | ⟨_, heq⟩ | ⟨_, _, pda, hpda, heq⟩ | ⟨_, _, _, heq⟩
  · obtain ⟨key, hkey⟩ := isOk_iff.1 (h.addresses a ha s hs)
    rw [heq, hkey]
    exact ⟨some key, rfl⟩
  · exact ⟨_, heq m⟩
  · rw [heq]
    exact pdaAddress_ok h htotal ha hpda m
  · exact ⟨_, heq m⟩

/-- An account has an address when it is derivable from what is resolved. -/
theorem accountAddress_some_iff (htotal : FindsAddresses noble accounts) {a : IdlAccountSchema}
    (ha : a ∈ accounts) (m : Known) :
    (∃ key, accountAddress noble name programId m a = .ok (some key)) ↔
      Derivable (names m) a := by
  unfold Derivable
  rcases accountAddress_cases noble name programId a with
    ⟨s, hs, heq⟩ | ⟨hname, heq⟩ | ⟨haddress, hname, pda, hpda, heq⟩ | ⟨haddress, hname, hpda, heq⟩
  · obtain ⟨key, hkey⟩ := isOk_iff.1 (h.addresses a ha s hs)
    refine ⟨fun _ => .inl (by rw [hs]; rfl), fun _ => ⟨key, ?_⟩⟩
    rw [heq, hkey]
    rfl
  · exact ⟨fun _ => .inr (.inl hname), fun _ => ⟨programId, heq m⟩⟩
  · rw [heq, pdaAddress_some_iff h htotal ha hpda m, haddress, hpda]
    simp [hname]
  · rw [heq, haddress, hpda]
    simp [hname]

end WellFormed

/-! ## What the loop leaves -/

theorem derivable_mono {S T : Set String} (hST : ∀ n ∈ S, n ∈ T) {a : IdlAccountSchema}
    (h : Derivable S a) : Derivable T a := by
  rcases h with haddress | hname | ⟨pda, hpda, hseeds, howner⟩
  · exact .inl haddress
  · exact .inr (.inl hname)
  · refine .inr (.inr ⟨pda, hpda, fun path hpath => hST path (hseeds path hpath), ?_⟩)
    cases hprogram : pda.program with
    | none => exact trivial
    | some seed =>
        rw [hprogram] at howner
        cases seed with
        | const value => exact trivial
        | account path => exact hST path howner
        | arg path => exact howner

/-- The names that are resolved in the end are those of the least closed set. -/
theorem names_eq_resolvable {accounts : List IdlAccountSchema} (h : WellFormed accounts)
    (htotal : FindsAddresses noble accounts)
    {known m : Known} (hends : Resolves noble name programId accounts known (.ok m)) :
    names m = resolvable accounts known := by
  have hends' := resolves_iff.1 hends
  apply Set.Subset.antisymm
  · intro n hn S hS
    have hadd : ∀ (s : Known) (a : IdlAccountSchema) (key : PublicKey), a ∈ accounts →
        (∀ n ∈ names s, n ∈ S) → s a.name = none →
        accountAddress noble name programId s a = .ok (some key) →
        ∀ n ∈ names (Function.update s a.name (some key)), n ∈ S := by
      intro s a key ha hs _ hkey n hn
      by_cases hname : n = a.name
      · subst hname
        have hderivable := (accountAddress_some_iff h htotal ha s).1 ⟨key, hkey⟩
        exact hS.derived a ha (derivable_mono hs hderivable)
      · rw [mem_names, Function.update_of_ne hname] at hn
        exact hs n hn
    exact ends_inv hadd hends' hS.keeps m rfl n hn
  · intro n hn
    refine hn (names m) ⟨fun n hknown => ?_, fun a ha hderivable => ?_⟩
    · obtain ⟨key, hkey⟩ := Option.isSome_iff_exists.1 hknown
      rw [mem_names, ends_extends hends' n key hkey]
      rfl
    · obtain ⟨key, hkey⟩ := (accountAddress_some_iff h htotal ha m).2 hderivable
      cases hm : m a.name with
      | some key' =>
          show (m a.name).isSome = true
          rw [hm]
          rfl
      | none =>
          have hquiet : accountAddress noble name programId m a = .ok none :=
            ends_quiet hends' a ha hm
          rw [hquiet] at hkey
          cases hkey

/-! ## What is thrown -/

theorem mapM_accountKey_missing_iff {accounts : List IdlAccountSchema} {m : Known} :
    (∃ account, accounts.mapM (accountKey name m) = .error (.accountMissing name account)) ↔
      ∃ a ∈ accounts, m a.name = none := by
  induction accounts with
  | nil => simp [pure, Except.pure]
  | cons a accounts ih =>
      rw [List.mapM_cons]
      cases ha : m a.name with
      | none =>
          have hthrows : accountKey name m a = .error (.accountMissing name a.name) := by
            rw [accountKey, ha]
          rw [hthrows]
          exact ⟨fun _ => ⟨a, List.mem_cons_self, ha⟩, fun _ => ⟨a.name, rfl⟩⟩
      | some pubkey =>
          have hkey : accountKey name m a =
              .ok { pubkey := pubkey, isSigner := a.signer, isWritable := a.writable } := by
            rw [accountKey, ha]
          have hhead : (∃ b ∈ a :: accounts, m b.name = none) ↔
              ∃ b ∈ accounts, m b.name = none := by
            simp [ha]
          rw [hhead, ← ih, hkey]
          refine exists_congr fun account => ?_
          show (accounts.mapM (accountKey name m) >>= fun keys => _) = _ ↔ _
          cases accounts.mapM (accountKey name m) with
          | error e => exact Iff.rfl
          | ok keys => exact ⟨(fun h => nomatch h), (fun h => nomatch h)⟩

/-- The data of an instruction never throw for an account. -/
theorem instructionData_ne_missing {schema : IdlProgramSchema} {ix : IdlInstructionSchema}
    {args : String → IdlValue} {account : String} :
    instructionData schema ix args ≠ .error (.accountMissing name account) := by
  unfold instructionData
  cases encodeIdlFields (argFields ix.args args) args schema.types with
  | error e => exact fun h => nomatch h
  | ok body => exact fun h => nomatch h

theorem build_missing_iff {schema : IdlProgramSchema} {ix : IdlInstructionSchema}
    {known m : Known} (hfind : findInstruction schema name = .ok ix)
    (hprogram : fromBase58 schema.address = .ok programId) (hname : ix.name = name)
    (hresolved : resolveAccounts noble name programId ix.accounts (ix.accounts.length + 1) known =
      .ok m) (args : String → IdlValue) (remaining : List AccountMeta) :
    (∃ account, buildIdlInstruction noble schema name known args remaining =
      .error (.accountMissing name account)) ↔ ∃ a ∈ ix.accounts, m a.name = none := by
  have hkeys : (∃ account, ix.accounts.mapM (accountKey name m) =
      .error (.accountMissing name account)) ↔ ∃ a ∈ ix.accounts, m a.name = none :=
    mapM_accountKey_missing_iff
  rw [← hkeys]
  refine exists_congr fun account => ?_
  unfold buildIdlInstruction instructionKeys
  rw [hfind]
  show ((fromBase58 schema.address >>= _) >>= _) = _ ↔ _
  rw [hprogram]
  show ((resolveAccounts noble ix.name programId ix.accounts _ known >>= _) >>= _) = _ ↔ _
  rw [hname, hresolved]
  show ((ix.accounts.mapM (accountKey name m) >>= _) >>= _) = _ ↔ _
  cases ix.accounts.mapM (accountKey name m) with
  | error e =>
      show (Except.error e : Build Instruction) = _ ↔ _
      rw [Except.error.injEq, Except.error.injEq]
  | ok keys =>
      show (instructionData schema ix args >>= _) = _ ↔ _
      cases hdata : instructionData schema ix args with
      | error e =>
          refine ⟨fun h => ?_, (fun h => nomatch h)⟩
          rw [Except.error.inj h] at hdata
          exact absurd hdata instructionData_ne_missing
      | ok data => exact ⟨(fun h => nomatch h), (fun h => nomatch h)⟩

theorem findInstruction_name {schema : IdlProgramSchema} {ix : IdlInstructionSchema}
    (h : findInstruction schema name = .ok ix) : ix.name = name := by
  unfold findInstruction at h
  split at h
  · rename_i found hfound
    cases h
    simpa using List.find?_some hfound
  · cases h

/-- The loop of `buildIdlInstruction` ends with the same names resolved whatever the order of
the accounts: those of the least set that is closed under the schema's rules, each known one
with the address it had.  The build asks for an account exactly when one is not in the set. -/
theorem account_resolution {schema : IdlProgramSchema} {ix : IdlInstructionSchema}
    {known : Known} (hfind : findInstruction schema name = .ok ix)
    (hprogram : fromBase58 schema.address = .ok programId) (h : WellFormed ix.accounts)
    (htotal : FindsAddresses noble ix.accounts) (args : String → IdlValue)
    (remaining : List AccountMeta) :
    ∃ m, (∀ accounts, accounts.Perm ix.accounts →
        Resolves noble name programId accounts known (.ok m)) ∧
      (∀ n key, known n = some key → m n = some key) ∧
      (∀ n, (m n).isSome = true ↔ n ∈ resolvable ix.accounts known) ∧
      ((∃ account, buildIdlInstruction noble schema name known args remaining =
        .error (.accountMissing name account)) ↔
          ∃ a ∈ ix.accounts, a.name ∉ resolvable ix.accounts known) := by
  have hends : ∀ accounts, accounts.Perm ix.accounts →
      ∃ m, resolveAccounts noble name programId accounts (accounts.length + 1) known = .ok m ∧
        Resolves noble name programId accounts known (.ok m) := by
    intro accounts hperm
    have hloop := resolves_resolveAccounts noble name programId accounts known
    have hok : ∀ a ∈ accounts, ∀ m, ∃ o, accountAddress noble name programId m a = .ok o :=
      fun a ha m => accountAddress_ok h htotal (hperm.mem_iff.1 ha) m
    obtain ⟨m, hm⟩ := ends_ok hok (resolves_iff.1 hloop)
    rw [hm] at hloop
    exact ⟨m, hm, hloop⟩
  obtain ⟨m, hresolved, hm⟩ := hends ix.accounts (List.Perm.refl _)
  have hnames := names_eq_resolvable h htotal hm
  refine ⟨m, fun accounts hperm => ?_, ends_extends (resolves_iff.1 hm), fun n => ?_, ?_⟩
  · obtain ⟨m', _, hm'⟩ := hends accounts hperm
    have hsame : m' = m :=
      ends_unique hperm h.distinct (resolves_iff.1 hm) (resolves_iff.1 hm')
    exact hsame ▸ hm'
  · rw [← hnames, mem_names]
  · rw [build_missing_iff hfind hprogram (findInstruction_name hfind) hresolved]
    refine exists_congr fun a => and_congr_right fun _ => ?_
    rw [← hnames, mem_names, Option.not_isSome_iff_eq_none]

/-! ## A vault before its mint -/

theorem findAddress_toyNoble {seeds : List (List UInt8)} (owner : PublicKey)
    (hcount : seeds.length ≤ maxSeeds) (hlength : ∀ s ∈ seeds, s.length ≤ maxSeedLength) :
    ∃ key, findAddress toyNoble seeds owner = .ok key := by
  have hhash : ∀ bytes : List UInt8, (toyNoble.sha256 bytes).length = 32 := by
    intro bytes
    show ((bytes ++ List.replicate 32 0).take 32).length = 32
    rw [List.length_take, List.length_append, List.length_replicate]
    omega
  have hshort : seeds.findIdx? (fun s => s.length > maxSeedLength) = none := by
    rw [List.findIdx?_eq_none_iff]
    intro s hs
    exact decide_eq_false (Nat.not_lt.2 (hlength s hs))
  unfold findAddress findProgramAddress
  rw [if_neg (Nat.not_lt.2 hcount), hshort]
  show ∃ key, ((searchBump toyNoble seeds.flatten owner (255 + 1)).map _).mapError _ = _
  have hoff : ∀ bytes, ¬ toyNoble.isOnCurve bytes = true := fun _ => Bool.false_ne_true
  rw [searchBump, if_neg (hoff _), PublicKey.fromBytes, dif_pos (hhash _)]
  exact ⟨_, rfl⟩

/-- The vault's address is derived from the mint's, which comes behind it. -/
def vaultInstruction : IdlInstructionSchema where
  name := "open"
  discriminator := "0102"
  accounts := [derived "vault" true false [.account "mint"] none,
    derived "mint" false false [.const [1]] none, given "user" true true]
  args := []

def vaultSchema : IdlProgramSchema where
  address := (PublicKey.ofByte 7).toBase58
  types := fun _ => none
  instructions := [vaultInstruction]

theorem wellFormed_vault : WellFormed vaultInstruction.accounts :=
  ⟨by decide, by decide, by decide, by decide⟩

theorem findsAddresses_vault : FindsAddresses toyNoble vaultInstruction.accounts := by
  intro a ha pda hpda seeds owner hseeds
  have hone : ∃ seed, pda.seeds = [seed] ∧ ∀ bytes, SeedValue seed bytes → bytes.length ≤ 32 := by
    simp only [vaultInstruction, List.mem_cons, List.not_mem_nil, or_false] at ha
    rcases ha with rfl | rfl | rfl
    · cases hpda
      refine ⟨_, rfl, ?_⟩
      rintro bytes ⟨key, rfl⟩
      exact Nat.le_of_eq key.size
    · cases hpda
      refine ⟨_, rfl, ?_⟩
      rintro bytes rfl
      decide
    · cases hpda
  obtain ⟨seed, hseed, hshort⟩ := hone
  rw [hseed, List.forall₂_cons_left_iff] at hseeds
  obtain ⟨bytes, rest, hbytes, hrest, rfl⟩ := hseeds
  rw [List.forall₂_nil_left_iff] at hrest
  subst hrest
  have hall : ∀ s ∈ [bytes], s.length ≤ maxSeedLength :=
    List.forall_mem_singleton.2 (hshort bytes hbytes)
  exact findAddress_toyNoble owner (Nat.le_add_left 1 15) hall

theorem account_resolution_vaultSchema :
    ∃ m, (∀ accounts, accounts.Perm vaultInstruction.accounts →
        Resolves toyNoble "open" (.ofByte 7) accounts (fun _ => none) (.ok m)) ∧
      (∀ n key, (none : Option PublicKey) = some key → m n = some key) ∧
      (∀ n, (m n).isSome = true ↔ n ∈ resolvable vaultInstruction.accounts (fun _ => none)) ∧
      ((∃ account, buildIdlInstruction toyNoble vaultSchema "open" (fun _ => none)
          (fun _ => .undefined) [] = .error (.accountMissing "open" account)) ↔
        ∃ a ∈ vaultInstruction.accounts,
          a.name ∉ resolvable vaultInstruction.accounts (fun _ => none)) := by
  have hprogram : fromBase58 vaultSchema.address = .ok (.ofByte 7) := by
    show (PublicKey.fromBase58 (PublicKey.ofByte 7).toBase58).mapError _ = _
    rw [PublicKey.fromBase58_toBase58]
    rfl
  exact account_resolution rfl hprogram wellFormed_vault findsAddresses_vault _ []

end Ap3xSolana.Pumpfun.AccountResolution
