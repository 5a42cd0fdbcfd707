import Ap3xSolana.Lib.Run
import Ap3xSolana.Lib.Table
import Ap3xSolana.Vault.Keys

/-!
# No key is replaced by accident

`SealedIn` ties a record to the seed in it; with authenticated encryption there is only
one.  `KeepsKey` is what a write must not do, `unraced` what must not have happened since
the call's read, and the two agree in every reachable state (`Inv.write_iff`).
-/

namespace Ap3xSolana.Vault.Keys

open Ap3xSolana.Core Ap3xSolana.Lib Ap3xSolana.Lib.Run

/-! ## Seeds and writes -/

/-- `crypto_secretbox` opens what it sealed, and under any key gives nothing else. -/
structure Authenticated (sodium : KeySodium) : Prop where
  opens : ∀ plaintext nonce key, key.length = 32 → nonce.length = 24 →
    sodium.secretboxOpenEasy (sodium.secretboxEasy plaintext nonce key) nonce key =
      .ok plaintext
  authentic : ∀ plaintext plaintext' nonce key key', key.length = 32 →
    nonce.length = 24 → key'.length = 32 →
    sodium.secretboxOpenEasy (sodium.secretboxEasy plaintext nonce key) nonce key' =
      .ok plaintext' → plaintext' = plaintext

/-- The record seals the seed, under some key. -/
def SealedIn (sodium : KeySodium) (record : EncryptedRecord) (seed : List UInt8) : Prop :=
  ∃ key, key.length = 32 ∧ record.nonce.length = 24 ∧
    record.ciphertext = sodium.secretboxEasy seed record.nonce key

/-- The seed that an event writes under the name. -/
def writeOf (name : String) : Event → Option (List UInt8)
  | .read _ => none
  | .wrote _ name' seed => if name' = name then some seed else none

/-- The seed that was last written under the name. -/
def lastWrite (name : String) (events : List Event) : Option (List UInt8) :=
  events.reverse.findSome? (writeOf name)

/-- What happened after the call's read. -/
def since (call : Nat) (events : List Event) : List Event :=
  (events.reverse.takeWhile (· ≠ .read call)).reverse

theorem lastWrite_concat (name : String) (events : List Event) (e : Event) :
    lastWrite name (events ++ [e]) = (writeOf name e).or (lastWrite name events) := by
  unfold lastWrite
  rw [List.reverse_append, List.reverse_singleton, List.singleton_append,
    List.findSome?_cons]
  cases writeOf name e <;> rfl

theorem since_concat (call : Nat) (events : List Event) (e : Event) :
    since call (events ++ [e]) = if e = .read call then [] else since call events ++ [e] := by
  unfold since
  rw [List.reverse_append, List.reverse_singleton, List.singleton_append,
    List.takeWhile_cons]
  by_cases h : e = .read call
  · simp [h]
  · simp [h]

/-- The last write since the read is the last one altogether. -/
theorem lastWrite_of_since {name : String} {call : Nat} {events : List Event}
    {seed : List UInt8} (h : lastWrite name (since call events) = some seed) :
    lastWrite name events = some seed := by
  unfold lastWrite since at h
  rw [List.reverse_reverse] at h
  unfold lastWrite
  rw [← List.takeWhile_append_dropWhile (p := (· ≠ .read call)) (l := events.reverse),
    List.findSome?_append, h, Option.some_or]

/-! ## The property and the condition -/

/-- A write of `addWallet` without `overwrite` replaces nothing, and one of `rotateKey`
puts back the seed that is stored. -/
def KeepsKey (opts : KeyOptions) (st : State) : Action → State → Prop
  | .wrote i none, _ =>
      match st.calls[i]? with
      | some ⟨.addWallet name _ _ _ false, .writing _ _⟩ => st.storage name = none
      | some ⟨.rotateKey name .., .writing _ seed⟩ =>
          ∃ record, st.storage name = some record ∧
            ∀ s, SealedIn opts.sodium record s → s = seed
      | _ => True
  | _, _ => True

/-- Since the read of `addWallet` without `overwrite` nothing was written under the name;
since that of `rotateKey` nothing was, or the same seed last. -/
def unraced (st : State) : Action → Bool
  | .wrote i none =>
      match st.calls[i]? with
      | some ⟨.addWallet name _ _ _ false, .writing _ _⟩ =>
          (lastWrite name (since i st.events)).isNone
      | some ⟨.rotateKey name .., .writing _ seed⟩ =>
          (lastWrite name (since i st.events)).all (· = seed)
      | _ => true
  | _ => true

/-- A stored seed stays stored, except where an `addWallet` with `overwrite` writes. -/
def SeedKept (opts : KeyOptions) (st : State) (a : Action) (st' : State) : Prop :=
  ∀ name record seed, st.storage name = some record → SealedIn opts.sodium record seed →
    (∃ record', st'.storage name = some record' ∧ SealedIn opts.sodium record' seed) ∨
    ∃ i role secretKey passphrase record' seed', a = .wrote i none ∧
      st.calls[i]? =
        some ⟨.addWallet name role secretKey passphrase true, .writing record' seed'⟩

/-! ## What a call knows -/

/-- The record opens under the passphrase and gives the seed. -/
def Opens (opts : KeyOptions) (passphrase : String) (record : EncryptedRecord)
    (seed : List UInt8) : Prop :=
  ∃ key, deriveKey opts.sodium.toSodium passphrase record.salt record.opslimit
      record.memlimit = .ok key ∧
    decrypt opts.sodium.toSodium key record.nonce record.ciphertext = .ok seed

/-- What is true of the storage between a call's read and its write, as long as nothing
is written under the name. -/
def Untouched (opts : KeyOptions) (stored : Option EncryptedRecord) : Call → Prop
  | ⟨.addWallet _ _ _ _ false, .sealing ..⟩ => stored = none
  | ⟨.addWallet _ _ _ _ false, .writing ..⟩ => stored = none
  | ⟨.rotateKey .., .opening record⟩ => stored = some record
  | ⟨.rotateKey _ oldPassphrase _, .sealing _ _ seed⟩ =>
      ∃ record, stored = some record ∧ Opens opts oldPassphrase record seed
  | ⟨.rotateKey _ oldPassphrase _, .writing _ seed⟩ =>
      ∃ record, stored = some record ∧ Opens opts oldPassphrase record seed
  | _ => True

/-- `rotateKey` has found a record. -/
def Call.hasFound : Call → Bool
  | ⟨.rotateKey .., .opening _⟩ => true
  | ⟨.rotateKey .., .sealing ..⟩ => true
  | ⟨.rotateKey .., .writing ..⟩ => true
  | _ => false

structure CallInv (opts : KeyOptions) (st : State) (i : Nat) (x : Call) : Prop where
  untouched : lastWrite x.request.name (since i st.events) = none →
    Untouched opts (st.storage x.request.name) x
  found : x.hasFound = true → st.storage x.request.name ≠ none
  sealed : ∀ record seed, x.stage = .writing record seed → SealedIn opts.sodium record seed

structure Inv (opts : KeyOptions) (st : State) : Prop where
  stored : ∀ name seed, lastWrite name st.events = some seed →
    ∃ record, st.storage name = some record ∧ SealedIn opts.sodium record seed
  calls : ∀ i x, st.calls[i]? = some x → CallInv opts st i x

theorem inv_init (opts : KeyOptions) (storage : String → Option EncryptedRecord) :
    Inv opts { storage := storage } where
  stored _ _ h := by cases h
  calls _ _ h := by simp at h

/-! ## What a step does -/

/-- From one stage of a call to the next without the storage. -/
inductive Quiet (opts : KeyOptions) : Request → Stage → Stage → Prop where
  | opened {name oldPassphrase newPassphrase : String} {record : EncryptedRecord}
      {seed : List UInt8} (h : Opens opts oldPassphrase record seed) :
      Quiet opts (.rotateKey name oldPassphrase newPassphrase) (.opening record)
        (.sealing record.role record.address seed)
  | sealed {request : Request} {role address : String} {record : EncryptedRecord}
      {seed : List UInt8} (h : SealedIn opts.sodium record seed) :
      Quiet opts request (.sealing role address seed) (.writing record seed)
  | settled {request : Request} {stage : Stage} (result : Except KeyError Unit) :
      Quiet opts request stage (.settled result)

/-- What a step of a call does to the storage and the events. -/
inductive Moves (opts : KeyOptions) (st st' : State) (i : Nat) (request : Request) :
    Action → Stage → Stage → Prop where
  | quiet {a : Action} {stage stage' : Stage} (h : Quiet opts request stage stage')
      (hstorage : st'.storage = st.storage) (hevents : st'.events = st.events) :
      Moves opts st st' i request a stage stage'
  | read (hstorage : st'.storage = st.storage) (hevents : st'.events = st.events ++ [.read i]) :
      Moves opts st st' i request (.read i none) .reading
        (found opts request (st.storage request.name))
  | wrote (record : EncryptedRecord) (seed : List UInt8)
      (hstorage : st'.storage = Function.update st.storage request.name (some record))
      (hevents : st'.events = st.events ++ [.wrote i request.name seed]) :
      Moves opts st st' i request (.wrote i none) (.writing record seed) .auditing

theorem openOld_quiet (opts : KeyOptions) (name oldPassphrase newPassphrase : String)
    (record : EncryptedRecord) :
    Quiet opts (.rotateKey name oldPassphrase newPassphrase) (.opening record)
      (openOld opts oldPassphrase record) := by
  unfold openOld
  split
  · exact .settled _
  · rename_i key hkey
    split
    · exact .settled _
    · rename_i seed hseed
      exact .opened ⟨key, hkey, hseed⟩

theorem sealUnder_quiet (opts : KeyOptions) (request : Request) (role address : String)
    (seed salt : List UInt8) {nonce : List UInt8} (hnonce : nonce.length = 24) :
    Quiet opts request (.sealing role address seed)
      (sealUnder opts request.passphrase role address seed salt nonce) := by
  unfold sealUnder
  split
  · exact .settled _
  · rename_i key _
    unfold encrypt
    split
    · exact .settled _
    · rename_i ciphertext hencrypt
      split at hencrypt
      · cases hencrypt
      · rename_i hkey
        cases hencrypt
        exact .sealed ⟨key, not_not.1 hkey, hnonce, rfl⟩

theorem step_cases {opts : KeyOptions} {st st' : State} {a : Action}
    (h : step opts st a = some st') :
    (∃ request, a = .call request ∧ st'.storage = st.storage ∧ st'.events = st.events ∧
      st'.calls = st.calls ++ [⟨request, begin opts request⟩]) ∨
    ∃ i request stage stage', st.calls[i]? = some ⟨request, stage⟩ ∧
      st'.calls = st.calls.set i ⟨request, stage'⟩ ∧
      Moves opts st st' i request a stage stage' := by
  cases a with
  | call request =>
      left
      cases h
      exact ⟨request, rfl, rfl, rfl, rfl⟩
  | read i failure =>
      right
      simp only [step] at h
      split at h
      · rename_i request hcall
        cases h
        cases failure with
        | some message =>
            exact ⟨i, request, _, _, hcall, rfl, .quiet (.settled _) rfl rfl⟩
        | none => exact ⟨i, request, _, _, hcall, rfl, .read rfl rfl⟩
      · cases h
  | opened i =>
      right
      simp only [step] at h
      split at h
      · rename_i name oldPassphrase newPassphrase record hcall
        cases h
        exact ⟨i, _, _, _, hcall, rfl, .quiet (openOld_quiet opts name _ _ record) rfl rfl⟩
      · cases h
  | sealed i salt nonce =>
      right
      simp only [step] at h
      split at h
      · rename_i request role address seed hcall
        split at h
        · rename_i hlen
          cases h
          exact ⟨i, request, _, _, hcall, rfl,
            .quiet (sealUnder_quiet opts request role address seed salt hlen.2) rfl rfl⟩
        · cases h
      · cases h
  | wrote i failure =>
      right
      simp only [step] at h
      split at h
      · rename_i request record seed hcall
        cases h
        cases failure with
        | some message =>
            exact ⟨i, request, _, _, hcall, rfl, .quiet (.settled _) rfl rfl⟩
        | none => exact ⟨i, request, _, _, hcall, rfl, .wrote record seed rfl rfl⟩
      · cases h
  | audited i failure =>
      right
      simp only [step] at h
      split at h
      · rename_i request hcall
        cases h
        cases failure with
        | some message =>
            exact ⟨i, request, _, _, hcall, rfl, .quiet (.settled _) rfl rfl⟩
        | none => exact ⟨i, request, _, _, hcall, rfl, .quiet (.settled _) rfl rfl⟩
      · cases h

/-! ## The invariant -/

/-- What a call knows survives anything that happens after its read, except a write
under the name. -/
theorem CallInv.frame {opts : KeyOptions} {st st' : State} {i : Nat} {x : Call}
    (h : CallInv opts st i x)
    (hquiet : lastWrite x.request.name (since i st'.events) = none →
      lastWrite x.request.name (since i st.events) = none ∧
        st'.storage x.request.name = st.storage x.request.name)
    (hkept : st.storage x.request.name ≠ none → st'.storage x.request.name ≠ none) :
    CallInv opts st' i x where
  untouched hnone := by
    obtain ⟨hold, hsame⟩ := hquiet hnone
    rw [hsame]
    exact h.untouched hold
  found hfound := hkept (h.found hfound)
  sealed := h.sealed

/-- The call knows nothing about the storage. -/
def Stage.idle : Stage → Bool
  | .reading => true
  | .auditing => true
  | .settled _ => true
  | _ => false

theorem callInv_idle (opts : KeyOptions) (st : State) (i : Nat) (request : Request)
    {stage : Stage} (h : stage.idle = true) : CallInv opts st i ⟨request, stage⟩ := by
  refine ⟨fun _ => ?_, fun hfound => ?_, fun record seed hstage => ?_⟩
  · cases request with
    | addWallet name role secretKey passphrase overwrite =>
        cases overwrite <;> cases stage <;> trivial
    | rotateKey name oldPassphrase newPassphrase =>
        cases stage <;> trivial
  · cases stage <;> cases h <;> cases request <;> cases hfound
  · dsimp only at hstage
    rw [hstage] at h
    cases h

theorem callInv_adding {opts : KeyOptions} {st : State} (i : Nat)
    {name role role' address passphrase : String} {secretKey seed : List UInt8}
    {overwrite : Bool} (h : overwrite = false → st.storage name = none) :
    CallInv opts st i
      ⟨.addWallet name role secretKey passphrase overwrite, .sealing role' address seed⟩ := by
  refine ⟨fun _ => ?_, fun hfound => ?_, fun record s hstage => ?_⟩
  · cases overwrite with
    | true => trivial
    | false => exact h rfl
  · cases hfound
  · cases hstage

/-- What the call has just read is what is stored. -/
theorem callInv_found (opts : KeyOptions) (st : State) (i : Nat) (request : Request) :
    CallInv opts st i ⟨request, found opts request (st.storage request.name)⟩ := by
  cases hstored : st.storage request.name with
  | none =>
      cases request with
      | addWallet name role secretKey passphrase overwrite =>
          cases overwrite with
          | false => exact callInv_adding i fun _ => hstored
          | true => exact callInv_adding i nofun
      | rotateKey name oldPassphrase newPassphrase => exact callInv_idle opts st i _ rfl
  | some record =>
      cases request with
      | addWallet name role secretKey passphrase overwrite =>
          cases overwrite with
          | false => exact callInv_idle opts st i _ rfl
          | true => exact callInv_adding i nofun
      | rotateKey name oldPassphrase newPassphrase =>
          refine ⟨fun _ => hstored, fun _ hnone => ?_, fun record' seed hstage => ?_⟩
          · rw [hstored] at hnone
            cases hnone
          · cases hstage

theorem CallInv.quiet {opts : KeyOptions} {st st' : State} {i : Nat} {request : Request}
    {stage stage' : Stage} (h : CallInv opts st i ⟨request, stage⟩)
    (hquiet : Quiet opts request stage stage') (hstorage : st'.storage = st.storage)
    (hevents : st'.events = st.events) : CallInv opts st' i ⟨request, stage'⟩ := by
  have hframe : CallInv opts st' i ⟨request, stage⟩ :=
    h.frame (by rw [hevents, hstorage]; exact fun hnone => ⟨hnone, rfl⟩)
      (by rw [hstorage]; exact id)
  cases hquiet with
  | @opened name oldPassphrase newPassphrase record seed hopens =>
      refine ⟨fun hnone => ⟨record, hframe.untouched hnone, hopens⟩, fun _ => ?_,
        fun _ _ hstage => by cases hstage⟩
      exact hframe.found rfl
  | @sealed _ role address record seed hsealed =>
      refine ⟨fun hnone => ?_, fun hfound => ?_, fun record' seed' hstage => ?_⟩
      · have hold := hframe.untouched hnone
        cases request with
        | addWallet name role' secretKey passphrase overwrite =>
            cases overwrite with
            | true => trivial
            | false => exact hold
        | rotateKey name oldPassphrase newPassphrase => exact hold
      · cases request with
        | addWallet name role' secretKey passphrase overwrite => cases hfound
        | rotateKey name oldPassphrase newPassphrase => exact hframe.found rfl
      · cases hstage
        exact hsealed
  | settled result => exact callInv_idle opts st' i request rfl

theorem begin_idle (opts : KeyOptions) (request : Request) :
    (begin opts request).idle = true := by
  unfold begin
  dsimp only
  split <;> rfl

/-- A step of another call. -/
theorem Moves.frame {opts : KeyOptions} {st st' : State} {i j : Nat} {request : Request}
    {a : Action} {stage stage' : Stage} (hmove : Moves opts st st' i request a stage stage')
    (hne : j ≠ i) {x : Call} (h : CallInv opts st j x) : CallInv opts st' j x := by
  cases hmove with
  | quiet _ hstorage hevents =>
      exact h.frame (by rw [hevents, hstorage]; exact fun hnone => ⟨hnone, rfl⟩)
        (by rw [hstorage]; exact id)
  | read hstorage hevents =>
      refine h.frame (fun hnone => ?_) (by rw [hstorage]; exact id)
      have hother : ¬ Event.read i = .read j := fun heq => hne (Event.read.inj heq).symm
      rw [hevents, since_concat, if_neg hother, lastWrite_concat] at hnone
      exact ⟨hnone, by rw [hstorage]⟩
  | wrote record seed hstorage hevents =>
      refine h.frame (fun hnone => ?_) fun hsome => ?_
      · rw [hevents, since_concat, if_neg nofun, lastWrite_concat, writeOf] at hnone
        split at hnone
        · cases hnone
        · rename_i hname
          refine ⟨hnone, ?_⟩
          rw [hstorage, Function.update_of_ne (Ne.symm hname)]
      · rw [hstorage]
        by_cases hname : x.request.name = request.name
        · rw [hname, Function.update_self]
          exact Option.some_ne_none record
        · rwa [Function.update_of_ne hname]

theorem Inv.step {opts : KeyOptions} {st st' : State} {a : Action} (h : Inv opts st)
    (hstep : Keys.step opts st a = some st') : Inv opts st' := by
  rcases step_cases hstep with ⟨request, -, hstorage, hevents, hcalls⟩ |
    ⟨i, request, stage, stage', hi, hcalls, hmove⟩
  · refine ⟨fun name seed hlast => ?_, fun j x hj => ?_⟩
    · rw [hevents] at hlast
      rw [hstorage]
      exact h.stored name seed hlast
    · rw [hcalls, Table.getElem?_added] at hj
      split at hj
      · cases hj
        exact callInv_idle opts st' j request (begin_idle opts request)
      · exact (h.calls j x hj).frame
          (by rw [hevents, hstorage]; exact fun hnone => ⟨hnone, rfl⟩)
          (by rw [hstorage]; exact id)
  · have hself := h.calls i _ hi
    refine ⟨fun name seed hlast => ?_, fun j x hj => ?_⟩
    · cases hmove with
      | quiet _ hstorage hevents =>
          rw [hevents] at hlast
          rw [hstorage]
          exact h.stored name seed hlast
      | read hstorage hevents =>
          rw [hevents, lastWrite_concat] at hlast
          rw [hstorage]
          exact h.stored name seed hlast
      | wrote record seed' hstorage hevents =>
          rw [hevents, lastWrite_concat, writeOf] at hlast
          rw [hstorage]
          split at hlast
          · rename_i hname
            cases hlast
            rw [← hname, Function.update_self]
            exact ⟨record, rfl, hself.sealed record _ rfl⟩
          · rename_i hname
            rw [Function.update_of_ne (Ne.symm hname)]
            exact h.stored name seed hlast
    · rw [hcalls, Table.getElem?_replaced hi] at hj
      split at hj
      · rename_i hji
        subst hji
        cases hj
        cases hmove with
        | quiet hquiet hstorage hevents => exact hself.quiet hquiet hstorage hevents
        | read hstorage hevents =>
            rw [← hstorage]
            exact callInv_found opts st' j request
        | wrote record seed hstorage hevents => exact callInv_idle opts st' j request rfl
      · rename_i hji
        exact hmove.frame hji (h.calls j x hj)

/-! ## Writes -/

/-- A seed that a record opens to is the only one in it. -/
theorem Opens.unique {opts : KeyOptions} (hauth : Authenticated opts.sodium)
    {passphrase : String} {record : EncryptedRecord} {seed s : List UInt8}
    (h : Opens opts passphrase record seed) (hs : SealedIn opts.sodium record s) :
    s = seed := by
  obtain ⟨key, -, hdecrypt⟩ := h
  obtain ⟨key', hkey', hnonce, hcipher⟩ := hs
  unfold decrypt at hdecrypt
  split at hdecrypt
  · cases hdecrypt
  · rename_i hkey
    rw [if_neg (not_not.2 hnonce), hcipher] at hdecrypt
    exact (hauth.authentic s seed record.nonce key' key hkey' hnonce (not_not.1 hkey)
      hdecrypt).symm

theorem SealedIn.unique {sodium : KeySodium} (hauth : Authenticated sodium)
    {record : EncryptedRecord} {seed s : List UInt8} (h : SealedIn sodium record seed)
    (hs : SealedIn sodium record s) : s = seed := by
  obtain ⟨key, hkey, hnonce, hcipher⟩ := h
  obtain ⟨key', hkey', -, hcipher'⟩ := hs
  have hopen := hauth.opens s record.nonce key' hkey' hnonce
  rw [← hcipher', hcipher] at hopen
  exact hauth.authentic seed s record.nonce key key' hkey hnonce hkey' hopen

/-- The write keeps keys exactly when it was not raced. -/
theorem Inv.write_iff {opts : KeyOptions} (hauth : Authenticated opts.sodium) {st : State}
    (h : Inv opts st) (a : Action) (st' : State) :
    KeepsKey opts st a st' ↔ unraced st a = true := by
  unfold KeepsKey unraced
  split
  · rename_i i
    cases hi : st.calls[i]? with
    | none => simp [hi]
    | some x =>
        have hx := h.calls i x hi
        obtain ⟨request, stage⟩ := x
        simp only [hi]
        cases stage with
        | writing record seed =>
            cases request with
            | addWallet name role secretKey passphrase overwrite =>
                cases overwrite with
                | true => simp
                | false =>
                    dsimp only
                    rw [Option.isNone_iff_eq_none]
                    refine ⟨fun hnone => ?_, hx.untouched⟩
                    by_contra hsome
                    obtain ⟨s, hs⟩ := Option.ne_none_iff_exists'.1 hsome
                    obtain ⟨record', hrecord', -⟩ := h.stored name s (lastWrite_of_since hs)
                    rw [hnone] at hrecord'
                    cases hrecord'
            | rotateKey name oldPassphrase newPassphrase =>
                dsimp only
                cases hlast : lastWrite name (since i st.events) with
                | none =>
                    obtain ⟨record', hrecord', hopens⟩ := hx.untouched hlast
                    refine ⟨fun _ => rfl, fun _ => ⟨record', hrecord', ?_⟩⟩
                    exact fun s hs => hopens.unique hauth hs
                | some last =>
                    obtain ⟨record', hrecord', hsealed⟩ :=
                      h.stored name last (lastWrite_of_since hlast)
                    rw [Option.all_some, decide_eq_true_iff]
                    constructor
                    · rintro ⟨record'', hrecord'', honly⟩
                      rw [hrecord'] at hrecord''
                      cases hrecord''
                      exact honly last hsealed
                    · rintro rfl
                      exact ⟨record', hrecord', fun s hs => hsealed.unique hauth hs⟩
        | _ => cases request <;> simp
  · rename_i hother
    simp only

/-- A write that keeps keys leaves every other seed stored. -/
theorem Inv.seedKept {opts : KeyOptions} {st st' : State} {a : Action} (h : Inv opts st)
    (hstep : Keys.step opts st a = some st') (hkeeps : KeepsKey opts st a st') :
    SeedKept opts st a st' := by
  intro name record seed hrecord hsealed
  have hsame : st'.storage = st.storage →
      ∃ record', st'.storage name = some record' ∧ SealedIn opts.sodium record' seed := by
    intro hstorage
    rw [hstorage]
    exact ⟨record, hrecord, hsealed⟩
  rcases step_cases hstep with ⟨_, -, hstorage, -, -⟩ | ⟨i, request, stage, stage', hi, -, hmove⟩
  · exact .inl (hsame hstorage)
  · cases hmove with
    | quiet _ hstorage _ => exact .inl (hsame hstorage)
    | read hstorage _ => exact .inl (hsame hstorage)
    | wrote record' seed' hstorage hevents =>
        by_cases hname : name = request.name
        · subst hname
          unfold KeepsKey at hkeeps
          simp only [hi] at hkeeps
          cases request with
          | addWallet name role secretKey passphrase overwrite =>
              cases overwrite with
              | true => exact .inr ⟨i, role, secretKey, passphrase, record', seed', rfl, hi⟩
              | false =>
                  have hnone : st.storage name = none := hkeeps
                  have hsome : st.storage name = some record := hrecord
                  rw [hnone] at hsome
                  cases hsome
          | rotateKey name oldPassphrase newPassphrase =>
              obtain ⟨record'', hrecord'', honly⟩ := hkeeps
              have hsome : st.storage name = some record := hrecord
              rw [hsome] at hrecord''
              cases hrecord''
              refine .inl ⟨record', ?_, ?_⟩
              · rw [hstorage, Function.update_self]
              · rw [honly seed hsealed]
                exact (h.calls i _ hi).sealed record' seed' rfl
        · refine .inl ⟨record, ?_, hsealed⟩
          rw [hstorage, Function.update_of_ne hname, hrecord]

/-- No `addWallet` without `overwrite` replaces a record and no `rotateKey` puts back an
old seed exactly as long as no write is raced, and then a stored seed is only ever lost to
an explicit overwrite. -/
theorem keepsKey_iff (opts : KeyOptions) (hauth : Authenticated opts.sodium)
    (storage : String → Option EncryptedRecord) (acts : List Action) :
    (Along (step opts) (KeepsKey opts) { storage := storage } acts ↔
      Along (step opts) (fun st a _ => unraced st a = true) { storage := storage } acts) ∧
    (Along (step opts) (fun st a _ => unraced st a = true) { storage := storage } acts →
      Along (step opts) (SeedKept opts) { storage := storage } acts) := by
  constructor
  · refine along_iff_of_inv (Inv opts) (fun st a st' h _ => h.write_iff hauth a st') ?_
      acts _ (inv_init opts storage)
    exact fun st a st' h hstep _ => h.step hstep
  · refine along_of_inv (Inv opts) (fun st a st' h hstep hunraced => ?_) acts _
      (inv_init opts storage)
    exact ⟨h.seedKept hstep ((h.write_iff hauth a st').2 hunraced), h.step hstep⟩

/-! ## Two writers -/

section Races

/-- A box that shows its key. -/
def plainSodium : KeySodium where
  pwhash passphrase _ _ _ :=
    .ok (((passphrase.toList.map fun (c : Char) => c.toNat.toUInt8) ++ List.replicate 32 0).take 32)
  secretboxOpenEasy ciphertext _ key :=
    if ciphertext.take 32 = key then .ok (ciphertext.drop 32) else .error "wrong key"
  ed25519Sign _ _ := []
  secretboxEasy plaintext _ key := key ++ plaintext
  getPublicKey _ := .ofByte 7

theorem plainSodium_authenticated : Authenticated plainSodium where
  opens plaintext nonce key hkey _ := by
    simp [plainSodium, List.take_left' hkey, List.drop_left' hkey]
  authentic plaintext plaintext' nonce key key' hkey _ _ hopen := by
    simp only [plainSodium, List.take_left' hkey, List.drop_left' hkey] at hopen
    split at hopen
    · cases hopen
      rfl
    · cases hopen

def plainOptions : KeyOptions := { sodium := plainSodium, opslimit := 1, memlimit := 1 }

def addMain (b : UInt8) : Request :=
  .addWallet "main" "trader" (List.replicate 32 b) "Correct-horse-1" false

def salted (i : Nat) : Action := .sealed i (List.replicate 16 0) (List.replicate 24 0)

/-- A wallet is added, its key rotated, and a second `addWallet` refused. -/
def inTurn : List Action :=
  [.call (addMain 1), .read 0 none, salted 0, .wrote 0 none, .audited 0 none,
    .call (.rotateKey "main" "Correct-horse-1" "Correct-horse-2"), .read 1 none, .opened 1,
    salted 1, .wrote 1 none, .audited 1 none, .call (addMain 2), .read 2 none]

theorem keepsKey_inTurn :
    Along (step plainOptions) (KeepsKey plainOptions) { storage := fun _ => none } inTurn ∧
      Along (step plainOptions) (SeedKept plainOptions) { storage := fun _ => none }
        inTurn := by
  have hunraced : Along (step plainOptions) (fun st a _ => unraced st a = true)
      { storage := fun _ => none } inTurn := by
    decide +kernel
  obtain ⟨hiff, hkept⟩ := keepsKey_iff plainOptions plainSodium_authenticated
    (fun _ => none) inTurn
  exact ⟨hiff.2 hunraced, hkept hunraced⟩

/-- Two `addWallet` calls read before either of them writes. -/
def racing : List Action :=
  [.call (addMain 1), .call (addMain 2), .read 0 none, .read 1 none, salted 0, salted 1,
    .wrote 0 none]

/-- The new record is about to be stored. -/
def Stage.isWriting : Stage → Bool
  | .writing _ _ => true
  | _ => false

/-- The second write replaces the record of the first. -/
theorem keepsKey_fails_racing :
    ¬ Along (step plainOptions) (KeepsKey plainOptions) { storage := fun _ => none }
      (racing ++ [.wrote 1 none]) := by
  intro h
  have hbefore : ∃ st, exec (step plainOptions) { storage := fun _ => none } racing =
      some st ∧ ((st.storage "main").isSome = true ∧
        ((st.calls[1]?).map (·.request) = some (addMain 2) ∧
          (st.calls[1]?).any (·.stage.isWriting) = true)) := by
    decide +kernel
  obtain ⟨st, hrun, hstored, hrequest, hwriting⟩ := hbefore
  obtain ⟨st', -, hkeeps⟩ := h.last hrun
  obtain ⟨⟨request, stage⟩, hx, hstage⟩ := (Option.any_eq_true _ _).1 hwriting
  rw [hx] at hrequest
  cases hrequest
  cases stage with
  | writing record seed =>
      unfold KeepsKey at hkeeps
      simp only [hx] at hkeeps
      have hnone : st.storage "main" = none := hkeeps
      rw [hnone] at hstored
      cases hstored
  | _ => cases hstage

end Races

end Ap3xSolana.Vault.Keys
