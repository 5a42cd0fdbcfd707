import Ap3xSolana.Lib.Json
import Ap3xSolana.Portfolio.ColdStart
import Ap3xSolana.Portfolio.StoreInvariant

/-!
# `Reconciler`

Drift between the stored positions and the balances on chain.  A pass goes through the
wallets in turn: it loads the positions of the wallet once, fetches the balances of its
token accounts under both token programs and compares.  A position that drifted is
reported and, unless that is switched off, replaced by a fresh reconstruction against the
balance that was observed.

What the node, the history and the file system answer while a wallet has its turn are its
`Answers`.  An error ends the pass; what was replaced before it stays replaced.

The pass is two nested loops over one rule.  A loop over the positions leaves those it has
done settled and the others as they were loaded; a rebuilt position is read back with the
amounts it was written with, whatever became of its signatures.
-/

namespace Ap3xSolana.Portfolio.Reconciler

open Ap3xSolana.Core Ap3xSolana.Lib Ap3xSolana.Lib.Grouping Ap3xSolana.Lib.Throwing
open Ap3xSolana.Portfolio.Accounting Ap3xSolana.Portfolio.StoreFile

/-! ## `fetchTokenBalances` -/

/-- The SPL Token and the Token-2022 program. -/
def TOKEN_PROGRAMS : List String :=
  ["TokenkegQfeZyiNwAJbNbGKPFXCWuBvf9Ss623VQ5DA", "TokenzQdBNbLqP5VEhdkAS6EPFLC1PHnBqCXEpPxuEb"]

/-- `parsed.info` of a token account, with the text of its amount. -/
structure TokenAccount where
  mint : String
  amount : String
  deriving DecidableEq, Repr

structure Answers where
  /-- By token program; there may be no result. -/
  getTokenAccountsByOwner : String → Except String (Option (List TokenAccount))
  /-- A store without `rpcPool` and `reconstructor` has none. -/
  reconstruct : Option Reconstruct
  /-- Reading the wallet file fails. -/
  readFails : Option String := none
  /-- A rebuild of the mint fails before its file is replaced. -/
  writeFails : PublicKey → Option String := fun _ => none
  /-- A rebuild of the mint fails after its file is replaced. -/
  auditFails : PublicKey → Option String := fun _ => none

inductive ReconcileError where
  | rpc (message : String)
  /-- `BigInt` throws a `SyntaxError`. -/
  | notBigInt (text : String)
  | io (message : String)
  | store (e : CallError)
  | needsChainAccess
  | onDrift (message : String)
  deriving DecidableEq, Repr

def addAccount (byMint : OrderedMap String Int) (acc : TokenAccount) :
    Except ReconcileError (OrderedMap String Int) :=
  match bigInt acc.amount with
  | none => .error (.notBigInt acc.amount)
  | some amount => .ok (byMint.set acc.mint ((byMint.get? acc.mint).getD 0 + amount))

def addProgram (answers : Answers) (byMint : OrderedMap String Int) (programId : String) :
    Except ReconcileError (OrderedMap String Int) :=
  match answers.getTokenAccountsByOwner programId with
  | .error message => .error (.rpc message)
  | .ok res => (res.getD []).foldlM addAccount byMint

def fetchTokenBalances (answers : Answers) : Except ReconcileError (OrderedMap String Int) :=
  TOKEN_PROGRAMS.foldlM (addProgram answers) .empty

/-! ## A pass -/

structure DriftEvent where
  wallet : PublicKey
  mint : PublicKey
  expected : Int
  observed : Int
  diff : Int
  lastKnownLandedSig : Option TextField
  deriving DecidableEq, Repr

structure ReconcilerOpts where
  /-- What the listener throws at an event, if it does. -/
  onDrift : DriftEvent → Option String := fun _ => none
  rebuildOnDrift : Bool := true

/-- The files, and the events up to now. -/
structure Pass where
  files : Files
  drifts : List DriftEvent := []

def truthyField : TextField → Bool
  | .text s => s ≠ ""
  | .bigint n => n ≠ 0

/-- `acquiredSig || null` of the last lot. -/
def lastSig (lots : List Lot) : Option TextField :=
  (lots.getLast?.map (·.acquiredSig)).filter truthyField

/-- What the wallet holds of a mint. -/
def observedOf (balances : OrderedMap String Int) (mint : PublicKey) : Int :=
  (balances.get? mint.toBase58).getD 0

def driftOf (wallet : PublicKey) (balances : OrderedMap String Int) (pos : Position) :
    Option DriftEvent :=
  let expected := totalAmount pos.lots
  let observed := observedOf balances pos.mint
  if expected ≠ observed then
    some { wallet := wallet, mint := pos.mint, expected := expected, observed := observed,
           diff := observed - expected, lastKnownLandedSig := lastSig pos.lots }
  else none

def getAllPositions (answers : Answers) (files : Files) (wallet : PublicKey) :
    Except ReconcileError (List Position) :=
  match answers.readFails with
  | some message => .error (.io message)
  | none =>
      match load files wallet with
      | .error e => .error (.store e)
      | .ok loaded => .ok ((loaded.map (·.positions)).getD [])

/-- The call of `rebuildPosition` with the balance that was observed. -/
def rebuild (answers : Answers) (wallet mint : PublicKey) (observed : Int) (s : Pass) :
    Pass × Option ReconcileError :=
  match answers.reconstruct with
  | none => (s, some .needsChainAccess)
  | some reconstruct =>
      match reconstruct mint observed, answers.writeFails mint with
      | .error message, _ => (s, some (.io message))
      | .ok _, some message => (s, some (.io message))
      | .ok lots, none =>
          match runCall s.files (.rebuildPosition wallet mint lots) with
          | .error e => (s, some (.store e))
          | .ok (files, _) => ({ s with files := files }, (answers.auditFails mint).map .io)

/-- One round of the loop over the positions. -/
def reconcilePosition (opts : ReconcilerOpts) (answers : Answers) (wallet : PublicKey)
    (balances : OrderedMap String Int) (s : Pass) (pos : Position) :
    Pass × Option ReconcileError :=
  match driftOf wallet balances pos with
  | none => (s, none)
  | some event =>
      let s := { s with drifts := s.drifts ++ [event] }
      match opts.onDrift event with
      | some message => (s, some (.onDrift message))
      | none =>
          if opts.rebuildOnDrift then rebuild answers wallet pos.mint event.observed s
          else (s, none)

def reconcileWallet (opts : ReconcilerOpts) (answers : PublicKey → Answers) (s : Pass)
    (wallet : PublicKey) : Pass × Option ReconcileError :=
  match getAllPositions (answers wallet) s.files wallet with
  | .error e => (s, some e)
  | .ok positions =>
      match fetchTokenBalances (answers wallet) with
      | .error e => (s, some e)
      | .ok balances =>
          attempt (reconcilePosition opts (answers wallet) wallet balances) s positions

def runOnce (opts : ReconcilerOpts) (answers : PublicKey → Answers)
    (walletAddresses : List PublicKey) (files : Files) : Pass × Option ReconcileError :=
  attempt (reconcileWallet opts answers) { files := files } walletAddresses

/-! ## The balances -/

/-- The token accounts of the wallet under a program. -/
def accountsOf (answers : Answers) (programId : String) : List TokenAccount :=
  match answers.getTokenAccountsByOwner programId with
  | .error _ => []
  | .ok res => res.getD []

/-- What they hold of a mint together. -/
def balanceOf (accounts : List TokenAccount) (mint : String) : Int :=
  ((accounts.filter (·.mint = mint)).map fun acc => (bigInt acc.amount).getD 0).sum

theorem balanceOf_append (accounts accounts' : List TokenAccount) (mint : String) :
    balanceOf (accounts ++ accounts') mint =
      balanceOf accounts mint + balanceOf accounts' mint := by
  rw [balanceOf, List.filter_append, List.map_append, List.sum_append, balanceOf, balanceOf]

theorem balanceOf_cons (acc : TokenAccount) (accounts : List TokenAccount) (mint : String) :
    balanceOf (acc :: accounts) mint =
      (if acc.mint = mint then (bigInt acc.amount).getD 0 else 0) + balanceOf accounts mint := by
  by_cases h : acc.mint = mint <;> simp [balanceOf, h]

theorem addAccounts_get {accounts : List TokenAccount} {m m' : OrderedMap String Int}
    (h : accounts.foldlM addAccount m = .ok m') (mint : String) :
    (m'.get? mint).getD 0 = (m.get? mint).getD 0 + balanceOf accounts mint := by
  induction accounts generalizing m with
  | nil =>
      cases h
      exact (add_zero _).symm
  | cons acc accounts ih =>
      rw [List.foldlM_cons] at h
      obtain ⟨m₁, hadd, hrest⟩ := bind_eq_ok.1 h
      unfold addAccount at hadd
      split at hadd
      · cases hadd
      · rename_i amount hamount
        cases hadd
        rw [ih hrest, balanceOf_cons, hamount, OrderedMap.get?_set]
        by_cases hmint : acc.mint = mint
        · subst hmint
          rw [if_pos rfl, if_pos rfl, Option.getD_some, Option.getD_some]
          omega
        · rw [if_neg (Ne.symm hmint), if_neg hmint, zero_add]

theorem addPrograms_get {answers : Answers} {programs : List String}
    {m m' : OrderedMap String Int} (h : programs.foldlM (addProgram answers) m = .ok m')
    (mint : String) :
    (m'.get? mint).getD 0 =
      (m.get? mint).getD 0 + balanceOf (programs.flatMap (accountsOf answers)) mint := by
  induction programs generalizing m with
  | nil =>
      cases h
      exact (add_zero _).symm
  | cons programId programs ih =>
      rw [List.foldlM_cons] at h
      obtain ⟨m₁, hadd, hrest⟩ := bind_eq_ok.1 h
      have hget : (m₁.get? mint).getD 0 =
          (m.get? mint).getD 0 + balanceOf (accountsOf answers programId) mint := by
        unfold addProgram at hadd
        unfold accountsOf
        cases hres : answers.getTokenAccountsByOwner programId with
        | error message =>
            rw [hres] at hadd
            cases hadd
        | ok res =>
            rw [hres] at hadd
            exact addAccounts_get hadd mint
      rw [ih hrest, hget, List.flatMap_cons, balanceOf_append, add_assoc]

/-- The balance of a mint is what the accounts under both programs hold of it. -/
theorem fetchTokenBalances_get {answers : Answers} {balances : OrderedMap String Int}
    (h : fetchTokenBalances answers = .ok balances) (mint : PublicKey) :
    observedOf balances mint =
      balanceOf (TOKEN_PROGRAMS.flatMap (accountsOf answers)) mint.toBase58 := by
  have hget := addPrograms_get h mint.toBase58
  rwa [OrderedMap.get?_empty, Option.getD_none, zero_add] at hget

/-- Amounts are not negative, and a reconstruction adds up to the balance it was given. -/
structure Sound (answers : Answers) : Prop where
  amounts : ∀ acc ∈ TOKEN_PROGRAMS.flatMap (accountsOf answers), 0 ≤ (bigInt acc.amount).getD 0
  reconstructs : ∀ reconstruct, answers.reconstruct = some reconstruct →
    ∀ mint balance lots, 0 ≤ balance → reconstruct mint balance = .ok lots →
      totalAmount lots = balance

theorem Sound.observed_nonneg {answers : Answers} (h : Sound answers)
    {balances : OrderedMap String Int} (hfetch : fetchTokenBalances answers = .ok balances)
    (mint : PublicKey) : 0 ≤ observedOf balances mint := by
  rw [fetchTokenBalances_get hfetch]
  apply List.sum_nonneg
  intro x hx
  obtain ⟨acc, hacc, rfl⟩ := List.mem_map.1 hx
  exact h.amounts acc (List.mem_of_mem_filter hacc)

/-! ## The reconstruction -/

section Reconstruction

open Reconstructor

variable {opts : CostBasisReconstructorOpts}

/-- A swap that a tracer finds has brought tokens in. -/
def PositiveTracers (opts : CostBasisReconstructorOpts) : Prop :=
  ∀ programId, ∀ trace ∈ opts.tracersFor programId, ∀ tx wallet mint solOut tokensIn,
    trace tx wallet mint = some (.swap solOut tokensIn) → 0 < tokensIn

theorem ensures_true {ε α : Type} (x : Except ε α) :
    Ensures (fun _ => True) (fun _ => True) x := by
  cases x <;> trivial

theorem classifyInflow_positive (hopts : PositiveTracers opts) (wallet mint : PublicKey)
    (now : Int) (c : BalanceChange) {delta : Int} (hdelta : 0 < delta) :
    Ensures (fun _ => True) (fun lot : Lot => 0 < lot.amount)
      (classifyInflow opts wallet mint now c delta) := by
  have htransfer : ∀ source, 0 < (transferIn opts (baseLot c delta now) source mint).amount :=
    fun source => by rwa [transferIn_amount]
  unfold classifyInflow
  refine (ensures_true (toParsedTransaction c.tx c.signature c.slot)).bind fun parsedTx _ => ?_
  split
  · rename_i solOut tokensIn htraced
    obtain ⟨programId, -, hprogram⟩ := List.exists_of_findSome?_eq_some htraced
    obtain ⟨trace, htrace, hswap⟩ := List.exists_of_findSome?_eq_some hprogram
    exact hopts programId trace htrace _ _ _ _ _ hswap
  · exact htransfer _
  · exact (ensures_true _).bind fun source _ => htransfer source
  · split
    · exact hdelta
    · refine (ensures_true (transferSource c.tx wallet mint)).bind fun source _ => ?_
      cases source with
      | none => exact hdelta
      | some source => exact htransfer _

theorem replayChange_positive (hopts : PositiveTracers opts) (wallet mint : PublicKey)
    (now : Int) {lots : List Lot} (hpos : AllPositive lots) (c : BalanceChange) :
    Ensures (fun _ => True) AllPositive (replayChange opts wallet mint now lots c) := by
  have hheld := totalAmount_nonneg hpos
  unfold replayChange
  dsimp only
  by_cases hdelta : c.post - c.pre > 0
  · rw [if_pos hdelta]
    exact (classifyInflow_positive hopts wallet mint now c hdelta).bind
      fun lot hlot => hpos.concat hlot
  · rw [if_neg hdelta]
    have hnonneg : 0 ≤ if -(c.post - c.pre) < totalAmount lots then -(c.post - c.pre)
        else totalAmount lots := by
      split <;> omega
    obtain ⟨rest, hrest, hpositive, -⟩ :=
      (reduceFifo_gives hpos hnonneg (by split <;> omega)).exists_ok
    rw [hrest]
    exact hpositive

/-- Whatever the history is, what `reconstruct` returns adds up to the balance. -/
theorem reconstruct_total (hopts : PositiveTracers opts) {wallet mint : PublicKey}
    {balance : Int} (hbalance : 0 ≤ balance) {lookbackDays : Option Int} {startedAt now : Int}
    {turns : Nat} {lots : List Lot}
    (h : reconstruct opts wallet mint balance lookbackDays startedAt now turns =
      some (.ok lots)) : totalAmount lots = balance := by
  obtain ⟨w, -, hwalk⟩ := Option.map_eq_some_iff.1 h
  obtain ⟨replayed, hreplay, hreconcile⟩ := bind_eq_ok.1 hwalk
  have hpos : AllPositive replayed := by
    refine (Ensures.foldlM (P := fun _ => True) AllPositive (fun lots c _ hlots =>
      replayChange_positive hopts wallet mint now hlots c) ?_).of_eq hreplay
    exact openingLots_positive now w.oldestSlotWalked w.changes.reverse
  exact ((reconcile_gives hbalance now w.oldestSlotWalked hpos).of_eq hreconcile).2.1

/-- `reconstruct` as the store calls it; a walk that has not ended has not returned. -/
def reconstructFor (opts : CostBasisReconstructorOpts) (startedAt now : Int) (turns : Nat)
    (wallet : PublicKey) : Reconstruct := fun mint balance =>
  match reconstruct opts wallet mint balance none startedAt now turns with
  | some (.ok lots) => .ok lots
  | some (.error e) => .error (reprStr e)
  | none => .error "pending"

theorem sound_reconstructFor (hopts : PositiveTracers opts) (startedAt now : Int) (turns : Nat)
    (wallet : PublicKey) {answers : Answers}
    (hreconstruct : answers.reconstruct = some (reconstructFor opts startedAt now turns wallet))
    (hamounts : ∀ acc ∈ TOKEN_PROGRAMS.flatMap (accountsOf answers),
      0 ≤ (bigInt acc.amount).getD 0) : Sound answers := by
  refine ⟨hamounts, fun reconstruct' hsome mint balance lots hbalance hlots => ?_⟩
  rw [hreconstruct] at hsome
  cases hsome
  unfold reconstructFor at hlots
  split at hlots
  · rename_i heq
    cases hlots
    exact reconstruct_total hopts hbalance heq
  · cases hlots
  · cases hlots

end Reconstruction

/-! ## A rebuilt file -/

theorem load_eq_ok {files : Files} {wallet : PublicKey} {loaded : Option WalletData}
    (h : load files wallet = .ok loaded) :
    files wallet = none ∧ loaded = none ∨
      ∃ stored data, files wallet = some stored ∧ readWallet stored = .ok data ∧
        loaded = some data := by
  unfold load loadWalletData at h
  cases hfile : files wallet with
  | none =>
      rw [hfile] at h
      exact .inl ⟨rfl, (Except.ok.inj h).symm⟩
  | some stored =>
      rw [hfile] at h
      dsimp only at h
      cases hread : readWallet stored with
      | error e =>
          rw [hread] at h
          cases h
      | ok data =>
          rw [hread] at h
          exact .inr ⟨stored, data, rfl, hread, (Except.ok.inj h).symm⟩

/-- The file of the wallet can be read and gives the data, with one position a mint and all
of them of this wallet. -/
structure Holds (files : Files) (wallet : PublicKey) (data : WalletData) : Prop where
  file : ∃ stored, files wallet = some stored ∧ readWallet stored = .ok data
  onePosition : (data.positions.map (·.mint)).Nodup
  owned : ∀ p ∈ data.positions, p.walletAddress = wallet

theorem Holds.load {files : Files} {wallet : PublicKey} {data : WalletData}
    (h : Holds files wallet data) : load files wallet = .ok (some data) := by
  obtain ⟨stored, hfile, hread⟩ := h.file
  unfold StoreFile.load loadWalletData
  rw [hfile]
  dsimp only
  rw [hread]
  rfl

theorem Holds.stable {files : Files} {wallet : PublicKey} {data : WalletData}
    (h : Holds files wallet data) : Stable data := by
  obtain ⟨stored, _, hread⟩ := h.file
  exact stable_of_readWallet hread

/-- Where a position stands among others. -/
theorem findIdx_of_nodup {done rest : List Position} {p : Position}
    (h : ((done ++ p :: rest).map (·.mint)).Nodup) :
    (done ++ p :: rest).findIdx? (·.mint = p.mint) = some done.length := by
  have hnone : done.findIdx? (·.mint = p.mint) = none := by
    rw [List.findIdx?_eq_none_iff]
    intro q hq
    apply decide_eq_false
    intro hmint
    rw [List.map_append, List.map_cons, List.nodup_append] at h
    exact h.2.2 q.mint (List.mem_map_of_mem hq) p.mint List.mem_cons_self hmint
  rw [List.findIdx?_append, hnone, List.findIdx?_cons, if_pos (decide_eq_true rfl)]
  simp

/-- The one position of the mint is replaced where it stands. -/
theorem rebuildPosition_data {data : WalletData} {done rest : List Position} {p : Position}
    (h : ((done ++ p :: rest).map (·.mint)).Nodup) (wallet : PublicKey) (lots : List Lot) :
    (StoreFile.rebuildPosition wallet p.mint lots
      { data with positions := done ++ p :: rest }).data =
      { data with positions := done ++ rebuiltPosition wallet p.mint lots :: rest } := by
  unfold StoreFile.rebuildPosition putPosition
  dsimp only
  rw [findIdx_of_nodup h]
  simp

/-- Positions that were read from the file are read back as they are. -/
theorem Holds.map_revived {files : Files} {wallet : PublicKey} {data : WalletData}
    (h : Holds files wallet data) {qs : List Position} (hqs : ∀ q ∈ qs, q ∈ data.positions) :
    qs.map revivedPosition = qs := by
  conv_rhs => rw [← List.map_id qs]
  exact List.map_congr_left fun q hq => revivedPosition_stable (h.stable q (hqs q hq))

/-- A position as the file has it after a rebuild. -/
def rebuilt (wallet mint : PublicKey) (lots : List Lot) : Position :=
  revivedPosition (rebuiltPosition wallet mint lots)

/-- A rebuild of a position goes through, and the file can be read afterwards. -/
theorem Holds.rebuild {files : Files} {wallet : PublicKey} {data : WalletData}
    {done rest : List Position} {p : Position}
    (h : Holds files wallet { data with positions := done ++ p :: rest }) (lots : List Lot) :
    ∃ files' c, runCall files (.rebuildPosition wallet p.mint lots) = .ok (files', c) ∧
      Holds files' wallet
        { data with positions := done ++ rebuilt wallet p.mint lots :: rest } ∧
      ∀ other, other ≠ wallet → files' other = files other := by
  let after := rebuiltPosition wallet p.mint lots
  let written : WalletData := { data with positions := done ++ after :: rest }
  let computed := StoreFile.rebuildPosition wallet p.mint lots
    { data with positions := done ++ p :: rest }
  have hwritten : computed.data = written := rebuildPosition_data h.onePosition wallet lots
  have hplain : ∀ q ∈ written.positions,
      Plain q.mint.toBase58 ∧ Plain q.walletAddress.toBase58 := by
    intro q hq
    have hkept : ∀ q' ∈ done ++ p :: rest,
        Plain q'.mint.toBase58 ∧ Plain q'.walletAddress.toBase58 :=
      fun q' hq' => ⟨(h.stable q' hq').mint, (h.stable q' hq').walletAddress⟩
    rcases List.mem_append.1 hq with hq | hq
    · exact hkept q (List.mem_append_left _ hq)
    · rcases List.mem_cons.1 hq with rfl | hq
      · have hp : p ∈ done ++ p :: rest := by simp
        show Plain p.mint.toBase58 ∧ Plain wallet.toBase58
        rw [← h.owned p hp]
        exact hkept p hp
      · exact hkept q (by simp [hq])
  have hrevived : written.positions.map revivedPosition =
      done ++ rebuilt wallet p.mint lots :: rest := by
    have hdone : done.map revivedPosition = done := h.map_revived (by simp +contextual)
    have hrest : rest.map revivedPosition = rest := h.map_revived (by simp +contextual)
    rw [List.map_append, List.map_cons, hdone, hrest]
    rfl
  refine ⟨writeWalletData files wallet written, computed, ?_,
    ⟨⟨_, Function.update_self .., ?_⟩, ?_, ?_⟩,
    fun other hother => Function.update_of_ne hother ..⟩
  · unfold runCall
    have hload : StoreFile.load files (StoreCall.rebuildPosition wallet p.mint lots).wallet =
        .ok (some { data with positions := done ++ p :: rest }) := h.load
    rw [hload]
    show Except.ok (writeWalletData files wallet computed.data, computed) = _
    rw [hwritten]
  · rw [readWallet_writeWallet_revived hplain, hrevived]
  · have hnodup := h.onePosition
    simp only [List.map_append, List.map_cons] at hnodup ⊢
    exact hnodup
  · intro q hq
    rcases List.mem_append.1 hq with hq | hq
    · exact h.owned q (by simp [hq])
    · rcases List.mem_cons.1 hq with rfl | hq
      · rfl
      · exact h.owned q (by simp [hq])

/-! ## One wallet -/

/-- A position before and after it was compared with what the wallet holds. -/
structure Settled (balances : OrderedMap String Int) (p p' : Position) : Prop where
  mint : p'.mint = p.mint
  walletAddress : p'.walletAddress = p.walletAddress
  total : totalAmount p'.lots = observedOf balances p.mint
  kept : totalAmount p.lots = observedOf balances p.mint → p' = p

/-- Where the pass failed, it may be as it was. -/
def Reached (balances : OrderedMap String Int) (error : Option ReconcileError)
    (p p' : Position) : Prop := Settled balances p p' ∨ error ≠ none ∧ p' = p

theorem driftOf_eq_none {wallet : PublicKey} {balances : OrderedMap String Int}
    {p : Position} :
    driftOf wallet balances p = none ↔ totalAmount p.lots = observedOf balances p.mint := by
  unfold driftOf
  dsimp only
  split
  · rename_i h
    exact iff_of_false (by simp) h
  · rename_i h
    exact iff_of_true rfl (not_not.1 h)

section Wallet

variable {opts : ReconcilerOpts} {answers : Answers} {wallet : PublicKey}
variable {balances : OrderedMap String Int}

theorem rebuild_spec (hsound : Sound answers) {p : Position}
    (hbalance : 0 ≤ observedOf balances p.mint)
    (hdrift : totalAmount p.lots ≠ observedOf balances p.mint) {data : WalletData}
    {done rest : List Position} {s s' : Pass} {error : Option ReconcileError}
    (h : Holds s.files wallet { data with positions := done ++ p :: rest })
    (hrun : rebuild answers wallet p.mint (observedOf balances p.mint) s = (s', error)) :
    ∃ p', Reached balances error p p' ∧
      Holds s'.files wallet { data with positions := done ++ p' :: rest } ∧
      (∀ other, other ≠ wallet → s'.files other = s.files other) ∧ s'.drifts = s.drifts := by
  unfold rebuild at hrun
  split at hrun
  · cases hrun
    exact ⟨p, .inr ⟨by simp, rfl⟩, h, fun _ _ => rfl, rfl⟩
  · rename_i reconstruct hreconstruct
    split at hrun
    · cases hrun
      exact ⟨p, .inr ⟨by simp, rfl⟩, h, fun _ _ => rfl, rfl⟩
    · cases hrun
      exact ⟨p, .inr ⟨by simp, rfl⟩, h, fun _ _ => rfl, rfl⟩
    · rename_i lots hlots _
      obtain ⟨files', c, hcall, hholds, hothers⟩ := h.rebuild lots
      rw [hcall] at hrun
      cases hrun
      refine ⟨rebuilt wallet p.mint lots, .inl ⟨rfl, ?_, ?_, fun hsame => absurd hsame hdrift⟩,
        hholds, hothers, rfl⟩
      · exact (h.owned p (by simp)).symm
      · exact (totalAmount_revived lots).trans
          (hsound.reconstructs reconstruct hreconstruct _ _ _ hbalance hlots)

/-- One round: the position is settled, or the round failed and it is as it was. -/
theorem reconcilePosition_spec (hrebuild : opts.rebuildOnDrift = true) (hsound : Sound answers)
    {p : Position} (hbalance : 0 ≤ observedOf balances p.mint) {data : WalletData}
    {done rest : List Position} {s s' : Pass} {error : Option ReconcileError}
    (h : Holds s.files wallet { data with positions := done ++ p :: rest })
    (hrun : reconcilePosition opts answers wallet balances s p = (s', error)) :
    ∃ p', Reached balances error p p' ∧
      Holds s'.files wallet { data with positions := done ++ p' :: rest } ∧
      (∀ other, other ≠ wallet → s'.files other = s.files other) ∧
      s'.drifts = s.drifts ++ (driftOf wallet balances p).toList := by
  unfold reconcilePosition at hrun
  split at hrun
  · rename_i hdrift
    have htotal := driftOf_eq_none.1 hdrift
    cases hrun
    refine ⟨p, .inl ⟨rfl, rfl, htotal, fun _ => rfl⟩, h, fun _ _ => rfl, ?_⟩
    rw [hdrift, Option.toList_none, List.append_nil]
  · rename_i event hdrift
    have hne : totalAmount p.lots ≠ observedOf balances p.mint := fun heq => by
      rw [driftOf_eq_none.2 heq] at hdrift
      cases hdrift
    have hobserved : event.observed = observedOf balances p.mint := by
      unfold driftOf at hdrift
      dsimp only at hdrift
      rw [if_pos hne] at hdrift
      cases hdrift
      rfl
    rw [hdrift, Option.toList_some]
    dsimp only at hrun
    split at hrun
    · cases hrun
      exact ⟨p, .inr ⟨by simp, rfl⟩, h, fun _ _ => rfl, rfl⟩
    · rw [if_pos hrebuild, hobserved] at hrun
      obtain ⟨p', hp', hholds, hothers, hdrifts⟩ :=
        rebuild_spec hsound hbalance hne (s := { s with drifts := s.drifts ++ [event] }) h hrun
      exact ⟨p', hp', hholds, hothers, hdrifts⟩

/-- What has been reported of a list of events, all of it unless there was an error. -/
def Reports (before after : List DriftEvent) (events : List DriftEvent)
    (error : Option ReconcileError) : Prop :=
  ∃ reported, after = before ++ reported ∧ reported <+: events ∧
    (error = none → reported = events)

theorem reconcilePositions_spec (hrebuild : opts.rebuildOnDrift = true) (hsound : Sound answers)
    (hbalance : ∀ mint, 0 ≤ observedOf balances mint) {data : WalletData} {s₀ : Pass}
    (h : Holds s₀.files wallet data) {s : Pass} {error : Option ReconcileError}
    (hrun : attempt (reconcilePosition opts answers wallet balances) s₀ data.positions =
      (s, error)) :
    ∃ positions, List.Forall₂ (Reached balances error) data.positions positions ∧
      Holds s.files wallet { data with positions := positions } ∧
      (∀ other, other ≠ wallet → s.files other = s₀.files other) ∧
      Reports s₀.drifts s.drifts (data.positions.filterMap (driftOf wallet balances)) error := by
  let Inv : List Position → List Position → Pass → Prop := fun done left s =>
    data.positions = done ++ left ∧
    (∃ done', List.Forall₂ (Settled balances) done done' ∧
      Holds s.files wallet { data with positions := done' ++ left }) ∧
    (∀ other, other ≠ wallet → s.files other = s₀.files other) ∧
    s.drifts = s₀.drifts ++ done.filterMap (driftOf wallet balances)
  let End : Pass → Option ReconcileError → Prop := fun s error =>
    ∃ positions, List.Forall₂ (Reached balances error) data.positions positions ∧
      Holds s.files wallet { data with positions := positions } ∧
      (∀ other, other ≠ wallet → s.files other = s₀.files other) ∧
      Reports s₀.drifts s.drifts (data.positions.filterMap (driftOf wallet balances)) error
  have hend := attempt_rule Inv End
    (f := reconcilePosition opts answers wallet balances) ?_ ?_ ?_
    (⟨rfl, ⟨[], .nil, h⟩, fun _ _ => rfl, (List.append_nil _).symm⟩ : Inv [] data.positions s₀)
  · rw [hrun] at hend
    exact hend
  · rintro done p left s s' ⟨hsplit, ⟨done', hdone, hholds⟩, hothers, hdrifts⟩ hf
    obtain ⟨p', hp', hholds', hothers', hdrifts'⟩ :=
      reconcilePosition_spec hrebuild hsound (hbalance p.mint) hholds hf
    have hsettled : Settled balances p p' := hp'.resolve_right fun hfailed => hfailed.1 rfl
    refine ⟨by rw [hsplit, List.append_assoc]; rfl, ⟨done' ++ [p'], ?_, ?_⟩, ?_, ?_⟩
    · exact List.rel_append hdone (.cons hsettled .nil)
    · rwa [List.append_assoc]
    · exact fun other hother => (hothers' other hother).trans (hothers other hother)
    · rw [hdrifts', hdrifts, List.filterMap_append, List.append_assoc]
      cases hdrift : driftOf wallet balances p <;> simp [hdrift]
  · rintro done p left s s' e ⟨hsplit, ⟨done', hdone, hholds⟩, hothers, hdrifts⟩ hf
    obtain ⟨p', hp', hholds', hothers', hdrifts'⟩ :=
      reconcilePosition_spec hrebuild hsound (hbalance p.mint) hholds hf
    refine ⟨done' ++ p' :: left, ?_, hholds',
      fun other hother => (hothers' other hother).trans (hothers other hother), ?_⟩
    · rw [hsplit]
      refine List.rel_append (hdone.imp fun _ _ => .inl) (.cons hp' ?_)
      exact List.forall₂_same.2 fun q _ => .inr ⟨by simp, rfl⟩
    · refine ⟨_, by rw [hdrifts', hdrifts, List.append_assoc], ?_, fun hnone => nomatch hnone⟩
      rw [hsplit, List.filterMap_append, List.filterMap_cons]
      cases driftOf wallet balances p with
      | none => simp
      | some event => simp
  · rintro done s ⟨hsplit, ⟨done', hdone, hholds⟩, hothers, hdrifts⟩
    rw [List.append_nil] at hsplit hholds
    refine ⟨done', ?_, hholds, hothers, _, hdrifts, ?_, fun _ => by rw [hsplit]⟩
    · rw [hsplit]
      exact hdone.imp fun _ _ => .inl
    · rw [hsplit]

end Wallet

/-! ## Whose positions a file holds -/

def Owned (wallet : PublicKey) (data : WalletData) : Prop :=
  ∀ p ∈ data.positions, p.walletAddress = wallet

theorem Owned.put {wallet : PublicKey} {data : WalletData} {idx : Option Nat} {pos : Position}
    (h : Owned wallet data) (hpos : pos.walletAddress = wallet) :
    Owned wallet (putPosition data idx pos) := by
  intro p hp
  rcases mem_put hp with rfl | hp
  · exact hpos
  · exact h p hp

theorem Owned.observe {wallet : PublicKey} {data : WalletData} {method : Option AccountingMethod}
    {balances : OrderedMap String Int} {reconstruct : Reconstruct} {c : Computed}
    (h : Owned wallet data) (hc : observe wallet method balances reconstruct data = .ok c) :
    Owned wallet c.data := by
  obtain ⟨⟨data', changes⟩, hfold, hret⟩ := bind_eq_ok.1 hc
  obtain rfl := pure_eq_ok.1 hret
  refine (Ensures.foldlM (P := fun _ => True) (fun acc => Owned wallet acc.1)
    (fun acc entry _ hacc => ?_) h).of_eq hfold
  unfold observeBalance
  split
  · exact hacc
  · split
    · trivial
    · split
      · exact hacc
      · split
        · trivial
        · exact hacc.put rfl

/-- A call leaves the wallet only positions of its own. -/
theorem Owned.compute {call : StoreCall} {loaded : Option WalletData} {c : Computed}
    (h : Owned call.wallet (loaded.getD emptyWallet)) (hc : compute loaded call = .ok c) :
    Owned call.wallet c.data := by
  cases call with
  | observe wallet method balances reconstruct => exact h.observe hc
  | rebuildPosition wallet mint lots =>
      cases hc
      exact h.put rfl
  | correctLotBasis wallet mint lotIndex costBasisLamports =>
      unfold StoreFile.compute correctLotBasis at hc
      cases loaded with
      | none => cases hc
      | some data =>
          dsimp only at hc
          split at hc
          · cases hc
          · rename_i before hbefore
            split at hc
            · cases hc
            · cases hc
              rw [← List.find?_eq_bind_findIdx?_getElem?] at hbefore
              exact h.put (h before (List.mem_of_find?_eq_some hbefore))
  | applyLandedTrade trade =>
      have hc : computeTrade trade (loaded.getD emptyWallet) = .ok c := hc
      unfold computeTrade at hc
      split at hc
      · cases hc
      · rename_i data' change happly
        cases hc
        rw [applyTo_eq] at happly
        obtain ⟨⟨booked, pos⟩, htrade, hret⟩ := bind_eq_ok.1 happly
        obtain ⟨rfl, -⟩ := Prod.mk.inj (pure_eq_ok.1 hret)
        obtain ⟨hpositions, -, -, hwallet⟩ := tradePosition_eq_ok htrade
        have hbooked : Owned trade.wallet booked := fun p hp => h p (hpositions ▸ hp)
        refine hbooked.put (hwallet.trans ?_)
        unfold tradedPosition
        cases hpos : (loaded.getD emptyWallet).position trade.mint with
        | none => rfl
        | some p => exact h p (List.mem_of_find?_eq_some hpos)

theorem Owned.readBack {wallet : PublicKey} {data data' : WalletData} (h : Owned wallet data)
    (hread : readWallet (writeWallet data) = .ok data') : Owned wallet data' := by
  obtain ⟨positions, hpositions, hread⟩ := bind_eq_ok.1 hread
  obtain ⟨_, _, hread⟩ := bind_eq_ok.1 hread
  obtain ⟨_, _, hread⟩ := bind_eq_ok.1 hread
  obtain rfl := pure_eq_ok.1 hread
  intro p' hp'
  obtain ⟨stored, hstored, hposition⟩ := forall₂_of_mem (mapM_eq_ok.1 hpositions) hp'
  obtain ⟨p, hp, rfl⟩ := List.mem_map.1 hstored
  obtain ⟨_, _, hposition⟩ := bind_eq_ok.1 hposition
  obtain ⟨_, _, hposition⟩ := bind_eq_ok.1 hposition
  obtain ⟨walletAddress, haddress, hposition⟩ := bind_eq_ok.1 hposition
  obtain rfl := pure_eq_ok.1 hposition
  rw [← h p hp]
  exact (PublicKey.toBase58_injective (of_readKey haddress).1).symm

/-- The wallet has no file yet, or one written from data of its own. -/
def OwnedFile (files : Files) (wallet : PublicKey) : Prop :=
  ∀ stored, files wallet = some stored → ∃ data, stored = writeWallet data ∧ Owned wallet data

theorem OwnedFile.loaded {files : Files} {wallet : PublicKey} (h : OwnedFile files wallet)
    {loaded : Option WalletData} (hload : load files wallet = .ok loaded) :
    Owned wallet (loaded.getD emptyWallet) := by
  rcases load_eq_ok hload with ⟨-, rfl⟩ | ⟨stored, data', hfile, hread, rfl⟩
  · exact List.forall_mem_nil _
  · obtain ⟨data, rfl, hdata⟩ := h stored hfile
    exact hdata.readBack hread

theorem ownedFile_of_runCalls {files : Files} {calls : List StoreCall}
    {events : List RealizedPnlEvent} (h : runCalls noFiles calls = .ok (files, events))
    (wallet : PublicKey) : OwnedFile files wallet := by
  induction calls using List.reverseRecOn generalizing files events wallet with
  | nil =>
      cases h
      exact fun _ hfile => nomatch hfile
  | append_singleton calls call ih =>
      obtain ⟨files₁, before, c, hcalls, hcall, -⟩ := runCalls_concat h
      obtain ⟨loaded, hload, hcall⟩ := bind_eq_ok.1 hcall
      obtain ⟨c', hcompute, hcall⟩ := bind_eq_ok.1 hcall
      obtain ⟨rfl, rfl⟩ := Prod.mk.inj (pure_eq_ok.1 hcall)
      intro stored hfile
      by_cases hwallet : wallet = call.wallet
      · subst hwallet
        rw [writeWalletData, Function.update_self] at hfile
        exact ⟨_, (Option.some.inj hfile).symm, ((ih hcalls _).loaded hload).compute hcompute⟩
      · rw [writeWalletData, Function.update_of_ne hwallet] at hfile
        exact ih hcalls wallet stored hfile

/-- What can be read of a file are positions of its wallet, one a mint. -/
def Kept (files : Files) : Prop :=
  ∀ wallet data, load files wallet = .ok (some data) → Holds files wallet data

theorem holds_of_load {files : Files} {wallet : PublicKey} {data : WalletData}
    (h : load files wallet = .ok (some data)) (hnodup : (data.positions.map (·.mint)).Nodup)
    (howned : Owned wallet data) : Holds files wallet data := by
  rcases load_eq_ok h with ⟨-, hnone⟩ | ⟨stored, data', hfile, hread, hsome⟩
  · cases hnone
  · cases hsome
    exact ⟨⟨stored, hfile, hread⟩, hnodup, howned⟩

theorem kept_of_runCalls {files : Files} {calls : List StoreCall}
    {events : List RealizedPnlEvent} (h : runCalls noFiles calls = .ok (files, events)) :
    Kept files := fun wallet _ hload =>
  holds_of_load hload ((consistentFile_of_runCalls h wallet).loaded hload).onePosition
    ((ownedFile_of_runCalls h wallet).loaded hload)

/-! ## All wallets -/

/-- The positions of two data correspond, and nothing else is changed. -/
structure Compared (R : Position → Position → Prop) (before after : WalletData) : Prop where
  positions : List.Forall₂ R before.positions after.positions
  realizedPnl : after.realizedPnl = before.realizedPnl
  realizedPnlByMint : after.realizedPnlByMint = before.realizedPnlByMint
  method : after.method = before.method

/-- What the turn of a wallet makes of its file. -/
def Turn (answers : Answers) (files files' : Files) (wallet : PublicKey)
    (error : Option ReconcileError) : Prop :=
  ∃ balances before after, fetchTokenBalances answers = .ok balances ∧
    load files wallet = .ok before ∧ load files' wallet = .ok after ∧
    Compared (Reached balances error) (before.getD emptyWallet) (after.getD emptyWallet)

/-- The drift there is in the files. -/
def driftsOf (answers : PublicKey → Answers) (files : Files) (wallet : PublicKey) :
    List DriftEvent :=
  match load files wallet, fetchTokenBalances (answers wallet) with
  | .ok loaded, .ok balances =>
      (loaded.getD emptyWallet).positions.filterMap (driftOf wallet balances)
  | _, _ => []

theorem driftsOf_congr {answers : PublicKey → Answers} {files files' : Files}
    {wallet : PublicKey} (h : files' wallet = files wallet) :
    driftsOf answers files' wallet = driftsOf answers files wallet := by
  unfold driftsOf
  rw [load_congr h]

section Pass

variable {opts : ReconcilerOpts} {answers : PublicKey → Answers}

/-- A wallet whose positions are settled has nothing to report. -/
theorem Turn.driftsOf_eq_nil {wallet : PublicKey} {files files' : Files}
    (h : Turn (answers wallet) files files' wallet none) :
    driftsOf answers files' wallet = [] := by
  obtain ⟨balances, before, after, hfetch, -, hafter, hcompared⟩ := h
  unfold driftsOf
  rw [hafter, hfetch]
  dsimp only
  rw [List.filterMap_eq_nil_iff]
  intro p' hp'
  obtain ⟨p, -, hreached⟩ := forall₂_of_mem hcompared.positions hp'
  have hsettled := hreached.resolve_right fun hfailed => hfailed.1 rfl
  rw [driftOf_eq_none, hsettled.mint]
  exact hsettled.total

theorem forall₂_comp {R S T : Position → Position → Prop}
    (hcomp : ∀ p q r, R p q → S q r → T p r) {ps qs rs : List Position}
    (h : List.Forall₂ R ps qs) (h' : List.Forall₂ S qs rs) : List.Forall₂ T ps rs := by
  induction h generalizing rs with
  | nil =>
      cases h'
      exact .nil
  | cons hpq _ ih =>
      cases h' with
      | cons hqr hrest => exact .cons (hcomp _ _ _ hpq hqr) (ih hrest)

/-- A second turn of a wallet finds nothing to do. -/
theorem Turn.trans {wallet : PublicKey} {files files₁ files' : Files}
    {error : Option ReconcileError} (h : Turn (answers wallet) files files₁ wallet none)
    (h' : Turn (answers wallet) files₁ files' wallet error) :
    Turn (answers wallet) files files' wallet error := by
  obtain ⟨balances, before, middle, hfetch, hbefore, hmiddle, hfirst⟩ := h
  obtain ⟨balances', middle', after, hfetch', hmiddle', hafter, hsecond⟩ := h'
  cases hfetch.symm.trans hfetch'
  cases hmiddle.symm.trans hmiddle'
  refine ⟨balances, before, after, hfetch, hbefore, hafter, ?_,
    hsecond.realizedPnl.trans hfirst.realizedPnl,
    hsecond.realizedPnlByMint.trans hfirst.realizedPnlByMint,
    hsecond.method.trans hfirst.method⟩
  refine forall₂_comp (fun p p₁ p' hp hp' => ?_) hfirst.positions hsecond.positions
  have hsettled := hp.resolve_right fun hfailed => hfailed.1 rfl
  have hsame : p' = p₁ := by
    rcases hp' with hp' | hp'
    · exact hp'.kept (by rw [hsettled.mint]; exact hsettled.total)
    · exact hp'.2
  rw [hsame]
  exact .inl hsettled

/-- A turn of a wallet, finished or not. -/
structure TookTurn (answers : PublicKey → Answers) (s s' : Pass) (wallet : PublicKey)
    (error : Option ReconcileError) : Prop where
  kept : Kept s'.files
  others : ∀ other, other ≠ wallet → s'.files other = s.files other
  turn : Turn (answers wallet) s.files s'.files wallet error ∨
    error ≠ none ∧ s'.files wallet = s.files wallet
  reports : Reports s.drifts s'.drifts (driftsOf answers s.files wallet) error
  reads : error = none → (answers wallet).readFails = none

theorem tookTurn_nothing {s : Pass} (hkept : Kept s.files) (wallet : PublicKey)
    (e : ReconcileError) : TookTurn answers s s wallet (some e) where
  kept := hkept
  others := fun _ _ => rfl
  turn := .inr ⟨by simp, rfl⟩
  reports := ⟨[], (List.append_nil _).symm, List.nil_prefix, fun h => nomatch h⟩
  reads := fun h => nomatch h

theorem reconcileWallet_spec (hrebuild : opts.rebuildOnDrift = true) {wallet : PublicKey}
    (hsound : Sound (answers wallet)) {s s' : Pass} (hkept : Kept s.files)
    {error : Option ReconcileError}
    (hrun : reconcileWallet opts answers s wallet = (s', error)) :
    TookTurn answers s s' wallet error := by
  unfold reconcileWallet getAllPositions at hrun
  cases hreads : (answers wallet).readFails with
  | some message =>
      rw [hreads] at hrun
      cases hrun
      exact tookTurn_nothing hkept wallet _
  | none =>
      cases hload : load s.files wallet with
      | error e =>
          rw [hreads, hload] at hrun
          cases hrun
          exact tookTurn_nothing hkept wallet _
      | ok loaded =>
          rw [hreads, hload] at hrun
          dsimp only at hrun
          cases hfetch : fetchTokenBalances (answers wallet) with
          | error e =>
              rw [hfetch] at hrun
              cases hrun
              exact tookTurn_nothing hkept wallet _
          | ok balances =>
              rw [hfetch] at hrun
              dsimp only at hrun
              have hdrifts : driftsOf answers s.files wallet =
                  (loaded.getD emptyWallet).positions.filterMap (driftOf wallet balances) := by
                unfold driftsOf
                rw [hload, hfetch]
              cases loaded with
              | none =>
                  cases hrun
                  refine ⟨hkept, fun _ _ => rfl, ?_, ?_, fun _ => hreads⟩
                  · exact .inl ⟨balances, none, none, hfetch, hload, hload, .nil, rfl, rfl, rfl⟩
                  · exact ⟨[], (List.append_nil _).symm, List.nil_prefix, fun _ => hdrifts.symm⟩
              | some data =>
                  obtain ⟨positions, hpositions, hholds, hothers, hreports⟩ :=
                    reconcilePositions_spec hrebuild hsound (hsound.observed_nonneg hfetch)
                      (hkept wallet data hload) hrun
                  refine ⟨?_, hothers, .inl ⟨balances, _, _, hfetch, hload, hholds.load,
                    hpositions, rfl, rfl, rfl⟩, ?_, fun _ => hreads⟩
                  · intro other data' hload'
                    by_cases hother : other = wallet
                    · subst hother
                      cases hload'.symm.trans hholds.load
                      exact hholds
                    · rw [load_congr (hothers other hother)] at hload'
                      obtain ⟨⟨stored, hfile, hread⟩, hnodup, howned⟩ := hkept other data' hload'
                      exact ⟨⟨stored, (hothers other hother).trans hfile, hread⟩, hnodup, howned⟩
                  · rw [hdrifts]
                    exact hreports

theorem Turn.congr {wallet : PublicKey} {files files' files'' : Files}
    {error : Option ReconcileError} (h : Turn (answers wallet) files files' wallet error)
    (hsame : files'' wallet = files' wallet) :
    Turn (answers wallet) files files'' wallet error := by
  obtain ⟨balances, before, after, hfetch, hbefore, hafter, hcompared⟩ := h
  exact ⟨balances, before, after, hfetch, hbefore, (load_congr hsame).trans hafter, hcompared⟩

theorem Turn.anyway {wallet : PublicKey} {files files' : Files}
    (h : Turn (answers wallet) files files' wallet none) (error : Option ReconcileError) :
    Turn (answers wallet) files files' wallet error := by
  obtain ⟨balances, before, after, hfetch, hbefore, hafter, hcompared⟩ := h
  exact ⟨balances, before, after, hfetch, hbefore, hafter,
    hcompared.positions.imp fun _ _ h => .inl (h.resolve_right fun hfailed => hfailed.1 rfl),
    hcompared.realizedPnl, hcompared.realizedPnlByMint, hcompared.method⟩

/-- Where the loop over the wallets stands. -/
structure Loop (answers : PublicKey → Answers) (files : Files) (done : List PublicKey)
    (s : Pass) : Prop where
  kept : Kept s.files
  others : ∀ wallet, wallet ∉ done → s.files wallet = files wallet
  turns : ∀ wallet ∈ done, Turn (answers wallet) files s.files wallet none ∧
    (answers wallet).readFails = none
  drifts : s.drifts = (firstSeen done).flatMap (driftsOf answers files)

/-- What the next turn makes of a wallet since the start of the pass. -/
theorem Loop.next {files : Files} {done : List PublicKey} {s s' : Pass} {wallet : PublicKey}
    {error : Option ReconcileError} (h : Loop answers files done s)
    (hturn : TookTurn answers s s' wallet error) :
    (Turn (answers wallet) files s'.files wallet error ∨
      error ≠ none ∧ s'.files wallet = s.files wallet) ∧
    Reports s.drifts s'.drifts (if wallet ∈ done then [] else driftsOf answers files wallet)
      error := by
  by_cases hdone : wallet ∈ done
  · have hreports := hturn.reports
    rw [(h.turns wallet hdone).1.driftsOf_eq_nil] at hreports
    rw [if_pos hdone]
    exact ⟨hturn.turn.imp_left (h.turns wallet hdone).1.trans, hreports⟩
  · have hsame := h.others wallet hdone
    have hreports := hturn.reports
    rw [driftsOf_congr hsame] at hreports
    rw [if_neg hdone]
    refine ⟨hturn.turn.imp_left ?_, hreports⟩
    rintro ⟨balances, before, after, hfetch, hbefore, hafter, hcompared⟩
    exact ⟨balances, before, after, hfetch, (load_congr hsame).symm.trans hbefore, hafter,
      hcompared⟩

theorem flatMap_firstSeen_concat (f : PublicKey → List DriftEvent) (done : List PublicKey)
    (wallet : PublicKey) :
    (firstSeen (done ++ [wallet])).flatMap f =
      (firstSeen done).flatMap f ++ if wallet ∈ done then [] else f wallet := by
  rw [firstSeen_concat, addSeen]
  by_cases h : wallet ∈ done <;> simp [h]

/-- A wallet whose positions are settled keeps the pass quiet. -/
theorem reconcileWallet_quiet {wallet : PublicKey} {files : Files} {s : Pass}
    (hreads : (answers wallet).readFails = none)
    (h : Turn (answers wallet) files s.files wallet none) :
    reconcileWallet opts answers s wallet = (s, none) := by
  have hdrifts := h.driftsOf_eq_nil
  obtain ⟨balances, before, after, hfetch, -, hafter, -⟩ := h
  unfold driftsOf at hdrifts
  rw [hafter, hfetch] at hdrifts
  dsimp only at hdrifts
  rw [List.filterMap_eq_nil_iff] at hdrifts
  unfold reconcileWallet getAllPositions
  rw [hreads, hafter]
  dsimp only
  rw [hfetch]
  refine attempt_quiet fun p hp => ?_
  have hp : p ∈ (after.getD emptyWallet).positions := by cases after <;> exact hp
  unfold reconcilePosition
  rw [hdrifts p hp]

end Pass

/-- From any store the calls can leave: a pass that ends well has reported every drift once
and left every position of its wallets with what the chain shows, changing nothing else, and
another pass finds nothing to do.  A pass that fails leaves each position settled or as it
was. -/
theorem runOnce_settles {calls : List StoreCall} {files : Files}
    {events : List RealizedPnlEvent} (hcalls : runCalls noFiles calls = .ok (files, events))
    {opts : ReconcilerOpts} (hrebuild : opts.rebuildOnDrift = true)
    {answers : PublicKey → Answers} (hsound : ∀ wallet, Sound (answers wallet))
    (wallets : List PublicKey) {s : Pass} {error : Option ReconcileError}
    (hrun : runOnce opts answers wallets files = (s, error)) :
    (∀ wallet, wallet ∉ wallets → s.files wallet = files wallet) ∧
      (∀ wallet ∈ wallets, Turn (answers wallet) files s.files wallet error ∨
        error ≠ none ∧ s.files wallet = files wallet) ∧
      Reports [] s.drifts ((firstSeen wallets).flatMap (driftsOf answers files)) error ∧
      (error = none →
        runOnce opts answers wallets s.files = ({ files := s.files }, none)) := by
  let Inv : List PublicKey → List PublicKey → Pass → Prop := fun done left s =>
    wallets = done ++ left ∧ Loop answers files done s
  let End : Pass → Option ReconcileError → Prop := fun s error =>
    (∀ wallet, wallet ∉ wallets → s.files wallet = files wallet) ∧
      (∀ wallet ∈ wallets, Turn (answers wallet) files s.files wallet error ∨
        error ≠ none ∧ s.files wallet = files wallet) ∧
      Reports [] s.drifts ((firstSeen wallets).flatMap (driftsOf answers files)) error ∧
      (error = none →
        runOnce opts answers wallets s.files = ({ files := s.files }, none))
  have hstart : Loop answers files [] { files := files } :=
    ⟨kept_of_runCalls hcalls, fun _ _ => rfl, fun _ h => absurd h List.not_mem_nil, rfl⟩
  have hend := attempt_rule Inv End (f := reconcileWallet opts answers)
    ?_ ?_ ?_ (⟨rfl, hstart⟩ : Inv [] wallets { files := files })
  · rw [show attempt (reconcileWallet opts answers) { files := files } wallets = (s, error)
      from hrun] at hend
    exact hend
  · rintro done wallet left s s' ⟨hsplit, hloop⟩ hf
    have hturn := reconcileWallet_spec hrebuild (hsound wallet) hloop.kept hf
    obtain ⟨hsettled, reported, hdrifts, -, hall⟩ := hloop.next hturn
    refine ⟨by rw [hsplit, List.append_assoc]; rfl, hturn.kept, fun other hother => ?_,
      fun other hother => ?_, ?_⟩
    · rw [List.mem_append, List.mem_singleton, not_or] at hother
      exact (hturn.others other hother.2).trans (hloop.others other hother.1)
    · by_cases hsame : other = wallet
      · subst hsame
        exact ⟨hsettled.resolve_right fun hfailed => hfailed.1 rfl, hturn.reads rfl⟩
      · have hmem : other ∈ done :=
          (List.mem_append.1 hother).resolve_right fun h => hsame (List.mem_singleton.1 h)
        obtain ⟨hdone, hreads⟩ := hloop.turns other hmem
        exact ⟨hdone.congr (hturn.others other hsame), hreads⟩
    · rw [flatMap_firstSeen_concat, hdrifts, hall rfl, hloop.drifts]
  · rintro done wallet left s s' e ⟨hsplit, hloop⟩ hf
    have hturn := reconcileWallet_spec hrebuild (hsound wallet) hloop.kept hf
    obtain ⟨hsettled, reported, hdrifts, hprefix, -⟩ := hloop.next hturn
    refine ⟨fun other hother => ?_, fun other hother => ?_, ⟨_, (List.nil_append _).symm, ?_,
      fun h => nomatch h⟩, fun h => nomatch h⟩
    · rw [hsplit, List.mem_append, List.mem_cons, not_or, not_or] at hother
      exact (hturn.others other hother.2.1).trans (hloop.others other hother.1)
    · by_cases hsame : other = wallet
      · subst hsame
        by_cases hdone : other ∈ done
        · rcases hsettled with hsettled | ⟨-, hkept⟩
          · exact .inl hsettled
          · exact .inl (((hloop.turns other hdone).1.congr hkept).anyway _)
        · exact hsettled.imp_right fun h => ⟨h.1, h.2.trans (hloop.others other hdone)⟩
      · by_cases hdone : other ∈ done
        · have hdone' := (hloop.turns other hdone).1.congr (hturn.others other hsame)
          exact .inl (hdone'.anyway _)
        · exact .inr ⟨by simp,
            (hturn.others other hsame).trans (hloop.others other hdone)⟩
    · have hwhole : wallets = done ++ [wallet] ++ left := by
        rw [hsplit, List.append_assoc]
        rfl
      have hpart : firstSeen (done ++ [wallet]) <+: firstSeen wallets := by
        rw [hwhole]
        exact firstSeen_append_isPrefix _ left
      refine List.IsPrefix.trans ?_ (hpart.flatMap _)
      rw [hdrifts, hloop.drifts, flatMap_firstSeen_concat]
      exact (List.prefix_append_right_inj _).2 hprefix
  · rintro done s ⟨hsplit, hloop⟩
    rw [List.append_nil] at hsplit
    subst hsplit
    refine ⟨hloop.others, fun wallet hwallet => .inl (hloop.turns wallet hwallet).1,
      ⟨_, (List.nil_append _).symm, ?_, fun _ => hloop.drifts⟩, fun _ => ?_⟩
    · rw [hloop.drifts]
    · refine attempt_quiet fun wallet hwallet => ?_
      obtain ⟨hturn, hreads⟩ := hloop.turns wallet hwallet
      exact reconcileWallet_quiet (s := { files := s.files }) hreads hturn

/-- The wallet sold three of its four tokens, and the store has not heard of it. -/
def soldElsewhere : Answers where
  getTokenAccountsByOwner := fun programId =>
    if TOKEN_PROGRAMS.head? = some programId then
      .ok (some [{ mint := Reconstructor.token.toBase58, amount := "1" }])
    else .ok none
  reconstruct :=
    some (reconstructFor Reconstructor.reopened 0 0 5 Reconstructor.holder)

theorem runOnce_settles_soldElsewhere :
    ∃ files events s,
      runCalls noFiles (callsOf Reconstructor.holder Reconstructor.token |>.take 2) =
        .ok (files, events) ∧
      runOnce {} (fun _ => soldElsewhere) [Reconstructor.holder] files = (s, none) ∧
      s.drifts.map (·.diff) = [-3] ∧
      runOnce {} (fun _ => soldElsewhere) [Reconstructor.holder] s.files =
        ({ files := s.files }, none) := by
  obtain ⟨⟨files, events⟩, hcalls, hok⟩ :
      ∃ r, runCalls noFiles (callsOf Reconstructor.holder Reconstructor.token |>.take 2) = .ok r ∧
        (runOnce {} (fun _ => soldElsewhere) [Reconstructor.holder] r.1).2 = none ∧
        (runOnce {} (fun _ => soldElsewhere) [Reconstructor.holder] r.1).1.drifts.map (·.diff) =
          [-3] := by
    decide +kernel
  have hsound : Sound soldElsewhere :=
    sound_reconstructFor (fun _ _ h => absurd h List.not_mem_nil) 0 0 5 _ rfl (by decide)
  obtain ⟨s, error, hrun⟩ : ∃ s error,
      runOnce {} (fun _ => soldElsewhere) [Reconstructor.holder] files = (s, error) := ⟨_, _, rfl⟩
  rw [hrun] at hok
  obtain ⟨rfl, hdiff⟩ := hok
  exact ⟨files, events, s, hcalls, hrun, hdiff,
    (runOnce_settles hcalls rfl (fun _ => hsound) _ hrun).2.2.2 rfl⟩

end Ap3xSolana.Portfolio.Reconciler
