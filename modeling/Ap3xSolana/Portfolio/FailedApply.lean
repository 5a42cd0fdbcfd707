import Ap3xSolana.Portfolio.StoreInvariant

/-!
# `applyLandedTrade` when something fails

The critical section of one trade, await by await: it reads the file, books the trade, announces
the profit of a sale, replaces the file, appends to the audit log and announces the change.  What
is not the store's own code can fail at every one of these.  Until the file is replaced a failure
leaves the file as it was; after that the trade stays booked (`rejected_leaves`).
-/

namespace Ap3xSolana.Portfolio.StoreFile

open Ap3xSolana.Core Ap3xSolana.Lib Ap3xSolana.Lib.Throwing Ap3xSolana.Portfolio.Accounting

/-- What can fail for a reason outside the store, in the order of the source. -/
inductive FailurePoint where
  | readFile
  | realizedListener
  | mkdir
  | writeFile
  | rename
  | auditMkdir
  | appendFile
  | changeListener
  deriving DecidableEq, Repr

/-- What would be thrown where.  A call stops at the first failure that it reaches. -/
abbrev Failures := FailurePoint → Option String

inductive StoreEvent where
  | realizedPnl (event : RealizedPnlEvent)
  | change (change : PositionChange)
  deriving DecidableEq, Repr

/-- What is left when the call has settled. -/
structure Applied where
  files : Files
  events : List StoreEvent
  result : Except CallError (List PositionChange)

def rejectWith (files : Files) (events : List StoreEvent) (message : String) : Applied :=
  { files := files, events := events, result := .error (.other message) }

/-- `writeWalletData`: a temporary file, then its rename. -/
def writeFailure (fails : Failures) : Option String :=
  [FailurePoint.mkdir, .writeFile, .rename].findSome? fails

/-- `audit`. -/
def auditFailure (fails : Failures) : Option String :=
  [FailurePoint.auditMkdir, .appendFile].findSome? fails

/-- From the audit log on; the file has been replaced. -/
def finishApply (fails : Failures) (files : Files) (events : List StoreEvent)
    (computed : Computed) : Applied :=
  match auditFailure fails with
  | some message => rejectWith files events message
  | none =>
      let events := events ++ computed.changes.map .change
      match fails .changeListener with
      | some message => rejectWith files events message
      | none => { files := files, events := events, result := .ok computed.changes }

def writeApply (fails : Failures) (files : Files) (events : List StoreEvent)
    (trade : LandedTrade) (computed : Computed) : Applied :=
  match writeFailure fails with
  | some message => rejectWith files events message
  | none => finishApply fails (writeWalletData files trade.wallet computed.data) events computed

/-- The profit of a sale is announced before anything is written. -/
def emitApply (fails : Failures) (files : Files) (trade : LandedTrade) (computed : Computed) :
    Applied :=
  match computed.realized with
  | none => writeApply fails files [] trade computed
  | some event =>
      match fails .realizedListener with
      | some message => rejectWith files [.realizedPnl event] message
      | none => writeApply fails files [.realizedPnl event] trade computed

/-- The critical section of `applyLandedTrade`. -/
def applyFailing (fails : Failures) (files : Files) (trade : LandedTrade) : Applied :=
  match fails .readFile with
  | some message => rejectWith files [] message
  | none =>
      match load files trade.wallet with
      | .error e => { files := files, events := [], result := .error e }
      | .ok loaded =>
          match computeTrade trade (loaded.getD emptyWallet) with
          | .error e => { files := files, events := [], result := .error e }
          | .ok computed => emitApply fails files trade computed

/-! ## Where the file is replaced -/

/-- A trade that was booked announces a profit where it is a sale. -/
theorem realizedEvent_eq_none_iff {data : WalletData} {trade : LandedTrade}
    {booked : WalletData × PositionChange} (h : applyTo data trade = .ok booked) :
    realizedEvent data (((data.position trade.mint).map (·.lots)).getD []) trade = none ↔
      0 ≤ trade.amountDelta := by
  rw [applyTo_eq] at h
  obtain ⟨traded, htrade, -⟩ := bind_eq_ok.1 h
  unfold tradePosition at htrade
  rw [lots_tradedPosition] at htrade
  unfold realizedEvent
  by_cases hsale : trade.amountDelta < 0
  · rw [if_neg (by omega), if_pos hsale] at htrade
    rw [if_pos hsale]
    cases hreduce : reduceLots (((data.position trade.mint).map (·.lots)).getD [])
        (-trade.amountDelta) (saleProceeds trade) (data.method.getD .fifo) with
    | error e =>
        rw [hreduce] at htrade
        cases htrade
    | ok r =>
        constructor
        · intro hnone
          cases hnone
        · omega
  · rw [if_neg hsale]
    exact ⟨fun _ => Int.not_lt.1 hsale, fun _ => rfl⟩

/-- What one section computes, against `applyTo`. -/
theorem computeTrade_eq_ok {trade : LandedTrade} {data : WalletData} {computed : Computed}
    (h : computeTrade trade data = .ok computed) :
    (∃ change, applyTo data trade = .ok (computed.data, change) ∧ computed.changes = [change]) ∧
      (computed.realized = none ↔ 0 ≤ trade.amountDelta) := by
  unfold computeTrade at h
  cases happly : applyTo data trade with
  | error e =>
      rw [happly] at h
      cases h
  | ok applied =>
      obtain ⟨data', change⟩ := applied
      rw [happly] at h
      cases h
      exact ⟨⟨change, rfl, rfl⟩, realizedEvent_eq_none_iff happly⟩

theorem computeTrade_eq_error {trade : LandedTrade} {data : WalletData} {e : CallError}
    (h : computeTrade trade data = .error e) : ∃ e', applyTo data trade = .error e' := by
  unfold computeTrade at h
  cases happly : applyTo data trade with
  | error e' => exact ⟨e', rfl⟩
  | ok applied =>
      rw [happly] at h
      cases h

theorem applyLandedTrade_loaded {files : Files} {trade : LandedTrade}
    {loaded : Option WalletData} (h : load files trade.wallet = .ok loaded) :
    applyLandedTrade files trade = (do
      let (data, change) ← applyTo (loaded.getD emptyWallet) trade
      return (writeWalletData files trade.wallet data, change)) := by
  unfold load at h
  unfold applyLandedTrade
  cases hload : loadWalletData files trade.wallet with
  | error e =>
      rw [hload] at h
      cases h
  | ok loaded' =>
      rw [hload] at h
      cases h
      rfl

theorem finishApply_files (fails : Failures) (files : Files) (events : List StoreEvent)
    (computed : Computed) : (finishApply fails files events computed).files = files := by
  unfold finishApply
  cases auditFailure fails with
  | some message => rfl
  | none =>
      dsimp only
      cases fails .changeListener <;> rfl

/-- Only the audit log comes between the file and the announcement of the change. -/
theorem finishApply_events {fails : Failures} {files : Files} {events : List StoreEvent}
    {computed : Computed} :
    (finishApply fails files events computed).events =
      if auditFailure fails = none then events ++ computed.changes.map .change else events := by
  unfold finishApply
  cases auditFailure fails with
  | some message => rfl
  | none =>
      dsimp only
      cases fails .changeListener <;> rfl

theorem finishApply_rejects (fails : Failures) (files : Files) (events : List StoreEvent)
    (computed : Computed) :
    (∃ e, (finishApply fails files events computed).result = .error e) ↔
      auditFailure fails ≠ none ∨ fails .changeListener ≠ none := by
  unfold finishApply
  cases auditFailure fails with
  | some message => exact ⟨fun _ => .inl (Option.some_ne_none message), fun _ => ⟨_, rfl⟩⟩
  | none =>
      dsimp only
      cases fails .changeListener with
      | some message => exact ⟨fun _ => .inr (Option.some_ne_none message), fun _ => ⟨_, rfl⟩⟩
      | none =>
          constructor
          · rintro ⟨e, he⟩
            cases he
          · rintro (h | h) <;> exact absurd rfl h

theorem applyLandedTrade_unread {files : Files} {trade : LandedTrade} {e : CallError}
    (h : load files trade.wallet = .error e) : ∃ e', applyLandedTrade files trade = .error e' := by
  unfold load at h
  unfold applyLandedTrade
  cases hload : loadWalletData files trade.wallet with
  | error e' => exact ⟨e', rfl⟩
  | ok loaded =>
      rw [hload] at h
      cases h

/-! ## Before the file is replaced -/

/-- The call rejects with the file as it was and without a `change` event. -/
structure LeftAlone (files : Files) (trade : LandedTrade) (a : Applied) : Prop where
  rejected : ∃ e, a.result = .error e
  files : a.files = files
  noChange : ∀ change, .change change ∉ a.events
  /-- A trade that is not a sale has announced nothing at all. -/
  silent : 0 ≤ trade.amountDelta → a.events = []

/-- The trade is in the file.  The `change` event is out once the audit log has its entry. -/
structure Replaced (fails : Failures) (files' : Files) (change : PositionChange) (a : Applied) :
    Prop where
  files : a.files = files'
  rejected : (∃ e, a.result = .error e) ↔ auditFailure fails ≠ none ∨ fails .changeListener ≠ none
  changed : ∀ c, .change c ∈ a.events ↔ auditFailure fails = none ∧ c = change

theorem leftAlone_nothing {files : Files} {trade : LandedTrade} (e : CallError) :
    LeftAlone files trade { files := files, events := [], result := .error e } where
  rejected := ⟨e, rfl⟩
  files := rfl
  noChange _ := List.not_mem_nil
  silent _ := rfl

/-- What is announced before the write. -/
def announced (computed : Computed) : List StoreEvent :=
  computed.realized.toList.map .realizedPnl

theorem change_notMem_announced (computed : Computed) (change : PositionChange) :
    .change change ∉ announced computed := by
  unfold announced
  simp

theorem emitApply_writes {fails : Failures} {computed : Computed}
    (h : computed.realized = none ∨ fails .realizedListener = none) (files : Files)
    (trade : LandedTrade) :
    emitApply fails files trade computed =
      writeApply fails files (announced computed) trade computed := by
  unfold emitApply announced
  cases hrealized : computed.realized with
  | none => rfl
  | some event =>
      rw [hrealized] at h
      rw [h.resolve_left (Option.some_ne_none event)]
      rfl

theorem emitApply_throws {fails : Failures} {computed : Computed}
    (h : ¬ (computed.realized = none ∨ fails .realizedListener = none)) (files : Files)
    (trade : LandedTrade) :
    ∃ message, emitApply fails files trade computed =
      rejectWith files (announced computed) message := by
  unfold emitApply announced
  cases hrealized : computed.realized with
  | none => exact absurd (.inl hrealized) h
  | some event =>
      dsimp only
      cases hfails : fails .realizedListener with
      | none => exact absurd (.inr hfails) h
      | some message => exact ⟨message, rfl⟩

/-- Where nothing fails this is the section that the mutex runs. -/
theorem applyFailing_of_runCall {files files' : Files} {trade : LandedTrade}
    {computed : Computed} (h : runCall files (.applyLandedTrade trade) = .ok (files', computed)) :
    applyFailing (fun _ => none) files trade =
      { files := files', events := announced computed ++ computed.changes.map .change,
        result := .ok computed.changes } := by
  obtain ⟨loaded, hload, h⟩ := bind_eq_ok.1 h
  obtain ⟨computed', hcompute, h⟩ := bind_eq_ok.1 h
  obtain ⟨rfl, rfl⟩ := Prod.mk.inj (pure_eq_ok.1 h)
  have hload' : load files trade.wallet = .ok loaded := hload
  have hcompute' : computeTrade trade (loaded.getD emptyWallet) = .ok computed' := hcompute
  unfold applyFailing
  dsimp only
  rw [hload']
  dsimp only
  rw [hcompute']
  dsimp only
  rw [emitApply_writes (.inr rfl)]
  rfl

/-- The trade can be booked on what is stored, and the rename of the new file goes through. -/
structure Replaces (fails : Failures) (files : Files) (trade : LandedTrade) : Prop where
  read : fails .readFile = none
  booked : ∃ booked, applyLandedTrade files trade = .ok booked
  announced : trade.amountDelta < 0 → fails .realizedListener = none
  renamed : writeFailure fails = none

theorem not_replaces {fails : Failures} {files : Files} {trade : LandedTrade} {e : StoreError}
    (h : applyLandedTrade files trade = .error e) : ¬ Replaces fails files trade := by
  intro hreplaces
  obtain ⟨booked, hbooked⟩ := hreplaces.booked
  rw [h] at hbooked
  cases hbooked

theorem leftAlone_announced {files : Files} {trade : LandedTrade} {computed : Computed}
    (hsilent : 0 ≤ trade.amountDelta → computed.realized = none) (message : String) :
    LeftAlone files trade (rejectWith files (announced computed) message) where
  rejected := ⟨_, rfl⟩
  files := rfl
  noChange := change_notMem_announced computed
  silent h := by
    show announced computed = []
    rw [announced, hsilent h]
    rfl

/-- A trade that was computed: the failures decide whether the file is replaced. -/
theorem emitApply_spec (fails : Failures) (files : Files) {trade : LandedTrade}
    {computed : Computed} {change : PositionChange} (hchanges : computed.changes = [change])
    (hrealized : computed.realized = none ↔ 0 ≤ trade.amountDelta) :
    ((trade.amountDelta < 0 → fails .realizedListener = none) ∧ writeFailure fails = none →
        Replaced fails (writeWalletData files trade.wallet computed.data) change
          (emitApply fails files trade computed)) ∧
      (¬ ((trade.amountDelta < 0 → fails .realizedListener = none) ∧ writeFailure fails = none) →
        LeftAlone files trade (emitApply fails files trade computed)) := by
  by_cases hannounced : computed.realized = none ∨ fails .realizedListener = none
  · rw [emitApply_writes hannounced]
    have hlistener : trade.amountDelta < 0 → fails .realizedListener = none := fun hsale =>
      hannounced.resolve_left fun hnone => by
        have := hrealized.1 hnone
        omega
    unfold writeApply
    cases hwrite : writeFailure fails with
    | some message =>
        exact ⟨fun h => absurd h.2 (Option.some_ne_none message),
          fun _ => leftAlone_announced hrealized.2 message⟩
    | none =>
        refine ⟨fun _ => ⟨finishApply_files .., finishApply_rejects .., ?_⟩,
          fun h => absurd ⟨hlistener, rfl⟩ h⟩
        intro c
        have hnot := change_notMem_announced computed c
        rw [finishApply_events, hchanges]
        by_cases haudit : auditFailure fails = none
        · rw [if_pos haudit]
          simp [haudit, hnot]
        · rw [if_neg haudit]
          exact ⟨fun hmem => absurd hmem hnot, fun hmem => absurd hmem.1 haudit⟩
  · have hsale : trade.amountDelta < 0 := by
      by_contra hbuy
      exact hannounced (.inl (hrealized.2 (Int.not_lt.1 hbuy)))
    obtain ⟨message, hthrows⟩ := emitApply_throws hannounced files trade
    rw [hthrows]
    exact ⟨fun h => absurd (.inr (h.1 hsale)) hannounced,
      fun _ => leftAlone_announced hrealized.2 message⟩

/-- A call that fails before the rename leaves the stored data alone; one that fails after it has
booked the trade as a call that resolves does. -/
theorem rejected_leaves (fails : Failures) (files : Files) (trade : LandedTrade) :
    (¬ Replaces fails files trade → LeftAlone files trade (applyFailing fails files trade)) ∧
      (fails .readFile ≠ none ∨ (∃ e, applyLandedTrade files trade = .error e) →
        (applyFailing fails files trade).events = []) ∧
      (Replaces fails files trade → ∃ files' change,
        applyLandedTrade files trade = .ok (files', change) ∧
          Replaced fails files' change (applyFailing fails files trade)) := by
  unfold applyFailing
  cases hread : fails .readFile with
  | some message =>
      have hnot : ¬ Replaces fails files trade := fun h => by
        have hnone := h.read
        rw [hread] at hnone
        cases hnone
      exact ⟨fun _ => leftAlone_nothing _, fun _ => rfl, fun h => absurd h hnot⟩
  | none =>
      dsimp only
      cases hload : load files trade.wallet with
      | error e =>
          obtain ⟨e', he'⟩ := applyLandedTrade_unread hload
          exact ⟨fun _ => leftAlone_nothing e, fun _ => rfl, fun h => absurd h (not_replaces he')⟩
      | ok loaded =>
          have happlied := applyLandedTrade_loaded hload
          dsimp only
          cases hcompute : computeTrade trade (loaded.getD emptyWallet) with
          | error e =>
              obtain ⟨e', he'⟩ := computeTrade_eq_error hcompute
              rw [he'] at happlied
              exact ⟨fun _ => leftAlone_nothing e, fun _ => rfl,
                fun h => absurd h (not_replaces happlied)⟩
          | ok computed =>
              obtain ⟨⟨change, happly, hchanges⟩, hrealized⟩ := computeTrade_eq_ok hcompute
              rw [happly] at happlied
              obtain ⟨hreplaced, hleft⟩ := emitApply_spec fails files hchanges hrealized
              refine ⟨fun h => hleft fun hboth => h ⟨hread, ⟨_, happlied⟩, hboth.1, hboth.2⟩, ?_,
                fun h => ⟨_, change, happlied, hreplaced ⟨h.announced, h.renamed⟩⟩⟩
              rintro (hfail | ⟨e, he⟩)
              · exact absurd rfl hfail
              · rw [happlied] at he
                cases he

def buyOfFour : LandedTrade :=
  { signature := "buy", slot := 1, wallet := .ofByte 0, mint := .ofByte 1, amountDelta := 4,
    solFlowLamports := -8, feeLamports := 0, source := .executor }

def failsAt (point : FailurePoint) : Failures := fun p => if p = point then some "ENOSPC" else none

theorem rejected_leaves_rename :
    LeftAlone noFiles buyOfFour (applyFailing (failsAt .rename) noFiles buyOfFour) :=
  (rejected_leaves (failsAt .rename) noFiles buyOfFour).1 fun h => by cases h.renamed

/-- The audit log cannot be written: the call rejects, and the trade is in the file. -/
theorem rejected_keeps_trade :
    (∃ e, (applyFailing (failsAt .appendFile) noFiles buyOfFour).result = .error e) ∧
      loadWalletData (applyFailing (failsAt .appendFile) noFiles buyOfFour).files
        buyOfFour.wallet ≠ loadWalletData noFiles buyOfFour.wallet := by
  have hrun : (applyFailing (failsAt .appendFile) noFiles buyOfFour).result.toOption.isNone = true ∧
      ((applyFailing (failsAt .appendFile) noFiles buyOfFour).files buyOfFour.wallet).isSome =
        true := by
    decide +kernel
  obtain ⟨hresult, hfile⟩ := hrun
  constructor
  · cases hrejected : (applyFailing (failsAt .appendFile) noFiles buyOfFour).result with
    | error e => exact ⟨e, rfl⟩
    | ok changes =>
        rw [hrejected] at hresult
        cases hresult
  · obtain ⟨file, hstored⟩ := Option.isSome_iff_exists.1 hfile
    intro hsame
    unfold loadWalletData at hsame
    rw [hstored] at hsame
    obtain ⟨data, -, hdata⟩ := bind_eq_ok.1 hsame
    cases hdata

end Ap3xSolana.Portfolio.StoreFile
