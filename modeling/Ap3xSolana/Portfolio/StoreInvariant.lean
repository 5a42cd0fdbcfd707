import Ap3xSolana.Portfolio.StoreCalls
import Ap3xSolana.Portfolio.StoreRoundTrip

/-!
# What every wallet file satisfies

`Effect` says what a call does to the two totals and to the positions; a call that reads
back `Consistent` data leaves consistent data behind (`Consistent.effect`), and reading
changes neither the totals nor the mints (`readBack_totals`).
-/

namespace Ap3xSolana.Portfolio.StoreFile

open Ap3xSolana.Core Ap3xSolana.Lib Ap3xSolana.Lib.Throwing
open Ap3xSolana.Portfolio.Accounting

/-- What the events of a mint realized together. -/
def realizedOf (mint : PublicKey) (events : List RealizedPnlEvent) : Int :=
  ((events.filter (·.mint = mint)).map (·.realized)).sum

theorem realizedOf_append (mint : PublicKey) (events events' : List RealizedPnlEvent) :
    realizedOf mint (events ++ events') = realizedOf mint events + realizedOf mint events' := by
  unfold realizedOf
  rw [List.filter_append, List.map_append, List.sum_append]

theorem realizedOf_singleton (mint : PublicKey) (e : RealizedPnlEvent) :
    realizedOf mint [e] = if e.mint = mint then e.realized else 0 := by
  unfold realizedOf
  by_cases h : e.mint = mint <;> simp [h]

/-- `events` are the `realized-pnl` events of the wallet so far. -/
structure Consistent (data : WalletData) (events : List RealizedPnlEvent) : Prop where
  onePosition : (data.positions.map (·.mint)).Nodup
  total : data.realizedPnl = data.realizedPnlByMint.values.sum
  byMint : ∀ mint : PublicKey,
    (data.realizedPnlByMint.get? mint.toBase58).getD 0 = realizedOf mint events

theorem consistent_empty : Consistent emptyWallet [] :=
  ⟨List.nodup_nil, rfl, fun _ => rfl⟩

/-! ## Positions -/

/-- Putting a position where its mint already is, or at the end, repeats no mint. -/
theorem nodup_put {data : WalletData} {pos : Position} {mint : PublicKey}
    (hpos : pos.mint = mint) (h : (data.positions.map (·.mint)).Nodup) :
    ((putPosition data (data.positions.findIdx? (·.mint = mint)) pos).positions.map
      (·.mint)).Nodup := by
  subst hpos
  unfold putPosition
  cases hidx : data.positions.findIdx? (·.mint = pos.mint) with
  | some i =>
      obtain ⟨hlt, hmint, -⟩ := List.findIdx?_eq_some_iff_getElem.1 hidx
      have hlt' : i < (data.positions.map (·.mint)).length := by simpa using hlt
      have hget : (data.positions.map (·.mint))[i] = pos.mint := by
        rw [List.getElem_map]
        exact of_decide_eq_true hmint
      dsimp only
      rwa [List.map_set, ← hget, List.set_getElem_self]
  | none =>
      rw [List.findIdx?_eq_none_iff] at hidx
      dsimp only
      rw [List.map_append, List.map_singleton, ← List.concat_eq_append]
      apply h.concat
      intro hmem
      obtain ⟨p, hp, hmint⟩ := List.mem_map.1 hmem
      exact absurd hmint (by simpa using hidx p hp)

/-! ## What a call does -/

/-- A call adds what it realized to both totals. -/
structure Effect (wallet : PublicKey) (data : WalletData) (c : Computed) : Prop where
  onePosition : (data.positions.map (·.mint)).Nodup → (c.data.positions.map (·.mint)).Nodup
  unrealized : c.realized = none → c.data.realizedPnl = data.realizedPnl ∧
    c.data.realizedPnlByMint = data.realizedPnlByMint
  realized : ∀ e, c.realized = some e → e.wallet = wallet ∧
    c.data.realizedPnl = data.realizedPnl + e.realized ∧
    c.data.realizedPnlByMint = data.realizedPnlByMint.set e.mint.toBase58
      ((data.realizedPnlByMint.get? e.mint.toBase58).getD 0 + e.realized)

theorem Consistent.effect {wallet : PublicKey} {data : WalletData} {c : Computed}
    {events : List RealizedPnlEvent} (h : Consistent data events)
    (heff : Effect wallet data c) : Consistent c.data (events ++ c.realized.toList) := by
  cases hreal : c.realized with
  | none =>
      obtain ⟨htotal, hby⟩ := heff.unrealized hreal
      rw [Option.toList_none, List.append_nil]
      refine ⟨heff.onePosition h.onePosition, ?_, ?_⟩
      · rw [htotal, hby]
        exact h.total
      · rw [hby]
        exact h.byMint
  | some e =>
      obtain ⟨-, htotal, hby⟩ := heff.realized e hreal
      refine ⟨heff.onePosition h.onePosition, ?_, fun mint => ?_⟩
      · have hsum := data.realizedPnlByMint.sum_values_set e.mint.toBase58
          ((data.realizedPnlByMint.get? e.mint.toBase58).getD 0 + e.realized)
        rw [← hby] at hsum
        have := h.total
        omega
      · rw [hby, OrderedMap.get?_set, Option.toList_some, realizedOf_append,
          realizedOf_singleton]
        by_cases hmint : e.mint = mint
        · subst hmint
          rw [if_pos rfl, if_pos rfl, Option.getD_some, h.byMint]
        · have hkey : ¬ mint.toBase58 = e.mint.toBase58 :=
            fun heq => hmint (PublicKey.toBase58_injective heq).symm
          rw [if_neg hkey, if_neg hmint, h.byMint, add_zero]

theorem observe_effect {wallet : PublicKey} {method : Option AccountingMethod}
    {balances : OrderedMap String Int} {reconstruct : Reconstruct} {data : WalletData}
    {c : Computed} (h : observe wallet method balances reconstruct data = .ok c) :
    Effect wallet data c := by
  obtain ⟨⟨data', changes⟩, hfold, hret⟩ := bind_eq_ok.1 h
  obtain rfl := pure_eq_ok.1 hret
  let Inv : WalletData × List PositionChange → Prop := fun acc =>
    ((data.positions.map (·.mint)).Nodup → (acc.1.positions.map (·.mint)).Nodup) ∧
      acc.1.realizedPnl = data.realizedPnl ∧
      acc.1.realizedPnlByMint = data.realizedPnlByMint
  have hround : ∀ acc, ∀ entry ∈ balances.entries, Inv acc →
      Ensures (fun _ => True) Inv (observeBalance wallet reconstruct acc entry) := by
    intro acc entry _ hacc
    unfold observeBalance
    split
    · exact hacc
    · split
      · trivial
      · rename_i mint _
        split
        · exact hacc
        · rename_i hnew
          split
          · trivial
          · rename_i lots _
            refine ⟨fun hnodup => ?_, hacc.2⟩
            have hidx : acc.1.positions.findIdx? (·.mint = mint) = none := by
              rw [List.findIdx?_eq_none_iff]
              intro p hp
              apply decide_eq_false
              intro hmint
              exact hnew (List.any_eq_true.2 ⟨p, hp, decide_eq_true hmint⟩)
            have hmint : (rebuiltPosition wallet mint lots).mint = mint := rfl
            have hput := nodup_put hmint (hacc.1 hnodup)
            rwa [hidx] at hput
  have hinv : Inv (data', changes) :=
    (Ensures.foldlM Inv hround ⟨id, rfl, rfl⟩).of_eq hfold
  exact ⟨hinv.1, fun _ => hinv.2, fun _ he => nomatch he⟩

theorem rebuildPosition_effect (wallet mint : PublicKey) (lots : List Lot)
    (data : WalletData) : Effect wallet data (rebuildPosition wallet mint lots data) :=
  ⟨nodup_put rfl, fun _ => ⟨rfl, rfl⟩, fun _ he => nomatch he⟩

theorem correctLotBasis_effect {wallet mint : PublicKey} {lotIndex basis : Int}
    {data : Option WalletData} {c : Computed}
    (h : correctLotBasis wallet mint lotIndex basis data = .ok c) :
    Effect wallet (data.getD emptyWallet) c := by
  unfold correctLotBasis at h
  split at h
  · cases h
  · rename_i data
    dsimp only at h
    split at h
    · cases h
    · rename_i before hbefore
      split at h
      · cases h
      · rename_i lot _
        cases h
        have hmint : before.mint = mint := by
          rw [← List.find?_eq_bind_findIdx?_getElem?] at hbefore
          have hfound := List.find?_some hbefore
          exact of_decide_eq_true hfound
        exact ⟨nodup_put hmint, fun _ => ⟨rfl, rfl⟩, fun _ he => nomatch he⟩

theorem computeTrade_effect {trade : LandedTrade} {data : WalletData} {c : Computed}
    (h : computeTrade trade data = .ok c) : Effect trade.wallet data c := by
  unfold computeTrade at h
  split at h
  · cases h
  · rename_i data' change happly
    cases h
    rw [applyTo_eq] at happly
    obtain ⟨⟨booked, pos⟩, htrade, hret⟩ := bind_eq_ok.1 happly
    obtain ⟨rfl, -⟩ := Prod.mk.inj (pure_eq_ok.1 hret)
    obtain ⟨hpositions, -, hmint, -⟩ := tradePosition_eq_ok htrade
    rw [tradedPosition_mint] at hmint
    have hput : (data.positions.map (·.mint)).Nodup → ((putPosition booked
        (data.positions.findIdx? (·.mint = trade.mint)) pos).positions.map (·.mint)).Nodup := by
      intro hnodup
      rw [← hpositions] at hnodup ⊢
      exact nodup_put hmint hnodup
    unfold tradePosition at htrade
    rw [lots_tradedPosition] at htrade
    split at htrade
    · rename_i hbuy
      cases htrade
      have hevent : realizedEvent data (((data.position trade.mint).map (·.lots)).getD [])
          trade = none := if_neg (by omega)
      refine ⟨hput, fun _ => ⟨rfl, rfl⟩, fun e he => ?_⟩
      rw [hevent] at he
      cases he
    · split at htrade
      · rename_i hsell
        split at htrade
        · cases htrade
        · rename_i r hreduce
          cases htrade
          have hevent : realizedEvent data
              (((data.position trade.mint).map (·.lots)).getD []) trade =
              some { wallet := trade.wallet, mint := trade.mint, realized := r.realized,
                     costBasis := r.costBasis, proceeds := r.proceeds,
                     basisUnresolved := r.basisUnresolved, slot := trade.slot } := by
            rw [realizedEvent, if_pos hsell, hreduce]
          refine ⟨hput, fun hnone => ?_, fun e he => ?_⟩
          · rw [hevent] at hnone
            cases hnone
          · rw [hevent] at he
            cases he
            exact ⟨rfl, rfl, rfl⟩
      · rename_i hsell
        cases htrade
        refine ⟨hput, fun _ => ⟨rfl, rfl⟩, fun e he => ?_⟩
        rw [realizedEvent, if_neg hsell] at he
        cases he

theorem compute_effect {call : StoreCall} {loaded : Option WalletData} {c : Computed}
    (h : compute loaded call = .ok c) :
    Effect call.wallet (loaded.getD emptyWallet) c := by
  cases call with
  | observe wallet method balances reconstruct => exact observe_effect h
  | rebuildPosition wallet mint lots =>
      cases h
      exact rebuildPosition_effect wallet mint lots _
  | correctLotBasis wallet mint lotIndex basis => exact correctLotBasis_effect h
  | applyLandedTrade trade => exact computeTrade_effect h

/-! ## Runs -/

private theorem mints_readBack {ps ps' : List Position}
    (h : List.Forall₂ (fun p p' => readPosition (writePosition p) = .ok p') ps ps') :
    ps'.map (·.mint) = ps.map (·.mint) := by
  induction h with
  | nil => rfl
  | @cons p p' _ _ hp _ ih =>
      have hmint : p.mint = p'.mint :=
        PublicKey.toBase58_injective (readPosition_eq_ok hp).2
      rw [List.map_cons, List.map_cons, ih, hmint]

/-- Reading a file back changes neither the totals nor the mints. -/
theorem readBack_totals {data data' : WalletData}
    (h : readWallet (writeWallet data) = .ok data') :
    data'.positions.map (·.mint) = data.positions.map (·.mint) ∧
      data'.realizedPnl = data.realizedPnl ∧
      data'.realizedPnlByMint = data.realizedPnlByMint := by
  obtain ⟨positions, hpositions, h⟩ := bind_eq_ok.1 h
  obtain ⟨realizedPnl, htotal, h⟩ := bind_eq_ok.1 h
  obtain ⟨entries, hentries, h⟩ := bind_eq_ok.1 h
  obtain rfl := pure_eq_ok.1 h
  refine ⟨?_, ?_, ?_⟩
  · have hread := mapM_eq_ok.1 hpositions
    unfold writeWallet at hread
    dsimp only at hread ⊢
    rw [List.forall₂_map_left_iff] at hread
    exact mints_readBack hread
  · exact Except.ok.inj ((readBigint_replacer _).symm.trans htotal) |>.symm
  · have hplain : (data.realizedPnlByMint.entries.map fun e => (e.1, bigintReplacer e.2)).mapM
        readPnl = .ok data.realizedPnlByMint.entries := by
      rw [mapM_eq_ok, List.forall₂_map_left_iff, List.forall₂_same]
      intro e _
      rw [readPnl, readBigint_replacer]
      rfl
    unfold writeWallet at hentries
    dsimp only at hentries ⊢
    rw [Option.getD_some, hplain] at hentries
    cases hentries
    exact OrderedMap.ofEntries_entries _

/-- The events of a wallet. -/
def eventsOf (wallet : PublicKey) (events : List RealizedPnlEvent) : List RealizedPnlEvent :=
  events.filter (·.wallet = wallet)

/-- The wallet has no file yet, or one that was written from consistent data. -/
def ConsistentFile (files : Files) (events : List RealizedPnlEvent) (wallet : PublicKey) :
    Prop :=
  ∃ data, (files wallet = none ∧ data = emptyWallet ∨
    files wallet = some (writeWallet data)) ∧ Consistent data (eventsOf wallet events)

theorem ConsistentFile.loaded {files : Files} {events : List RealizedPnlEvent}
    {wallet : PublicKey} (h : ConsistentFile files events wallet) {loaded : Option WalletData}
    (hload : load files wallet = .ok loaded) :
    Consistent (loaded.getD emptyWallet) (eventsOf wallet events) := by
  obtain ⟨data, ⟨hfile, rfl⟩ | hfile, hdata⟩ := h
  · unfold load loadWalletData at hload
    rw [hfile] at hload
    cases hload
    exact hdata
  · unfold load loadWalletData at hload
    rw [hfile] at hload
    dsimp only at hload
    cases hread : readWallet (writeWallet data) with
    | error e =>
        rw [hread] at hload
        cases hload
    | ok data' =>
        rw [hread] at hload
        cases hload
        obtain ⟨hmints, htotal, hby⟩ := readBack_totals hread
        refine ⟨?_, ?_, ?_⟩
        · rw [Option.getD_some, hmints]
          exact hdata.onePosition
        · rw [Option.getD_some, htotal, hby]
          exact hdata.total
        · rw [Option.getD_some, hby]
          exact hdata.byMint

theorem eventsOf_append (wallet : PublicKey) (events events' : List RealizedPnlEvent) :
    eventsOf wallet (events ++ events') = eventsOf wallet events ++ eventsOf wallet events' :=
  List.filter_append ..

theorem ConsistentFile.after {files files' : Files} {events : List RealizedPnlEvent}
    {call : StoreCall} {c : Computed} (h : ∀ wallet, ConsistentFile files events wallet)
    (hrun : runCall files call = .ok (files', c)) (wallet : PublicKey) :
    ConsistentFile files' (events ++ c.realized.toList) wallet := by
  obtain ⟨loaded, hload, hrun⟩ := bind_eq_ok.1 hrun
  obtain ⟨c', hcompute, hrun⟩ := bind_eq_ok.1 hrun
  obtain ⟨rfl, rfl⟩ := Prod.mk.inj (pure_eq_ok.1 hrun)
  have heff := compute_effect hcompute
  have hevents : eventsOf wallet c'.realized.toList =
      if call.wallet = wallet then c'.realized.toList else [] := by
    cases hreal : c'.realized with
    | none => simp [eventsOf]
    | some e => simp [eventsOf, List.filter_singleton, (heff.realized e hreal).1]
  unfold ConsistentFile
  rw [eventsOf_append, hevents]
  by_cases hwallet : call.wallet = wallet
  · subst hwallet
    refine ⟨c'.data, .inr (Function.update_self ..), ?_⟩
    rw [if_pos rfl]
    exact ((h call.wallet).loaded hload).effect heff
  · obtain ⟨data, hfile, hdata⟩ := h wallet
    refine ⟨data, ?_, ?_⟩
    · rwa [writeWalletData, Function.update_of_ne (Ne.symm hwallet)]
    · rwa [if_neg hwallet, List.append_nil]

/-- One or more calls, by the last of them. -/
theorem runCalls_concat {files files' : Files} {calls : List StoreCall} {call : StoreCall}
    {events : List RealizedPnlEvent}
    (h : runCalls files (calls ++ [call]) = .ok (files', events)) :
    ∃ files₁ before c, runCalls files calls = .ok (files₁, before) ∧
      runCall files₁ call = .ok (files', c) ∧ events = before ++ c.realized.toList := by
  unfold runCalls at h
  rw [List.foldlM_append] at h
  obtain ⟨⟨files₁, before⟩, hbefore, h⟩ := bind_eq_ok.1 h
  rw [List.foldlM_cons] at h
  obtain ⟨_, h, hnil⟩ := bind_eq_ok.1 h
  obtain ⟨⟨files₂, c⟩, hcall, h⟩ := bind_eq_ok.1 h
  obtain rfl := pure_eq_ok.1 h
  obtain ⟨rfl, rfl⟩ := Prod.mk.inj (pure_eq_ok.1 hnil)
  exact ⟨files₁, before, c, hbefore, hcall, rfl⟩

theorem consistentFile_of_runCalls {files : Files} {calls : List StoreCall}
    {events : List RealizedPnlEvent} (h : runCalls noFiles calls = .ok (files, events))
    (wallet : PublicKey) : ConsistentFile files events wallet := by
  induction calls using List.reverseRecOn generalizing files events wallet with
  | nil =>
      obtain ⟨rfl, rfl⟩ := Prod.mk.inj (pure_eq_ok.1 h)
      exact ⟨emptyWallet, .inl ⟨rfl, rfl⟩, consistent_empty⟩
  | append_singleton calls call ih =>
      obtain ⟨files₁, before, c, hbefore, hcall, rfl⟩ := runCalls_concat h
      exact ConsistentFile.after (fun wallet => ih hbefore wallet) hcall wallet

/-- After any successful calls every wallet's file has one position a mint, a total that
is the sum of its mints' totals, and for each mint the total that the `realized-pnl`
events of the wallet announced; and so does what the next call reads. -/
theorem runCalls_consistent {files : Files} {calls : List StoreCall}
    {events : List RealizedPnlEvent} (h : runCalls noFiles calls = .ok (files, events))
    (wallet : PublicKey) :
    ConsistentFile files events wallet ∧
      ∀ data, loadWalletData files wallet = .ok (some data) →
        Consistent data (eventsOf wallet events) := by
  have hfile := consistentFile_of_runCalls h wallet
  refine ⟨hfile, fun data hdata => ?_⟩
  have hload : load files wallet = .ok (some data) := by rw [load, hdata]
  exact hfile.loaded hload

/-- A buy, its basis corrected, a sale of everything and a rebuilt position. -/
def callsOf (wallet mint : PublicKey) : List StoreCall :=
  let buy : LandedTrade :=
    { signature := "buy", slot := 1, wallet := wallet, mint := mint, amountDelta := 4,
      solFlowLamports := -8, feeLamports := 0, source := .executor }
  [.applyLandedTrade buy, .correctLotBasis wallet mint 0 7,
    .applyLandedTrade
      { buy with signature := "sell", slot := 2, amountDelta := -4, solFlowLamports := 9 },
    .rebuildPosition wallet mint []]

theorem runCalls_consistent_callsOf :
    ∃ files events,
      runCalls noFiles (callsOf (.ofByte 0) (.ofByte 1)) = .ok (files, events) ∧
      ConsistentFile files events (.ofByte 0) ∧
      ∀ data, loadWalletData files (.ofByte 0) = .ok (some data) →
        Consistent data (eventsOf (.ofByte 0) events) := by
  have hrun : ∃ r, runCalls noFiles (callsOf (.ofByte 0) (.ofByte 1)) = .ok r ∧
      r.2.map (·.realized) = [2] := by
    decide +kernel
  obtain ⟨⟨files, events⟩, hrun, -⟩ := hrun
  exact ⟨files, events, hrun, runCalls_consistent hrun (.ofByte 0)⟩

end Ap3xSolana.Portfolio.StoreFile
