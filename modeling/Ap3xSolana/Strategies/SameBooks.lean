import Ap3xSolana.Lib.OrderedMap
import Ap3xSolana.Portfolio.Position
import Ap3xSolana.Portfolio.StoreRoundTrip

/-!
# The backtest's books and the store's

The portfolio of the backtest harness keeps the lots of each wallet and mint, and what was
realized, with no file in between.  Both portfolios book a trade in the same way, so a run
that never sells more than is held keeps them equal as long as the store's files give back
what was put in them (`Mirrors.step`).  A text that the reviver takes for a `bigint` ends
that for good: what the store reads differs from then on, and the next trade on that
position shows it (`booksAgree_iff`).
-/

namespace Ap3xSolana.Strategies.BacktestPortfolio

open Ap3xSolana.Core Ap3xSolana.Lib Ap3xSolana.Portfolio Ap3xSolana.Portfolio.Accounting

/-! ## `InMemoryPortfolio` -/

structure InMemoryPortfolio where
  positions : OrderedMap PublicKey (OrderedMap PublicKey Position) := .empty
  realizedPnl : OrderedMap (PublicKey × PublicKey) Int := .empty

def getPosition (p : InMemoryPortfolio) (wallet mint : PublicKey) : Option Position :=
  (p.positions.get? wallet).bind (·.get? mint)

def getRealizedPnl (p : InMemoryPortfolio) (wallet mint : PublicKey) : Int :=
  (p.realizedPnl.get? (wallet, mint)).getD 0

/-- The position a trade leaves, and the profits with that of a sale.  A sale of more
than is held is cut to what is held. -/
def tradePosition (realizedPnl : OrderedMap (PublicKey × PublicKey) Int) (pos : Position)
    (trade : LandedTrade) :
    Except ReduceError (OrderedMap (PublicKey × PublicKey) Int × Position) :=
  if trade.amountDelta > 0 then
    .ok (realizedPnl, { pos with lots := pos.lots ++ [boughtLot trade],
                                 lastUpdatedSlot := trade.slot })
  else if trade.amountDelta < 0 then do
    let held := totalAmount pos.lots
    let sold := if -trade.amountDelta < held then -trade.amountDelta else held
    let r ← reduceLots pos.lots sold (saleProceeds trade) .fifo
    let key := (trade.wallet, trade.mint)
    return (realizedPnl.set key ((realizedPnl.get? key).getD 0 + r.realized),
      { pos with lots := r.remaining, lastUpdatedSlot := trade.slot })
  else .ok (realizedPnl, pos)

def applyLandedTrade (p : InMemoryPortfolio) (trade : LandedTrade) :
    Except ReduceError (InMemoryPortfolio × PositionChange) := do
  let byMint := (p.positions.get? trade.wallet).getD .empty
  let existing := byMint.get? trade.mint
  let (realizedPnl, pos) ←
    tradePosition p.realizedPnl (existing.getD (newPosition trade)) trade
  return ({ positions := p.positions.set trade.wallet (byMint.set trade.mint pos),
            realizedPnl := realizedPnl },
    { wallet := trade.wallet, mint := trade.mint, before := existing, after := pos,
      reason := .applyLandedTrade })

end Ap3xSolana.Strategies.BacktestPortfolio

namespace Ap3xSolana.Strategies.SameBooks

open Ap3xSolana.Core Ap3xSolana.Lib Ap3xSolana.Lib.Throwing
open Ap3xSolana.Portfolio Ap3xSolana.Portfolio.Accounting Ap3xSolana.Portfolio.StoreFile
open Ap3xSolana.Strategies.BacktestPortfolio (InMemoryPortfolio)

/-! ## Runs -/

/-- The trades one after the other, and the position changes they give. -/
def applyTrades {σ ε : Type} (apply : σ → LandedTrade → Except ε (σ × PositionChange))
    (s : σ) (trades : List LandedTrade) : Except ε (σ × List PositionChange) :=
  trades.foldlM (fun s t => do
    let (next, change) ← apply s.1 t
    return (next, s.2 ++ [change])) (s, [])

theorem applyTrades_concat {σ ε : Type}
    {apply : σ → LandedTrade → Except ε (σ × PositionChange)} {s s' : σ}
    {trades : List LandedTrade} {t : LandedTrade} {changes : List PositionChange} :
    applyTrades apply s (trades ++ [t]) = .ok (s', changes) ↔
      ∃ s₁ before change, applyTrades apply s trades = .ok (s₁, before) ∧
        apply s₁ t = .ok (s', change) ∧ changes = before ++ [change] := by
  unfold applyTrades
  rw [List.foldlM_append, bind_eq_ok]
  constructor
  · rintro ⟨⟨s₁, before⟩, hrun, hstep⟩
    rw [List.foldlM_cons] at hstep
    obtain ⟨_, hstep, hnil⟩ := bind_eq_ok.1 hstep
    obtain ⟨⟨next, change⟩, happly, hnext⟩ := bind_eq_ok.1 hstep
    obtain rfl := pure_eq_ok.1 hnext
    obtain ⟨rfl, rfl⟩ := Prod.mk.inj (pure_eq_ok.1 hnil)
    exact ⟨s₁, before, change, hrun, happly, rfl⟩
  · rintro ⟨s₁, before, change, hrun, happly, rfl⟩
    refine ⟨(s₁, before), hrun, ?_⟩
    rw [List.foldlM_cons, happly]
    rfl

/-- What trades leave of a mint in a wallet. -/
def holding (wallet mint : PublicKey) (trades : List LandedTrade) : Int :=
  ((trades.filter fun t => t.wallet = wallet && t.mint = mint).map (·.amountDelta)).sum

theorem holding_concat (wallet mint : PublicKey) (trades : List LandedTrade)
    (t : LandedTrade) : holding wallet mint (trades ++ [t]) = holding wallet mint trades +
      if t.wallet = wallet ∧ t.mint = mint then t.amountDelta else 0 := by
  unfold holding
  rw [List.filter_append, List.map_append, List.sum_append, List.filter_singleton]
  by_cases h : t.wallet = wallet ∧ t.mint = mint
  · simp [h]
  · have hfilter : (t.wallet = wallet && t.mint = mint) = false := by
      simpa only [Bool.and_eq_false_iff, decide_eq_false_iff_not, ← not_and_or] using h
    rw [if_neg h, hfilter]
    rfl

/-- No trade sells more than the trades before it have left. -/
def NeverOversells (trades : List LandedTrade) : Prop :=
  ∀ done, done <+: trades → ∀ wallet mint, 0 ≤ holding wallet mint done

theorem NeverOversells.initial {trades done : List LandedTrade} (h : NeverOversells trades)
    (hdone : done <+: trades) : NeverOversells done :=
  fun done' hdone' => h done' (hdone'.trans hdone)

theorem holding_eq_zero {wallet mint : PublicKey} {trades : List LandedTrade}
    (h : ∀ t ∈ trades, ¬ (t.wallet = wallet ∧ t.mint = mint)) :
    holding wallet mint trades = 0 := by
  have hnone : trades.filter (fun t => t.wallet = wallet && t.mint = mint) = [] := by
    rw [List.filter_eq_nil_iff]
    intro t ht
    simpa using h t ht
  rw [holding, hnone]
  rfl

/-- Only the mints and wallets of the trades count. -/
theorem neverOversells_iff {trades : List LandedTrade} : NeverOversells trades ↔
    ∀ done ∈ trades.inits, ∀ t ∈ trades, 0 ≤ holding t.wallet t.mint done := by
  constructor
  · intro h done hdone t _
    exact h done ((List.mem_inits _ _).1 hdone) t.wallet t.mint
  · intro h done hdone wallet mint
    by_cases hmem : ∃ t ∈ done, t.wallet = wallet ∧ t.mint = mint
    · obtain ⟨t, ht, rfl, rfl⟩ := hmem
      exact h done ((List.mem_inits _ _).2 hdone) t (hdone.subset ht)
    · rw [holding_eq_zero fun t ht heq => hmem ⟨t, ht, heq⟩]

instance (trades : List LandedTrade) : Decidable (NeverOversells trades) :=
  decidable_of_iff _ neverOversells_iff.symm

/-- Both portfolios take the trades, with the same changes, and read the same after
them. -/
def BooksAgree (trades : List LandedTrade) : Prop :=
  ∃ files p changes,
    applyTrades StoreFile.applyLandedTrade noFiles trades = .ok (files, changes) ∧
    applyTrades BacktestPortfolio.applyLandedTrade {} trades = .ok (p, changes) ∧
    ∀ wallet mint,
      StoreFile.getPosition files wallet mint =
        .ok (BacktestPortfolio.getPosition p wallet mint) ∧
      StoreFile.getRealizedPnl files wallet mint =
        .ok (BacktestPortfolio.getRealizedPnl p wallet mint)

/-- The reviver leaves alone what a trade puts into a file. -/
structure Survives (t : LandedTrade) : Prop where
  wallet : Plain t.wallet.toBase58
  mint : Plain t.mint.toBase58
  signature : 0 < t.amountDelta → Plain t.signature

/-! ## One trade on one position -/

theorem signature_of_descends {lots rest : List Lot} (h : Descends lots rest) :
    ∀ l ∈ rest, ∃ l' ∈ lots, l.acquiredSig = l'.acquiredSig := by
  induction h with
  | nil => exact fun l hl => nomatch hl
  | drop l _ ih =>
      intro l' hl'
      obtain ⟨l'', hmem, heq⟩ := ih l' hl'
      exact ⟨l'', List.mem_cons_of_mem _ hmem, heq⟩
  | keep l amount basis _ _ ih =>
      intro l' hl'
      rcases List.mem_cons.1 hl' with rfl | hl'
      · exact ⟨l, List.mem_cons_self, rfl⟩
      · obtain ⟨l'', hmem, heq⟩ := ih l' hl'
        exact ⟨l'', List.mem_cons_of_mem _ hmem, heq⟩

/-- What a trade makes of a position, and what it realizes. -/
structure Traded (pos : Position) (t : LandedTrade) (pos' : Position) : Prop where
  mint : pos'.mint = pos.mint
  walletAddress : pos'.walletAddress = pos.walletAddress
  positive : ∀ l ∈ pos'.lots, 0 < l.amount
  total : totalAmount pos'.lots = totalAmount pos.lots + t.amountDelta
  signatures : ∀ l ∈ pos'.lots, (∃ l' ∈ pos.lots, l.acquiredSig = l'.acquiredSig) ∨
    0 < t.amountDelta ∧ l.acquiredSig = .text t.signature
  bought : 0 < t.amountDelta → boughtLot t ∈ pos'.lots

/-- Both portfolios make the same of a position that holds enough. -/
theorem tradePosition_same {data : WalletData}
    (pnl : OrderedMap (PublicKey × PublicKey) Int) {pos : Position} (t : LandedTrade)
    (hmethod : data.method = none) (hpos : ∀ l ∈ pos.lots, 0 < l.amount)
    (henough : 0 ≤ totalAmount pos.lots + t.amountDelta) :
    ∃ booked pnl' pos' realized,
      StoreFile.tradePosition data pos t = .ok (booked, pos') ∧
      BacktestPortfolio.tradePosition pnl pos t = .ok (pnl', pos') ∧
      Traded pos t pos' ∧
      (∀ k, (booked.realizedPnlByMint.get? k).getD 0 =
        (data.realizedPnlByMint.get? k).getD 0 + if k = t.mint.toBase58 then realized else 0) ∧
      (∀ k, (pnl'.get? k).getD 0 =
        (pnl.get? k).getD 0 + if k = (t.wallet, t.mint) then realized else 0) := by
  unfold StoreFile.tradePosition BacktestPortfolio.tradePosition
  by_cases hbuy : t.amountDelta > 0
  · rw [if_pos hbuy, if_pos hbuy]
    refine ⟨_, _, _, 0, rfl, rfl, ⟨rfl, rfl, ?_, ?_, ?_, fun _ => by simp⟩,
      by simp, by simp⟩
    · intro l hl
      rcases List.mem_append.1 hl with hl | hl
      · exact hpos l hl
      · rw [List.mem_singleton.1 hl]
        exact hbuy
    · rw [totalAmount_append, totalAmount_cons, totalAmount_nil]
      exact congrArg _ (add_zero _)
    · intro l hl
      rcases List.mem_append.1 hl with hl | hl
      · exact .inl ⟨l, hl, rfl⟩
      · rw [List.mem_singleton.1 hl]
        exact .inr ⟨hbuy, rfl⟩
  · rw [if_neg hbuy, if_neg hbuy]
    by_cases hsell : t.amountDelta < 0
    · rw [if_pos hsell, if_pos hsell, hmethod, Option.getD_none]
      obtain ⟨res, hres, htotal, hrest, hdescends⟩ :=
        reduceOrdered_conserves (saleProceeds t) .fifo hpos (by omega : 0 < -t.amountDelta)
          (by omega)
      have hreduce : reduceLots pos.lots (-t.amountDelta) (saleProceeds t) .fifo =
          .ok res := by
        rw [reduceLots, if_neg (by omega), if_neg (by decide), hres]
      have hsold : (if -t.amountDelta < totalAmount pos.lots then -t.amountDelta
          else totalAmount pos.lots) = -t.amountDelta := by
        split <;> omega
      dsimp only
      rw [hsold, hreduce]
      refine ⟨_, _, _, res.realized, rfl, rfl, ⟨rfl, rfl, hrest, ?_, ?_, fun hb => absurd hb hbuy⟩,
        ?_, ?_⟩
      · rw [htotal, sub_neg_eq_add]
      · exact fun l hl => .inl (signature_of_descends hdescends l hl)
      · intro k
        dsimp only
        rw [OrderedMap.get?_set]
        by_cases hk : k = t.mint.toBase58 <;> simp [hk]
      · intro k
        rw [OrderedMap.get?_set]
        by_cases hk : k = (t.wallet, t.mint) <;> simp [hk]
    · rw [if_neg hsell, if_neg hsell]
      have hzero : t.amountDelta = 0 := by omega
      refine ⟨_, _, _, 0, rfl, rfl, ⟨rfl, rfl, hpos, ?_, ?_, fun hb => absurd hb hbuy⟩,
        by simp, by simp⟩
      · rw [hzero, add_zero]
      · exact fun l hl => .inl ⟨l, hl, rfl⟩

/-! ## One trade on each portfolio -/

theorem load_stable {files : Files} {wallet : PublicKey} {data : Option WalletData}
    (h : loadWalletData files wallet = .ok data) : Stable (data.getD emptyWallet) := by
  unfold loadWalletData at h
  split at h
  · cases h
    exact fun p hp => nomatch hp
  · obtain ⟨read, hread, h⟩ := bind_eq_ok.1 h
    cases h
    exact stable_of_readWallet hread

theorem load_write_self (files : Files) (wallet : PublicKey) (data : WalletData) :
    loadWalletData (writeWalletData files wallet data) wallet =
      (readWallet (writeWallet data)).map some := by
  unfold loadWalletData writeWalletData
  rw [Function.update_self]
  rfl

theorem load_write_eq_ok {files : Files} {wallet : PublicKey} {data : WalletData}
    {read : Option WalletData}
    (h : loadWalletData (writeWalletData files wallet data) wallet = .ok read) :
    ∃ data', readWallet (writeWallet data) = .ok data' ∧ read = some data' := by
  rw [load_write_self] at h
  cases hread : readWallet (writeWallet data) with
  | error e => rw [hread] at h; cases h
  | ok data' => rw [hread] at h; exact ⟨data', rfl, (Except.ok.inj h).symm⟩

theorem load_write_ne {wallet wallet' : PublicKey} (h : wallet' ≠ wallet) (files : Files)
    (data : WalletData) : loadWalletData (writeWalletData files wallet data) wallet' =
      loadWalletData files wallet' := by
  unfold loadWalletData writeWalletData
  rw [Function.update_of_ne h]

theorem getPosition_of_load {files : Files} {wallet : PublicKey} {data : Option WalletData}
    (h : loadWalletData files wallet = .ok data) (mint : PublicKey) :
    StoreFile.getPosition files wallet mint =
      .ok ((data.getD emptyWallet).position mint) := by
  rw [StoreFile.getPosition, h]
  cases data <;> rfl

theorem getRealizedPnl_of_load {files : Files} {wallet : PublicKey}
    {data : Option WalletData} (h : loadWalletData files wallet = .ok data)
    (mint : PublicKey) : StoreFile.getRealizedPnl files wallet mint =
      .ok (((data.getD emptyWallet).realizedPnlByMint.get? mint.toBase58).getD 0) := by
  rw [StoreFile.getRealizedPnl, h]
  cases data <;> rfl

theorem load_of_getPosition {files : Files} {wallet mint : PublicKey} {pos : Option Position}
    (h : StoreFile.getPosition files wallet mint = .ok pos) :
    ∃ data, loadWalletData files wallet = .ok data := by
  obtain ⟨data, hdata, _⟩ := bind_eq_ok.1 h
  exact ⟨data, hdata⟩

/-- What the store does with a trade it takes. -/
theorem store_booked {files files' : Files} {t : LandedTrade} {change : PositionChange}
    (h : StoreFile.applyLandedTrade files t = .ok (files', change)) :
    ∃ data data', loadWalletData files t.wallet = .ok data ∧
      Booked (data.getD emptyWallet) t data' change ∧
      files' = writeWalletData files t.wallet data' := by
  obtain ⟨data, hload, h⟩ := bind_eq_ok.1 h
  obtain ⟨⟨data', change'⟩, happly, h⟩ := bind_eq_ok.1 h
  obtain ⟨rfl, rfl⟩ := Prod.mk.inj (pure_eq_ok.1 h)
  exact ⟨data, data', hload, applyTo_booked happly, rfl⟩

theorem store_takes {files : Files} {t : LandedTrade} {data : Option WalletData}
    (hload : loadWalletData files t.wallet = .ok data) {booked : WalletData} {pos : Position}
    (htrade : StoreFile.tradePosition (data.getD emptyWallet)
      (tradedPosition (data.getD emptyWallet) t) t = .ok (booked, pos)) :
    ∃ files', StoreFile.applyLandedTrade files t = .ok (files',
      { wallet := t.wallet, mint := t.mint
        before := (data.getD emptyWallet).position t.mint, after := pos
        reason := .applyLandedTrade }) := by
  refine ⟨writeWalletData files t.wallet (putPosition booked
    ((data.getD emptyWallet).positions.findIdx? (·.mint = t.mint)) pos), ?_⟩
  rw [StoreFile.applyLandedTrade, hload]
  show (applyTo _ _ >>= _) = _
  rw [applyTo_eq, htrade]
  rfl

/-- The position in memory that a trade is booked on. -/
def heldPosition (p : InMemoryPortfolio) (t : LandedTrade) : Position :=
  (BacktestPortfolio.getPosition p t.wallet t.mint).getD (newPosition t)

/-- What the portfolio in memory does with a trade it takes. -/
structure Remembered (p : InMemoryPortfolio) (t : LandedTrade) (p' : InMemoryPortfolio)
    (change : PositionChange) : Prop where
  wallet : change.wallet = t.wallet
  mint : change.mint = t.mint
  before : change.before = BacktestPortfolio.getPosition p t.wallet t.mint
  reason : change.reason = .applyLandedTrade
  position : ∀ w m, BacktestPortfolio.getPosition p' w m =
    if w = t.wallet ∧ m = t.mint then some change.after
    else BacktestPortfolio.getPosition p w m
  traded : BacktestPortfolio.tradePosition p.realizedPnl (heldPosition p t) t =
    .ok (p'.realizedPnl, change.after)

theorem memory_eq (p : InMemoryPortfolio) (t : LandedTrade) :
    ((p.positions.get? t.wallet).getD .empty).get? t.mint =
      BacktestPortfolio.getPosition p t.wallet t.mint := by
  unfold BacktestPortfolio.getPosition
  cases p.positions.get? t.wallet <;> rfl

theorem memory_remembered {p p' : InMemoryPortfolio} {t : LandedTrade}
    {change : PositionChange}
    (h : BacktestPortfolio.applyLandedTrade p t = .ok (p', change)) :
    Remembered p t p' change := by
  unfold BacktestPortfolio.applyLandedTrade at h
  dsimp only at h
  rw [memory_eq] at h
  obtain ⟨⟨pnl, pos⟩, htrade, h⟩ := bind_eq_ok.1 h
  obtain ⟨rfl, rfl⟩ := Prod.mk.inj (pure_eq_ok.1 h)
  refine ⟨rfl, rfl, rfl, rfl, ?_, htrade⟩
  intro w m
  unfold BacktestPortfolio.getPosition
  dsimp only
  rw [OrderedMap.get?_set]
  by_cases hw : w = t.wallet
  · rw [if_pos hw, Option.bind_some, OrderedMap.get?_set]
    by_cases hm : m = t.mint
    · rw [if_pos hm, if_pos ⟨hw, hm⟩]
    · rw [if_neg hm, if_neg fun h => hm h.2, hw]
      cases p.positions.get? t.wallet <;> rfl
  · rw [if_neg hw, if_neg fun h => hw h.1]

theorem memory_takes {p : InMemoryPortfolio} {t : LandedTrade}
    {pnl : OrderedMap (PublicKey × PublicKey) Int} {pos : Position}
    (htrade : BacktestPortfolio.tradePosition p.realizedPnl (heldPosition p t) t =
      .ok (pnl, pos)) :
    ∃ p', BacktestPortfolio.applyLandedTrade p t = .ok (p',
      { wallet := t.wallet, mint := t.mint
        before := BacktestPortfolio.getPosition p t.wallet t.mint, after := pos
        reason := .applyLandedTrade }) := by
  let byMint := ((p.positions.get? t.wallet).getD .empty).set t.mint pos
  refine ⟨{ positions := p.positions.set t.wallet byMint, realizedPnl := pnl }, ?_⟩
  unfold heldPosition at htrade
  unfold BacktestPortfolio.applyLandedTrade
  dsimp only
  rw [memory_eq, htrade]
  rfl

/-! ## Both portfolios in step -/

def lotsOf (pos : Option Position) : List Lot := (pos.map (·.lots)).getD []

/-- The two portfolios after trades that both took. -/
structure Mirrors (done : List LandedTrade) (files : Files) (p : InMemoryPortfolio) :
    Prop where
  position : ∀ w m, StoreFile.getPosition files w m =
    .ok (BacktestPortfolio.getPosition p w m)
  pnl : ∀ w m, StoreFile.getRealizedPnl files w m =
    .ok (BacktestPortfolio.getRealizedPnl p w m)
  method : ∀ w file, files w = some file → file.method = none
  address : ∀ w m pos, BacktestPortfolio.getPosition p w m = some pos →
    pos.mint = m ∧ pos.walletAddress = w
  positive : ∀ w m, ∀ l ∈ lotsOf (BacktestPortfolio.getPosition p w m), 0 < l.amount
  held : ∀ w m, totalAmount (lotsOf (BacktestPortfolio.getPosition p w m)) =
    holding w m done

theorem Mirrors.start : Mirrors [] noFiles {} where
  position _ _ := rfl
  pnl _ _ := rfl
  method _ _ h := nomatch h
  address _ _ _ h := nomatch h
  positive _ _ _ h := nomatch h
  held _ _ := rfl

section
variable {done : List LandedTrade} {files files' : Files} {p p' : InMemoryPortfolio}
  {t : LandedTrade} {change : PositionChange}

theorem Mirrors.method_of_load (h : Mirrors done files p) {w : PublicKey}
    {data : Option WalletData} (hload : loadWalletData files w = .ok data) :
    (data.getD emptyWallet).method = none := by
  unfold loadWalletData at hload
  split at hload
  · cases hload
    rfl
  · rename_i file hfile
    obtain ⟨read, hread, hload⟩ := bind_eq_ok.1 hload
    cases hload
    obtain ⟨_, _, hread⟩ := bind_eq_ok.1 hread
    obtain ⟨_, _, hread⟩ := bind_eq_ok.1 hread
    obtain ⟨_, _, hread⟩ := bind_eq_ok.1 hread
    cases hread
    exact h.method w file hfile

theorem Mirrors.position_of_load (h : Mirrors done files p) {w : PublicKey}
    {data : Option WalletData} (hload : loadWalletData files w = .ok data) (m : PublicKey) :
    (data.getD emptyWallet).position m = BacktestPortfolio.getPosition p w m :=
  Except.ok.inj ((getPosition_of_load hload m).symm.trans (h.position w m))

theorem Mirrors.pnl_of_load (h : Mirrors done files p) {w : PublicKey}
    {data : Option WalletData} (hload : loadWalletData files w = .ok data) (m : PublicKey) :
    ((data.getD emptyWallet).realizedPnlByMint.get? m.toBase58).getD 0 =
      BacktestPortfolio.getRealizedPnl p w m :=
  Except.ok.inj ((getRealizedPnl_of_load hload m).symm.trans (h.pnl w m))

theorem Mirrors.tradedPosition_of_load (h : Mirrors done files p) {data : Option WalletData}
    (hload : loadWalletData files t.wallet = .ok data) :
    tradedPosition (data.getD emptyWallet) t = heldPosition p t := by
  rw [tradedPosition, h.position_of_load hload, heldPosition]

theorem lots_heldPosition (p : InMemoryPortfolio) (t : LandedTrade) :
    (heldPosition p t).lots = lotsOf (BacktestPortfolio.getPosition p t.wallet t.mint) := by
  unfold heldPosition lotsOf
  cases BacktestPortfolio.getPosition p t.wallet t.mint <;> rfl

theorem Mirrors.address_heldPosition (h : Mirrors done files p) (t : LandedTrade) :
    (heldPosition p t).mint = t.mint ∧ (heldPosition p t).walletAddress = t.wallet := by
  unfold heldPosition
  cases hpos : BacktestPortfolio.getPosition p t.wallet t.mint with
  | none => exact ⟨rfl, rfl⟩
  | some pos => exact h.address t.wallet t.mint pos hpos

/-- What the trade does on both sides, with what it realizes. -/
theorem Mirrors.trades (h : Mirrors done files p)
    (henough : 0 ≤ holding t.wallet t.mint (done ++ [t])) {data : Option WalletData}
    (hload : loadWalletData files t.wallet = .ok data) :
    ∃ booked pnl' pos' realized,
      StoreFile.tradePosition (data.getD emptyWallet)
        (tradedPosition (data.getD emptyWallet) t) t = .ok (booked, pos') ∧
      BacktestPortfolio.tradePosition p.realizedPnl (heldPosition p t) t = .ok (pnl', pos') ∧
      Traded (heldPosition p t) t pos' ∧
      (∀ k, (booked.realizedPnlByMint.get? k).getD 0 =
        ((data.getD emptyWallet).realizedPnlByMint.get? k).getD 0 +
          if k = t.mint.toBase58 then realized else 0) ∧
      (∀ k, (pnl'.get? k).getD 0 = (p.realizedPnl.get? k).getD 0 +
        if k = (t.wallet, t.mint) then realized else 0) := by
  rw [h.tradedPosition_of_load hload]
  apply tradePosition_same p.realizedPnl t (h.method_of_load hload)
  · rw [lots_heldPosition]
    exact h.positive t.wallet t.mint
  · rw [holding_concat, if_pos ⟨rfl, rfl⟩] at henough
    rw [lots_heldPosition, h.held]
    exact henough

/-- Both take the trade, with one change. -/
theorem Mirrors.applies (h : Mirrors done files p)
    (henough : 0 ≤ holding t.wallet t.mint (done ++ [t])) :
    ∃ files' p' change, StoreFile.applyLandedTrade files t = .ok (files', change) ∧
      BacktestPortfolio.applyLandedTrade p t = .ok (p', change) := by
  obtain ⟨data, hload⟩ := load_of_getPosition (h.position t.wallet t.mint)
  obtain ⟨booked, pnl', pos', _, hstore, hmemory, _, _, _⟩ := h.trades henough hload
  obtain ⟨files', hfiles⟩ := store_takes hload hstore
  obtain ⟨p', hp⟩ := memory_takes hmemory
  rw [h.position_of_load hload] at hfiles
  exact ⟨files', p', _, hfiles, hp⟩

/-- A trade that survives the file keeps the portfolios in step. -/
theorem Mirrors.step (h : Mirrors done files p) (hsurvives : Survives t)
    (henough : 0 ≤ holding t.wallet t.mint (done ++ [t]))
    (hstore : StoreFile.applyLandedTrade files t = .ok (files', change))
    (hmemory : BacktestPortfolio.applyLandedTrade p t = .ok (p', change)) :
    Mirrors (done ++ [t]) files' p' := by
  obtain ⟨data, data', hload, hbooked, rfl⟩ := store_booked hstore
  have hremembered := memory_remembered hmemory
  obtain ⟨booked, hstoreTrade, hpnl⟩ := hbooked.traded
  obtain ⟨booked', pnl', pos', realized, htrade, htrade', htraded, hrealized, hrealized'⟩ :=
    h.trades henough hload
  rw [hstoreTrade] at htrade
  obtain ⟨rfl, rfl⟩ := Prod.mk.inj (Except.ok.inj htrade)
  rw [hremembered.traded] at htrade'
  obtain ⟨rfl, -⟩ := Prod.mk.inj (Except.ok.inj htrade')
  obtain ⟨_, haddress⟩ := h.address_heldPosition t
  have hold := load_stable hload
  have hafter : StablePosition change.after := by
    refine ⟨hbooked.afterMint ▸ hsurvives.mint, ?_, ?_⟩
    · rw [htraded.walletAddress, haddress]
      exact hsurvives.wallet
    · intro l hl
      rcases htraded.signatures l hl with ⟨l', hl', hsig⟩ | ⟨hbuy, hsig⟩
      · rw [hsig]
        rw [← h.tradedPosition_of_load hload] at hl'
        exact hold.lots_tradedPosition t l' hl'
      · rw [hsig]
        exact stableField_text.2 (hsurvives.signature hbuy)
  have hstable : Stable data' := by
    intro q hq
    rcases hbooked.mem q hq with rfl | hq
    · exact hafter
    · exact hold q hq
  have hread : loadWalletData (writeWalletData files t.wallet data') t.wallet =
      .ok (some data') := by
    rw [load_write_self, readWallet_writeWallet hstable]
    rfl
  constructor
  · intro w m
    rw [hremembered.position]
    by_cases hw : w = t.wallet
    · subst hw
      rw [getPosition_of_load hread, Option.getD_some, hbooked.position,
        h.position_of_load hload]
      by_cases hm : m = t.mint <;> simp [hm]
    · rw [if_neg fun h => hw h.1, ← h.position w m]
      rw [StoreFile.getPosition, StoreFile.getPosition, load_write_ne hw]
  · intro w m
    have hmemoryPnl : BacktestPortfolio.getRealizedPnl p' w m =
        BacktestPortfolio.getRealizedPnl p w m +
          if (w, m) = (t.wallet, t.mint) then realized else 0 := hrealized' (w, m)
    rw [hmemoryPnl]
    by_cases hw : w = t.wallet
    · subst hw
      rw [getRealizedPnl_of_load hread, Option.getD_some, hpnl, hrealized, h.pnl_of_load hload]
      by_cases hm : m = t.mint
      · simp [hm]
      · have hkey : m.toBase58 ≠ t.mint.toBase58 := fun h => hm (PublicKey.toBase58_injective h)
        simp [hm, hkey]
    · rw [if_neg fun h => hw (Prod.mk.inj h).1, add_zero, ← h.pnl w m]
      rw [StoreFile.getRealizedPnl, StoreFile.getRealizedPnl, load_write_ne hw]
  · intro w file hfile
    by_cases hw : w = t.wallet
    · subst hw
      rw [writeWalletData, Function.update_self] at hfile
      obtain rfl := Option.some.inj hfile
      exact hbooked.method.trans (h.method_of_load hload)
    · rw [writeWalletData, Function.update_of_ne hw] at hfile
      exact h.method w file hfile
  · intro w m pos hpos
    rw [hremembered.position] at hpos
    split at hpos
    · rename_i hwm
      obtain rfl := Option.some.inj hpos
      rw [hwm.1, hwm.2, hbooked.afterMint, htraded.walletAddress, haddress]
      exact ⟨rfl, rfl⟩
    · exact h.address w m pos hpos
  · intro w m
    rw [hremembered.position]
    split
    · exact htraded.positive
    · exact h.positive w m
  · intro w m
    rw [hremembered.position, holding_concat]
    by_cases hwm : w = t.wallet ∧ m = t.mint
    · obtain ⟨rfl, rfl⟩ := hwm
      rw [if_pos ⟨rfl, rfl⟩, if_pos ⟨rfl, rfl⟩, ← h.held, ← lots_heldPosition]
      exact htraded.total
    · rw [if_neg hwm, if_neg fun h => hwm ⟨h.1.symm, h.2.symm⟩, add_zero]
      exact h.held w m

end

/-! ## Runs that stay in step -/

theorem run_mirrors {trades : List LandedTrade} (henough : NeverOversells trades)
    (hsurvive : ∀ t ∈ trades, Survives t) :
    ∃ files p changes,
      applyTrades StoreFile.applyLandedTrade noFiles trades = .ok (files, changes) ∧
      applyTrades BacktestPortfolio.applyLandedTrade {} trades = .ok (p, changes) ∧
      Mirrors trades files p := by
  induction trades using List.reverseRecOn with
  | nil => exact ⟨noFiles, {}, [], rfl, rfl, .start⟩
  | append_singleton trades t ih =>
      obtain ⟨files, p, changes, hstore, hmemory, hmirrors⟩ :=
        ih (henough.initial (List.prefix_append _ _)) fun t' h =>
          hsurvive t' (List.mem_append_left _ h)
      have hlast := henough _ (List.prefix_refl _) t.wallet t.mint
      obtain ⟨files', p', change, hfiles, hp⟩ := hmirrors.applies hlast
      refine ⟨files', p', changes ++ [change], ?_, ?_, ?_⟩
      · exact applyTrades_concat.2 ⟨files, changes, change, hstore, hfiles, rfl⟩
      · exact applyTrades_concat.2 ⟨p, changes, change, hmemory, hp, rfl⟩
      · exact hmirrors.step (hsurvive t (by simp)) hlast hfiles hp

/-! ## Runs that end in step -/

/-- Both portfolios read the same positions. -/
def SamePositions (files : Files) (p : InMemoryPortfolio) : Prop :=
  ∀ w m, StoreFile.getPosition files w m = .ok (BacktestPortfolio.getPosition p w m)

/-- Portfolios that differ before a trade differ after it, or in the change it gives. -/
theorem samePositions_before {files files' : Files} {p p' : InMemoryPortfolio}
    {t : LandedTrade} {change : PositionChange}
    (hstore : StoreFile.applyLandedTrade files t = .ok (files', change))
    (hmemory : BacktestPortfolio.applyLandedTrade p t = .ok (p', change))
    (h : SamePositions files' p') : SamePositions files p := by
  obtain ⟨data, data', hload, hbooked, rfl⟩ := store_booked hstore
  have hremembered := memory_remembered hmemory
  intro w m
  have hafter := h w m
  rw [hremembered.position] at hafter
  by_cases hw : w = t.wallet
  · subst hw
    rw [getPosition_of_load hload]
    by_cases hm : m = t.mint
    · rw [hm, ← hbooked.before, hremembered.before]
    · rw [if_neg fun h => hm h.2] at hafter
      rw [← hafter]
      obtain ⟨read, hread⟩ := load_of_getPosition hafter
      rw [getPosition_of_load hread]
      obtain ⟨data'', hdata'', rfl⟩ := load_write_eq_ok hread
      have hsame : data'.position m = (data.getD emptyWallet).position m := by
        rw [hbooked.position, if_neg hm]
      -- a position that was read once is read back
      rw [Option.getD_some, StablePosition.readBack hdata'' ?_, hsame]
      intro q hq
      rw [hsame] at hq
      exact load_stable hload q (List.mem_of_find?_eq_some hq)
  · rw [if_neg fun h => hw h.1] at hafter
    rw [StoreFile.getPosition, load_write_ne hw] at hafter
    exact hafter

/-- What the store reads right after a trade shows whether the trade survives. -/
theorem Mirrors.survives {done : List LandedTrade} {files files' : Files}
    {p p' : InMemoryPortfolio} {t : LandedTrade} {change : PositionChange}
    (h : Mirrors done files p) (henough : 0 ≤ holding t.wallet t.mint (done ++ [t]))
    (hstore : StoreFile.applyLandedTrade files t = .ok (files', change))
    (hmemory : BacktestPortfolio.applyLandedTrade p t = .ok (p', change))
    (hafter : SamePositions files' p') : Survives t := by
  obtain ⟨data, data', hload, hbooked, rfl⟩ := store_booked hstore
  have hremembered := memory_remembered hmemory
  obtain ⟨_, _, pos', _, _, htrade, htraded, _, _⟩ := h.trades henough hload
  rw [hremembered.traded] at htrade
  obtain ⟨-, rfl⟩ := Prod.mk.inj (Except.ok.inj htrade)
  have hread := hafter t.wallet t.mint
  rw [hremembered.position, if_pos ⟨rfl, rfl⟩] at hread
  obtain ⟨read, hloadAfter⟩ := load_of_getPosition hread
  rw [getPosition_of_load hloadAfter] at hread
  -- what is read is always stable, and here it is the position the trade left
  have hstable : StablePosition change.after :=
    load_stable hloadAfter _ (List.mem_of_find?_eq_some (Except.ok.inj hread))
  obtain ⟨hmint, haddress⟩ := h.address_heldPosition t
  constructor
  · have hwallet := hstable.walletAddress
    rwa [htraded.walletAddress, haddress] at hwallet
  · have hkey := hstable.mint
    rwa [htraded.mint, hmint] at hkey
  · intro hbuy
    exact stableField_text.1 (hstable.lots (boughtLot t) (htraded.bought hbuy))

/-- A run that never oversells leaves the two books alike exactly if no text that it puts
into a file is taken for a `bigint`. -/
theorem booksAgree_iff (trades : List LandedTrade) (h : NeverOversells trades) :
    BooksAgree trades ↔ ∀ t ∈ trades, Survives t := by
  constructor
  · rintro ⟨files, p, changes, hstore, hmemory, hagree⟩
    have hpositions : SamePositions files p := fun w m => (hagree w m).1
    clear hagree
    induction trades using List.reverseRecOn generalizing files p changes with
    | nil => exact List.forall_mem_nil _
    | append_singleton trades t ih =>
        obtain ⟨files₁, before, change, hstore₁, hstep, rfl⟩ := applyTrades_concat.1 hstore
        obtain ⟨p₁, before', change', hmemory₁, hstep', heq⟩ := applyTrades_concat.1 hmemory
        obtain ⟨rfl, hchange⟩ := List.append_inj' heq rfl
        obtain rfl := List.singleton_injective hchange
        have hpfx := h.initial (List.prefix_append trades [t])
        have hsurvive := ih hpfx files₁ p₁ before hstore₁ hmemory₁
          (samePositions_before hstep hstep' hpositions)
        obtain ⟨files₂, p₂, changes₂, hfiles₂, hp₂, hmirrors⟩ := run_mirrors hpfx hsurvive
        rw [hstore₁] at hfiles₂
        rw [hmemory₁] at hp₂
        obtain ⟨rfl, -⟩ := Prod.mk.inj (Except.ok.inj hfiles₂)
        obtain ⟨rfl, -⟩ := Prod.mk.inj (Except.ok.inj hp₂)
        have hlast := h _ (List.prefix_refl _) t.wallet t.mint
        intro t' ht'
        rcases List.mem_append.1 ht' with ht' | ht'
        · exact hsurvive t' ht'
        · rw [List.mem_singleton.1 ht']
          exact hmirrors.survives hlast hstep hstep' hpositions
  · intro hsurvive
    obtain ⟨files, p, changes, hstore, hmemory, hmirrors⟩ := run_mirrors h hsurvive
    exact ⟨files, p, changes, hstore, hmemory,
      fun w m => ⟨hmirrors.position w m, hmirrors.pnl w m⟩⟩

/-- A wallet of zeros buys one token of a mint. -/
def buyOf (mint : PublicKey) : LandedTrade :=
  { signature := "sig", slot := 1, wallet := ⟨List.replicate 32 0, rfl⟩, mint := mint,
    amountDelta := 1, solFlowLamports := -5, feeLamports := 0, source := .executor }

theorem booksAgree_bought_sold :
    BooksAgree [buyOf ⟨List.replicate 32 1, rfl⟩,
      { buyOf ⟨List.replicate 32 1, rfl⟩ with amountDelta := -1, solFlowLamports := 7 }] := by
  refine (booksAgree_iff _ (by decide)).2 ?_
  intro t ht
  have hwallet : Plain (PublicKey.toBase58 ⟨List.replicate 32 0, rfl⟩) := by decide +kernel
  have hmint : Plain (PublicKey.toBase58 ⟨List.replicate 32 1, rfl⟩) := by decide +kernel
  rcases List.mem_cons.1 ht with rfl | ht
  · exact ⟨hwallet, hmint, fun _ => by decide⟩
  · rw [List.mem_singleton.1 ht]
    exact ⟨hwallet, hmint, fun _ => by decide⟩

/-- The mint's text is thirty-one `1` and an `n`: after one buy the store cannot read its
own file. -/
theorem booksAgree_fails_countedMint :
    NeverOversells [buyOf ⟨List.replicate 31 0 ++ [45], rfl⟩] ∧
    ¬ BooksAgree [buyOf ⟨List.replicate 31 0 ++ [45], rfl⟩] := by
  refine ⟨by decide, ?_⟩
  rintro ⟨files, p, changes, hstore, _, hagree⟩
  have hread : (applyTrades StoreFile.applyLandedTrade noFiles
      [buyOf ⟨List.replicate 31 0 ++ [45], rfl⟩]).bind (fun s => StoreFile.getPosition s.1
        ⟨List.replicate 32 0, rfl⟩ ⟨List.replicate 31 0 ++ [45], rfl⟩) =
      .error (.publicKey (.invalidLength 0)) := by
    decide +kernel
  rw [hstore] at hread
  have hposition := (hagree ⟨List.replicate 32 0, rfl⟩ ⟨List.replicate 31 0 ++ [45], rfl⟩).1
  exact nomatch hposition.symm.trans hread

end Ap3xSolana.Strategies.SameBooks
