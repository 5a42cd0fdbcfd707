import Ap3xSolana.Portfolio.ColdStart
import Ap3xSolana.Strategies.SameBooks
import Ap3xSolana.Strategies.LandedTradeAdapter

/-!
# What a buy costs, live and at cold start

A landed buy becomes a lot twice: through the adapter and the store as it lands, and
through the reconstructor when a wallet is read from the chain.  The adapter passes on
the whole change of the wallet's lamports, the reconstructor takes the network fee off
it, so the two bases differ by the fee (`buy_bases`).
-/

namespace Ap3xSolana.Strategies.BuyBasis

open Ap3xSolana.Core Ap3xSolana.Executor Ap3xSolana.Lib.Throwing
open Ap3xSolana.Portfolio Ap3xSolana.Portfolio.Accounting
open Ap3xSolana.Portfolio.Reconstructor Ap3xSolana.Portfolio.StoreFile
open Ap3xSolana.Strategies.LandedTradeAdapter Ap3xSolana.Strategies.TradeDeltas
open Ap3xSolana.Strategies.SameBooks (lotsOf)

/-- The wallet pays the fee of the transaction and comes out with more of the mint, in a
single account. -/
structure Buys (wallet mint : PublicKey) (tx : RpcTransaction) (pre post fee : Int) :
    Prop where
  feePayer : tx.accountKeys.head? = some wallet.toBase58
  preBalance : (tx.preBalances.getD []).head? = some pre
  postBalance : (tx.postBalances.getD []).head? = some post
  networkFee : tx.fee.getD 0 = fee
  feeNonneg : 0 ≤ fee
  accountBefore : (ownAmounts tx.preTokenBalances wallet mint).length ≤ 1
  accountAfter : (ownAmounts tx.postTokenBalances wallet mint).length ≤ 1
  rises : 0 < realDelta tx wallet mint

section
variable {wallet mint : PublicKey} {tx : RpcTransaction} {pre post fee : Int}

theorem findIdx?_head {keys : List String} {key : String} (h : keys.head? = some key)
    (rest : List String) : (keys ++ rest).findIdx? (· = key) = some 0 := by
  cases keys with
  | nil => cases h
  | cons k ks =>
      rw [List.cons_append, List.findIdx?_cons, if_pos (decide_eq_true (Option.some.inj h))]

/-! ## Live -/

theorem tradeOf_fields {signature : String} {slot : Nat} {solFlow fee : Int}
    {entry : String × Int} {t : LandedTrade}
    (h : tradeOf signature slot wallet solFlow fee entry = .ok (some t)) :
    t.wallet = wallet ∧ t.solFlowLamports = solFlow := by
  unfold tradeOf at h
  split at h
  · cases h
  · split at h
    · cases h
    · cases h
      exact ⟨rfl, rfl⟩

theorem adaptToLandedTrades_fields {result : ExecutionResult} {keys : List String}
    {m : TransactionMeta} {trades : List LandedTrade}
    (h : adaptToLandedTrades result wallet (some { accountKeys := keys, txMeta := some m }) =
      .ok trades) :
    ∀ t ∈ trades, t.wallet = wallet ∧
      t.solFlowLamports = solDelta keys m wallet.toBase58 := by
  unfold adaptToLandedTrades at h
  split at h
  · obtain ⟨opts, hopts, h⟩ := bind_eq_ok.1 h
    obtain rfl := pure_eq_ok.1 h
    intro t ht
    obtain ⟨o, ho, rfl : o = some t⟩ := List.mem_filterMap.1 ht
    obtain ⟨entry, _, hentry⟩ := forall₂_of_mem (mapM_eq_ok.1 hopts) ho
    exact tradeOf_fields hentry
  · cases h
    exact fun t ht => nomatch ht

theorem Buys.skipsEvenly (h : Buys wallet mint tx pre post fee) :
    SkipsEvenly (ownAmounts tx.preTokenBalances wallet mint)
      (ownAmounts tx.postTokenBalances wallet mint) := by
  have hbefore := h.accountBefore
  have hafter := h.accountAfter
  generalize ownAmounts tx.preTokenBalances wallet mint = before at hbefore
  generalize ownAmounts tx.postTokenBalances wallet mint = after at hafter
  unfold SkipsEvenly
  match before, after, hbefore, hafter with
  | [], [], _, _ => rfl
  | [_], [], _, _ => rfl
  | [], [_], _, _ => rfl
  | [_], [_], _, _ => rfl

theorem Buys.solDelta (h : Buys wallet mint tx pre post fee) {m : TransactionMeta}
    (hm : (response tx).txMeta = some m) :
    solDelta tx.accountKeys m wallet.toBase58 = post - pre := by
  obtain rfl := (Option.some.inj hm).symm
  unfold LandedTradeAdapter.solDelta
  have hidx := findIdx?_head h.feePayer []
  rw [List.append_nil] at hidx
  rw [hidx]
  dsimp only
  rw [← List.head?_eq_getElem?, ← List.head?_eq_getElem?, h.preBalance, h.postBalance]
  rfl

/-- The trade of the mint, at the whole change of the wallet's lamports. -/
theorem Buys.trade (h : Buys wallet mint tx pre post fee) (hmints : MintsAreKeys wallet tx)
    (intentId signature : String) (slot : Nat) (submitterUsed : String) (landedAt : Int) :
    ∃ trades t, adaptToLandedTrades (.landed intentId signature slot submitterUsed landedAt)
        wallet (some (response tx)) = .ok trades ∧
      trades.filter (·.mint = mint) = [t] ∧ t.wallet = wallet ∧
      t.amountDelta = realDelta tx wallet mint ∧ t.solFlowLamports = post - pre := by
  obtain ⟨trades, htrades, hamounts⟩ := (adaptToLandedTrades_gives hmints intentId signature
    slot submitterUsed landedAt).exists_ok
  have hkept := (keptDelta_iff _ _).2 h.skipsEvenly
  have hamount := hamounts mint
  have hrises := h.rises
  cases hdelta : keptDelta (ownAmounts tx.preTokenBalances wallet mint)
      (ownAmounts tx.postTokenBalances wallet mint) with
  | none =>
      rw [hdelta] at hkept
      rw [realDelta, ownedAmount_eq, ownedAmount_eq, ← hkept] at hrises
      exact absurd hrises (lt_irrefl 0)
  | some delta =>
      rw [hdelta, Option.getD_some] at hkept
      have hreal : delta = realDelta tx wallet mint := hkept
      have hne : delta ≠ 0 := by omega
      rw [hdelta, Option.toList_some, List.filter_singleton, decide_eq_true hne] at hamount
      obtain ⟨t, ht, hamountDelta⟩ := List.map_eq_singleton_iff.1 hamount
      have hmem : t ∈ trades := (List.mem_filter.1 (ht ▸ List.mem_singleton_self t)).1
      obtain ⟨hwallet, hflow⟩ := adaptToLandedTrades_fields htrades t hmem
      refine ⟨trades, t, htrades, ht, hwallet, hamountDelta.trans hreal, ?_⟩
      rw [hflow, h.solDelta rfl]

/-- The lot the store adds for a buy. -/
theorem store_buys {files : Files} {t : LandedTrade} {data : Option WalletData}
    (hload : loadWalletData files t.wallet = .ok data) (hbuy : 0 < t.amountDelta) :
    ∃ files' change, StoreFile.applyLandedTrade files t = .ok (files', change) ∧
      change.after.lots = lotsOf change.before ++ [boughtLot t] := by
  have htrade : StoreFile.tradePosition (data.getD emptyWallet)
      (tradedPosition (data.getD emptyWallet) t) t = .ok (data.getD emptyWallet, _) :=
    if_pos hbuy
  obtain ⟨files', hfiles⟩ := SameBooks.store_takes hload htrade
  refine ⟨files', _, hfiles, ?_⟩
  unfold tradedPosition
  cases (data.getD emptyWallet).position t.mint <;> rfl

/-! ## At cold start -/

theorem Buys.solOut (h : Buys wallet mint tx pre post fee) :
    solOut tx wallet = pre - post - fee := by
  unfold Reconstructor.solOut accountKeys
  rw [List.append_assoc, findIdx?_head h.feePayer]
  dsimp only
  rw [← List.head?_eq_getElem?, ← List.head?_eq_getElem?, h.preBalance, h.postBalance]
  dsimp only
  rw [if_pos rfl, h.networkFee]

/-- No hook knows the basis of a transfer. -/
def NoResolver (opts : CostBasisReconstructorOpts) : Prop :=
  ∀ transfer, (opts.transferBasis.bind fun f => f transfer) = none

theorem transferIn_basis {opts : CostBasisReconstructorOpts} (h : NoResolver opts) (base : Lot)
    (source : Option PublicKey) (mint : PublicKey) :
    (transferIn opts base source mint).costBasisLamports = 0 := by
  unfold transferIn
  dsimp only
  rw [h]

/-- The basis of an inflow that no tracer and no hook explains. -/
theorem classifyInflow_basis {opts : CostBasisReconstructorOpts} (htracers : NoTracers opts)
    (hresolver : NoResolver opts) (wallet mint : PublicKey) (now : Int) {c : BalanceChange}
    (hc : Served c.tx) (delta : Int) :
    Gives (fun lot => lot.amount = delta ∧
      lot.costBasisLamports = max 0 (Reconstructor.solOut c.tx wallet))
      (classifyInflow opts wallet mint now c delta) := by
  unfold classifyInflow
  refine (toParsedTransaction_gives hc c.signature c.slot).bind fun parsedTx _ => ?_
  rw [traced_eq_none htracers]
  dsimp only
  split
  · rename_i hout
    exact ⟨rfl, (max_eq_right (le_of_lt hout)).symm⟩
  · rename_i hout
    have hzero : max 0 (Reconstructor.solOut c.tx wallet) = 0 := max_eq_left (not_lt.1 hout)
    refine (transferSource_gives hc wallet mint).bind fun source _ => ?_
    cases source with
    | none => exact ⟨rfl, hzero.symm⟩
    | some source =>
        exact ⟨transferIn_amount opts _ _ mint,
          (transferIn_basis hresolver _ _ mint).trans hzero.symm⟩

/-! ## Both -/

/-- The lot that the landed transaction adds to the wallet's position in the store. -/
def AddsLive (wallet mint : PublicKey) (tx : RpcTransaction) (result : ExecutionResult)
    (files : Files) (lot : Lot) : Prop :=
  ∃ trades t files' change,
    adaptToLandedTrades result wallet (some (response tx)) = .ok trades ∧
    trades.filter (·.mint = mint) = [t] ∧
    StoreFile.applyLandedTrade files t = .ok (files', change) ∧
    change.after.lots = lotsOf change.before ++ [lot]

/-- The lot that the reconstructor makes of the transaction. -/
def AddsCold (opts : CostBasisReconstructorOpts) (wallet mint : PublicKey)
    (tx : RpcTransaction) (e : SignatureEntry) (now : Int) (lots : List Lot) (lot : Lot) :
    Prop :=
  ∃ c, changeOf wallet mint e tx = some c ∧
    replayChange opts wallet mint now lots c = .ok (lots ++ [lot])

theorem Buys.addsCold (h : Buys wallet mint tx pre post fee)
    {opts : CostBasisReconstructorOpts} (htracers : NoTracers opts)
    (hresolver : NoResolver opts) (hserved : Served tx) (e : SignatureEntry) (now : Int)
    (lots : List Lot) : ∃ cold, AddsCold opts wallet mint tx e now lots cold ∧
      cold.amount = realDelta tx wallet mint ∧
      cold.costBasisLamports = max 0 (pre - post - fee) := by
  have hrises := h.rises
  unfold realDelta at hrises
  have hne : ownedAmount tx.preTokenBalances wallet mint ≠
      ownedAmount tx.postTokenBalances wallet mint := by omega
  have hchange : changeOf wallet mint e tx = some _ := if_neg hne
  obtain ⟨cold, hcold, hamount, hbasis⟩ := (classifyInflow_basis htracers hresolver wallet mint
    now (c := ⟨e.signature, e.slot, tx, _, _⟩) hserved (realDelta tx wallet mint)).exists_ok
  refine ⟨cold, ⟨_, hchange, ?_⟩, hamount, ?_⟩
  · unfold replayChange
    dsimp only
    rw [if_pos (by omega)]
    show (classifyInflow opts wallet mint now _ (realDelta tx wallet mint) >>= _) = _
    rw [hcold]
    rfl
  · rw [hbasis, h.solOut]

/-- A buy costs the wallet's whole SOL outflow when it is booked as it lands, and that
outflow without the network fee when it is reconstructed.  The two are the same exactly
if there is no fee or no outflow. -/
theorem buy_bases (h : Buys wallet mint tx pre post fee) (hmints : MintsAreKeys wallet tx)
    (hserved : Served tx) {opts : CostBasisReconstructorOpts} (htracers : NoTracers opts)
    (hresolver : NoResolver opts) (e : SignatureEntry) (now : Int) (lots : List Lot)
    {files : Files} {data : Option WalletData}
    (hload : loadWalletData files wallet = .ok data)
    (intentId submitterUsed : String) (landedAt : Int) :
    ∃ live cold,
      AddsLive wallet mint tx (.landed intentId e.signature e.slot submitterUsed landedAt)
        files live ∧
      AddsCold opts wallet mint tx e now lots cold ∧
      live.amount = cold.amount ∧
      live.costBasisLamports = max 0 (pre - post) ∧
      cold.costBasisLamports = max 0 (pre - post - fee) ∧
      (live.costBasisLamports = cold.costBasisLamports ↔ fee = 0 ∨ pre ≤ post) := by
  obtain ⟨trades, t, htrades, hfilter, hwallet, hdelta, hflow⟩ :=
    h.trade hmints intentId e.signature e.slot submitterUsed landedAt
  have hbuy : 0 < t.amountDelta := hdelta ▸ h.rises
  obtain ⟨files', change, hstore, hlots⟩ := store_buys (hwallet ▸ hload) hbuy
  obtain ⟨cold, hcold, hamount, hbasis⟩ := h.addsCold htracers hresolver hserved e now lots
  have hlive : (boughtLot t).costBasisLamports = max 0 (pre - post) := by
    unfold boughtLot
    dsimp only
    rw [hflow]
    split <;> omega
  have hfee := h.feeNonneg
  refine ⟨boughtLot t, cold, ⟨trades, t, files', change, htrades, hfilter, hstore, hlots⟩, hcold,
    hdelta.trans hamount.symm, hlive, hbasis, ?_⟩
  rw [hlive, hbasis]
  omega

end

/-- The trader buys 3 coins for 55 lamports and pays a fee of 5. -/
def boughtCoins : RpcTransaction :=
  { accountsOf [] [3] with preBalances := some [100], postBalances := some [40], fee := some 5 }

def untraced : CostBasisReconstructorOpts :=
  { rpcPool := { getSignaturesForAddress := fun _ _ => [], getTransaction := fun _ => none }
    tracersFor := fun _ => [] }

theorem buys_boughtCoins : Buys trader coin boughtCoins 100 40 5 where
  feePayer := rfl
  preBalance := rfl
  postBalance := rfl
  networkFee := rfl
  feeNonneg := by decide
  accountBefore := by decide +kernel
  accountAfter := by decide +kernel
  rises := by decide +kernel

theorem served_boughtCoins : Served boughtCoins := by
  constructor
  · intro k hk
    exact ⟨trader, List.mem_singleton.1 hk⟩
  · intro ix hix
    cases hix
  all_goals
    intro b hb
    obtain rfl := List.mem_singleton.1 hb
  · exact fun s hs => ⟨trader, (Option.some.inj hs).symm⟩
  · exact fun s hs => ⟨coin, (Option.some.inj hs).symm⟩
  · decide

theorem buy_bases_boughtCoins :
    ∃ live cold, AddsLive trader coin boughtCoins (.landed "i" "s" 1 "rpc" 0) noFiles live ∧
      AddsCold untraced trader coin boughtCoins ⟨"s", 1, none, false⟩ 0 [] cold ∧
      live.amount = cold.amount ∧ live.costBasisLamports = max 0 (100 - 40) ∧
      cold.costBasisLamports = max 0 (100 - 40 - 5) ∧
      (live.costBasisLamports = cold.costBasisLamports ↔ (5 : Int) = 0 ∨ (100 : Int) ≤ 40) :=
  buy_bases buys_boughtCoins (mintsAreKeys_accountsOf [] [3]) served_boughtCoins
    (fun _ => rfl : NoTracers untraced) (fun _ => rfl) ⟨"s", 1, none, false⟩ 0 [] rfl "i" "rpc" 0

/-- The buy is booked at 60 lamports and reconstructed at 55. -/
theorem buy_bases_differ :
    Buys trader coin boughtCoins 100 40 5 ∧ NoTracers untraced ∧ NoResolver untraced ∧
    ¬ ∀ live cold, AddsLive trader coin boughtCoins (.landed "i" "s" 1 "rpc" 0) noFiles live →
      AddsCold untraced trader coin boughtCoins ⟨"s", 1, none, false⟩ 0 [] cold →
      live.costBasisLamports = cold.costBasisLamports := by
  refine ⟨buys_boughtCoins, fun _ => rfl, fun _ => rfl, ?_⟩
  intro hsame
  let t : LandedTrade :=
    { signature := "s", slot := 1, wallet := trader, mint := coin, amountDelta := 3,
      solFlowLamports := -60, feeLamports := 5, source := .executor }
  have htrades : adaptToLandedTrades (.landed "i" "s" 1 "rpc" 0) trader
      (some (response boughtCoins)) = .ok [t] := by
    decide +kernel
  obtain ⟨files', change, hstore, hlots⟩ :=
    store_buys (rfl : loadWalletData noFiles t.wallet = .ok none) (by decide)
  have hcold := buys_boughtCoins.addsCold (fun _ => rfl : NoTracers untraced) (fun _ => rfl)
    served_boughtCoins ⟨"s", 1, none, false⟩ 0 []
  obtain ⟨cold, hcold, -, hbasis⟩ := hcold
  have hequal := hsame (boughtLot t) cold
    ⟨[t], t, files', change, htrades, by decide, hstore, hlots⟩ hcold
  rw [hbasis] at hequal
  exact absurd hequal (by decide)

end Ap3xSolana.Strategies.BuyBasis
