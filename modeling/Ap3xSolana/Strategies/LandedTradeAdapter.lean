import Ap3xSolana.Executor.Types
import Ap3xSolana.Lib.OrderedMap
import Ap3xSolana.Lib.Throwing
import Ap3xSolana.Portfolio.Position
import Ap3xSolana.Portfolio.Reconstructor

/-!
# From a landed result to trades

`adaptToLandedTrades` fetches the transaction of a landed result and turns the
wallet's token balances before and after it into one trade per mint.

The reconstructor reads the same token balances.  It adds
up all accounts of a wallet and a mint.  The adapter keeps, for each mint, the last
balance after the transaction and the first one before it (`deltasByMint_get?`), so the
two agree exactly if what it skips on both sides adds up to the same (`realDeltas_iff`).
-/

namespace Ap3xSolana.Strategies.LandedTradeAdapter

open Ap3xSolana.Core Ap3xSolana.Executor Ap3xSolana.Lib Ap3xSolana.Portfolio

/-- An entry of `preTokenBalances` or `postTokenBalances`; `amount` is the number
in `uiTokenAmount.amount`. -/
structure TokenBalance where
  mint : String
  owner : String
  amount : Option Int
  deriving DecidableEq, Repr

structure TransactionMeta where
  fee : Option Int
  preBalances : List Int
  postBalances : List Int
  preTokenBalances : Option (List TokenBalance)
  postTokenBalances : Option (List TokenBalance)
  deriving DecidableEq, Repr

/-- A response of the shape `isSolanaTransactionResponse` checks for. -/
structure SolanaTransactionResponse where
  accountKeys : List String
  txMeta : Option TransactionMeta
  deriving DecidableEq, Repr

/-- What the wallet's lamports changed by; 0 when it is not among the accounts. -/
def solDelta (accountKeys : List String) (m : TransactionMeta) (walletStr : String) :
    Int :=
  match accountKeys.findIdx? (· = walletStr) with
  | none => 0
  | some accountIdx =>
      (m.postBalances[accountIdx]?).getD 0 - (m.preBalances[accountIdx]?).getD 0

/-- The delta of one balance after the transaction, against the first one before
it with the same mint. -/
def postDelta (pre : List TokenBalance) (walletStr : String) (b : TokenBalance) : Int :=
  let preAmt :=
    ((pre.find? fun p => p.owner = walletStr && p.mint = b.mint).bind (·.amount)).getD 0
  b.amount.getD 0 - preAmt

/-- The wallet's token deltas by mint.  Balances that only existed before are
closed accounts: a full sell. -/
def deltasByMint (pre post : List TokenBalance) (walletStr : String) :
    OrderedMap String Int :=
  let own := post.filter (·.owner = walletStr)
  let seen := own.map (·.mint)
  let closed := pre.filter fun b => b.owner = walletStr && !seen.contains b.mint
  let deltas := own.foldl (fun d b => d.set b.mint (postDelta pre walletStr b)) .empty
  closed.foldl (fun d b => d.set b.mint (-(b.amount.getD 0))) deltas

/-- The trade of one mint, none for a zero delta.  Throws on a mint that is not
a key. -/
def tradeOf (signature : String) (slot : Nat) (wallet : PublicKey)
    (solFlow fee : Int) (entry : String × Int) :
    Except PublicKey.PublicKeyError (Option LandedTrade) :=
  if entry.2 = 0 then .ok none
  else
    match PublicKey.fromBase58 entry.1 with
    | .error e => .error e
    | .ok mint =>
        .ok (some { signature := signature, slot := slot, wallet := wallet,
                    mint := mint, amountDelta := entry.2, solFlowLamports := solFlow,
                    feeLamports := fee, source := .executor })

/-- `raw` is `none` when the response does not have the expected shape. -/
def adaptToLandedTrades (result : ExecutionResult) (walletAddress : PublicKey)
    (raw : Option SolanaTransactionResponse) :
    Except PublicKey.PublicKeyError (List LandedTrade) :=
  match result with
  | .landed _ signature slot _ _ =>
      match raw with
      | some { accountKeys := accountKeys, txMeta := some m } => do
          let walletStr := walletAddress.toBase58
          let deltas := deltasByMint (m.preTokenBalances.getD [])
            (m.postTokenBalances.getD []) walletStr
          let trades ← deltas.entries.mapM
            (tradeOf signature slot walletAddress (solDelta accountKeys m walletStr)
              (m.fee.getD 0))
          return trades.filterMap id
      | _ => .ok []
  | _ => .ok []

end Ap3xSolana.Strategies.LandedTradeAdapter

namespace Ap3xSolana.Strategies.TradeDeltas

open Ap3xSolana.Core Ap3xSolana.Executor Ap3xSolana.Lib Ap3xSolana.Lib.Throwing
open Ap3xSolana.Portfolio Ap3xSolana.Portfolio.Reconstructor
open Ap3xSolana.Strategies.LandedTradeAdapter

/-! ## One transaction, two readers -/

/-- A token balance as the adapter reads it. -/
def tokenBalance (b : TokenBalanceEntry) : TokenBalance :=
  { mint := b.mint.getD "", owner := b.owner.getD "", amount := b.amount }

/-- A transaction as the adapter reads it. -/
def response (tx : RpcTransaction) : SolanaTransactionResponse :=
  { accountKeys := tx.accountKeys
    txMeta := some
      { fee := tx.fee
        preBalances := tx.preBalances.getD []
        postBalances := tx.postBalances.getD []
        preTokenBalances := tx.preTokenBalances.map (·.map tokenBalance)
        postTokenBalances := tx.postTokenBalances.map (·.map tokenBalance) } }

/-- The amounts that `ownedAmount` adds up. -/
def ownAmounts (entries : Option (List TokenBalanceEntry)) (owner mint : PublicKey) :
    List Int :=
  ((entries.getD []).filter fun b =>
    b.owner = some owner.toBase58 && b.mint = some mint.toBase58).map
      fun b => b.amount.getD 0

theorem ownedAmount_eq (entries : Option (List TokenBalanceEntry)) (owner mint : PublicKey) :
    ownedAmount entries owner mint = (ownAmounts entries owner mint).sum := rfl

/-- The same amounts among the adapter's balances. -/
def ownBalances (bs : List TokenBalance) (walletStr mintStr : String) : List Int :=
  (bs.filter fun b => b.owner = walletStr && b.mint = mintStr).map fun b => b.amount.getD 0

theorem getD_eq_toBase58 {s : Option String} (key : PublicKey) :
    s.getD "" = key.toBase58 ↔ s = some key.toBase58 := by
  cases s with
  | none =>
      refine ⟨fun h => absurd h.symm key.toBase58_ne_empty, nofun⟩
  | some s => exact ⟨fun h => congrArg some h, fun h => Option.some.inj h⟩

theorem ownBalances_tokenBalance (entries : Option (List TokenBalanceEntry))
    (wallet mint : PublicKey) :
    ownBalances ((entries.map (·.map tokenBalance)).getD []) wallet.toBase58
      mint.toBase58 = ownAmounts entries wallet mint := by
  have hentries : (entries.map (·.map tokenBalance)).getD [] =
      (entries.getD []).map tokenBalance := by
    cases entries <;> rfl
  unfold ownBalances ownAmounts
  rw [hentries, List.filter_map, List.map_map]
  have hfilter : (fun b : TokenBalance => b.owner = wallet.toBase58 && b.mint = mint.toBase58)
      ∘ tokenBalance = fun b : TokenBalanceEntry =>
        (b.owner = some wallet.toBase58 && b.mint = some mint.toBase58 : Bool) := by
    funext b
    simp only [Function.comp, tokenBalance, getD_eq_toBase58]
  rw [hfilter]
  rfl

/-! ## What the adapter keeps -/

/-- The delta the adapter gets from a wallet's amounts of one mint. -/
def keptDelta (pre post : List Int) : Option Int :=
  match post.getLast? with
  | some last => some (last - pre.head?.getD 0)
  | none => pre.getLast?.map fun last => -last

theorem postDelta_eq (pre : List TokenBalance) (walletStr : String) (b : TokenBalance) :
    postDelta pre walletStr b =
      b.amount.getD 0 - (ownBalances pre walletStr b.mint).head?.getD 0 := by
  unfold postDelta ownBalances
  rw [List.head?_map, List.head?_filter]
  cases pre.find? fun p => p.owner = walletStr && p.mint = b.mint <;> rfl

theorem ownBalances_eq (bs : List TokenBalance) (walletStr mintStr : String) :
    ownBalances bs walletStr mintStr =
      ((bs.filter (·.owner = walletStr)).filter (·.mint = mintStr)).map (·.amount.getD 0) := by
  rw [ownBalances, List.filter_filter]
  congr 2
  funext b
  exact Bool.and_comm _ _

theorem deltasByMint_get? (pre post : List TokenBalance) (walletStr mintStr : String) :
    (deltasByMint pre post walletStr).get? mintStr =
      keptDelta (ownBalances pre walletStr mintStr) (ownBalances post walletStr mintStr) := by
  unfold deltasByMint keptDelta
  dsimp only
  rw [OrderedMap.get?_foldl_set TokenBalance.mint fun b => -(b.amount.getD 0),
    OrderedMap.get?_foldl_set TokenBalance.mint (postDelta pre walletStr),
    OrderedMap.get?_empty, Option.or_none, ownBalances_eq post, List.getLast?_map]
  generalize hown : post.filter (·.owner = walletStr) = own
  cases hlast : (own.filter (·.mint = mintStr)).getLast? with
  | some b =>
      -- the mint was seen after the transaction
      have hb := List.mem_filter.1 (List.mem_of_getLast? hlast)
      have hmint : b.mint = mintStr := of_decide_eq_true hb.2
      have hclosed : (pre.filter fun b => b.owner = walletStr &&
          !(own.map (·.mint)).contains b.mint).filter (·.mint = mintStr) = [] := by
        rw [List.filter_filter, List.filter_eq_nil_iff]
        intro b' _ hb'
        have hseen : mintStr ∈ own.map (·.mint) := hmint ▸ List.mem_map_of_mem hb.1
        simp only [Bool.and_eq_true, decide_eq_true_eq, Bool.not_eq_true'] at hb'
        rw [hb'.1] at hb'
        simp [hseen] at hb'
      rw [hclosed]
      show some (postDelta pre walletStr b) = some (_ - _)
      rw [postDelta_eq, hmint]
  | none =>
      have hunseen : mintStr ∉ own.map (·.mint) := by
        intro hmem
        obtain ⟨b, hb, rfl⟩ := List.mem_map.1 hmem
        rw [List.getLast?_eq_none_iff, List.filter_eq_nil_iff] at hlast
        exact hlast b hb (decide_eq_true rfl)
      have hclosed : (pre.filter fun b => b.owner = walletStr &&
          !(own.map (·.mint)).contains b.mint).filter (·.mint = mintStr) =
          (pre.filter (·.owner = walletStr)).filter (·.mint = mintStr) := by
        rw [List.filter_filter, List.filter_filter]
        apply List.filter_congr
        intro b _
        by_cases hb : b.mint = mintStr
        · simp [hb, hunseen]
        · simp [hb]
      rw [hclosed, ownBalances_eq pre, List.getLast?_map]
      cases ((pre.filter (·.owner = walletStr)).filter (·.mint = mintStr)).getLast? <;> rfl

/-! ## The trades -/

/-- The entry of a mint and the trade it gives. -/
inductive TradeFor : String × Int → Option LandedTrade → Prop where
  | none (mint : String) : TradeFor (mint, 0) none
  | some (t : LandedTrade) (h : t.amountDelta ≠ 0) :
      TradeFor (t.mint.toBase58, t.amountDelta) (some t)

theorem tradeOf_gives (signature : String) (slot : Nat) (wallet : PublicKey)
    (solFlow fee : Int) {entry : String × Int} (h : ∃ key : PublicKey, entry.1 = key.toBase58) :
    Gives (TradeFor entry) (tradeOf signature slot wallet solFlow fee entry) := by
  obtain ⟨mintStr, delta⟩ := entry
  obtain ⟨key, rfl : mintStr = key.toBase58⟩ := h
  unfold tradeOf
  by_cases hdelta : delta = 0
  · rw [if_pos hdelta, hdelta]
    exact .none _
  · rw [if_neg hdelta, PublicKey.fromBase58_toBase58]
    exact .some { signature := signature, slot := slot, wallet := wallet, mint := key,
                  amountDelta := delta, solFlowLamports := solFlow, feeLamports := fee,
                  source := .executor } hdelta

/-- The trades of a mint are the entries of its text, without zeros. -/
theorem amounts_of_tradeFor {entries : List (String × Int)} {opts : List (Option LandedTrade)}
    (h : List.Forall₂ TradeFor entries opts) (mint : PublicKey) :
    ((opts.filterMap id).filter (·.mint = mint)).map (·.amountDelta) =
      ((entries.filter (·.1 = mint.toBase58)).map (·.2)).filter (· ≠ 0) := by
  induction h with
  | nil => rfl
  | cons hentry _ ih =>
      cases hentry with
      | none mintStr =>
          rw [List.filterMap_cons_none rfl, ih]
          by_cases hmint : mintStr = mint.toBase58 <;> simp [hmint]
      | some t ht =>
          rw [List.filterMap_cons_some (f := id) rfl]
          by_cases hmint : t.mint = mint
          · simpa [hmint, ht] using ih
          · have htext : t.mint.toBase58 ≠ mint.toBase58 := fun h =>
              hmint (PublicKey.toBase58_injective h)
            simpa [hmint, htext] using ih

/-- The wallet's token accounts have mints that are keys. -/
def MintsAreKeys (wallet : PublicKey) (tx : RpcTransaction) : Prop :=
  ∀ b ∈ tx.preTokenBalances.getD [] ++ tx.postTokenBalances.getD [],
    b.owner = some wallet.toBase58 → ∃ key : PublicKey, b.mint = some key.toBase58

theorem mintsAreKeys_of_own {entries : Option (List TokenBalanceEntry)} {wallet : PublicKey}
    (h : ∀ b ∈ entries.getD [], b.owner = some wallet.toBase58 →
      ∃ key : PublicKey, b.mint = some key.toBase58) {mintStr : String}
    (hne : ownBalances ((entries.map (·.map tokenBalance)).getD []) wallet.toBase58 mintStr ≠
      []) : ∃ key : PublicKey, mintStr = key.toBase58 := by
  obtain ⟨_, hamount⟩ := List.exists_mem_of_ne_nil _ hne
  obtain ⟨b, hb, -⟩ := List.mem_map.1 hamount
  obtain ⟨hmem, hown⟩ := List.mem_filter.1 hb
  simp only [Bool.and_eq_true, decide_eq_true_eq] at hown
  have hentry : ∃ b' ∈ entries.getD [], tokenBalance b' = b := by
    cases entries with
    | none => cases hmem
    | some es => exact List.mem_map.1 hmem
  obtain ⟨b', hb', rfl⟩ := hentry
  obtain ⟨key, hkey⟩ := h b' hb' ((getD_eq_toBase58 wallet).1 hown.1)
  exact ⟨key, hown.2.symm.trans ((getD_eq_toBase58 key).2 hkey)⟩

/-- What the adapter makes of a landed transaction. -/
theorem adaptToLandedTrades_gives {wallet : PublicKey} {tx : RpcTransaction}
    (hmints : MintsAreKeys wallet tx) (intentId signature : String) (slot : Nat)
    (submitterUsed : String) (landedAt : Int) :
    Gives (fun trades => ∀ mint : PublicKey,
        (trades.filter (·.mint = mint)).map (·.amountDelta) =
          (keptDelta (ownAmounts tx.preTokenBalances wallet mint)
            (ownAmounts tx.postTokenBalances wallet mint)).toList.filter (· ≠ 0))
      (adaptToLandedTrades (.landed intentId signature slot submitterUsed landedAt) wallet
        (some (response tx))) := by
  unfold adaptToLandedTrades response
  dsimp only
  refine Ensures.bind (Ensures.mapM fun entry hentry => tradeOf_gives _ _ _ _ _ ?_)
    fun opts hopts => ?_
  · by_contra hkey
    have hpre : ownBalances ((tx.preTokenBalances.map (·.map tokenBalance)).getD [])
        wallet.toBase58 entry.1 = [] := by
      by_contra hne
      exact hkey (mintsAreKeys_of_own
        (fun b hb => hmints b (List.mem_append_left _ hb)) hne)
    have hpost : ownBalances ((tx.postTokenBalances.map (·.map tokenBalance)).getD [])
        wallet.toBase58 entry.1 = [] := by
      by_contra hne
      exact hkey (mintsAreKeys_of_own
        (fun b hb => hmints b (List.mem_append_right _ hb)) hne)
    have hnone := deltasByMint_get? ((tx.preTokenBalances.map (·.map tokenBalance)).getD [])
      ((tx.postTokenBalances.map (·.map tokenBalance)).getD []) wallet.toBase58 entry.1
    rw [hpre, hpost] at hnone
    exact OrderedMap.get?_eq_none.1 hnone (List.mem_map_of_mem hentry)
  · intro mint
    rw [amounts_of_tradeFor hopts, OrderedMap.filter_entries, deltasByMint_get?,
      ownBalances_tokenBalance, ownBalances_tokenBalance]
    cases keptDelta (ownAmounts tx.preTokenBalances wallet mint)
      (ownAmounts tx.postTokenBalances wallet mint) <;> rfl

/-! ## Kept and real deltas -/

/-- What the wallet's balance of the mint changed by, over all its accounts. -/
def realDelta (tx : RpcTransaction) (wallet mint : PublicKey) : Int :=
  ownedAmount tx.postTokenBalances wallet mint - ownedAmount tx.preTokenBalances wallet mint

/-- For each mint at most one trade, and the trades add up to the real delta. -/
def RealDeltas (wallet : PublicKey) (tx : RpcTransaction) (trades : List LandedTrade) :
    Prop :=
  ∀ mint, (trades.filter (·.mint = mint)).length ≤ 1 ∧
    ((trades.filter (·.mint = mint)).map (·.amountDelta)).sum = realDelta tx wallet mint

/-- What the adapter skips before and after the transaction adds up to the same. -/
def SkipsEvenly (pre post : List Int) : Prop :=
  if post = [] then pre.dropLast.sum = 0 else post.dropLast.sum = pre.tail.sum

instance (pre post : List Int) : Decidable (SkipsEvenly pre post) :=
  inferInstanceAs (Decidable
    (if post = [] then pre.dropLast.sum = 0 else post.dropLast.sum = pre.tail.sum))

theorem sum_dropLast_add {xs : List Int} {last : Int} (h : xs.getLast? = some last) :
    xs.dropLast.sum + last = xs.sum := by
  obtain ⟨ys, rfl⟩ := List.getLast?_eq_some_iff.1 h
  rw [List.dropLast_concat, List.sum_append, List.sum_singleton]

theorem head_add_sum_tail (xs : List Int) : xs.head?.getD 0 + xs.tail.sum = xs.sum := by
  cases xs <;> simp

theorem keptDelta_iff (pre post : List Int) :
    (keptDelta pre post).getD 0 = post.sum - pre.sum ↔ SkipsEvenly pre post := by
  unfold keptDelta SkipsEvenly
  have hpre := head_add_sum_tail pre
  cases hpost : post.getLast? with
  | some last =>
      have hne : post ≠ [] := by
        rintro rfl
        cases hpost
      have hsum := sum_dropLast_add hpost
      rw [if_neg hne, Option.getD_some]
      omega
  | none =>
      have hnil := List.getLast?_eq_none_iff.1 hpost
      rw [if_pos hnil, hnil, List.sum_nil]
      cases hlast : pre.getLast? with
      | some last =>
          have hsum := sum_dropLast_add hlast
          show -last = _ ↔ _
          omega
      | none =>
          rw [List.getLast?_eq_none_iff.1 hlast]
          simp

theorem length_filter_toList_le (x : Option Int) :
    (x.toList.filter (· ≠ 0)).length ≤ 1 := by
  refine (List.length_filter_le _ _).trans ?_
  cases x <;> simp

theorem sum_filter_toList (x : Option Int) : (x.toList.filter (· ≠ 0)).sum = x.getD 0 := by
  cases x with
  | none => rfl
  | some a => by_cases ha : a = 0 <;> simp [ha]

/-- The trades of a landed transaction are the wallet's real deltas exactly if, mint by
mint, the accounts that the adapter skips add up to the same before and after. -/
theorem realDeltas_iff {wallet : PublicKey} {tx : RpcTransaction}
    (hmints : MintsAreKeys wallet tx) (intentId signature : String) (slot : Nat)
    (submitterUsed : String) (landedAt : Int) :
    (∃ trades, adaptToLandedTrades (.landed intentId signature slot submitterUsed landedAt)
      wallet (some (response tx)) = .ok trades ∧ RealDeltas wallet tx trades) ↔
    ∀ mint, SkipsEvenly (ownAmounts tx.preTokenBalances wallet mint)
      (ownAmounts tx.postTokenBalances wallet mint) := by
  obtain ⟨trades, htrades, hamounts⟩ := (adaptToLandedTrades_gives hmints intentId signature
    slot submitterUsed landedAt).exists_ok
  have hmint : ∀ mint : PublicKey,
      ((trades.filter (·.mint = mint)).length ≤ 1 ∧
        ((trades.filter (·.mint = mint)).map (·.amountDelta)).sum =
          realDelta tx wallet mint) ↔
      SkipsEvenly (ownAmounts tx.preTokenBalances wallet mint)
        (ownAmounts tx.postTokenBalances wallet mint) := by
    intro mint
    have hlength : (trades.filter (·.mint = mint)).length ≤ 1 := by
      rw [← List.length_map (·.amountDelta), hamounts mint]
      exact length_filter_toList_le _
    rw [hamounts mint, sum_filter_toList, ← keptDelta_iff]
    exact and_iff_right hlength
  constructor
  · rintro ⟨trades', htrades', hreal⟩ mint
    rw [htrades] at htrades'
    obtain rfl := Except.ok.inj htrades'
    exact (hmint mint).1 (hreal mint)
  · exact fun heven => ⟨trades, htrades, fun mint => (hmint mint).2 (heven mint)⟩

def trader : PublicKey := .ofByte 1

def coin : PublicKey := .ofByte 2

/-- The trader's accounts of one mint, before and after. -/
def accountsOf (pre post : List Int) : RpcTransaction :=
  let entry (amount : Int) : TokenBalanceEntry :=
    { owner := trader.toBase58, mint := coin.toBase58, amount := amount }
  { accountKeys := [trader.toBase58]
    preTokenBalances := some (pre.map entry)
    postTokenBalances := some (post.map entry) }

theorem mintsAreKeys_accountsOf (pre post : List Int) :
    MintsAreKeys trader (accountsOf pre post) := by
  intro b hb _
  rcases List.mem_append.1 hb with hb | hb
  all_goals
    obtain ⟨amount, _, rfl⟩ := List.mem_map.1 hb
    exact ⟨coin, rfl⟩

theorem realDeltas_oneAccount :
    ∃ trades, adaptToLandedTrades (.landed "i" "s" 1 "rpc" 0) trader
      (some (response (accountsOf [3] [10]))) = .ok trades ∧
      RealDeltas trader (accountsOf [3] [10]) trades := by
  refine (realDeltas_iff (mintsAreKeys_accountsOf [3] [10]) "i" "s" 1 "rpc" 0).2 ?_
  intro mint
  by_cases hmint : mint = coin
  · rw [hmint]
    decide +kernel
  · have htext : coin.toBase58 ≠ mint.toBase58 := fun h =>
      hmint (PublicKey.toBase58_injective h).symm
    have hother : ∀ amounts : List Int, ownAmounts (accountsOf amounts []).preTokenBalances
        trader mint = [] := by
      intro amounts
      simp [ownAmounts, accountsOf, htext]
    show SkipsEvenly (ownAmounts (accountsOf [3] []).preTokenBalances trader mint)
      (ownAmounts (accountsOf [10] []).preTokenBalances trader mint)
    rw [hother, hother]
    decide

/-- One account keeps its 10 tokens, the other goes from 5 to 25: a trade of 15. -/
theorem realDeltas_fails_twoAccounts :
    ¬ ∃ trades, adaptToLandedTrades (.landed "i" "s" 1 "rpc" 0) trader
      (some (response (accountsOf [10, 5] [10, 25]))) = .ok trades ∧
      RealDeltas trader (accountsOf [10, 5] [10, 25]) trades := by
  rintro ⟨trades, htrades, hreal⟩
  have hrun : adaptToLandedTrades (.landed "i" "s" 1 "rpc" 0) trader
      (some (response (accountsOf [10, 5] [10, 25]))) =
      .ok [{ signature := "s", slot := 1, wallet := trader, mint := coin, amountDelta := 15,
             solFlowLamports := 0, feeLamports := 0, source := .executor }] := by
    decide +kernel
  rw [hrun] at htrades
  obtain rfl := Except.ok.inj htrades
  exact absurd (hreal coin).2 (by decide +kernel)

end Ap3xSolana.Strategies.TradeDeltas
