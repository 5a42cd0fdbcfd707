import Ap3xSolana.Events.CpiDecoder
import Ap3xSolana.Events.LogRoundTrip
import Ap3xSolana.Pumpfun.IdlEvents
import Ap3xSolana.Pumpfun.TradeAmounts

/-!
# `fetchRecentTrades`

The trades in the logs of the transactions that touch a mint's bonding curve.  Every trade
of the mint in the window is among them, once and in order.  The trades of failed
transactions and of other mints are as well: the code looks at neither `err` nor `mint`.
-/

namespace Ap3xSolana.Pumpfun

open Core Lib Events Tx.FindProgramAddress Lib.Throwing

/-! ## Responses -/

structure SignatureEntry where
  signature : String
  slot : Int
  blockTime : Option Int
  deriving DecidableEq, Repr

/-- The source reads the log messages only; `err` is there where the transaction failed. -/
structure TransactionMeta where
  err : Option String
  logMessages : Option (List String)
  deriving DecidableEq, Repr

structure TransactionResponse where
  txMeta : Option TransactionMeta
  deriving DecidableEq, Repr

structure SignaturesConfig where
  limit : Int
  before : Option String
  deriving DecidableEq, Repr

/-- The two methods of the pool, or what a call rejects with; none for a response of
`getSignaturesForAddress` that is no array and for a transaction that is `null`. -/
structure TransactionRpc where
  getSignaturesForAddress : String → SignaturesConfig → Except String (Option (List SignatureEntry))
  getTransaction : String → Except String (Option TransactionResponse)

structure RecentTradesWindow where
  limit : Int
  untilSignature : Option String
  deriving DecidableEq, Repr

inductive FetchError where
  | rpc (message : String)
  | pda (e : PdaError)
  deriving DecidableEq, Repr

/-! ## Trades of a transaction -/

/-- `decoded.kind === kind`. -/
def IdlEvent.hasKind (event : IdlEvent) (kind : String) : Bool :=
  match event "kind" with
  | .string k => k = kind
  | _ => false

def IdlEvent.isTrade (event : IdlEvent) : Bool :=
  event.hasKind "pumpfun.trade" || event.hasKind "pumpswap.buy" || event.hasKind "pumpswap.sell"

/-- An unknown record has a kind of its own. -/
def tradeOf : DecoderResult IdlEvent → Option IdlEvent
  | .event event => if event.isTrade then some event else none
  | .unknown _ => none

def decoderFor (programId : String) : Option IdlDecoderOptions :=
  if programId = pumpfunBondingCurveProgramId.toBase58 then some bondingCurveDecoder
  else if programId = pumpfunPumpswapProgramId.toBase58 then some pumpSwapDecoder
  else none

def chunkTrades (fuel : Nat) (chunk : ProgramLogChunk) : List IdlEvent :=
  match decoderFor chunk.programId with
  | none => []
  | some decoder => (decoder.decodeAll fuel chunk).filterMap tradeOf

/-- `tx?.meta?.logMessages`. -/
def logMessages (tx : Option TransactionResponse) : Option (List String) := do
  let tx ← tx
  let txMeta ← tx.txMeta
  txMeta.logMessages

def transactionTrades (fuel : Nat) (tx : Option TransactionResponse) : List IdlEvent :=
  match logMessages tx with
  | none | some [] => []
  | some lines =>
      (walkInvocations (parseLogs lines)).flatMap fun step => chunkTrades fuel step.chunk

/-- `{ ...decoded, signature, slot, blockTime }`. -/
def annotate (entry : SignatureEntry) (event : IdlEvent) : IdlEvent := fun key =>
  if key = "signature" then .string entry.signature
  else if key = "slot" then .number entry.slot
  else if key = "blockTime" then .number (entry.blockTime.getD 0)
  else event key

/-! ## The request -/

def deriveBondingCurvePda (noble : Noble) (mint : PublicKey) :
    Except PdaError FindProgramAddressResult :=
  findProgramAddress noble [Utf8.utf8 "bonding-curve", mint.bytes] pumpfunBondingCurveProgramId

def RecentTradesWindow.config (window : RecentTradesWindow) : SignaturesConfig where
  limit := window.limit
  before := window.untilSignature

/-- The loop over the signatures. -/
def collectTrades (fuel : Nat) (rpc : TransactionRpc) :
    List SignatureEntry → List IdlEvent → Except FetchError (List IdlEvent)
  | [], trades => .ok trades
  | entry :: entries, trades => do
      let tx ← (rpc.getTransaction entry.signature).mapError .rpc
      collectTrades fuel rpc entries
        (trades ++ (transactionTrades fuel tx).map (annotate entry))

def fetchRecentTrades (noble : Noble) (fuel : Nat) (rpc : TransactionRpc) (mint : PublicKey)
    (window : RecentTradesWindow) : Except FetchError (List IdlEvent) := do
  let curvePda ← (deriveBondingCurvePda noble mint).mapError .pda
  let entries ← (rpc.getSignaturesForAddress curvePda.address.toBase58 window.config).mapError .rpc
  match entries with
  | none => return []
  | some entries => collectTrades fuel rpc entries []

/-! ## What the window holds -/

/-- The pool answers: the signatures of the curve, and a transaction for each of them. -/
structure RpcReturns (noble : Noble) (rpc : TransactionRpc) (mint : PublicKey)
    (window : RecentTradesWindow) (entries : List SignatureEntry)
    (tx : String → Option TransactionResponse) : Prop where
  signatures : ∃ curvePda, deriveBondingCurvePda noble mint = .ok curvePda ∧
    rpc.getSignaturesForAddress curvePda.address.toBase58 window.config = .ok (some entries)
  transactions : ∀ entry ∈ entries, rpc.getTransaction entry.signature = .ok (tx entry.signature)

def Succeeded (tx : Option TransactionResponse) : Prop :=
  (tx.bind (·.txMeta)).any fun txMeta => txMeta.err.isNone

instance (tx : Option TransactionResponse) : Decidable (Succeeded tx) :=
  inferInstanceAs (Decidable (_ = true))

/-- The trade events in a transaction's logs, in pre-order of its invocations. -/
def emitted (fuel : Nat) (tx : Option TransactionResponse) : List IdlEvent :=
  (RawTraces.preorders (parseLogs ((logMessages tx).getD [])).chunks).flatMap (chunkTrades fuel)

/-- `event.mint`. -/
def IdlEvent.ofMint (event : IdlEvent) (mint : PublicKey) : Bool :=
  match event "mint" with
  | .pubkey key => key = mint
  | _ => false

/-- A trade on the curve of the mint. -/
def IdlEvent.isTradeOf (event : IdlEvent) (mint : PublicKey) : Bool :=
  event.hasKind "pumpfun.trade" && event.ofMint mint

/-- The trades belong to the mint. -/
structure RecentTradesOf (fuel : Nat) (mint : PublicKey) (entries : List SignatureEntry)
    (tx : String → Option TransactionResponse) (trades : List IdlEvent) : Prop where
  happened : ∀ trade ∈ trades, ∃ entry ∈ entries, Succeeded (tx entry.signature) ∧
    ∃ event ∈ emitted fuel (tx entry.signature), trade = annotate entry event
  ofMint : ∀ trade ∈ trades, trade.hasKind "pumpfun.trade" → trade.ofMint mint
  complete : trades.filter (·.isTradeOf mint) =
    (entries.filter fun entry => Succeeded (tx entry.signature)).flatMap fun entry =>
      ((emitted fuel (tx entry.signature)).filter (·.isTradeOf mint)).map (annotate entry)

/-- In the window, no failed transaction has a trade in its logs, and no transaction has one
on the curve of another mint. -/
def OnlyOfMint (fuel : Nat) (mint : PublicKey) (entries : List SignatureEntry)
    (tx : String → Option TransactionResponse) : Prop :=
  ∀ entry ∈ entries, ∀ event ∈ emitted fuel (tx entry.signature),
    Succeeded (tx entry.signature) ∧ (event.hasKind "pumpfun.trade" → event.ofMint mint)

/-! ## What is returned -/

variable {noble : Noble} {fuel : Nat} {rpc : TransactionRpc} {mint : PublicKey}
  {window : RecentTradesWindow} {entries : List SignatureEntry}
  {tx : String → Option TransactionResponse}

theorem transactionTrades_eq (fuel : Nat) (tx : Option TransactionResponse) :
    transactionTrades fuel tx = emitted fuel tx := by
  unfold transactionTrades emitted
  cases logMessages tx with
  | none => rfl
  | some lines =>
      cases lines with
      | nil => rfl
      | cons line lines =>
          show ((walkInvocations (parseLogs (line :: lines))).flatMap fun step =>
            chunkTrades fuel step.chunk) = _
          rw [Option.getD_some, ← CpiDecoder.walkInvocations_chunks, List.flatMap_map]

theorem collectTrades_eq (htx : ∀ entry ∈ entries,
    rpc.getTransaction entry.signature = .ok (tx entry.signature)) (trades : List IdlEvent) :
    collectTrades fuel rpc entries trades = .ok (trades ++ entries.flatMap fun entry =>
      (emitted fuel (tx entry.signature)).map (annotate entry)) := by
  induction entries generalizing trades with
  | nil => rw [List.flatMap_nil, List.append_nil]; rfl
  | cons entry entries ih =>
      obtain ⟨hentry, hentries⟩ := List.forall_mem_cons.1 htx
      rw [collectTrades, hentry]
      show collectTrades fuel rpc entries _ = _
      rw [ih hentries, transactionTrades_eq, List.flatMap_cons, List.append_assoc]

/-- Every trade event in the window, annotated. -/
theorem fetchRecentTrades_eq (h : RpcReturns noble rpc mint window entries tx) :
    fetchRecentTrades noble fuel rpc mint window = .ok (entries.flatMap fun entry =>
      (emitted fuel (tx entry.signature)).map (annotate entry)) := by
  obtain ⟨curvePda, hpda, hsignatures⟩ := h.signatures
  unfold fetchRecentTrades
  rw [hpda]
  show ((rpc.getSignaturesForAddress curvePda.address.toBase58 window.config).mapError _ >>= _) = _
  rw [hsignatures]
  exact (collectTrades_eq h.transactions []).trans (by rw [List.nil_append])

@[simp] theorem annotate_hasKind (entry : SignatureEntry) (event : IdlEvent) (kind : String) :
    (annotate entry event).hasKind kind = event.hasKind kind := rfl

@[simp] theorem annotate_ofMint (entry : SignatureEntry) (event : IdlEvent) (mint : PublicKey) :
    (annotate entry event).ofMint mint = event.ofMint mint := rfl

theorem annotate_signature {entry entry' : SignatureEntry} {event event' : IdlEvent}
    (h : annotate entry event = annotate entry' event') : entry.signature = entry'.signature :=
  IdlValue.string.inj (congrFun h "signature")

theorem complete_of_succeeded (h : ∀ entry ∈ entries, ∀ event ∈ emitted fuel (tx entry.signature),
    Succeeded (tx entry.signature)) :
    (entries.flatMap fun entry => (emitted fuel (tx entry.signature)).map (annotate entry)).filter
        (·.isTradeOf mint) =
      (entries.filter fun entry => Succeeded (tx entry.signature)).flatMap fun entry =>
        ((emitted fuel (tx entry.signature)).filter (·.isTradeOf mint)).map (annotate entry) := by
  have hone : ∀ entry : SignatureEntry,
      ((emitted fuel (tx entry.signature)).map (annotate entry)).filter (·.isTradeOf mint) =
        ((emitted fuel (tx entry.signature)).filter (·.isTradeOf mint)).map (annotate entry) :=
    fun entry => List.filter_map
  rw [List.filter_flatMap]
  induction entries with
  | nil => rfl
  | cons entry entries ih =>
      obtain ⟨hentry, hentries⟩ := List.forall_mem_cons.1 h
      rw [List.flatMap_cons, List.filter_cons, ih hentries, hone]
      split
      · rw [List.flatMap_cons]
      · rename_i hfailed
        have hnone : emitted fuel (tx entry.signature) = [] :=
          List.eq_nil_iff_forall_not_mem.2 fun event hevent =>
            hfailed (decide_eq_true (hentry event hevent))
        rw [hnone]
        rfl

theorem mem_returned {entry : SignatureEntry} {event : IdlEvent} (hentry : entry ∈ entries)
    (hevent : event ∈ emitted fuel (tx entry.signature)) :
    annotate entry event ∈ entries.flatMap fun entry =>
      (emitted fuel (tx entry.signature)).map (annotate entry) :=
  List.mem_flatMap.2 ⟨entry, hentry, List.mem_map_of_mem hevent⟩

theorem onlyOfMint_of_right (h : RpcReturns noble rpc mint window entries tx)
    {trades : List IdlEvent} (hreturned : fetchRecentTrades noble fuel rpc mint window = .ok trades)
    (hright : RecentTradesOf fuel mint entries tx trades) : OnlyOfMint fuel mint entries tx := by
  rw [fetchRecentTrades_eq h, Except.ok.injEq] at hreturned
  subst hreturned
  intro entry hentry event hevent
  refine ⟨?_, hright.ofMint (annotate entry event) (mem_returned hentry hevent)⟩
  obtain ⟨entry', -, hsucceeded, event', -, heq⟩ :=
    hright.happened _ (mem_returned hentry hevent)
  rw [annotate_signature heq]
  exact hsucceeded

/-- **Recent trades belong to the mint** exactly if the window holds no others. -/
theorem recent_trades_iff (h : RpcReturns noble rpc mint window entries tx) (fuel : Nat) :
    (∃ trades, fetchRecentTrades noble fuel rpc mint window = .ok trades ∧
      RecentTradesOf fuel mint entries tx trades) ↔ OnlyOfMint fuel mint entries tx := by
  constructor
  · rintro ⟨trades, hreturned, hright⟩
    exact onlyOfMint_of_right h hreturned hright
  · intro honly
    refine ⟨_, fetchRecentTrades_eq h, ?_, ?_, complete_of_succeeded fun entry hentry event
      hevent => (honly entry hentry event hevent).1⟩
    · intro trade htrade
      obtain ⟨entry, hentry, htrade⟩ := List.mem_flatMap.1 htrade
      obtain ⟨event, hevent, rfl⟩ := List.mem_map.1 htrade
      exact ⟨entry, hentry, (honly entry hentry event hevent).1, event, hevent, rfl⟩
    · intro trade htrade
      obtain ⟨entry, hentry, htrade⟩ := List.mem_flatMap.1 htrade
      obtain ⟨event, hevent, rfl⟩ := List.mem_map.1 htrade
      exact (honly entry hentry event hevent).2

/-! ## A window of one transaction -/

/-- A trade on the curve of the mint `11111111111111111111111111111111`. -/
def zeroTrade : List UInt8 := discriminatorBytes "bddb7fd34ee661ee" ++ List.replicate 121 0

def tradeForest : List LogForest.Invocation :=
  [⟨"6EF8rrecthR5Dkzon8Nwu78hRvfCKubJ14M5uBEwF6P", [.data [zeroTrade]], .success⟩]

def tradeLogs : List String := LogForest.render tradeForest

theorem parseLogs_tradeLogs : parseLogs tradeLogs = LogForest.expected tradeForest := by
  refine (LogForest.parseLogs_render tradeForest ⟨⟨?_, ⟨nofun, trivial⟩, trivial⟩, trivial⟩).2
    ⟨⟨⟨?_, trivial⟩, trivial⟩, trivial⟩
  · apply LogForest.validId_of_all <;> decide +kernel
  · intro slice hslice
    rw [List.mem_singleton.1 hslice]
    exact List.append_ne_nil_of_right_ne_nil _ (List.cons_ne_nil 0 _)

def transaction (err : Option String) : Option TransactionResponse :=
  some { txMeta := some { err := err, logMessages := some tradeLogs } }

/-- The events of the one chunk. -/
theorem emitted_transaction (err : Option String) (fuel : Nat) :
    emitted fuel (transaction err) =
      (RawTraces.preorders (LogForest.expected tradeForest).chunks).flatMap (chunkTrades fuel) := by
  rw [← parseLogs_tradeLogs]
  rfl

/-- A pool that knows one transaction. -/
def oneTransaction (err : Option String) : TransactionRpc where
  getSignaturesForAddress := fun _ _ => .ok (some [⟨"sig", 100, none⟩])
  getTransaction := fun _ => .ok (transaction err)

theorem oneTransaction_returns (err : Option String) {mint : PublicKey}
    (hpda : (deriveBondingCurvePda toyNoble mint).isOk = true) :
    RpcReturns toyNoble (oneTransaction err) mint ⟨10, none⟩ [⟨"sig", 100, none⟩]
      fun _ => transaction err := by
  refine ⟨?_, fun entry _ => rfl⟩
  cases hderived : deriveBondingCurvePda toyNoble mint with
  | error e =>
      rw [hderived] at hpda
      cases hpda
  | ok curvePda => exact ⟨curvePda, rfl, rfl⟩

/-- The transaction succeeded, and the trade is on the curve that was asked for. -/
theorem recent_trades_of_one :
    ∃ trades, fetchRecentTrades toyNoble 10 (oneTransaction none) (.ofByte 0) ⟨10, none⟩ =
        .ok trades ∧
      RecentTradesOf 10 (.ofByte 0) [⟨"sig", 100, none⟩] (fun _ => transaction none) trades :=
  (recent_trades_iff (oneTransaction_returns none (by decide +kernel)) 10).2
    (by
      intro entry hentry
      rw [List.mem_singleton.1 hentry, emitted_transaction]
      decide +kernel)

/-- It failed, and the trade is on the curve of another mint. -/
theorem foreign_trade_is_returned :
    ¬ ∃ trades, fetchRecentTrades toyNoble 10 (oneTransaction (some "Custom")) (.ofByte 1)
        ⟨10, none⟩ = .ok trades ∧
      RecentTradesOf 10 (.ofByte 1) [⟨"sig", 100, none⟩] (fun _ => transaction (some "Custom"))
        trades := by
  rintro ⟨trades, hreturned, hright⟩
  have honly := onlyOfMint_of_right (oneTransaction_returns _ (by decide +kernel)) hreturned hright
  have hemitted : 0 < (emitted 10 (transaction (some "Custom"))).length := by
    rw [emitted_transaction]
    decide +kernel
  obtain ⟨event, hevent⟩ := List.exists_mem_of_length_pos hemitted
  have hsucceeded := (honly _ List.mem_cons_self event hevent).1
  exact absurd hsucceeded (by decide)

end Ap3xSolana.Pumpfun
