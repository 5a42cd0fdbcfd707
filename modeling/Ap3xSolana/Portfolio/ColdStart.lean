import Ap3xSolana.Lib.Throwing
import Ap3xSolana.Portfolio.History

/-!
# Cold start

The walk stops at the newest change that starts from nothing.  What was before it has
been sold, so replaying the changes it keeps gives the lots of a replay from the
beginning (`reconstruct_complete`).  Whatever the walk finds, the lots add up to the
balance, and tokens it has not seen come in are in lots marked `basisUnresolved`.
-/

namespace Ap3xSolana.Portfolio.Reconstructor

open Ap3xSolana.Core Ap3xSolana.Lib Ap3xSolana.Lib.Throwing
open Ap3xSolana.Portfolio.Accounting

/-! ## What a node serves -/

/-- The text of a public key. -/
def IsKey (s : String) : Prop := ∃ key : PublicKey, s = key.toBase58

/-- A transaction as a node serves it: addresses are keys, instruction data is base58
and token amounts are not negative. -/
structure Served (tx : RpcTransaction) : Prop where
  keys : ∀ k ∈ accountKeys tx, IsKey k
  data : ∀ ix ∈ tx.instructions.getD [], ∀ d, ix.data = some d →
    ∃ bytes, Base58.decode d = .ok bytes
  owners : ∀ b ∈ tx.preTokenBalances.getD [] ++ tx.postTokenBalances.getD [],
    ∀ s, b.owner = some s → IsKey s
  mints : ∀ b ∈ tx.preTokenBalances.getD [] ++ tx.postTokenBalances.getD [],
    ∀ s, b.mint = some s → IsKey s
  amounts : ∀ b ∈ tx.preTokenBalances.getD [] ++ tx.postTokenBalances.getD [],
    0 ≤ b.amount.getD 0

theorem parseKey_gives {s : String} (h : IsKey s) :
    Gives (fun key : PublicKey => s = key.toBase58) (parseKey s) := by
  obtain ⟨key, rfl⟩ := h
  rw [parseKey, PublicKey.fromBase58_toBase58]
  exact rfl

theorem truthy_eq_some {s : Option String} {t : String} (h : truthy s = some t) :
    s = some t := (Option.filter_eq_some_iff.1 h).1

theorem parseInstruction_gives {tx : RpcTransaction} (h : Served tx)
    (accounts : List PublicKey) {ix : RpcInstruction} (hix : ix ∈ tx.instructions.getD []) :
    Gives (fun _ => True) (parseInstruction accounts ix) := by
  have hdata : ∃ bytes, Base58.decode ((truthy ix.data).getD "") = .ok bytes := by
    cases hd : truthy ix.data with
    | none => exact ⟨[], rfl⟩
    | some d => exact h.data ix hix d (truthy_eq_some hd)
  obtain ⟨bytes, hbytes⟩ := hdata
  unfold parseInstruction
  split
  · trivial
  · simp only [hbytes]
    trivial

theorem parseTokenBalance_gives {tx : RpcTransaction} (h : Served tx) {b : TokenBalanceEntry}
    (hb : b ∈ tx.preTokenBalances.getD [] ++ tx.postTokenBalances.getD []) :
    Gives (fun _ => True) (parseTokenBalance b) := by
  unfold parseTokenBalance
  split
  · rename_i owner mint howner hmint
    refine (parseKey_gives (h.owners b hb owner (truthy_eq_some howner))).bind fun _ _ => ?_
    refine (parseKey_gives (h.mints b hb mint (truthy_eq_some hmint))).bind fun _ _ => ?_
    trivial
  · trivial

theorem toParsedTransaction_gives {tx : RpcTransaction} (h : Served tx) (sig : String)
    (slot : Nat) : Gives (fun _ => True) (toParsedTransaction tx sig slot) := by
  refine (Ensures.mapM fun k hk => parseKey_gives (h.keys k hk)).bind fun accounts _ => ?_
  refine (Ensures.mapM fun ix hix => parseInstruction_gives h accounts hix).bind
    fun ixs _ => ?_
  refine (Ensures.mapM fun b hb =>
    parseTokenBalance_gives h (List.mem_append_left _ hb)).bind fun pre _ => ?_
  refine (Ensures.mapM fun b hb =>
    parseTokenBalance_gives h (List.mem_append_right _ hb)).bind fun post _ => ?_
  trivial

theorem transferSource_gives {tx : RpcTransaction} (h : Served tx)
    (wallet mint : PublicKey) : Gives (fun _ => True) (transferSource tx wallet mint) := by
  refine (Ensures.foldlM (fun _ => True) (fun best owner howner _ => ?_) trivial).bind
    fun _ _ => trivial
  rw [otherOwners, Grouping.mem_firstSeen, List.mem_filterMap] at howner
  obtain ⟨b, hb, hfilter⟩ := howner
  have howner := truthy_eq_some (Option.filter_eq_some_iff.1 hfilter).1
  refine (parseKey_gives (h.owners b (List.mem_filter.1 hb).1 owner howner)).bind
    fun pk _ => ?_
  dsimp only
  split <;> trivial

/-! ## Inflows -/

/-- No swap tracer is registered. -/
def NoTracers (opts : CostBasisReconstructorOpts) : Prop :=
  ∀ programId, opts.tracersFor programId = []

theorem traced_eq_none {opts : CostBasisReconstructorOpts} (h : NoTracers opts)
    (parsedTx : ParsedTransaction) (wallet mint : PublicKey) :
    traced opts parsedTx wallet mint = none := by
  unfold traced
  rw [List.findSome?_eq_none_iff]
  intro programId _
  rw [h programId]
  rfl

theorem transferIn_amount (opts : CostBasisReconstructorOpts) (base : Lot)
    (source : Option PublicKey) (mint : PublicKey) :
    (transferIn opts base source mint).amount = base.amount := by
  unfold transferIn
  dsimp only
  split <;> rfl

/-- An inflow gets a lot of its amount, whatever it is classified as. -/
theorem classifyInflow_gives {opts : CostBasisReconstructorOpts} (hopts : NoTracers opts)
    (wallet mint : PublicKey) (now : Int) {c : BalanceChange} (hc : Served c.tx)
    (delta : Int) :
    Gives (fun lot => lot.amount = delta) (classifyInflow opts wallet mint now c delta) := by
  unfold classifyInflow
  refine (toParsedTransaction_gives hc c.signature c.slot).bind fun parsedTx _ => ?_
  rw [traced_eq_none hopts]
  dsimp only
  split
  · exact rfl
  · refine (transferSource_gives hc wallet mint).bind fun source _ => ?_
    cases source with
    | none => exact rfl
    | some source => exact transferIn_amount opts _ _ mint

/-! ## The replay -/

def AllPositive (lots : List Lot) : Prop := ∀ l ∈ lots, 0 < l.amount

theorem AllPositive.concat {lots : List Lot} {l : Lot} (h : AllPositive lots)
    (hl : 0 < l.amount) : AllPositive (lots ++ [l]) := by
  intro l' hl'
  rcases List.mem_append.1 hl' with hl' | hl'
  · exact h l' hl'
  · rwa [List.mem_singleton.1 hl']

theorem AllPositive.eq_nil {lots : List Lot} (h : AllPositive lots)
    (hzero : totalAmount lots = 0) : lots = [] := by
  cases lots with
  | nil => rfl
  | cons l lots =>
      have hl := h l (by simp)
      have hrest := totalAmount_nonneg fun l' h' => h l' (List.mem_cons_of_mem _ h')
      rw [totalAmount_cons] at hzero
      omega

/-- Tokens in lots whose basis is not marked unresolved. -/
def resolvedAmount (lots : List Lot) : Int :=
  totalAmount (lots.filter fun l => l.basisUnresolved != some true)

theorem resolvedAmount_append (xs ys : List Lot) :
    resolvedAmount (xs ++ ys) = resolvedAmount xs + resolvedAmount ys := by
  rw [resolvedAmount, List.filter_append, totalAmount_append, resolvedAmount, resolvedAmount]

theorem resolvedAmount_singleton_le {l : Lot} (hl : 0 < l.amount) :
    resolvedAmount [l] ≤ l.amount := by
  unfold resolvedAmount
  rw [List.filter_singleton]
  cases l.basisUnresolved != some true <;> simp [hl.le]

@[simp] theorem resolvedAmount_unresolved (now amount : Int) (slot : Nat) :
    resolvedAmount [unresolved now amount slot] = 0 := rfl

/-- Selling does not resolve anything. -/
theorem resolvedAmount_descends {lots rest : List Lot} (h : Descends lots rest)
    (hpos : AllPositive lots) : resolvedAmount rest ≤ resolvedAmount lots := by
  induction h with
  | nil => rfl
  | drop l _ ih =>
      have hrest := ih fun l' h' => hpos l' (List.mem_cons_of_mem _ h')
      have hl := hpos l List.mem_cons_self
      unfold resolvedAmount at hrest ⊢
      rw [List.filter_cons]
      split
      · rw [totalAmount_cons]
        omega
      · exact hrest
  | keep l amount basis hle _ ih =>
      have hrest := ih fun l' h' => hpos l' (List.mem_cons_of_mem _ h')
      unfold resolvedAmount at hrest ⊢
      rw [List.filter_cons, List.filter_cons]
      dsimp only
      split
      · rw [totalAmount_cons, totalAmount_cons]
        dsimp only
        omega
      · exact hrest

theorem reduceFifo_gives {lots : List Lot} {amount : Int} (hpos : AllPositive lots)
    (hamt : 0 ≤ amount) (hle : amount ≤ totalAmount lots) :
    Gives (fun rest => AllPositive rest ∧ totalAmount rest = totalAmount lots - amount ∧
      resolvedAmount rest ≤ resolvedAmount lots) (reduceFifo lots amount) := by
  rcases hamt.eq_or_lt with rfl | hamt
  · exact ⟨hpos, (sub_zero _).symm, le_refl _⟩
  · obtain ⟨res, hres, htotal, hrest, hdescends⟩ :=
      reduceOrdered_conserves 0 .fifo hpos hamt hle
    have hreduce : reduceLots lots amount 0 .fifo = .ok res := by
      rw [reduceLots, if_neg (not_le.2 hamt), if_neg (by decide), hres]
    rw [reduceFifo, hreduce]
    exact ⟨hrest, htotal, resolvedAmount_descends hdescends hpos⟩

/-- What one turn of the replay does: the total follows the change, as far as there is
something to sell. -/
theorem replayChange_gives {opts : CostBasisReconstructorOpts} (hopts : NoTracers opts)
    (wallet mint : PublicKey) (now : Int) {lots : List Lot} {c : BalanceChange}
    (hc : Served c.tx) (hpos : AllPositive lots) :
    Gives (fun lots' => AllPositive lots' ∧
        totalAmount lots' = max 0 (totalAmount lots + (c.post - c.pre)) ∧
        resolvedAmount lots' ≤ resolvedAmount lots + max 0 (c.post - c.pre))
      (replayChange opts wallet mint now lots c) := by
  have hheld := totalAmount_nonneg hpos
  unfold replayChange
  dsimp only
  by_cases hdelta : c.post - c.pre > 0
  · rw [if_pos hdelta]
    refine (classifyInflow_gives hopts wallet mint now hc (c.post - c.pre)).bind ?_
    intro lot hlot
    have hlotPos : 0 < lot.amount := hlot ▸ hdelta
    have hresolved := resolvedAmount_singleton_le hlotPos
    refine ⟨hpos.concat hlotPos, ?_, ?_⟩
    · rw [totalAmount_append, totalAmount_cons, totalAmount_nil]
      omega
    · rw [resolvedAmount_append]
      omega
  · rw [if_neg hdelta]
    refine (reduceFifo_gives hpos (by split <;> omega) (by split <;> omega)).mono ?_
    rintro rest ⟨hrest, htotal, hresolved⟩
    refine ⟨hrest, ?_, by omega⟩
    rw [htotal]
    split <;> omega

/-- Tokens that came in. -/
def inflows (cs : List BalanceChange) : Int := (cs.map fun c => max 0 (c.post - c.pre)).sum

/-- From balance `b` the changes lead to `b'`, each from where the one before it ended. -/
def Chained (b : Int) : List BalanceChange → Int → Prop
  | [], b' => b = b'
  | c :: cs, b' => c.pre = b ∧ Chained c.post cs b'

instance decidableChained : ∀ b cs b', Decidable (Chained b cs b')
  | b, [], b' => inferInstanceAs (Decidable (b = b'))
  | b, c :: cs, b' =>
      have := decidableChained c.post cs b'
      inferInstanceAs (Decidable (c.pre = b ∧ Chained c.post cs b'))

theorem Chained.split {b b' : Int} {cs cs' : List BalanceChange} (h : Chained b (cs ++ cs') b') :
    ∃ m, Chained b cs m ∧ Chained m cs' b' := by
  induction cs generalizing b with
  | nil => exact ⟨b, rfl, h⟩
  | cons c cs ih =>
      obtain ⟨m, hcs, hcs'⟩ := ih h.2
      exact ⟨m, ⟨h.1, hcs⟩, hcs'⟩

/-- A change as the walk finds it. -/
structure ServedChange (c : BalanceChange) : Prop where
  tx : Served c.tx
  pre : 0 ≤ c.pre
  post : 0 ≤ c.post

theorem ownedAmount_nonneg {entries : Option (List TokenBalanceEntry)}
    (h : ∀ b ∈ entries.getD [], 0 ≤ b.amount.getD 0) (owner mint : PublicKey) :
    0 ≤ ownedAmount entries owner mint := by
  apply List.sum_nonneg
  intro a ha
  obtain ⟨b, hb, rfl⟩ := List.mem_map.1 ha
  exact h b (List.mem_filter.1 hb).1

theorem servedChange_of_found {rpc : RpcPool} {wallet mint : PublicKey}
    (hserved : ∀ sig tx, rpc.getTransaction sig = some tx → Served tx) {c : BalanceChange}
    (h : Found rpc wallet mint c) : ServedChange c := by
  obtain ⟨e, tx, htx, hc⟩ := h
  have hs := hserved _ _ htx
  unfold changeOf at hc
  dsimp only at hc
  split at hc
  · cases hc
  · obtain rfl := Option.some.inj hc
    refine ⟨hs, ownedAmount_nonneg ?_ wallet mint, ownedAmount_nonneg ?_ wallet mint⟩
    · exact fun b hb => hs.amounts b (List.mem_append_left _ hb)
    · exact fun b hb => hs.amounts b (List.mem_append_right _ hb)

/-- The whole replay, from any lots. -/
theorem replayFrom_gives {opts : CostBasisReconstructorOpts} (hopts : NoTracers opts)
    (wallet mint : PublicKey) (now : Int) (cs : List BalanceChange) :
    ∀ (lots : List Lot), (∀ c ∈ cs, ServedChange c) → AllPositive lots →
    Gives (fun lots' => AllPositive lots' ∧
        resolvedAmount lots' ≤ resolvedAmount lots + inflows cs ∧
        ∀ b', Chained (totalAmount lots) cs b' → totalAmount lots' = b')
      (cs.foldlM (replayChange opts wallet mint now) lots) := by
  induction cs with
  | nil =>
      intro lots _ hpos
      exact ⟨hpos, by simp [inflows], fun b' h => h⟩
  | cons c cs ih =>
      intro lots hserved hpos
      obtain ⟨hc, hcs⟩ := List.forall_mem_cons.1 hserved
      rw [List.foldlM_cons]
      refine (replayChange_gives hopts wallet mint now hc.tx hpos).bind ?_
      rintro lots' ⟨hpos', htotal, hresolved⟩
      refine (ih lots' hcs hpos').mono ?_
      rintro lots'' ⟨hpos'', hresolved', hchained⟩
      refine ⟨hpos'', ?_, ?_⟩
      · rw [inflows, List.map_cons, List.sum_cons]
        rw [inflows] at hresolved'
        omega
      · rintro b' ⟨hpre, hrest⟩
        refine hchained b' ?_
        have hpost := hc.post
        have hsame : totalAmount lots' = c.post := by
          rw [htotal, hpre]
          omega
        rwa [hsame]

/-! ## Reconstruction -/

/-- What was held before changes that are ordered oldest first. -/
def opening (ordered : List BalanceChange) : Int := (ordered.head?.map (·.pre)).getD 0

/-- The lots a replay starts from. -/
def openingLots (now : Int) (slot : Nat) (ordered : List BalanceChange) : List Lot :=
  if opening ordered > 0 then [unresolved now (opening ordered) slot] else []

theorem opening_nonneg {ordered : List BalanceChange} (h : ∀ c ∈ ordered, ServedChange c) :
    0 ≤ opening ordered := by
  cases ordered with
  | nil => exact le_refl _
  | cons c cs => exact (h c List.mem_cons_self).pre

theorem openingLots_positive (now : Int) (slot : Nat) (ordered : List BalanceChange) :
    AllPositive (openingLots now slot ordered) := by
  unfold openingLots
  split
  · rename_i hpos
    intro l hl
    rw [List.mem_singleton.1 hl]
    exact hpos
  · exact List.forall_mem_nil _

theorem totalAmount_openingLots (now : Int) (slot : Nat) {ordered : List BalanceChange}
    (h : ∀ c ∈ ordered, ServedChange c) :
    totalAmount (openingLots now slot ordered) = opening ordered := by
  have hnonneg := opening_nonneg h
  unfold openingLots
  split
  · rw [totalAmount_cons, totalAmount_nil]
    exact add_zero _
  · rw [totalAmount_nil]
    omega

theorem resolvedAmount_openingLots (now : Int) (slot : Nat) (ordered : List BalanceChange) :
    resolvedAmount (openingLots now slot ordered) = 0 := by
  unfold openingLots
  split <;> rfl

/-- The replay of any changes. -/
theorem replay_gives {opts : CostBasisReconstructorOpts} (hopts : NoTracers opts)
    (wallet mint : PublicKey) (now : Int) (slot : Nat) {ordered : List BalanceChange}
    (h : ∀ c ∈ ordered, ServedChange c) :
    Gives (fun lots => AllPositive lots ∧ resolvedAmount lots ≤ inflows ordered ∧
        ∀ b, Chained (opening ordered) ordered b → totalAmount lots = b)
      (replay opts wallet mint now slot ordered) := by
  refine (replayFrom_gives hopts wallet mint now ordered (openingLots now slot ordered) h
    (openingLots_positive now slot ordered)).mono ?_
  rw [resolvedAmount_openingLots, totalAmount_openingLots now slot h, zero_add]
  exact fun _ hlots => hlots

/-- Reconciling trims to the balance, or adds what is missing. -/
theorem reconcile_gives {currentBalance : Int} (hbalance : 0 ≤ currentBalance) (now : Int)
    (slot : Nat) {lots : List Lot} (hpos : AllPositive lots) :
    Gives (fun lots' => AllPositive lots' ∧ totalAmount lots' = currentBalance ∧
        resolvedAmount lots' ≤ resolvedAmount lots ∧
        (totalAmount lots = currentBalance → lots' = lots) ∧
        (totalAmount lots < currentBalance →
          lots' = lots ++ [unresolved now (currentBalance - totalAmount lots) slot]))
      (reconcile now slot currentBalance lots) := by
  unfold reconcile
  dsimp only
  rcases lt_trichotomy currentBalance (totalAmount lots) with hlt | heq | hgt
  · rw [if_pos hlt]
    refine (reduceFifo_gives hpos (by omega) (by omega)).mono ?_
    rintro rest ⟨hrest, htotal, hresolved⟩
    exact ⟨hrest, by omega, hresolved, fun h => by omega, fun h => by omega⟩
  · rw [if_neg (by omega), if_neg (by omega)]
    exact ⟨hpos, heq.symm, le_refl _, fun _ => rfl, fun h => by omega⟩
  · rw [if_neg (by omega), if_pos hgt]
    have hunresolved : 0 < (unresolved now (currentBalance - totalAmount lots) slot).amount :=
      Int.sub_pos.2 hgt
    refine ⟨hpos.concat hunresolved, ?_, ?_, fun h => by omega, fun _ => rfl⟩
    · rw [totalAmount_append, totalAmount_cons, totalAmount_nil]
      show totalAmount lots + (currentBalance - totalAmount lots + 0) = currentBalance
      omega
    · rw [resolvedAmount_append, resolvedAmount_unresolved, add_zero]

theorem chained_head {m b : Int} {c : BalanceChange} {cs : List BalanceChange}
    (h : Chained m (c :: cs) b) : c.pre = m := h.1

/-- Replaying the changes since the position was opened gives what replaying all of them
gives: what was there before has been sold. -/
theorem replay_sinceOpened {opts : CostBasisReconstructorOpts} (hopts : NoTracers opts)
    (wallet mint : PublicKey) (now : Int) {slot slot' : Nat} {cs : List BalanceChange}
    (h : ∀ c ∈ cs, ServedChange c) {b : Int} (hchained : Chained (opening cs.reverse) cs.reverse b)
    (hslot : Unopened cs → slot' = slot) :
    replay opts wallet mint now slot' (sinceOpened cs).reverse =
      replay opts wallet mint now slot cs.reverse := by
  rcases sinceOpened_split cs with hunopened | ⟨newer, c, older, rfl, hc, hsince⟩
  · rw [hunopened.sinceOpened_eq, hslot hunopened]
  · rw [hsince]
    have hreverse : (newer ++ c :: older).reverse = older.reverse ++ (newer ++ [c]).reverse := by
      simp
    have hhead : (newer ++ [c]).reverse = c :: newer.reverse := by simp
    rw [hreverse] at hchained ⊢
    have hserved : ∀ d ∈ older.reverse ++ (newer ++ [c]).reverse, ServedChange d := by
      rw [← hreverse]
      exact fun d hd => h d (List.mem_reverse.1 hd)
    obtain ⟨m, hbefore, hsinceOpened⟩ := hchained.split
    rw [hhead] at hsinceOpened
    have hm : m = 0 := (chained_head hsinceOpened).symm.trans hc
    -- the lots at the moment the position is opened
    obtain ⟨lots, hlots, hpos, -, htotal⟩ := (replayFrom_gives hopts wallet mint now older.reverse
      (openingLots now slot (older.reverse ++ (newer ++ [c]).reverse))
      (fun d hd => hserved d (List.mem_append_left _ hd))
      (openingLots_positive now slot _)).exists_ok
    rw [totalAmount_openingLots now slot hserved] at htotal
    have hnil : lots = [] := hpos.eq_nil ((htotal m hbefore).trans hm)
    have hopening : openingLots now slot' (newer ++ [c]).reverse = [] := by
      rw [openingLots, hhead, opening, List.head?_cons]
      exact if_neg (by simp [hc])
    show List.foldlM _ (openingLots now slot' _) _ = List.foldlM _ (openingLots now slot _) _
    rw [List.foldlM_append, hlots, hnil, hopening]
    rfl

/-! ## The whole history -/

/-- The replay of a whole history that is listed newest first. -/
def fullReplay (opts : CostBasisReconstructorOpts) (wallet mint : PublicKey) (now : Int)
    (es : List SignatureEntry) : Except ReconstructError (List Lot) :=
  replay opts wallet mint now (oldestSlot opts.rpcPool es)
    (changesOf opts.rpcPool wallet mint es).reverse

/-- The changes of a history lead, oldest first, from what was held before it to
`balance`. -/
def Balanced (opts : CostBasisReconstructorOpts) (wallet mint : PublicKey)
    (es : List SignatureEntry) (balance : Int) : Prop :=
  let ordered := (changesOf opts.rpcPool wallet mint es).reverse
  Chained (opening ordered) ordered balance

theorem fromWalk_finished {opts : CostBasisReconstructorOpts} (hopts : NoTracers opts)
    (hserved : ∀ sig tx, opts.rpcPool.getTransaction sig = some tx → Served tx)
    {wallet mint : PublicKey} (now : Int) {es : List SignatureEntry} {w : Walk}
    (hw : Finished opts.rpcPool wallet mint es w) {balance : Int}
    (hbalanced : Balanced opts wallet mint es balance) :
    replay opts wallet mint now w.oldestSlotWalked w.changes.reverse =
      fullReplay opts wallet mint now es := by
  rw [hw.changes]
  refine replay_sinceOpened hopts wallet mint now ?_ hbalanced hw.oldest
  exact fun c hc => servedChange_of_found hserved (found_of_mem_changesOf hc)

/-- `lookbackDays` before now, in milliseconds. -/
def cutoff (opts : CostBasisReconstructorOpts) (lookbackDays : Option Int) (startedAt : Int) :
    Int := startedAt - lookbackDays.getD opts.lookbackDays * (24 * 60 * 60 * 1000)

/-- Without tracers, reconstruction from any node ends, with lots that add up to the
balance: what the walk saw come in explains the lots that are not marked, and what it
does not explain is one marked lot.  From a node that serves a whole history within the
lookback it gives the replay of that history from its beginning. -/
theorem reconstruct_complete {opts : CostBasisReconstructorOpts} (hopts : NoTracers opts)
    (hserved : ∀ sig tx, opts.rpcPool.getTransaction sig = some tx → Served tx)
    (wallet mint : PublicKey) {currentBalance : Int} (hbalance : 0 ≤ currentBalance)
    (lookbackDays : Option Int) (startedAt now : Int) {sigs : List String}
    (hsigs : ∀ before, ∀ e ∈ opts.rpcPool.getSignaturesForAddress wallet before,
      e.signature ∈ sigs) {turns : Nat} (hturns : sigs.length < turns) :
    ∃ w replayed lots,
      walkPages opts.rpcPool wallet mint (cutoff opts lookbackDays startedAt) turns {} none =
        some w ∧
      replay opts wallet mint now w.oldestSlotWalked w.changes.reverse = .ok replayed ∧
      reconstruct opts wallet mint currentBalance lookbackDays startedAt now turns =
        some (.ok lots) ∧
      AllPositive lots ∧ totalAmount lots = currentBalance ∧
      resolvedAmount lots ≤ inflows w.changes ∧
      (totalAmount replayed < currentBalance → lots = replayed ++
        [unresolved now (currentBalance - totalAmount replayed) w.oldestSlotWalked]) ∧
      ∀ es, Serves opts.rpcPool wallet es →
        (∀ e ∈ es, beforeCutoff (cutoff opts lookbackDays startedAt) e = false) →
        Balanced opts wallet mint es currentBalance →
        fullReplay opts wallet mint now es = .ok lots := by
  obtain ⟨w, hw⟩ := walkPages_ends mint (cutoff opts lookbackDays startedAt) hsigs turns
    (w := {}) none (lt_of_le_of_lt (List.length_filter_le _ _) hturns)
  have hfound := walkPages_found turns hw (List.forall_mem_nil _)
  have hchanges : ∀ c ∈ w.changes.reverse, ServedChange c := fun c hc =>
    servedChange_of_found hserved (hfound c (List.mem_reverse.1 hc))
  obtain ⟨replayed, hreplay, hpos, hresolved, htotal⟩ :=
    (replay_gives hopts wallet mint now w.oldestSlotWalked hchanges).exists_ok
  obtain ⟨lots, hreconcile, hlotsPos, hlotsTotal, hlotsResolved, hsame, hmissing⟩ :=
    (reconcile_gives hbalance now w.oldestSlotWalked hpos).exists_ok
  have hlots : fromWalk opts wallet mint currentBalance now w = .ok lots := by
    unfold fromWalk
    rw [hreplay]
    exact hreconcile
  have hinflows : inflows w.changes.reverse = inflows w.changes := by
    unfold inflows
    rw [List.map_reverse, List.sum_reverse]
  refine ⟨w, replayed, lots, hw, hreplay, ?_, hlotsPos, hlotsTotal, by omega, hmissing, ?_⟩
  · show (walkPages _ _ _ (cutoff opts lookbackDays startedAt) _ _ _).map _ = _
    rw [hw]
    exact congrArg some hlots
  · intro es hes hcut hbalanced
    have hfinished := walkPages_finished hes hcut turns (List.nil_append _).symm Walked.start hw
    have hfull := fromWalk_finished hopts hserved now hfinished hbalanced
    rw [hreplay] at hfull
    have hall : ∀ c ∈ (changesOf opts.rpcPool wallet mint es).reverse, ServedChange c :=
      fun c hc => servedChange_of_found hserved (found_of_mem_changesOf (List.mem_reverse.1 hc))
    obtain ⟨-, -, hbalance⟩ := (replay_gives hopts wallet mint now
      (oldestSlot opts.rpcPool es) hall).of_eq hfull.symm
    rw [← hfull, hsame (hbalance currentBalance hbalanced)]

/-! ## A position that was closed and opened again -/

def holder : PublicKey := .ofByte 1

def token : PublicKey := .ofByte 2

/-- The holder pays the fee and its balance changes. -/
def moved (pre post : Int) : RpcTransaction :=
  { preBalances := some [100], postBalances := some [40], fee := some 5,
    preTokenBalances := some [⟨holder.toBase58, token.toBase58, pre⟩],
    postTokenBalances := some [⟨holder.toBase58, token.toBase58, post⟩],
    accountKeys := [holder.toBase58] }

theorem served_moved {pre post : Int} (hpre : 0 ≤ pre) (hpost : 0 ≤ post) :
    Served (moved pre post) := by
  have hentries : ∀ b ∈ [(⟨holder.toBase58, token.toBase58, pre⟩ : TokenBalanceEntry)] ++
      [⟨holder.toBase58, token.toBase58, post⟩],
      b.owner = some holder.toBase58 ∧ b.mint = some token.toBase58 ∧ 0 ≤ b.amount.getD 0 := by
    intro b hb
    rcases List.mem_cons.1 hb with rfl | hb
    · exact ⟨rfl, rfl, hpre⟩
    · obtain rfl := List.mem_singleton.1 hb
      exact ⟨rfl, rfl, hpost⟩
  constructor
  · intro k hk
    exact ⟨holder, List.mem_singleton.1 hk⟩
  · intro ix hix
    cases hix
  · intro b hb s hs
    rw [(hentries b hb).1] at hs
    exact ⟨holder, (Option.some.inj hs).symm⟩
  · intro b hb s hs
    rw [(hentries b hb).2.1] at hs
    exact ⟨token, (Option.some.inj hs).symm⟩
  · exact fun b hb => (hentries b hb).2.2

def reopenedEntries : List SignatureEntry :=
  [⟨"sold", 4, none, false⟩, ⟨"reopened", 3, none, false⟩, ⟨"closed", 2, none, false⟩,
   ⟨"opened", 1, none, false⟩]

/-- The balance goes from 0 to 5 and back, then to 7 and to 4. -/
def reopened : CostBasisReconstructorOpts :=
  { rpcPool :=
      { getSignaturesForAddress := fun _ before =>
          match before with
          | none => reopenedEntries
          | some s => (reopenedEntries.dropWhile (·.signature != s)).tail
        getTransaction := fun s =>
          if s = "opened" then moved 0 5
          else if s = "closed" then moved 5 0
          else if s = "reopened" then moved 0 7
          else if s = "sold" then moved 7 4
          else none }
    tracersFor := fun _ => [] }

theorem reopened_served (sig : String) (tx : RpcTransaction)
    (h : reopened.rpcPool.getTransaction sig = some tx) : Served tx := by
  unfold reopened at h
  dsimp only at h
  split_ifs at h
  all_goals
    obtain rfl := Option.some.inj h
    exact served_moved (by decide) (by decide)

theorem reopened_listed (before : Option String) :
    ∀ e ∈ reopened.rpcPool.getSignaturesForAddress holder before,
      e.signature ∈ reopenedEntries.map (·.signature) := by
  intro e he
  apply List.mem_map_of_mem
  cases before with
  | none => exact he
  | some s => exact (List.dropWhile_sublist _).mem (List.mem_of_mem_tail he)

theorem reopened_serves : Serves reopened.rpcPool holder reopenedEntries := by
  constructor
  · decide
  · decide
  · intro known older hes
    refine ⟨older, [], (List.append_nil _).symm, ?_, fun h => absurd rfl h⟩
    have hlength : 4 = known.length + older.length := by
      rw [← List.length_append, ← hes]
      rfl
    have hknown : known = reopenedEntries.take known.length := by
      rw [hes, List.take_left]
    have hdrop : older = reopenedEntries.drop known.length := by
      rw [hes, List.drop_left]
    have hpages : ∀ k < 5, reopened.rpcPool.getSignaturesForAddress holder
        ((reopenedEntries.take k).getLast?.map (·.signature)) = reopenedEntries.drop k := by
      decide
    rw [hknown, hpages known.length (by omega), ← hdrop]

theorem reconstruct_complete_reopened :
    ∃ lots, reconstruct reopened holder token 4 none 0 0 5 = some (.ok lots) ∧
      totalAmount lots = 4 ∧ fullReplay reopened holder token 0 reopenedEntries = .ok lots := by
  obtain ⟨_, _, lots, _, _, hlots, _, htotal, _, _, hfull⟩ :=
    reconstruct_complete (fun _ => rfl : NoTracers reopened) reopened_served holder token
      (by decide : (0 : Int) ≤ 4) none 0 0 reopened_listed (by decide : 4 < 5)
  refine ⟨lots, hlots, htotal, hfull _ reopened_serves (by decide) ?_⟩
  unfold Balanced
  decide +kernel

end Ap3xSolana.Portfolio.Reconstructor
