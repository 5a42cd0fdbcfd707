import Mathlib.Data.List.Pairwise
import Ap3xSolana.Signals.Sources

/-!
# Historical and live

The subscription asks the server to leave out vote transactions and failed ones.  The walk
over the blocks takes every transaction that has log lines, and the logs of a failed
transaction still carry the events it had emitted by then.  So the two sources agree on a
range exactly if no transaction that the server leaves out has an event of the programs
(`sources_agree_iff`).
-/

namespace Ap3xSolana.Signals.SourcesAgree

open Ap3xSolana.Core Ap3xSolana.Events Ap3xSolana.Signals

variable {δ : Type}

/-! ## The chain and its two views -/

structure ChainTransaction where
  signature : List UInt8
  size : signature.length = 64
  failed : Bool := false
  vote : Bool := false
  accounts : List PublicKey
  logMessages : Option (List String)

structure ChainBlock where
  slot : Nat
  blockTime : Option Int := none
  transactions : List ChainTransaction

structure Chain where
  blocks : List ChainBlock
  sorted : blocks.Pairwise (·.slot < ·.slot)

def Chain.range (chain : Chain) (slotFrom slotTo : Int) : List ChainBlock :=
  chain.blocks.filter fun block => slotFrom ≤ block.slot ∧ (block.slot : Int) ≤ slotTo

/-- A block as RPC gives it, with the signatures in base58. -/
def ChainBlock.response (block : ChainBlock) : BlockResponse :=
  { blockTime := block.blockTime
    transactions := some (block.transactions.map fun tx =>
      { signatures := [Base58.encode tx.signature], logMessages := tx.logMessages }) }

def Chain.rpc (chain : Chain) : BlockRpc where
  getBlocks slotFrom slotTo := (chain.range slotFrom slotTo).map (·.slot)
  getBlock slot := (chain.blocks.find? (·.slot = slot)).map (·.response)

/-- What the filter of the subscription lets through: `vote: false`, `failed: false`, and
`accountInclude` with the programs. -/
def served (opts : SourceOpts δ) (tx : ChainTransaction) : Bool :=
  !tx.vote && !tx.failed && tx.accounts.any (· ∈ opts.programIds)

/-- A transaction as the server sends it. -/
def update (block : ChainBlock) (tx : ChainTransaction) : GeyserUpdate :=
  .transaction (some block.slot)
    (some
      { signature := some (.bytes tx.signature)
        firstSignature := some (.bytes tx.signature)
        logMessages := some (tx.logMessages.getD []) })

/-- The stream of the range; `clock` is the time at which a transaction arrives. -/
def Chain.stream (chain : Chain) (opts : SourceOpts δ) (clock : ChainTransaction → Int)
    (range : HistoricalOpts) : List (GeyserUpdate × Int) :=
  (chain.range range.slotFrom range.slotTo).flatMap fun block =>
    (block.transactions.filter (served opts)).map fun tx => (update block tx, clock tx)

/-- The walk over the range comes to its end, and both sources emit the same ids in the same
order. -/
def Agree (opts : SourceOpts δ) (chain : Chain) (clock : ChainTransaction → Int)
    (range : HistoricalOpts) : Prop :=
  ∃ turns signals, HistoricalSignalSource.start opts chain.rpc range turns = some signals ∧
    signals.map (·.signalId) =
      ((GeyserSignalSource.receive opts 0 (chain.stream opts clock range)).filterMap
        SourceEvent.signal?).map (·.signalId)

/-! ## One transaction -/

/-- The ids of the signals that a transaction stands for. -/
def ids (opts : SourceOpts δ) (tx : ChainTransaction) : List String :=
  (transactionSignals opts 0 0 (Base58.encode tx.signature) (tx.logMessages.getD [])).map
    (·.signalId)

theorem ids_eq (opts : SourceOpts δ) (tx : ChainTransaction) (slot : Nat) (ts : Int) :
    (transactionSignals opts slot ts (Base58.encode tx.signature)
      (tx.logMessages.getD [])).map (·.signalId) = ids opts tx :=
  transactionSignals_ids opts slot 0 ts 0 _ _

theorem encode_ne_empty (tx : ChainTransaction) : Base58.encode tx.signature ≠ "" := by
  intro h
  have hdecode := Base58.decode_encode tx.signature
  rw [h] at hdecode
  have hsize := tx.size
  rw [← Except.ok.inj hdecode] at hsize
  cases hsize

theorem extractTxUpdate_update (block : ChainBlock) (tx : ChainTransaction) :
    extractTxUpdate (update block tx) =
      some ⟨block.slot, Base58.encode tx.signature, tx.logMessages.getD []⟩ := by
  have hsignature : signatureString (.bytes tx.signature) = some (Base58.encode tx.signature) := by
    rw [signatureString, if_pos tx.size]
  unfold extractTxUpdate update
  dsimp only [Option.some_or, Option.bind_some]
  rw [hsignature]
  exact if_neg (encode_ne_empty tx)

/-! ## The live source -/

theorem receive_ids (opts : SourceOpts δ) (lastSlot : Nat)
    (sent : List (ChainBlock × ChainTransaction)) (clock : ChainTransaction → Int) :
    ((GeyserSignalSource.receive opts lastSlot
      (sent.map fun x => (update x.1 x.2, clock x.2))).filterMap SourceEvent.signal?).map
        (·.signalId) = sent.flatMap fun x => ids opts x.2 := by
  induction sent generalizing lastSlot with
  | nil => rfl
  | cons x sent ih =>
      have hgap : ∀ (c : Prop) [Decidable c] (gap : GapEvent),
          (if c then [SourceEvent.gap gap] else [] : List (SourceEvent δ)).filterMap
            SourceEvent.signal? = [] := by
        intro c _ gap
        split <;> rfl
      rw [List.map_cons, GeyserSignalSource.receive, List.filterMap_append, List.map_append, ih,
        List.flatMap_cons]
      congr 1
      rw [GeyserSignalSource.onUpdate, extractTxUpdate_update]
      dsimp only
      rw [List.filterMap_append, hgap, List.nil_append, List.filterMap_map]
      show (List.filterMap (fun s => some s) _).map _ = _
      rw [List.filterMap_some]
      exact ids_eq opts x.2 x.1.slot (clock x.2)

theorem stream_ids (opts : SourceOpts δ) (chain : Chain) (clock : ChainTransaction → Int)
    (range : HistoricalOpts) :
    ((GeyserSignalSource.receive opts 0 (chain.stream opts clock range)).filterMap
      SourceEvent.signal?).map (·.signalId) =
        (((chain.range range.slotFrom range.slotTo).flatMap (·.transactions)).filter
          (served opts)).flatMap (ids opts) := by
  have hstream : chain.stream opts clock range =
      ((chain.range range.slotFrom range.slotTo).flatMap fun block =>
        (block.transactions.filter (served opts)).map fun tx => (block, tx)).map
          fun x => (update x.1 x.2, clock x.2) := by
    rw [Chain.stream, List.map_flatMap]
    apply List.flatMap_congr
    intro block _
    rw [List.map_map]
    rfl
  rw [hstream, receive_ids, List.flatMap_assoc, List.filter_flatMap, List.flatMap_assoc]
  apply List.flatMap_congr
  intro block _
  rw [List.flatMap_map]

/-! ## The walk over the blocks -/

theorem find_block (chain : Chain) {block : ChainBlock} (h : block ∈ chain.blocks) :
    chain.blocks.find? (·.slot = block.slot) = some block := by
  cases hfind : chain.blocks.find? (·.slot = block.slot) with
  | none =>
      have hnone := List.find?_eq_none.1 hfind block h
      simp at hnone
  | some found =>
      have hslot : found.slot = block.slot := by simpa using List.find?_some hfind
      have hnodup : (chain.blocks.map (·.slot)).Nodup :=
        List.pairwise_map.2 (chain.sorted.imp Nat.ne_of_lt)
      rw [List.inj_on_of_nodup_map hnodup (List.mem_of_find?_eq_some hfind) h hslot]

theorem blockSignals_ids (opts : SourceOpts δ) (chain : Chain) {block : ChainBlock}
    (h : block ∈ chain.blocks) :
    (HistoricalSignalSource.blockSignals opts chain.rpc block.slot).map (·.signalId) =
      block.transactions.flatMap (ids opts) := by
  have hblock : chain.rpc.getBlock block.slot = some block.response := by
    show (chain.blocks.find? (·.slot = block.slot)).map (·.response) = _
    rw [find_block chain h]
    rfl
  rw [HistoricalSignalSource.blockSignals, hblock]
  show (List.flatMap _ (block.transactions.map _)).map _ = _
  rw [List.flatMap_map, List.map_flatMap]
  apply List.flatMap_congr
  intro tx _
  cases hlogs : tx.logMessages with
  | none =>
      rw [ids, hlogs]
      rfl
  | some logs =>
      dsimp only [List.head?_cons]
      rw [if_neg (encode_ne_empty tx), ← ids_eq opts tx block.slot, hlogs]
      rfl

/-- A range comes apart where a batch ends. -/
theorem range_split (chain : Chain) {a b c : Int} (hab : a ≤ b + 1) (hbc : b ≤ c) :
    chain.range a c = chain.range a b ++ chain.range (b + 1) c := by
  obtain ⟨blocks, hsorted⟩ := chain
  simp only [Chain.range]
  induction blocks with
  | nil => rfl
  | cons block blocks ih =>
      have hrest := (List.pairwise_cons.1 hsorted)
      by_cases hb : (block.slot : Int) ≤ b
      · have hright : ¬ (b + 1 ≤ (block.slot : Int) ∧ (block.slot : Int) ≤ c) := by omega
        by_cases ha : a ≤ (block.slot : Int)
        · rw [List.filter_cons_of_pos (by simpa using ⟨ha, hb.trans hbc⟩),
            List.filter_cons_of_pos (by simpa using ⟨ha, hb⟩),
            List.filter_cons_of_neg (by simpa using hright), List.cons_append, ih hrest.2]
        · rw [List.filter_cons_of_neg (by simp [ha]), List.filter_cons_of_neg (by simp [ha]),
            List.filter_cons_of_neg (by simpa using hright), ih hrest.2]
      · -- nothing of this block or behind it is in the first part
        have hnone : (block :: blocks).filter (fun block => decide (a ≤ (block.slot : Int) ∧
            (block.slot : Int) ≤ b)) = [] := by
          rw [List.filter_eq_nil_iff]
          intro x hx
          have hle : block.slot ≤ x.slot := by
            rcases List.mem_cons.1 hx with rfl | hx
            · exact le_refl _
            · exact Nat.le_of_lt (hrest.1 x hx)
          simp only [decide_eq_true_eq, not_and]
          omega
        rw [hnone, List.nil_append]
        apply List.filter_congr
        intro x hx
        have hle : block.slot ≤ x.slot := by
          rcases List.mem_cons.1 hx with rfl | hx
          · exact le_refl _
          · exact Nat.le_of_lt (hrest.1 x hx)
        rw [decide_eq_decide]
        omega

theorem range_eq_nil (chain : Chain) {a b : Int} (h : b < a) : chain.range a b = [] := by
  rw [Chain.range, List.filter_eq_nil_iff]
  intro block _
  simp only [decide_eq_true_eq, not_and]
  omega

/-- The blocks of the range, one after the other. -/
def walk (opts : SourceOpts δ) (chain : Chain) (a b : Int) : List (Signal δ) :=
  (chain.range a b).flatMap fun block =>
    HistoricalSignalSource.blockSignals opts chain.rpc block.slot

section Batches

variable (opts : SourceOpts δ) (chain : Chain) (range : HistoricalOpts)

theorem batch_eq (hpos : 0 < range.batchSize) (cursor : Int) :
    (chain.rpc.getBlocks cursor (min (cursor + range.batchSize - 1) range.slotTo)).flatMap
        (HistoricalSignalSource.blockSignals opts chain.rpc) ++
      walk opts chain (cursor + range.batchSize) range.slotTo =
        walk opts chain cursor range.slotTo := by
  have hbatch : (chain.rpc.getBlocks cursor
      (min (cursor + range.batchSize - 1) range.slotTo)).flatMap
        (HistoricalSignalSource.blockSignals opts chain.rpc) =
      walk opts chain cursor (min (cursor + range.batchSize - 1) range.slotTo) := by
    show (List.map _ _).flatMap _ = _
    rw [List.flatMap_map]
    rfl
  rw [hbatch]
  by_cases hlast : range.slotTo < cursor + range.batchSize
  · rw [min_eq_right (by omega), walk, walk, range_eq_nil chain hlast, List.flatMap_nil,
      List.append_nil]
  · rw [min_eq_left (by omega), walk, walk, walk,
      range_split chain (a := cursor) (b := cursor + range.batchSize - 1) (c := range.slotTo)
        (by omega) (by omega),
      List.flatMap_append,
      show cursor + range.batchSize - 1 + 1 = cursor + range.batchSize by omega]

theorem batches_ok (hpos : 0 < range.batchSize) {turns : Nat} {cursor : Int}
    {signals : List (Signal δ)}
    (h : HistoricalSignalSource.batches opts chain.rpc range turns cursor = some signals) :
    signals = walk opts chain cursor range.slotTo := by
  induction turns generalizing cursor signals with
  | zero =>
      rw [HistoricalSignalSource.batches] at h
      split at h
      · cases h
      · cases h
        rw [walk, range_eq_nil chain (by omega), List.flatMap_nil]
  | succ turns ih =>
      rw [HistoricalSignalSource.batches] at h
      split at h
      · obtain ⟨rest, hrest, rfl⟩ := Option.map_eq_some_iff.1 h
        rw [ih hrest]
        exact batch_eq opts chain range hpos cursor
      · cases h
        rw [walk, range_eq_nil chain (by omega), List.flatMap_nil]

/-- Enough turns come to the end. -/
theorem batches_end (hpos : 0 < range.batchSize) (turns : Nat) (cursor : Int)
    (hturns : range.slotTo < cursor + turns) :
    HistoricalSignalSource.batches opts chain.rpc range turns cursor ≠ none := by
  induction turns generalizing cursor with
  | zero =>
      rw [HistoricalSignalSource.batches, if_neg (by simpa using hturns)]
      exact Option.some_ne_none _
  | succ turns ih =>
      rw [HistoricalSignalSource.batches]
      split
      · have hrest := ih (cursor + range.batchSize) (by push_cast at hturns ⊢; omega)
        intro hnone
        exact hrest (Option.map_eq_none_iff.1 hnone)
      · exact Option.some_ne_none _

/-- Without a batch size the cursor stays where it is. -/
theorem batches_stuck (hpos : range.batchSize ≤ 0) (turns : Nat) {cursor : Int}
    (hle : cursor ≤ range.slotTo) :
    HistoricalSignalSource.batches opts chain.rpc range turns cursor = none := by
  induction turns generalizing cursor with
  | zero => rw [HistoricalSignalSource.batches, if_pos hle]
  | succ turns ih =>
      rw [HistoricalSignalSource.batches, if_pos hle]
      show Option.map _ _ = none
      rw [ih (by omega), Option.map_none]

end Batches

theorem walk_ids (opts : SourceOpts δ) (chain : Chain) (a b : Int) :
    (walk opts chain a b).map (·.signalId) =
      ((chain.range a b).flatMap (·.transactions)).flatMap (ids opts) := by
  rw [walk, List.map_flatMap, List.flatMap_assoc]
  apply List.flatMap_congr
  intro block hblock
  exact blockSignals_ids opts chain (List.mem_filter.1 hblock).1

/-! ## Both -/

/-- Leaving elements out shows exactly if one of them had something to give. -/
private theorem flatMap_filter_eq_iff {α β : Type*} {p : α → Bool} {f : α → List β}
    {xs : List α} :
    xs.flatMap f = (xs.filter p).flatMap f ↔ ∀ x ∈ xs, f x ≠ [] → p x = true := by
  induction xs with
  | nil => simp
  | cons x xs ih =>
      rw [List.forall_mem_cons, ← ih, List.flatMap_cons]
      by_cases hp : p x = true
      · rw [List.filter_cons_of_pos hp, List.flatMap_cons, List.append_cancel_left_eq]
        simp [hp]
      · rw [List.filter_cons_of_neg hp]
        have hle : ((xs.filter p).flatMap f).length ≤ (xs.flatMap f).length :=
          (List.filter_sublist.flatMap f).length_le
        constructor
        · intro heq
          have hlength := congrArg List.length heq
          rw [List.length_append] at hlength
          have hnil : f x = [] := List.length_eq_zero_iff.1 (by omega)
          rw [hnil, List.nil_append] at heq
          exact ⟨fun hne => absurd hnil hne, heq⟩
        · rintro ⟨hne, heq⟩
          have hnil : f x = [] := by
            by_contra h
            exact hp (hne h)
          rw [hnil, List.nil_append, heq]

/-- **Agreement.**  Both sources emit the same ids in the same order exactly if the walk
advances and the server serves every transaction of the range that has a signal. -/
theorem sources_agree_iff (opts : SourceOpts δ) (chain : Chain)
    (clock : ChainTransaction → Int) (range : HistoricalOpts) :
    Agree opts chain clock range ↔
      (range.slotTo < range.slotFrom ∨ 0 < range.batchSize) ∧
        ∀ block ∈ chain.range range.slotFrom range.slotTo, ∀ tx ∈ block.transactions,
          ids opts tx ≠ [] → served opts tx = true := by
  have hall : (∀ block ∈ chain.range range.slotFrom range.slotTo, ∀ tx ∈ block.transactions,
      ids opts tx ≠ [] → served opts tx = true) ↔
        ∀ tx ∈ (chain.range range.slotFrom range.slotTo).flatMap (·.transactions),
          ids opts tx ≠ [] → served opts tx = true := by
    simp only [List.mem_flatMap, forall_exists_index, and_imp]
    exact ⟨fun h tx block hb htx => h block hb tx htx, fun h block hb tx htx => h tx block hb htx⟩
  rw [hall, ← flatMap_filter_eq_iff, ← walk_ids, Agree, stream_ids]
  by_cases hpos : 0 < range.batchSize
  · constructor
    · rintro ⟨turns, signals, hstart, heq⟩
      rw [batches_ok opts chain range hpos hstart] at heq
      exact ⟨.inr hpos, heq⟩
    · rintro ⟨-, heq⟩
      have hend := batches_end opts chain range hpos
        (range.slotTo + 1 - range.slotFrom).toNat range.slotFrom (by omega)
      obtain ⟨signals, hsignals⟩ := Option.ne_none_iff_exists'.1 hend
      refine ⟨_, signals, hsignals, ?_⟩
      rw [batches_ok opts chain range hpos hsignals]
      exact heq
  · by_cases hempty : range.slotTo < range.slotFrom
    · have hnil := range_eq_nil chain hempty
      rw [walk, hnil]
      refine ⟨fun _ => ⟨.inl hempty, rfl⟩, fun _ => ⟨0, [], ?_, rfl⟩⟩
      show HistoricalSignalSource.batches opts chain.rpc range 0 range.slotFrom = _
      rw [HistoricalSignalSource.batches, if_neg (by omega)]
    · constructor
      · rintro ⟨turns, signals, hstart, -⟩
        have hstuck := batches_stuck opts chain range (by omega) turns
          (show range.slotFrom ≤ range.slotTo by omega)
        change HistoricalSignalSource.batches opts chain.rpc range turns range.slotFrom = _
          at hstart
        rw [hstuck] at hstart
        cases hstart
      · rintro ⟨h, -⟩
        omega

/-! ## A failed transaction -/

/-- One event for every data line. -/
def dataEvents : ProgramDecoder Unit :=
  { decode := fun _ => .ok (.event ())
    decodeAll := some fun chunk => .ok (chunk.dataPayloads.map fun _ => .event ()) }

def dataOpts : SourceOpts Unit :=
  { decoderRegistry :=
      EventDecoderRegistry.register {} (PublicKey.ofByte 0).toBase58 dataEvents
    programIds := [.ofByte 0]
    dataKind := fun _ => none
    sha256 := List.take 32 }

/-- The program emits an event and then fails. -/
def failedTrade : Chain where
  blocks :=
    [ { slot := 1
        transactions :=
          [ { signature := List.replicate 64 1
              size := List.length_replicate
              failed := true
              accounts := [.ofByte 0]
              logMessages := some
                [ "Program 11111111111111111111111111111111 invoke [1]"
                , "Program data: AA=="
                , "Program 11111111111111111111111111111111 failed: custom program error: 0x1"
                ] } ] } ]
  sorted := List.pairwise_singleton _ _

/-- The historical source emits the event of the failed transaction, the live one does not. -/
theorem failedTrade_disagrees :
    ¬ Agree dataOpts failedTrade (fun _ => 0) { slotFrom := 1, slotTo := 1 } := by
  rintro ⟨turns, signals, hstart, heq⟩
  rw [stream_ids, batches_ok _ _ _ (by decide) hstart, walk_ids] at heq
  revert heq
  decide +kernel

end Ap3xSolana.Signals.SourcesAgree
