import Mathlib.Data.List.Nodup
import Mathlib.Data.List.Pairwise
import Ap3xSolana.Connectivity.HistoricalBackfill

/-!
# Each entry of the history once

Pages follow one another by the signature of the last entry, so they cut the history into
consecutive pieces; the walk over a range skips what is newer and stops at what is older,
which loses nothing as slots do not increase.  A page has to have room for an entry: with the
limit zero the first page is empty and the walk is over.
-/

namespace Ap3xSolana.Connectivity

variable {τ δ ε : Type}

/-- The signatures of an address, newest first. -/
structure History where
  entries : List SignatureInfo
  distinct : (entries.map (·.signature)).Nodup
  newestFirst : entries.Pairwise fun newer older => older.slot ≤ newer.slot

/-- The entries strictly older than `before`. -/
def History.olderThan (h : History) : Option String → List SignatureInfo
  | none => h.entries
  | some signature => (h.entries.dropWhile (·.signature ≠ signature)).tail

/-- A page is the next `limit` entries, for limits up to the cap of the node. -/
def Serves (rpc : RpcMethods τ ε) (cap : Nat) (address : String) (h : History) : Prop :=
  ∀ limit ≤ cap, ∀ before, rpc.getSignaturesForAddress address
    { limit := some limit, before := before } = .ok ((h.olderThan before).take limit)

/-- The transactions that the node has. -/
def Available (rpc : RpcMethods τ ε) (available : String → Option τ) : Prop :=
  ∀ signature, rpc.getTransaction signature transactionDefaults = .ok (available signature)

def SlotRange.has (range : SlotRange) (s : SignatureInfo) : Bool :=
  range.fromSlot ≤ s.slot && s.slot ≤ range.toSlot

/-- The available, successful transactions of a range, oldest first. -/
def History.transactionsIn (h : History) (available : String → Option τ) (range : SlotRange) :
    List (SignatureInfo × τ) :=
  (h.entries.reverse.filter fun s => range.has s && !s.failed).filterMap fun s =>
    (available s.signature).map fun tx => (s, tx)

/-! ## Pages -/

theorem dropWhile_signature {entries newer older : List SignatureInfo} {s : SignatureInfo}
    (hdistinct : (entries.map (·.signature)).Nodup) (h : entries = newer ++ s :: older) :
    (entries.dropWhile (·.signature ≠ s.signature)).tail = older := by
  subst h
  rw [List.map_append, List.map_cons] at hdistinct
  have hnewer : ∀ x ∈ newer, decide (x.signature ≠ s.signature) = true := by
    intro x hx
    have hdisjoint := (List.nodup_append.1 hdistinct).2.2 x.signature (List.mem_map_of_mem hx)
      s.signature List.mem_cons_self
    simpa using hdisjoint
  rw [List.dropWhile_append_of_pos hnewer, List.dropWhile_cons_of_neg (by simp), List.tail_cons]

theorem History.olderThan_last {h : History} {newer page older : List SignatureInfo}
    (hentries : h.entries = newer ++ (page ++ older)) (hpage : page ≠ []) :
    h.olderThan (page.getLast?.map (·.signature)) = older := by
  obtain ⟨page, s, rfl⟩ : ∃ first s, page = first ++ [s] :=
    ⟨page.dropLast, page.getLast hpage, (List.dropLast_append_getLast hpage).symm⟩
  rw [List.getLast?_append, List.getLast?_singleton]
  show (h.entries.dropWhile (·.signature ≠ s.signature)).tail = older
  have hcut : h.entries = (newer ++ page) ++ s :: older := by
    rw [hentries]
    simp
  exact dropWhile_signature h.distinct hcut

theorem iteratePages_rest {rpc : RpcMethods τ ε} {cap limit : Nat} {address : String}
    {h : History} (hserves : Serves rpc cap address h) (hpos : 0 < limit) (hcap : limit ≤ cap)
    (given : Option Nat) :
    ∀ (fuel page : Nat) (before : Option String) (newer rest : List SignatureInfo),
    h.entries = newer ++ rest → h.olderThan before = rest → rest.length < fuel →
    iteratePages rpc address { limit := given } limit fuel page before =
      { yielded := rest, ending := .returned } := by
  intro fuel
  induction fuel with
  | zero =>
      intro _ _ _ rest _ _ hfuel
      omega
  | succ fuel ih =>
      intro page before newer rest hentries hrest hfuel
      have hall : (none : Option Nat).all (page < ·) = true := rfl
      rw [iteratePages, if_pos hall]
      have hserved : rpc.getSignaturesForAddress address
          { limit := some limit, before := before } = .ok (rest.take limit) := by
        rw [hserves limit hcap before, hrest]
      dsimp only
      rw [hserved]
      dsimp only
      rw [List.length_take]
      by_cases hempty : rest = []
      · subst hempty
        simp
      · have hlength := List.length_pos_iff.2 hempty
        rw [if_neg (by omega)]
        by_cases hshort : rest.length < limit
        · rw [if_pos (by omega), List.take_of_length_le (by omega)]
        · rw [if_neg (by omega)]
          have hcut : h.entries = newer ++ (rest.take limit ++ rest.drop limit) := by
            rw [List.take_append_drop, hentries]
          have hpage : rest.take limit ≠ [] := by
            rw [← List.length_pos_iff, List.length_take]
            omega
          rw [ih (page + 1) _ (newer ++ rest.take limit) (rest.drop limit)
            (by rw [hcut, List.append_assoc]) (h.olderThan_last hcut hpage)
            (by rw [List.length_drop]; omega)]
          show Generated.mk (rest.take limit ++ rest.drop limit) _ = _
          rw [List.take_append_drop]

theorem iterateSignatures_all {rpc : RpcMethods τ ε} {cap : Nat} {address : String} {h : History}
    (hserves : Serves rpc cap address h) (limit : Option Nat)
    (hpos : 0 < limit.getD DEFAULT_SIG_LIMIT) (hcap : limit.getD DEFAULT_SIG_LIMIT ≤ cap)
    {fuel : Nat} (hfuel : h.entries.length < fuel) :
    iterateSignaturesForAddress rpc address { limit := limit } fuel =
      { yielded := h.entries, ending := .returned } :=
  iteratePages_rest hserves hpos hcap limit fuel 0 none [] h.entries rfl rfl hfuel

/-! ## Ranges -/

theorem filter_has_of_older {range : SlotRange} {sigs : List SignatureInfo}
    (h : ∀ s ∈ sigs, (s.slot : Int) < range.fromSlot) : sigs.filter range.has = [] := by
  apply List.filter_eq_nil_iff.2
  intro s hs
  have hold := h s hs
  simp only [SlotRange.has, Bool.and_eq_true, decide_eq_true_eq]
  omega

theorem collectRange_fst {range : SlotRange} {sigs : List SignatureInfo}
    (h : sigs.Pairwise fun newer older => older.slot ≤ newer.slot) :
    (collectRange range sigs).1 = sigs.filter range.has := by
  induction sigs with
  | nil => rfl
  | cons s sigs ih =>
      have hrest := ih (List.pairwise_cons.1 h).2
      have holder := (List.pairwise_cons.1 h).1
      unfold collectRange
      by_cases hnewer : range.toSlot < s.slot
      · rw [if_pos hnewer, hrest, List.filter_cons_of_neg]
        simp only [SlotRange.has, Bool.and_eq_true, decide_eq_true_eq]
        omega
      · rw [if_neg hnewer]
        by_cases hold : s.slot < range.fromSlot
        · rw [if_pos hold]
          apply (filter_has_of_older _).symm
          intro x hx
          rcases List.mem_cons.1 hx with rfl | hx
          · exact hold
          · have := holder x hx
            omega
        · rw [if_neg hold, List.filter_cons_of_pos]
          · show s :: (collectRange range sigs).1 = _
            rw [hrest]
          · simp only [SlotRange.has, Bool.and_eq_true, decide_eq_true_eq]
            omega

theorem decodeAll_eq {rpc : RpcMethods τ ε} {available : String → Option τ}
    (havailable : Available rpc available) (programId : String)
    (decoder : TransactionDecoder τ δ) (sigs : List SignatureInfo) :
    decodeAll rpc programId decoder sigs =
      { yielded := ((sigs.filter fun s => !s.failed).filterMap fun s =>
          (available s.signature).map fun tx => (s, tx)).flatMap fun p =>
            decodeTransaction programId decoder p.1 p.2
        ending := .returned } := by
  induction sigs with
  | nil => rfl
  | cons s sigs ih =>
      unfold decodeAll
      by_cases hfailed : s.failed = true
      · rw [if_pos hfailed, ih, List.filter_cons_of_neg (by simp [hfailed])]
      · rw [if_neg hfailed, havailable s.signature, List.filter_cons_of_pos (by simp [hfailed])]
        cases htx : available s.signature with
        | none =>
            show decodeAll rpc programId decoder sigs = _
            rw [ih, List.filterMap_cons_none (by simp [htx])]
        | some tx =>
            show (decodeAll rpc programId decoder sigs).after _ = _
            rw [ih, List.filterMap_cons_some (b := (s, tx)) (by simp [htx]), List.flatMap_cons]
            rfl

theorem fetchEvents_eq {rpc : RpcMethods τ ε} {cap : Nat} {programId : String} {h : History}
    {available : String → Option τ} (hserves : Serves rpc cap programId h)
    (havailable : Available rpc available) (hcap : DEFAULT_SIG_LIMIT ≤ cap)
    (range : SlotRange) (decoder : TransactionDecoder τ δ) {fuel : Nat}
    (hfuel : h.entries.length < fuel) :
    fetchEventsForProgram rpc programId range decoder fuel =
      { yielded := (h.transactionsIn available range).flatMap fun p =>
          decodeTransaction programId decoder p.1 p.2
        ending := .returned } := by
  unfold fetchEventsForProgram
  by_cases hrange : range.toSlot < range.fromSlot
  · have hnone : (h.entries.reverse.filter fun s => range.has s && !s.failed) = [] := by
      apply List.filter_eq_nil_iff.2
      intro s _
      simp only [SlotRange.has, Bool.and_eq_true, decide_eq_true_eq]
      omega
    rw [if_pos hrange, History.transactionsIn, hnone]
    rfl
  · rw [if_neg hrange, iterateSignatures_all hserves none (by decide) hcap hfuel]
    have hwalk : decodeAll rpc programId decoder (collectRange range h.entries).1.reverse =
        { yielded := (h.transactionsIn available range).flatMap fun p =>
            decodeTransaction programId decoder p.1 p.2
          ending := .returned } := by
      rw [decodeAll_eq havailable, collectRange_fst h.newestFirst, ← List.filter_reverse,
        List.filter_filter]
      simp only [History.transactionsIn, Bool.and_comm]
    dsimp only
    cases hcollect : collectRange range h.entries with
    | mk inRange left =>
        rw [hcollect] at hwalk
        cases left with
        | true => exact hwalk
        | false => exact hwalk

/-! ## The whole -/

theorem filterMap_available_sublist (available : String → Option τ) (sigs : List SignatureInfo) :
    List.Sublist ((sigs.filterMap fun s =>
      (available s.signature).map fun tx => (s, tx)).map (·.1)) sigs := by
  induction sigs with
  | nil => exact List.Sublist.refl _
  | cons s sigs ih =>
      cases htx : available s.signature with
      | none =>
          rw [List.filterMap_cons_none (by simp [htx])]
          exact ih.cons s
      | some tx =>
          rw [List.filterMap_cons_some (b := (s, tx)) (by simp [htx]), List.map_cons]
          exact ih.cons_cons s

/-- No transaction comes twice. -/
theorem History.transactionsIn_distinct (h : History) (available : String → Option τ)
    (range : SlotRange) :
    ((h.transactionsIn available range).map (·.1.signature)).Nodup := by
  have hsub := (filterMap_available_sublist available
    (h.entries.reverse.filter fun s => range.has s && !s.failed)).trans List.filter_sublist
  have hdistinct : (h.entries.reverse.map (·.signature)).Nodup := by
    rw [List.map_reverse]
    exact List.nodup_reverse.2 h.distinct
  have hmap := hsub.map (·.signature)
  rw [List.map_map] at hmap
  exact hmap.nodup hdistinct

/-- A decoder that throws gives one unknown result. -/
theorem decodeTransaction_throws {decoder : TransactionDecoder τ δ} {tx : τ} {reason : String}
    (h : decoder tx = .error reason) (programId : String) (s : SignatureInfo) :
    decodeTransaction programId decoder s tx =
      [.unknown s.slot s.signature programId reason none] := by
  rw [decodeTransaction, h]

theorem backfill_pages_once {rpc : RpcMethods τ ε} {cap : Nat} {address : String} {h : History}
    (hserves : Serves rpc cap address h) :
    (∀ limit, 0 < limit → limit ≤ cap → ∀ fuel, h.entries.length < fuel →
      iterateSignaturesForAddress rpc address { limit := some limit } fuel =
        { yielded := h.entries, ending := .returned }) ∧
    ∀ available : String → Option τ, Available rpc available → DEFAULT_SIG_LIMIT ≤ cap →
      ∀ (range : SlotRange) (decoder : TransactionDecoder τ δ) (fuel : Nat),
      h.entries.length < fuel →
      fetchEventsForProgram rpc address range decoder fuel =
          { yielded := (h.transactionsIn available range).flatMap fun p =>
              match decoder p.2 with
              | .ok produced => produced.results
              | .error reason => [.unknown p.1.slot p.1.signature address reason none]
            ending := .returned } ∧
        ((h.transactionsIn available range).map (·.1.signature)).Nodup :=
  ⟨fun limit hpos hcap _ hfuel => iterateSignatures_all hserves (some limit) hpos hcap hfuel,
    fun available havailable hcap range decoder _ hfuel =>
      ⟨fetchEvents_eq hserves havailable hcap range decoder hfuel,
        h.transactionsIn_distinct available range⟩⟩

/-- A node that answers from the history. -/
def nodeOf (h : String → History) (available : String → Option τ) : RpcMethods τ Unit where
  getSignaturesForAddress address opts :=
    .ok (((h address).olderThan opts.before).take (opts.limit.getD DEFAULT_SIG_LIMIT))
  getTransaction signature _ := .ok (available signature)

theorem serves_nodeOf (h : String → History) (available : String → Option τ) (cap : Nat)
    (address : String) : Serves (nodeOf h available) cap address (h address) :=
  fun _ _ _ => rfl

def threeEntries : History where
  entries := [{ signature := "c", slot := 7 }, { signature := "b", slot := 7 },
    { signature := "a", slot := 5 }]
  distinct := by decide
  newestFirst := by decide

theorem backfill_pages_once_three :
    iterateSignaturesForAddress (nodeOf (τ := Unit) (fun _ => threeEntries) fun _ => some ())
        "p" { limit := some 2 } 4 =
      { yielded := threeEntries.entries, ending := .returned } :=
  (backfill_pages_once (δ := Unit) (serves_nodeOf (fun _ => threeEntries)
    (fun _ => some ()) 1000 "p")).1 2 (by decide) (by decide) 4 (by decide)

/-- A page without room yields nothing. -/
theorem no_room_on_a_page :
    ¬ ∀ (rpc : RpcMethods Unit Unit) (cap : Nat) (address : String) (h : History),
      Serves rpc cap address h → ∀ limit ≤ cap, ∃ enough, ∀ fuel, enough ≤ fuel →
      iterateSignaturesForAddress rpc address { limit := some limit } fuel =
        { yielded := h.entries, ending := .returned } := by
  intro hall
  obtain ⟨enough, hrun⟩ := hall (nodeOf (fun _ => threeEntries) fun _ => some ()) 1000 "p"
    threeEntries (serves_nodeOf _ _ 1000 "p") 0 (by decide)
  have hyielded := congrArg (·.yielded.length) (hrun (enough + 1) (Nat.le_succ enough))
  cases hyielded

end Ap3xSolana.Connectivity
