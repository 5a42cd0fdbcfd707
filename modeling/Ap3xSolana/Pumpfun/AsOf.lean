import Ap3xSolana.Lib.Sorting
import Ap3xSolana.Pumpfun.SqlitePumpfunSignals

/-!
# As-of queries do not see the future

A query as of a time answers as if only the events observed by then had been ingested.
Later events shift the row ids of the others, but not their order, and that is all the
statements compare.
-/

namespace Ap3xSolana.Pumpfun.Signals

open Lib.Sorting

variable {δ : Type}

/-! ## Tables -/

/-- What a row holds of an event. -/
def Event.columns : Event δ → Columns δ
  | .buy args =>
      { signature := some args.signature
        slot := some args.slot
        observedAt := args.observedAt
        mint := some args.mint
        wallet := some args.wallet
        eventType := .buy
        payload := .buy args.signature args.slot args.mint args.wallet args.buyerTier
          args.amountSol }
  | .milestone args =>
      { signature := args.signature
        slot := args.slot
        observedAt := args.observedAt
        mint := some args.mint
        wallet := none
        eventType := .milestone
        payload := .milestone args.kind args.data }
  | .walletTier args =>
      { signature := none
        slot := none
        observedAt := args.observedAt
        mint := none
        wallet := some args.wallet
        eventType := .walletTier
        payload := .walletTier args.tier }
  | .safetyVerdict args =>
      { signature := none
        slot := none
        observedAt := args.observedAt
        mint := some args.mint
        wallet := none
        eventType := .safetyVerdict
        payload := .safetyVerdict args.verdict args.reasons args.signals }

theorem ingest_eq (t : Table δ) (e : Event δ) : ingest t e = t.insertEvent e.columns := by
  cases e <;> rfl

theorem observedAt_columns (e : Event δ) : e.columns.observedAt = e.observedAt := by
  cases e <;> rfl

/-- Rows stand in the order of their ids. -/
structure Ordered (t : Table δ) : Prop where
  increasing : t.rows.Pairwise fun a b => a.id < b.id
  below : ∀ r ∈ t.rows, r.id < t.nextId

theorem Ordered.ingest {t : Table δ} (h : Ordered t) (e : Event δ) : Ordered (ingest t e) := by
  rw [ingest_eq]
  constructor
  · show (t.rows ++ [_]).Pairwise _
    rw [List.pairwise_append]
    refine ⟨h.increasing, List.pairwise_singleton _ _, fun a ha b hb => ?_⟩
    rw [List.mem_singleton.1 hb]
    exact h.below a ha
  · intro r hr
    show r.id < t.nextId + 1
    rcases List.mem_append.1 hr with hr | hr
    · exact Nat.lt_succ_of_lt (h.below r hr)
    · rw [List.mem_singleton.1 hr]
      exact Nat.lt_succ_self _

theorem ingest_columns (t : Table δ) (e : Event δ) :
    (ingest t e).rows.map Row.columns = t.rows.map Row.columns ++ [e.columns] := by
  rw [ingest_eq]
  exact List.map_append

theorem foldl_ingest {history : List (Event δ)} :
    ∀ {t : Table δ}, Ordered t → Ordered (history.foldl ingest t) ∧
      (history.foldl ingest t).rows.map Row.columns =
        t.rows.map Row.columns ++ history.map Event.columns := by
  induction history with
  | nil => exact fun h => ⟨h, (List.append_nil _).symm⟩
  | cons e history ih =>
      intro t h
      have hrest := ih (h.ingest e)
      refine ⟨hrest.1, ?_⟩
      rw [List.foldl_cons, hrest.2, ingest_columns, List.append_assoc]
      rfl

theorem ordered_empty : Ordered ({} : Table δ) where
  increasing := .nil
  below _ hr := absurd hr List.not_mem_nil

theorem ordered_ingestAll (history : List (Event δ)) : Ordered (ingestAll history) :=
  (foldl_ingest ordered_empty).1

theorem columns_ingestAll (history : List (Event δ)) :
    (ingestAll history).rows.map Row.columns = history.map Event.columns :=
  (foldl_ingest ordered_empty).2

/-! ## Rows that a statement selects -/

/-- The part of a history that was observed by `asOf`. -/
def visible (asOf : Int) (history : List (Event δ)) : List (Event δ) :=
  history.filter fun e => e.observedAt ≤ asOf

/-- Two lists of rows in the order of their ids, with the same columns. -/
structure SameColumns (xs ys : List (Row δ)) : Prop where
  columns : xs.map Row.columns = ys.map Row.columns
  increasing : xs.Pairwise fun a b => a.id < b.id
  increasing' : ys.Pairwise fun a b => a.id < b.id

theorem map_filter_columns (p : Columns δ → Bool) (rows : List (Row δ)) :
    (rows.filter fun r => p r.columns).map Row.columns = (rows.map Row.columns).filter p := by
  rw [List.filter_map]
  rfl

/-- A statement that selects nothing observed after `asOf` selects the same columns, in the
same order of ids, if later events are left out. -/
theorem sameColumns_filter {asOf : Int} {h₁ h₂ : List (Event δ)}
    (hvisible : visible asOf h₁ = visible asOf h₂) {p : Columns δ → Bool}
    (hp : ∀ c, p c = true → c.observedAt ≤ asOf) :
    SameColumns ((ingestAll h₁).rows.filter fun r => p r.columns)
      ((ingestAll h₂).rows.filter fun r => p r.columns) := by
  have hselect : ∀ h : List (Event δ), (h.map Event.columns).filter p =
      ((visible asOf h).map Event.columns).filter p := by
    intro h
    induction h with
    | nil => rfl
    | cons e h ih =>
        by_cases he : e.observedAt ≤ asOf
        · have hcons : visible asOf (e :: h) = e :: visible asOf h :=
            List.filter_cons_of_pos (decide_eq_true he)
          rw [hcons, List.map_cons, List.map_cons, List.filter_cons, List.filter_cons, ih]
        · have hcons : visible asOf (e :: h) = visible asOf h :=
            List.filter_cons_of_neg (by simpa using he)
          have hnot : p e.columns = false := by
            rw [Bool.eq_false_iff]
            exact fun hpe => he (observedAt_columns e ▸ hp _ hpe)
          rw [hcons, List.map_cons, List.filter_cons_of_neg (by simp [hnot]), ih]
  constructor
  · rw [map_filter_columns, map_filter_columns, columns_ingestAll, columns_ingestAll, hselect h₁,
      hselect h₂, hvisible]
  · exact (ordered_ingestAll h₁).increasing.filter _
  · exact (ordered_ingestAll h₂).increasing.filter _

/-- Both orders compare observation times first and ids where these agree, so that rows
with the same columns are sorted to the same columns. -/
theorem SameColumns.mergeSort_eq {xs ys : List (Row δ)} (h : SameColumns xs ys)
    {le : Row δ → Row δ → Bool} (hrefl : ∀ r, le r r = true)
    (hle : ∀ a b a' b' : Row δ, a.columns = a'.columns → b.columns = b'.columns →
      a.id < b.id → a'.id < b'.id → le a b = le a' b' ∧ le b a = le b' a') :
    (xs.mergeSort le).map Row.columns = (ys.mergeSort le).map Row.columns := by
  apply map_mergeSort_eq h.columns hrefl
  have hlen : xs.length = ys.length := by
    have := congrArg List.length h.columns
    rwa [List.length_map, List.length_map] at this
  have hids := pairwise_zip hlen h.increasing h.increasing'
  apply hids.imp_of_mem
  intro p q hp hq hpq
  exact hle p.1 q.1 p.2 q.2 (eq_of_mem_zip h.columns hp) (eq_of_mem_zip h.columns hq) hpq.1 hpq.2

theorem SameColumns.latestFirst_eq {xs ys : List (Row δ)} (h : SameColumns xs ys) :
    (xs.mergeSort latestFirst).map Row.columns = (ys.mergeSort latestFirst).map Row.columns := by
  apply h.mergeSort_eq
  · intro r
    simp [latestFirst]
  · intro a b a' b' ha hb hid hid'
    have h₁ : ¬b.id ≤ a.id := by omega
    have h₂ : ¬b'.id ≤ a'.id := by omega
    have h₃ : a.id ≤ b.id := by omega
    have h₄ : a'.id ≤ b'.id := by omega
    simp [latestFirst, ha, hb, h₁, h₂, h₃, h₄]

theorem SameColumns.earliestFirst_eq {xs ys : List (Row δ)} (h : SameColumns xs ys) :
    (xs.mergeSort earliestFirst).map Row.columns =
      (ys.mergeSort earliestFirst).map Row.columns := by
  apply h.mergeSort_eq
  · intro r
    simp [earliestFirst]
  · intro a b a' b' ha hb hid hid'
    have h₁ : ¬b.id ≤ a.id := by omega
    have h₂ : ¬b'.id ≤ a'.id := by omega
    have h₃ : a.id ≤ b.id := by omega
    have h₄ : a'.id ≤ b'.id := by omega
    simp [earliestFirst, ha, hb, h₁, h₂, h₃, h₄]

theorem SameColumns.head?_latestFirst_eq {xs ys : List (Row δ)} (h : SameColumns xs ys) :
    (xs.mergeSort latestFirst).head?.map Row.columns =
      (ys.mergeSort latestFirst).head?.map Row.columns := by
  rw [← List.head?_map, ← List.head?_map, h.latestFirst_eq]

/-! ## What the loop of `convergenceState` collects -/

theorem earlier_comm (at? : Option Int) (a b : Int) :
    earlier (earlier at? a) b = earlier (earlier at? b) a := by
  cases at? <;> simp only [earlier] <;> grind

theorem later_comm (at? : Option Int) (a b : Int) :
    later (later at? a) b = later (later at? b) a := by
  cases at? <;> simp only [later] <;> grind

/-- Two buyers go into the sets of their tiers in either order. -/
theorem update_insert_comm (d : Tier → Finset String) (s t : Tier) (a b : String) :
    Function.update (Function.update d s (insert a (d s))) t
        (insert b (Function.update d s (insert a (d s)) t)) =
      Function.update (Function.update d t (insert b (d t))) s
        (insert a (Function.update d t (insert b (d t)) s)) := by
  by_cases hst : s = t
  · subst hst
    rw [Function.update_self, Function.update_self, Function.update_idem, Function.update_idem,
      Finset.insert_comm]
  · rw [Function.update_of_ne (Ne.symm hst), Function.update_of_ne hst,
      Function.update_comm hst]

theorem Collected.add_comm (c : Collected) (a b : Columns δ) :
    (c.add a).add b = (c.add b).add a := by
  have htiers : ((c.add a).add b).distinctByTier = ((c.add b).add a).distinctByTier := by
    simp only [Collected.add]
    cases a.payload.buyerTier? with
    | none => rfl
    | some s =>
        cases b.payload.buyerTier? with
        | none => rfl
        | some t => exact update_insert_comm _ _ _ _ _
  have hbuyers : ((c.add a).add b).allBuyers = ((c.add b).add a).allBuyers :=
    Finset.insert_comm _ _ _
  have hfirst : ((c.add a).add b).firstAt = ((c.add b).add a).firstAt := earlier_comm _ _ _
  have hlast : ((c.add a).add b).lastAt = ((c.add b).add a).lastAt := later_comm _ _ _
  show Collected.mk _ _ _ _ = Collected.mk _ _ _ _
  rw [Collected.mk.injEq]
  exact ⟨htiers, hbuyers, hfirst, hlast⟩

/-- Whatever the database does with ties, the loop collects the same. -/
theorem foldl_add_arrange (order : RowOrder δ) (rows : List (Row δ)) (c : Collected) :
    (order.arrange rows).foldl (fun c row => c.add row.columns) c =
      (rows.map Row.columns).foldl Collected.add c := by
  have : RightCommutative fun (c : Collected) (row : Row δ) => c.add row.columns :=
    ⟨fun c a b => c.add_comm a.columns b.columns⟩
  rw [(order.perm rows).foldl_eq c, List.foldl_map]

/-! ## The four queries -/

section

variable {asOf : Int} {h₁ h₂ : List (Event δ)} (hvisible : visible asOf h₁ = visible asOf h₂)
include hvisible

theorem walletTier_eq (wallet : String) :
    walletTier (ingestAll h₁) wallet asOf = walletTier (ingestAll h₂) wallet asOf := by
  have hsame := sameColumns_filter hvisible
    (p := fun c => c.wallet = some wallet ∧ c.eventType = .walletTier ∧ c.observedAt ≤ asOf)
    fun c hc => (of_decide_eq_true hc).2.2
  have hquery : ∀ t : Table δ, walletTier t wallet asOf =
      ((t.walletTierLatest wallet asOf).map Row.columns).bind fun c => c.payload.tier? := by
    intro t
    unfold walletTier
    cases t.walletTierLatest wallet asOf <;> rfl
  rw [hquery, hquery]
  exact congrArg (Option.bind · _) hsame.head?_latestFirst_eq

theorem convergenceState_eq (order₁ order₂ : RowOrder δ) (mint : String) (windowMs : Rat) :
    convergenceState (ingestAll h₁) order₁ mint asOf windowMs =
      convergenceState (ingestAll h₂) order₂ mint asOf windowMs := by
  have hsame := sameColumns_filter hvisible
    (p := fun c => c.mint = some mint ∧ c.eventType = .buy ∧
      (asOf - windowMs : Rat) ≤ c.observedAt ∧ (c.observedAt : Rat) ≤ asOf)
    fun c hc => by exact_mod_cast (of_decide_eq_true hc).2.2.2
  have hcollected : ∀ (order : RowOrder δ) (t : Table δ),
      (t.convergenceWindow order mint (asOf - windowMs) asOf).foldl
          (fun c row => c.add row.columns) Collected.empty =
        ((t.rows.filter fun r => r.columns.mint = some mint ∧ r.columns.eventType = .buy ∧
          (asOf - windowMs : Rat) ≤ r.columns.observedAt ∧
          (r.columns.observedAt : Rat) ≤ asOf).map Row.columns).foldl
            Collected.add Collected.empty := by
    intro order t
    exact foldl_add_arrange order _ _
  simp only [convergenceState, hcollected, hsame.columns]

theorem milestoneEvents_eq (mint : String) (since : Int) :
    milestoneEvents (ingestAll h₁) mint since asOf =
      milestoneEvents (ingestAll h₂) mint since asOf := by
  have hsame := sameColumns_filter hvisible
    (p := fun c => c.mint = some mint ∧ c.eventType = .milestone ∧ since ≤ c.observedAt ∧
      c.observedAt ≤ asOf)
    fun c hc => (of_decide_eq_true hc).2.2.2
  have hquery : ∀ t : Table δ, milestoneEvents t mint since asOf =
      ((t.milestonesRange mint since asOf).map Row.columns).filterMap (milestoneOf mint) := by
    intro t
    rw [List.filterMap_map]
    rfl
  rw [hquery, hquery]
  exact congrArg (List.filterMap _) hsame.earliestFirst_eq

theorem safetyVerdict_eq (mint : String) :
    safetyVerdict (ingestAll h₁) mint asOf = safetyVerdict (ingestAll h₂) mint asOf := by
  have hsame := sameColumns_filter hvisible
    (p := fun c => c.mint = some mint ∧ c.eventType = .safetyVerdict ∧ c.observedAt ≤ asOf)
    fun c hc => (of_decide_eq_true hc).2.2
  have hlatest : ((ingestAll h₁).safetyLatest mint asOf).map Row.columns =
      ((ingestAll h₂).safetyLatest mint asOf).map Row.columns := hsame.head?_latestFirst_eq
  unfold safetyVerdict
  generalize (ingestAll h₁).safetyLatest mint asOf = row₁ at hlatest ⊢
  generalize (ingestAll h₂).safetyLatest mint asOf = row₂ at hlatest ⊢
  cases row₁ with
  | none =>
      cases row₂ with
      | none => rfl
      | some row₂ => cases hlatest
  | some row₁ =>
      cases row₂ with
      | none => cases hlatest
      | some row₂ =>
          have hcolumns : row₁.columns = row₂.columns := Option.some.inj hlatest
          simp only [hcolumns]

end

theorem visible_visible {asOf T : Int} (hasOf : asOf ≤ T) (history : List (Event δ)) :
    visible asOf (visible T history) = visible asOf history := by
  unfold visible
  rw [List.filter_filter]
  apply List.filter_congr
  intro e _
  by_cases he : e.observedAt ≤ asOf
  · simp [he, le_trans he hasOf]
  · simp [he]

/-- Two histories that agree on what was observed by `T` answer every query as of a time up
to `T` alike, also where the database breaks ties in its own way. -/
theorem queries_see_no_future {T : Int} {h₁ h₂ : List (Event δ)}
    (hagree : visible T h₁ = visible T h₂) {asOf : Int} (hasOf : asOf ≤ T)
    (order₁ order₂ : RowOrder δ) :
    (∀ wallet, walletTier (ingestAll h₁) wallet asOf = walletTier (ingestAll h₂) wallet asOf) ∧
    (∀ mint windowMs, convergenceState (ingestAll h₁) order₁ mint asOf windowMs =
      convergenceState (ingestAll h₂) order₂ mint asOf windowMs) ∧
    (∀ mint since, milestoneEvents (ingestAll h₁) mint since asOf =
      milestoneEvents (ingestAll h₂) mint since asOf) ∧
    ∀ mint, safetyVerdict (ingestAll h₁) mint asOf = safetyVerdict (ingestAll h₂) mint asOf := by
  have hvisible : visible asOf h₁ = visible asOf h₂ := by
    rw [← visible_visible hasOf h₁, ← visible_visible hasOf h₂, hagree]
  exact ⟨walletTier_eq hvisible, convergenceState_eq hvisible order₁ order₂,
    milestoneEvents_eq hvisible, safetyVerdict_eq hvisible⟩

/-- A database that breaks ties by row id. -/
def RowOrder.byId : RowOrder δ where
  arrange rows := rows.mergeSort earliestFirst
  perm rows := List.mergeSort_perm rows earliestFirst
  sorted rows := by
    have hsorted : (rows.mergeSort earliestFirst).Pairwise fun a b => earliestFirst a b = true := by
      apply List.pairwise_mergeSort
      · intro a b c hab hbc
        simp only [earliestFirst, Bool.or_eq_true, Bool.and_eq_true, decide_eq_true_eq] at *
        omega
      · intro a b
        simp only [earliestFirst, Bool.or_eq_true, Bool.and_eq_true, decide_eq_true_eq]
        omega
    apply hsorted.imp
    intro a b hab
    simp only [earliestFirst, Bool.or_eq_true, Bool.and_eq_true, decide_eq_true_eq] at hab
    omega

/-- A tier and a buy seen at times 5 and 7. -/
def seen : List (Event Unit) :=
  [.walletTier { wallet := "w", tier := .A, observedAt := 5 },
    .buy { signature := "s", slot := 1, observedAt := 7, mint := "m", wallet := "w",
           buyerTier := some .A, amountSol := none }]

/-- The same, with a downgrade and a rug seen at times 11 and 12, ingested in between. -/
def seenLater : List (Event Unit) :=
  [.walletTier { wallet := "w", tier := .D, observedAt := 11 },
    .walletTier { wallet := "w", tier := .A, observedAt := 5 },
    .milestone { mint := "m", kind := .rugged, observedAt := 12, signature := none, slot := none,
                 data := none },
    .buy { signature := "s", slot := 1, observedAt := 7, mint := "m", wallet := "w",
           buyerTier := some .A, amountSol := none }]

theorem queries_see_no_future_of_downgrade :
    walletTier (ingestAll seenLater) "w" 9 = some .A ∧
      milestoneEvents (ingestAll seenLater) "m" 0 9 = [] ∧
      (convergenceState (ingestAll seenLater) .byId "m" 9 4).totalBuyers = 1 ∧
      safetyVerdict (ingestAll seenLater) "m" 9 = unknownVerdict "m" 9 := by
  have hagree : visible 10 seenLater = visible 10 seen := by decide
  have hasOf : (9 : Int) ≤ 10 := by decide
  have h := queries_see_no_future hagree hasOf .byId .byId
  refine ⟨(h.1 "w").trans ?_, (h.2.2.1 "m" 0).trans ?_, ?_, (h.2.2.2 "m").trans ?_⟩
  · decide +kernel
  · decide +kernel
  · rw [h.2.1 "m" 4]
    decide +kernel
  · decide +kernel

end Ap3xSolana.Pumpfun.Signals
