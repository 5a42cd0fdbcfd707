import Mathlib.Data.List.Nodup
import Mathlib.Data.List.Pairwise
import Ap3xSolana.Connectivity.HistoricalBackfill

/-!
# `HeliusCatchup`

`fetchRange` pages through the transactions of an address, newest first, skips what is above the
range, stops below it, and counts events against the limit.  The API and `normalizeHeliusTx` are
parameters.  Wherever the pages are cut, that is the range of the history, up to the limit
(`fetchRange_once`).
-/

namespace Ap3xSolana.Webhooks.HeliusCatchup

open Ap3xSolana.Connectivity

variable {ρ α ε : Type}

/-- The fields that the walk reads, and the payload `ρ` that only `normalizeHeliusTx` reads. -/
structure HeliusEnhancedTx (ρ : Type) where
  signature : String
  slot : Option Int := none
  payload : ρ
  deriving DecidableEq, Repr

/-- `0` where there is no slot. -/
def HeliusEnhancedTx.slotOf (tx : HeliusEnhancedTx ρ) : Int := tx.slot.getD 0

structure HeliusCatchupOptions where
  pageSize : Option Nat := none
  /-- None is `Infinity`. -/
  maxPages : Option Nat := none
  deriving DecidableEq, Repr

/-- The API caps it at 100. -/
def HeliusCatchupOptions.size (opts : HeliusCatchupOptions) : Nat :=
  min (opts.pageSize.getD 100) 100

structure FetchRangeArgs where
  address : String
  fromSlot : Option Int := none
  toSlot : Option Int := none
  /-- None is `Infinity`. -/
  limit : Option Int := none
  deriving DecidableEq, Repr

/-- The transactions endpoint: the address, `before`, and the page size.  An error is a status
that is not ok, or a body that is no array. -/
abbrev FetchPage (ρ ε : Type) :=
  String → Option String → Nat → Except ε (List (HeliusEnhancedTx ρ))

/-- `yielded >= limit`. -/
def FetchRangeArgs.reached (args : FetchRangeArgs) (yielded : Nat) : Bool :=
  args.limit.any fun limit => limit ≤ (yielded : Int)

/-- What was yielded, how many events that makes, and whether the generator has returned. -/
structure Walked (α : Type) where
  events : List α
  yielded : Nat
  stopped : Bool
  deriving DecidableEq, Repr

/-- The events of one transaction. -/
def yieldEvents (args : FetchRangeArgs) : Nat → List α → Walked α
  | yielded, [] => { events := [], yielded := yielded, stopped := false }
  | yielded, event :: events =>
      if args.reached (yielded + 1) then
        { events := [event], yielded := yielded + 1, stopped := true }
      else
        let w := yieldEvents args (yielded + 1) events
        { w with events := event :: w.events }

/-- One page. -/
def walkPage (args : FetchRangeArgs) (normalizeHeliusTx : HeliusEnhancedTx ρ → List α) :
    Nat → List (HeliusEnhancedTx ρ) → Walked α
  | yielded, [] => { events := [], yielded := yielded, stopped := false }
  | yielded, tx :: txs =>
      if args.toSlot.any (· < tx.slotOf) then walkPage args normalizeHeliusTx yielded txs
      else if args.fromSlot.any (tx.slotOf < ·) then
        { events := [], yielded := yielded, stopped := true }
      else
        let w := yieldEvents args yielded (normalizeHeliusTx tx)
        if w.stopped then w
        else
          let rest := walkPage args normalizeHeliusTx w.yielded txs
          { rest with events := w.events ++ rest.events }

/-- The page loop, bounded by fuel. -/
def fetchPages (fetchPage : FetchPage ρ ε) (normalizeHeliusTx : HeliusEnhancedTx ρ → List α)
    (opts : HeliusCatchupOptions) (args : FetchRangeArgs) :
    Nat → Nat → Option String → Nat → Generated α ε
  | 0, _, _, _ => { yielded := [], ending := .running }
  | fuel + 1, pages, beforeSignature, yielded =>
      if opts.maxPages.all (pages < ·) && !args.reached yielded then
        match fetchPage args.address beforeSignature opts.size with
        | .error e => { yielded := [], ending := .threw e }
        | .ok txs =>
            match txs.getLast? with
            | none => { yielded := [], ending := .returned }
            | some last =>
                let w := walkPage args normalizeHeliusTx yielded txs
                if w.stopped then { yielded := w.events, ending := .returned }
                else if last.signature = "" then { yielded := w.events, ending := .returned }
                else
                  (fetchPages fetchPage normalizeHeliusTx opts args fuel (pages + 1)
                    (some last.signature) w.yielded).after w.events
      else { yielded := [], ending := .returned }

def fetchRange (fetchPage : FetchPage ρ ε) (normalizeHeliusTx : HeliusEnhancedTx ρ → List α)
    (opts : HeliusCatchupOptions) (args : FetchRangeArgs) (fuel : Nat) : Generated α ε :=
  fetchPages fetchPage normalizeHeliusTx opts args fuel 0 none 0

/-! ## The history -/

/-- The transactions of an address, newest first. -/
structure TxHistory (ρ : Type) where
  entries : List (HeliusEnhancedTx ρ)
  distinct : (entries.map (·.signature)).Nodup
  signed : ∀ tx ∈ entries, tx.signature ≠ ""
  newestFirst : entries.Pairwise fun newer older => older.slotOf ≤ newer.slotOf

/-- The entries strictly older than `before`. -/
def TxHistory.olderThan (h : TxHistory ρ) : Option String → List (HeliusEnhancedTx ρ)
  | none => h.entries
  | some signature => (h.entries.dropWhile (·.signature ≠ signature)).tail

/-- A page is the next entries, as many as were asked for. -/
def Serves (fetchPage : FetchPage ρ ε) (address : String) (h : TxHistory ρ) : Prop :=
  ∀ before size, size ≤ 100 →
    fetchPage address before size = .ok ((h.olderThan before).take size)

/-- Both ends belong to the range. -/
def FetchRangeArgs.has (args : FetchRangeArgs) (tx : HeliusEnhancedTx ρ) : Bool :=
  args.fromSlot.all (· ≤ tx.slotOf) && args.toSlot.all (tx.slotOf ≤ ·)

/-- The events of the transactions that are in the range. -/
def eventsIn (args : FetchRangeArgs) (normalizeHeliusTx : HeliusEnhancedTx ρ → List α)
    (txs : List (HeliusEnhancedTx ρ)) : List α :=
  (txs.filter args.has).flatMap normalizeHeliusTx

/-- What the limit still allows after `yielded` events. -/
def FetchRangeArgs.allowed (args : FetchRangeArgs) (yielded : Nat) (events : List α) : List α :=
  match args.limit with
  | none => events
  | some limit => events.take (limit - yielded).toNat

/-! ## The limit -/

theorem allowed_nil (args : FetchRangeArgs) (yielded : Nat) :
    args.allowed yielded ([] : List α) = [] := by
  unfold FetchRangeArgs.allowed
  split
  · rfl
  · exact List.take_nil

theorem allowed_cons {args : FetchRangeArgs} {yielded : Nat}
    (h : args.reached yielded = false) (event : α) (events : List α) :
    args.allowed yielded (event :: events) =
      event :: args.allowed (yielded + 1) events := by
  unfold FetchRangeArgs.reached at h
  unfold FetchRangeArgs.allowed
  split
  · rfl
  · next limit hlimit =>
      rw [hlimit] at h
      have hlt : ¬ limit ≤ (yielded : Int) := of_decide_eq_false h
      obtain ⟨left, hleft⟩ : ∃ left, (limit - yielded).toNat = left + 1 :=
        ⟨(limit - yielded).toNat - 1, by omega⟩
      have hnext : (limit - ((yielded + 1 : Nat) : Int)).toNat = left := by omega
      rw [hleft, hnext, List.take_succ_cons]

/-- After the last event that the limit allows. -/
theorem allowed_reached {args : FetchRangeArgs} {yielded : Nat}
    (h : args.reached yielded = true) (events : List α) : args.allowed yielded events = [] := by
  unfold FetchRangeArgs.reached at h
  unfold FetchRangeArgs.allowed
  split
  · next hlimit =>
      rw [hlimit] at h
      cases h
  · next limit hlimit =>
      rw [hlimit] at h
      have hle : limit ≤ (yielded : Int) := of_decide_eq_true h
      have hzero : (limit - (yielded : Int)).toNat = 0 := by omega
      rw [hzero, List.take_zero]

/-- Before the limit is reached it allows everything. -/
theorem allowed_all {args : FetchRangeArgs} {yielded : Nat} {events : List α}
    (h : args.reached (yielded + events.length) = false) :
    args.allowed yielded events = events := by
  unfold FetchRangeArgs.reached at h
  unfold FetchRangeArgs.allowed
  split
  · rfl
  · next limit hlimit =>
      rw [hlimit] at h
      have hlt : ¬ limit ≤ ((yielded + events.length : Nat) : Int) := of_decide_eq_false h
      exact List.take_of_length_le (by omega)

theorem reached_mono {args : FetchRangeArgs} {yielded more : Nat}
    (h : args.reached yielded = true) (hle : yielded ≤ more) : args.reached more = true := by
  unfold FetchRangeArgs.reached at h ⊢
  cases hlimit : args.limit with
  | none =>
      rw [hlimit] at h
      cases h
  | some limit =>
      rw [hlimit] at h
      have hlimit' : limit ≤ (yielded : Int) := of_decide_eq_true h
      exact decide_eq_true (by omega)

theorem yieldEvents_eq {args : FetchRangeArgs} : ∀ {events : List α} {yielded : Nat},
    args.reached yielded = false →
    yieldEvents args yielded events =
      if args.reached (yielded + events.length) then
        { events := args.allowed yielded events
          yielded := yielded + (args.allowed yielded events).length
          stopped := true }
      else
        { events := events
          yielded := yielded + events.length
          stopped := false } := by
  intro events
  induction events with
  | nil =>
      intro yielded h
      rw [List.length_nil, Nat.add_zero, h]
      rfl
  | cons event events ih =>
      intro yielded h
      have hlen : yielded + (event :: events).length = yielded + 1 + events.length := by
        rw [List.length_cons]
        omega
      rw [yieldEvents, allowed_cons h, hlen]
      by_cases hnext : args.reached (yielded + 1) = true
      · rw [if_pos hnext, if_pos (reached_mono hnext (Nat.le_add_right _ _)),
          allowed_reached hnext]
        rfl
      · rw [if_neg hnext, ih (Bool.eq_false_iff.2 hnext)]
        split
        · rw [List.length_cons, Nat.add_right_comm, Nat.add_assoc]
        · rfl

theorem allowed_append (args : FetchRangeArgs) (yielded : Nat) (events events' : List α) :
    args.allowed yielded (events ++ events') =
      args.allowed yielded events ++ args.allowed (yielded + events.length) events' := by
  unfold FetchRangeArgs.allowed
  split
  · rfl
  · next limit _ =>
      have hleft : (limit - (yielded : Int)).toNat - events.length =
          (limit - ((yielded + events.length : Nat) : Int)).toNat := by omega
      rw [List.take_append, hleft]

/-! ## One page -/

variable {normalizeHeliusTx : HeliusEnhancedTx ρ → List α}

theorem eventsIn_append (args : FetchRangeArgs) (txs txs' : List (HeliusEnhancedTx ρ)) :
    eventsIn args normalizeHeliusTx (txs ++ txs') =
      eventsIn args normalizeHeliusTx txs ++ eventsIn args normalizeHeliusTx txs' := by
  unfold eventsIn
  rw [List.filter_append, List.flatMap_append]

/-- `slot < args.fromSlot`. -/
def FetchRangeArgs.above (args : FetchRangeArgs) (tx : HeliusEnhancedTx ρ) : Bool :=
  args.fromSlot.any (tx.slotOf < ·)

theorem eventsIn_older {args : FetchRangeArgs} {txs : List (HeliusEnhancedTx ρ)}
    (h : ∀ tx ∈ txs, args.above tx = true) : eventsIn args normalizeHeliusTx txs = [] := by
  have hnone : txs.filter args.has = [] := List.filter_eq_nil_iff.2 fun tx htx hhas => by
    have habove := h tx htx
    unfold FetchRangeArgs.above at habove
    unfold FetchRangeArgs.has at hhas
    cases hfrom : args.fromSlot with
    | none =>
        rw [hfrom] at habove
        cases habove
    | some slot =>
        rw [hfrom] at habove hhas
        have hlt : tx.slotOf < slot := of_decide_eq_true habove
        have hle : slot ≤ tx.slotOf := of_decide_eq_true (Bool.and_eq_true_iff.1 hhas).1
        omega
  unfold eventsIn
  rw [hnone]
  rfl

theorem above_mono {args : FetchRangeArgs} {newer older : HeliusEnhancedTx ρ}
    (h : args.above newer = true) (hle : older.slotOf ≤ newer.slotOf) :
    args.above older = true := by
  unfold FetchRangeArgs.above at h ⊢
  cases hfrom : args.fromSlot with
  | none =>
      rw [hfrom] at h
      cases h
  | some slot =>
      rw [hfrom] at h
      have hlt : newer.slotOf < slot := of_decide_eq_true h
      exact decide_eq_true (Int.lt_of_le_of_lt hle hlt)

/-- `slot > args.toSlot`. -/
def FetchRangeArgs.below (args : FetchRangeArgs) (tx : HeliusEnhancedTx ρ) : Bool :=
  args.toSlot.any (· < tx.slotOf)

theorem has_iff (args : FetchRangeArgs) (tx : HeliusEnhancedTx ρ) :
    args.has tx = true ↔ ¬ args.below tx = true ∧ ¬ args.above tx = true := by
  have hto : args.toSlot.all (tx.slotOf ≤ ·) = !args.below tx := by
    unfold FetchRangeArgs.below
    cases args.toSlot with
    | none => rfl
    | some slot =>
        show decide (tx.slotOf ≤ slot) = !decide (slot < tx.slotOf)
        rw [← decide_not]
        exact decide_eq_decide.2 Int.not_lt.symm
  have hfrom : args.fromSlot.all (· ≤ tx.slotOf) = !args.above tx := by
    unfold FetchRangeArgs.above
    cases args.fromSlot with
    | none => rfl
    | some slot =>
        show decide (slot ≤ tx.slotOf) = !decide (tx.slotOf < slot)
        rw [← decide_not]
        exact decide_eq_decide.2 Int.not_lt.symm
  unfold FetchRangeArgs.has
  rw [hto, hfrom]
  cases args.below tx <;> cases args.above tx <;> decide

/-- What a page yields, why it may be the last, and what it leaves to the limit. -/
structure PageWalked (args : FetchRangeArgs) (normalizeHeliusTx : HeliusEnhancedTx ρ → List α)
    (yielded : Nat) (txs : List (HeliusEnhancedTx ρ)) (w : Walked α) : Prop where
  events : w.events = args.allowed yielded (eventsIn args normalizeHeliusTx txs)
  stops : w.stopped = true →
    args.reached (yielded + (eventsIn args normalizeHeliusTx txs).length) = true ∨
      ∃ tx ∈ txs, args.above tx = true
  goesOn : w.stopped = false →
    w.yielded = yielded + (eventsIn args normalizeHeliusTx txs).length

theorem walkPage_walked {args : FetchRangeArgs} : ∀ {txs : List (HeliusEnhancedTx ρ)}
    {yielded : Nat}, txs.Pairwise (fun newer older => older.slotOf ≤ newer.slotOf) →
    args.reached yielded = false →
    PageWalked args normalizeHeliusTx yielded txs
      (walkPage args normalizeHeliusTx yielded txs) := by
  intro txs
  induction txs with
  | nil =>
      intro yielded _ _
      exact ⟨(allowed_nil args yielded).symm, fun h => (by cases h), fun _ => rfl⟩
  | cons tx txs ih =>
      intro yielded hsorted hopen
      obtain ⟨holder, hrest⟩ := List.pairwise_cons.1 hsorted
      have hlater : (∃ tx' ∈ txs, args.above tx' = true) →
          ∃ tx' ∈ tx :: txs, args.above tx' = true :=
        fun ⟨tx', htx', habove⟩ => ⟨tx', List.mem_cons_of_mem _ htx', habove⟩
      by_cases hbelow : args.below tx = true
      · -- newer than the range
        have hsame : eventsIn args normalizeHeliusTx (tx :: txs) =
            eventsIn args normalizeHeliusTx txs := by
          unfold eventsIn
          rw [List.filter_cons_of_neg fun hhas => ((has_iff args tx).1 hhas).1 hbelow]
        have hwalk : walkPage args normalizeHeliusTx yielded (tx :: txs) =
            walkPage args normalizeHeliusTx yielded txs := if_pos hbelow
        obtain ⟨hevents, hstops, hgoesOn⟩ := ih hrest hopen
        rw [hwalk]
        constructor
        · rw [hsame]
          exact hevents
        · rw [hsame]
          exact fun h => (hstops h).imp id hlater
        · rw [hsame]
          exact hgoesOn
      · by_cases habove : args.above tx = true
        · -- older than the range, and so is all that follows
          have hnone : eventsIn args normalizeHeliusTx (tx :: txs) = [] := by
            refine eventsIn_older fun tx' htx' => ?_
            rcases List.mem_cons.1 htx' with rfl | htx''
            · exact habove
            · exact above_mono habove (holder tx' htx'')
          have hwalk : walkPage args normalizeHeliusTx yielded (tx :: txs) =
              { events := [], yielded := yielded, stopped := true } :=
            (if_neg hbelow).trans (if_pos habove)
          rw [hwalk]
          refine ⟨?_, fun _ => .inr ⟨tx, List.mem_cons_self, habove⟩, fun h => (by cases h)⟩
          rw [hnone, allowed_nil]
        · have hcons : eventsIn args normalizeHeliusTx (tx :: txs) =
              normalizeHeliusTx tx ++ eventsIn args normalizeHeliusTx txs := by
            unfold eventsIn
            rw [List.filter_cons_of_pos ((has_iff args tx).2 ⟨hbelow, habove⟩), List.flatMap_cons]
          have hwalk : walkPage args normalizeHeliusTx yielded (tx :: txs) = _ :=
            (if_neg hbelow).trans (if_neg habove)
          rw [hwalk, yieldEvents_eq hopen]
          by_cases hreached :
              args.reached (yielded + (normalizeHeliusTx tx).length) = true
          · rw [if_pos hreached]
            refine ⟨?_, fun _ => .inl (reached_mono hreached ?_), fun h => (by cases h)⟩
            · rw [hcons, allowed_append, allowed_reached hreached, List.append_nil]
              rfl
            · rw [hcons, List.length_append]
              omega
          · rw [if_neg hreached]
            dsimp only
            rw [if_neg Bool.false_ne_true]
            obtain ⟨hevents, hstops, hgoesOn⟩ := ih hrest (Bool.eq_false_iff.2 hreached)
            have hall : args.allowed yielded (normalizeHeliusTx tx) = normalizeHeliusTx tx :=
              allowed_all (Bool.eq_false_iff.2 hreached)
            refine ⟨?_, ?_, ?_⟩
            · rw [hcons, allowed_append, hall]
              exact congrArg _ hevents
            · rw [hcons, List.length_append, ← Nat.add_assoc]
              exact fun h => (hstops h).imp id hlater
            · rw [hcons, List.length_append, ← Nat.add_assoc]
              exact hgoesOn

/-! ## All pages -/

theorem dropWhile_signature {entries newer older : List (HeliusEnhancedTx ρ)}
    {tx : HeliusEnhancedTx ρ} (hdistinct : (entries.map (·.signature)).Nodup)
    (h : entries = newer ++ tx :: older) :
    (entries.dropWhile (·.signature ≠ tx.signature)).tail = older := by
  subst h
  rw [List.map_append, List.map_cons] at hdistinct
  have hnewer : ∀ x ∈ newer, decide (x.signature ≠ tx.signature) = true := fun x hx =>
    decide_eq_true ((List.nodup_append.1 hdistinct).2.2 x.signature (List.mem_map_of_mem hx)
      tx.signature List.mem_cons_self)
  rw [List.dropWhile_append_of_pos hnewer, List.dropWhile_cons_of_neg (by simp), List.tail_cons]

theorem fetchPages_rest {fetchPage : FetchPage ρ ε} {args : FetchRangeArgs} {h : TxHistory ρ}
    (hserves : Serves fetchPage args.address h) {opts : HeliusCatchupOptions}
    (hsize : 1 ≤ opts.size) (hmax : opts.maxPages = none) :
    ∀ (fuel pages yielded : Nat) (before : Option String) (newer rest : List (HeliusEnhancedTx ρ)),
    h.entries = newer ++ rest → h.olderThan before = rest → rest.length < fuel →
    fetchPages fetchPage normalizeHeliusTx opts args fuel pages before yielded =
      { yielded := args.allowed yielded (eventsIn args normalizeHeliusTx rest)
        ending := .returned } := by
  intro fuel
  induction fuel with
  | zero =>
      intro _ _ _ _ rest _ _ hfuel
      omega
  | succ fuel ih =>
      intro pages yielded before newer rest hentries hrest hfuel
      rw [fetchPages, hmax]
      by_cases hreached : args.reached yielded = true
      · rw [hreached, allowed_reached hreached]
        rfl
      · have hopen : args.reached yielded = false := Bool.eq_false_iff.2 hreached
        have hserved : fetchPage args.address before opts.size = .ok (rest.take opts.size) := by
          rw [hserves before opts.size (Nat.min_le_right _ _), hrest]
        have hgo : (Option.all (fun most => decide (pages < most)) none && !false) = true := rfl
        rw [hopen, hserved, if_pos hgo]
        dsimp only
        cases hlast : (rest.take opts.size).getLast? with
        | none =>
            have hnil := List.getLast?_eq_none_iff.1 hlast
            have hlength := congrArg List.length hnil
            rw [List.length_take, List.length_nil] at hlength
            have hrestNil : rest = [] := List.length_eq_zero_iff.1 (by omega)
            rw [hrestNil]
            show _ = Generated.mk (args.allowed yielded []) _
            rw [allowed_nil]
        | some last =>
            have hsorted : (rest.take opts.size ++ rest.drop opts.size).Pairwise
                fun newer older => older.slotOf ≤ newer.slotOf := by
              rw [List.take_append_drop]
              have hall := h.newestFirst
              rw [hentries] at hall
              exact (List.pairwise_append.1 hall).2.1
            obtain ⟨hpage, -, holder⟩ := List.pairwise_append.1 hsorted
            have hwalked : PageWalked args normalizeHeliusTx yielded (rest.take opts.size) _ :=
              walkPage_walked hpage hopen
            obtain ⟨hevents, hstops, hgoesOn⟩ := hwalked
            have hcut : args.allowed yielded (eventsIn args normalizeHeliusTx rest) =
                args.allowed yielded (eventsIn args normalizeHeliusTx (rest.take opts.size)) ++
                  args.allowed
                    (yielded + (eventsIn args normalizeHeliusTx (rest.take opts.size)).length)
                    (eventsIn args normalizeHeliusTx (rest.drop opts.size)) := by
              rw [← allowed_append, ← eventsIn_append, List.take_append_drop]
            dsimp only
            cases hstopped : (walkPage args normalizeHeliusTx yielded
                (rest.take opts.size)).stopped with
            | true =>
                have hdone : args.allowed
                    (yielded + (eventsIn args normalizeHeliusTx (rest.take opts.size)).length)
                    (eventsIn args normalizeHeliusTx (rest.drop opts.size)) = [] := by
                  rcases hstops hstopped with hlimit | ⟨tx, htx, habove⟩
                  · exact allowed_reached hlimit _
                  · rw [eventsIn_older fun tx' htx' => above_mono habove (holder tx htx tx' htx'),
                      allowed_nil]
                rw [if_pos rfl, hcut, hdone, List.append_nil, hevents]
            | false =>
                obtain ⟨page, hpageEq⟩ := List.getLast?_eq_some_iff.1 hlast
                have hpageRest : rest = page ++ last :: rest.drop opts.size := by
                  calc
                    rest = rest.take opts.size ++ rest.drop opts.size :=
                      (List.take_append_drop opts.size rest).symm
                    _ = page ++ [last] ++ rest.drop opts.size := by rw [hpageEq]
                    _ = page ++ last :: rest.drop opts.size := List.append_assoc _ _ _
                have hsplit : h.entries = (newer ++ page) ++ last :: rest.drop opts.size := by
                  rw [hentries, List.append_assoc, ← hpageRest]
                have hsigned : last.signature ≠ "" :=
                  h.signed last (hsplit ▸ List.mem_append_right _ List.mem_cons_self)
                have hnext : h.olderThan (some last.signature) = rest.drop opts.size :=
                  dropWhile_signature h.distinct hsplit
                have hshorter : (rest.drop opts.size).length < fuel := by
                  have hlength := congrArg List.length hpageEq
                  rw [List.length_take, List.length_append, List.length_singleton] at hlength
                  rw [List.length_drop]
                  omega
                have hmore := ih (pages + 1)
                  (yielded + (eventsIn args normalizeHeliusTx (rest.take opts.size)).length)
                  (some last.signature) (newer ++ page ++ [last]) (rest.drop opts.size)
                  (by rw [hsplit]; simp) hnext hshorter
                rw [if_neg Bool.false_ne_true, if_neg hsigned, hgoesOn hstopped, hmore, hcut,
                  hevents]
                rfl

/-- Without `maxPages` the range of the history is yielded, up to the limit, and the generator
returns. -/
theorem fetchRange_once (fetchPage : FetchPage ρ ε)
    (normalizeHeliusTx : HeliusEnhancedTx ρ → List α) (opts : HeliusCatchupOptions)
    (args : FetchRangeArgs) (h : TxHistory ρ) (hserves : Serves fetchPage args.address h)
    (hsize : 1 ≤ opts.pageSize.getD 100) (hmax : opts.maxPages = none) (fuel : Nat)
    (hfuel : h.entries.length < fuel) :
    fetchRange fetchPage normalizeHeliusTx opts args fuel =
      { yielded := args.allowed 0 (eventsIn args normalizeHeliusTx h.entries)
        ending := .returned } :=
  fetchPages_rest hserves (Nat.le_min.2 ⟨hsize, by decide⟩) hmax fuel 0 0 none [] h.entries rfl rfl
    hfuel

/-- Three transactions, two of them in the same slot. -/
def threeTxs : TxHistory Nat where
  entries :=
    [{ signature := "c", slot := some 12, payload := 1 },
     { signature := "b", slot := some 10, payload := 3 },
     { signature := "a", slot := some 10, payload := 2 }]
  distinct := by decide
  signed := by decide
  newestFirst := by decide

def threeTxsPage : FetchPage Nat String := fun _ before size =>
  .ok ((threeTxs.olderThan before).take size)

/-- The page is cut inside slot 10, and the limit inside the second transaction of it. -/
theorem fetchRange_once_cut :
    (fetchRange threeTxsPage (fun tx => List.replicate tx.payload tx.signature)
        { pageSize := some 2 }
        { address := "w", fromSlot := some 10, toSlot := some 11, limit := some 4 } 4).yielded =
      ["b", "b", "b", "a"] := by
  rw [fetchRange_once _ _ _ _ threeTxs (fun _ _ _ => rfl) (by decide) rfl 4 (by decide)]
  decide

end Ap3xSolana.Webhooks.HeliusCatchup
