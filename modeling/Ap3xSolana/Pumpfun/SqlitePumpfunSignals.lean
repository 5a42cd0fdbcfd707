import Mathlib.Data.Finset.Card
import Mathlib.Data.Rat.Defs
import Mathlib.Logic.Function.Basic

/-!
# `SqlitePumpfunSignals`

One table of observed events, and queries as of a time over it.  Dates are milliseconds;
a payload is kept as the value that its JSON text spells.  Rows come back in the order of
`ORDER BY`; where that leaves ties, the database decides (`RowOrder`).
-/

namespace Ap3xSolana.Pumpfun.Signals

inductive Tier where
  | S | A | B | C | D
  deriving DecidableEq, Repr

inductive MilestoneKind where
  | created | firstBuy | fdv10k | fdv50k | fdv100k | graduated | ath | rugged | devSold
  deriving DecidableEq, Repr

inductive SafetyLabel where
  | safe | warning | danger | unknown
  deriving DecidableEq, Repr

inductive EventType where
  | buy | milestone | walletTier | safetyVerdict
  deriving DecidableEq, Repr

/-- `Record<string, unknown>`, over JSON values. -/
abbrev Record (δ : Type) := List (String × δ)

inductive Payload (δ : Type) where
  | buy (signature : String) (slot : Int) (mint wallet : String) (buyerTier : Option Tier)
      (amountSol : Option Rat)
  | milestone (kind : MilestoneKind) (data : Option (Record δ))
  | walletTier (tier : Tier)
  | safetyVerdict (verdict : SafetyLabel) (reasons : List String) (signals : Record δ)
  deriving DecidableEq, Repr

/-- The columns of an event but for its row id. -/
structure Columns (δ : Type) where
  signature : Option String
  slot : Option Int
  observedAt : Int
  mint : Option String
  wallet : Option String
  eventType : EventType
  payload : Payload δ
  deriving DecidableEq, Repr

structure Row (δ : Type) where
  id : Nat
  columns : Columns δ
  deriving DecidableEq, Repr

/-- `id INTEGER PRIMARY KEY AUTOINCREMENT`. -/
structure Table (δ : Type) where
  rows : List (Row δ) := []
  nextId : Nat := 1
  deriving DecidableEq, Repr

variable {δ : Type}

def Table.insertEvent (t : Table δ) (columns : Columns δ) : Table δ where
  rows := t.rows ++ [{ id := t.nextId, columns := columns }]
  nextId := t.nextId + 1

/-! ## Ingest -/

structure IngestBuyArgs where
  signature : String
  slot : Int
  observedAt : Int
  mint : String
  wallet : String
  buyerTier : Option Tier
  amountSol : Option Rat
  deriving DecidableEq, Repr

structure IngestMilestoneArgs (δ : Type) where
  mint : String
  kind : MilestoneKind
  observedAt : Int
  signature : Option String
  slot : Option Int
  data : Option (Record δ)
  deriving DecidableEq, Repr

structure IngestWalletTierArgs where
  wallet : String
  tier : Tier
  observedAt : Int
  deriving DecidableEq, Repr

structure IngestSafetyVerdictArgs (δ : Type) where
  mint : String
  observedAt : Int
  verdict : SafetyLabel
  reasons : List String
  signals : Record δ
  deriving DecidableEq, Repr

def ingestBuy (t : Table δ) (args : IngestBuyArgs) : Table δ :=
  t.insertEvent
    { signature := some args.signature
      slot := some args.slot
      observedAt := args.observedAt
      mint := some args.mint
      wallet := some args.wallet
      eventType := .buy
      payload := .buy args.signature args.slot args.mint args.wallet args.buyerTier
        args.amountSol }

def ingestMilestone (t : Table δ) (args : IngestMilestoneArgs δ) : Table δ :=
  t.insertEvent
    { signature := args.signature
      slot := args.slot
      observedAt := args.observedAt
      mint := some args.mint
      wallet := none
      eventType := .milestone
      payload := .milestone args.kind args.data }

def ingestWalletTier (t : Table δ) (args : IngestWalletTierArgs) : Table δ :=
  t.insertEvent
    { signature := none
      slot := none
      observedAt := args.observedAt
      mint := none
      wallet := some args.wallet
      eventType := .walletTier
      payload := .walletTier args.tier }

def ingestSafetyVerdict (t : Table δ) (args : IngestSafetyVerdictArgs δ) : Table δ :=
  t.insertEvent
    { signature := none
      slot := none
      observedAt := args.observedAt
      mint := some args.mint
      wallet := none
      eventType := .safetyVerdict
      payload := .safetyVerdict args.verdict args.reasons args.signals }

inductive Event (δ : Type) where
  | buy (args : IngestBuyArgs)
  | milestone (args : IngestMilestoneArgs δ)
  | walletTier (args : IngestWalletTierArgs)
  | safetyVerdict (args : IngestSafetyVerdictArgs δ)
  deriving DecidableEq, Repr

def Event.observedAt : Event δ → Int
  | .buy args => args.observedAt
  | .milestone args => args.observedAt
  | .walletTier args => args.observedAt
  | .safetyVerdict args => args.observedAt

def ingest (t : Table δ) : Event δ → Table δ
  | .buy args => ingestBuy t args
  | .milestone args => ingestMilestone t args
  | .walletTier args => ingestWalletTier t args
  | .safetyVerdict args => ingestSafetyVerdict t args

/-- The table that a history of events leaves. -/
def ingestAll (history : List (Event δ)) : Table δ := history.foldl ingest {}

/-! ## Statements -/

/-- `ORDER BY observed_at DESC, id DESC`. -/
def latestFirst (a b : Row δ) : Bool :=
  b.columns.observedAt < a.columns.observedAt ||
    (a.columns.observedAt = b.columns.observedAt && b.id ≤ a.id)

/-- `ORDER BY observed_at ASC, id ASC`. -/
def earliestFirst (a b : Row δ) : Bool :=
  a.columns.observedAt < b.columns.observedAt ||
    (a.columns.observedAt = b.columns.observedAt && a.id ≤ b.id)

/-- `ORDER BY observed_at ASC` alone: rows observed at the same time come in an order of
the database's own. -/
structure RowOrder (δ : Type) where
  arrange : List (Row δ) → List (Row δ)
  perm (rows : List (Row δ)) : (arrange rows).Perm rows
  sorted (rows : List (Row δ)) :
    (arrange rows).Pairwise fun a b => a.columns.observedAt ≤ b.columns.observedAt

def Table.walletTierLatest (t : Table δ) (wallet : String) (asOf : Int) : Option (Row δ) :=
  ((t.rows.filter fun r => r.columns.wallet = some wallet ∧ r.columns.eventType = .walletTier ∧
    r.columns.observedAt ≤ asOf).mergeSort latestFirst).head?

def Table.convergenceWindow (t : Table δ) (order : RowOrder δ) (mint : String)
    (fromMs asOf : Rat) : List (Row δ) :=
  order.arrange (t.rows.filter fun r => r.columns.mint = some mint ∧ r.columns.eventType = .buy ∧
    fromMs ≤ r.columns.observedAt ∧ r.columns.observedAt ≤ asOf)

def Table.milestonesRange (t : Table δ) (mint : String) (since asOf : Int) : List (Row δ) :=
  (t.rows.filter fun r => r.columns.mint = some mint ∧ r.columns.eventType = .milestone ∧
    since ≤ r.columns.observedAt ∧ r.columns.observedAt ≤ asOf).mergeSort earliestFirst

def Table.safetyLatest (t : Table δ) (mint : String) (asOf : Int) : Option (Row δ) :=
  ((t.rows.filter fun r => r.columns.mint = some mint ∧ r.columns.eventType = .safetyVerdict ∧
    r.columns.observedAt ≤ asOf).mergeSort latestFirst).head?

/-! ## Queries -/

/-- `JSON.parse(row.payload).tier`. -/
def Payload.tier? : Payload δ → Option Tier
  | .walletTier tier => some tier
  | _ => none

/-- `JSON.parse(row.payload).buyerTier`. -/
def Payload.buyerTier? : Payload δ → Option Tier
  | .buy _ _ _ _ buyerTier _ => buyerTier
  | _ => none

def walletTier (t : Table δ) (wallet : String) (asOf : Int) : Option Tier :=
  match t.walletTierLatest wallet asOf with
  | none => none
  | some row => row.columns.payload.tier?

/-- What the loop of `convergenceState` has collected. -/
structure Collected where
  distinctByTier : Tier → Finset String
  allBuyers : Finset String
  firstAt : Option Int
  lastAt : Option Int

def Collected.empty : Collected where
  distinctByTier := fun _ => ∅
  allBuyers := ∅
  firstAt := none
  lastAt := none

def earlier (at? : Option Int) (observedAt : Int) : Option Int :=
  match at? with
  | none => some observedAt
  | some first => if observedAt < first then some observedAt else some first

def later (at? : Option Int) (observedAt : Int) : Option Int :=
  match at? with
  | none => some observedAt
  | some last => if observedAt > last then some observedAt else some last

/-- One row.  The wallet of a buy is never NULL. -/
def Collected.add (c : Collected) (row : Columns δ) : Collected where
  distinctByTier :=
    match row.payload.buyerTier? with
    | some tier =>
        Function.update c.distinctByTier tier (insert (row.wallet.getD "") (c.distinctByTier tier))
    | none => c.distinctByTier
  allBuyers := insert (row.wallet.getD "") c.allBuyers
  firstAt := earlier c.firstAt row.observedAt
  lastAt := later c.lastAt row.observedAt

structure ConvergenceState where
  mint : String
  asOf : Int
  windowMs : Rat
  buyersByTier : Tier → Nat
  totalBuyers : Nat
  firstBuyAt : Option Int
  latestBuyAt : Option Int

def convergenceState (t : Table δ) (order : RowOrder δ) (mint : String) (asOf : Int)
    (windowMs : Rat) : ConvergenceState :=
  let rows := t.convergenceWindow order mint (asOf - windowMs) asOf
  let c := rows.foldl (fun c row => c.add row.columns) Collected.empty
  { mint := mint
    asOf := asOf
    windowMs := windowMs
    buyersByTier := fun tier => (c.distinctByTier tier).card
    totalBuyers := c.allBuyers.card
    firstBuyAt := c.firstAt
    latestBuyAt := c.lastAt }

structure MilestoneEvent (δ : Type) where
  mint : String
  kind : MilestoneKind
  observedAt : Int
  data : Option (Record δ)
  deriving DecidableEq, Repr

/-- The rows of the statement all carry a milestone. -/
def milestoneOf (mint : String) (row : Columns δ) : Option (MilestoneEvent δ) :=
  match row.payload with
  | .milestone kind data =>
      some { mint := mint, kind := kind, observedAt := row.observedAt, data := data }
  | _ => none

def milestoneEvents (t : Table δ) (mint : String) (since asOf : Int) : List (MilestoneEvent δ) :=
  (t.milestonesRange mint since asOf).filterMap fun row => milestoneOf mint row.columns

structure SafetyVerdict (δ : Type) where
  mint : String
  asOf : Int
  verdict : SafetyLabel
  reasons : List String
  signals : Record δ
  deriving DecidableEq, Repr

def unknownVerdict (mint : String) (asOf : Int) : SafetyVerdict δ where
  mint := mint
  asOf := asOf
  verdict := .unknown
  reasons := []
  signals := []

def safetyVerdict (t : Table δ) (mint : String) (asOf : Int) : SafetyVerdict δ :=
  match t.safetyLatest mint asOf with
  | none => unknownVerdict mint asOf
  | some row =>
      match row.columns.payload with
      | .safetyVerdict verdict reasons signals =>
          { mint := mint, asOf := asOf, verdict := verdict, reasons := reasons, signals := signals }
      | _ => unknownVerdict mint asOf

end Ap3xSolana.Pumpfun.Signals
