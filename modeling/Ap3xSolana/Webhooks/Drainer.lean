import Ap3xSolana.Webhooks.Outbox

/-!
# The drainer

A cycle reads a batch and takes its rows one at a time.  Between two `await`s it is
at the head of its loop or waits for `emit`; the outbox statements run when they are
called.  `Entry` is what a cycle does that others can see.
-/

namespace Ap3xSolana.Webhooks

structure DrainerOptions where
  /-- A driver is registered for the source. -/
  drivers : String → Bool
  /-- What `JSON.parse` says of a text that is not JSON. -/
  jsonError : String → Option String
  batchSize : Nat := 100
  maxAttempts : ℕ∞ := 5
  retryDelayMs : Int := 1000
  pollIntervalMs : Int := 250

def DrainerOptions.pending (opts : DrainerOptions) : PendingOptions :=
  { limit := opts.batchSize, maxAttempts := opts.maxAttempts,
    retryDelayMs := opts.retryDelayMs }

/-- Why a row was marked failed. -/
inductive FailReason where
  | noDriver
  | payloadParse
  | normalize
  | emit
  deriving DecidableEq, Repr

/-- The reasons that park a row at once. -/
def FailReason.parks : FailReason → Bool
  | .noDriver => true
  | .payloadParse => true
  | .normalize => false
  | .emit => false

inductive Entry (ε : Type) where
  | normalized (key : Key) (events : List ε)
  | emit (key : Key) (event : ε)
  | failed (key : Key) (reason : FailReason)
  | processed (key : Key)
  deriving DecidableEq

/-- What a cycle meets up to its next `await`. -/
structure Reply (ε : Type) where
  now : Int
  /-- The outbox statement throws. -/
  statement : Option String := none
  /-- What `normalizeEvent` gives. -/
  normalized : Except String (List ε) := .ok []
  /-- The awaited `emit` has thrown. -/
  emit : Option String := none

/-- Where a cycle is. -/
inductive Phase (ε : Type) where
  | rows (todo : List OutboxRow)
  | emitting (row : OutboxRow) (event : ε) (todo : List ε) (rest : List OutboxRow)
  | finished

structure Cycle (ε : Type) where
  /-- It belongs to `runCycle`, not to `drainOnce`. -/
  looping : Bool
  startedAt : Int
  /-- The rows it has read, unless the query threw. -/
  batch : Option (List OutboxRow)
  processed : Nat := 0
  failed : Nat := 0
  phase : Phase ε

/-- How a row goes on. -/
inductive Next (ε : Type) where
  | done (ok : Bool)
  | emitting (event : ε) (todo : List ε)
  | threw (message : String)

/-- An outbox, the entries written and how the row goes on. -/
abbrev Outcome (ε : Type) := SqliteOutbox × List (Entry ε) × Next ε

variable {ε : Type}

def markFailed (o : SqliteOutbox) (row : OutboxRow) (reason : FailReason) (error : String)
    (attempts : ℕ∞) (reply : Reply ε) : Outcome ε :=
  match reply.statement with
  | some message => (o, [], .threw message)
  | none =>
      match o.markFailed row.key error attempts with
      | .error message => (o, [], .threw message)
      | .ok o => (o, [.failed row.key reason], .done false)

def markProcessed (o : SqliteOutbox) (row : OutboxRow) (reply : Reply ε) : Outcome ε :=
  match reply.statement with
  | some message => (o, [], .threw message)
  | none =>
      match o.markProcessed row.key reply.now with
      | .error message => (o, [], .threw message)
      | .ok o => (o, [.processed row.key], .done true)

/-- The loop over the events of a row. -/
def emitNext (o : SqliteOutbox) (row : OutboxRow) (reply : Reply ε) : List ε → Outcome ε
  | [] => markProcessed o row reply
  | event :: todo => (o, [.emit row.key event], .emitting event todo)

/-- `processOne` up to its first `await`. -/
def processOne (opts : DrainerOptions) (o : SqliteOutbox) (row : OutboxRow)
    (reply : Reply ε) : Outcome ε :=
  if ¬ opts.drivers row.source then
    markFailed o row .noDriver "no driver registered" opts.maxAttempts reply
  else
    match opts.jsonError row.rawPayload with
    | some message =>
        markFailed o row .payloadParse s!"payload parse: {message}" opts.maxAttempts reply
    | none =>
        match reply.normalized with
        | .error message =>
            markFailed o row .normalize s!"normalize: {message}" (row.attempts + 1) reply
        | .ok events =>
            let (o, entries, next) := emitNext o row reply events
            (o, .normalized row.key events :: entries, next)

/-- `processOne` from an awaited `emit` on. -/
def emitSettled (o : SqliteOutbox) (row : OutboxRow) (todo : List ε) (reply : Reply ε) :
    Outcome ε :=
  match reply.emit with
  | some message => markFailed o row .emit s!"emit: {message}" (row.attempts + 1) reply
  | none => emitNext o row reply todo

/-- The loop goes on, with the row counted or the throw passed on. -/
def Cycle.go (c : Cycle ε) (row : OutboxRow) (rest : List OutboxRow) :
    Next ε → Cycle ε
  | .done true => { c with processed := c.processed + 1, phase := .rows rest }
  | .done false => { c with failed := c.failed + 1, phase := .rows rest }
  | .emitting event todo => { c with phase := .emitting row event todo rest }
  -- `runCycle` counts nothing for a cycle that threw
  | .threw _ => { c with processed := 0, failed := 0, phase := .finished }

def Cycle.finish (c : Cycle ε) : Cycle ε := { c with phase := .finished }

/-- A cycle up to its next `await`. -/
def Cycle.advance (opts : DrainerOptions) (o : SqliteOutbox) (stopRequested : Bool)
    (c : Cycle ε) (reply : Reply ε) : Option (SqliteOutbox × List (Entry ε) × Cycle ε) :=
  match c.phase with
  | .finished => none
  | .rows [] => some (o, [], c.finish)
  | .rows (row :: rest) =>
      if stopRequested then some (o, [], c.finish)
      else
        let (o, entries, next) := processOne opts o row reply
        some (o, entries, c.go row rest next)
  | .emitting row _ todo rest =>
      let (o, entries, next) := emitSettled o row todo reply
      some (o, entries, c.go row rest next)

/-- The start of a cycle: its batch, or the throw of its query. -/
def Cycle.begin (opts : DrainerOptions) (o : SqliteOutbox) (looping : Bool) (now : Int)
    (statement : Option String) : Cycle ε :=
  match statement with
  | some _ => { looping := looping, startedAt := now, batch := none, phase := .finished }
  | none =>
      let rows := o.pending opts.pending now
      { looping := looping, startedAt := now, batch := some rows, phase := .rows rows }

/-! ## The poll loop -/

structure Drainer (ε : Type) where
  running : Bool := false
  stopRequested : Bool := false
  /-- The promise of `waiter`, by number. -/
  waiter : Option Nat := none
  promises : Nat := 0
  resolved : List Nat := []
  /-- The delays of the pending timers. -/
  timers : List Int := []
  /-- The promises that calls of `stop` await. -/
  stops : List Nat := []
  cycles : List (Cycle ε) := []

namespace Drainer

def scheduleNext (d : Drainer ε) (delayMs : Int) : Drainer ε :=
  if d.stopRequested then d else { d with timers := d.timers ++ [delayMs] }

def start (d : Drainer ε) : Drainer ε :=
  if d.running then d
  else { d with running := true, stopRequested := false }.scheduleNext 0

def stop (d : Drainer ε) : Drainer ε :=
  if ¬ d.running then d
  else
    match d.waiter with
    | some promise => { d with stopRequested := true, stops := d.stops ++ [promise] }
    | none => { d with stopRequested := true, running := false }

/-- A call of `stop` goes on once its promise is resolved. -/
def stopped (d : Drainer ε) (call : Nat) : Option (Drainer ε) :=
  match d.stops[call]? with
  | some promise =>
      if promise ∈ d.resolved then
        some { d with running := false, stops := d.stops.eraseIdx call }
      else none
  | none => none

/-- The end of `runCycle`: its `finally` and the next timer. -/
def cycleOver (opts : DrainerOptions) (d : Drainer ε) (c : Cycle ε) : Drainer ε :=
  let d := { d with resolved := d.resolved ++ d.waiter.toList, waiter := none }
  d.scheduleNext (if c.processed > 0 ∨ c.failed > 0 then 0 else opts.pollIntervalMs)

/-- Puts a cycle where its turn has left it. -/
def putCycle (opts : DrainerOptions) (d : Drainer ε) (i : Nat) (c : Cycle ε) : Drainer ε :=
  let d := { d with cycles := d.cycles.set i c }
  match c.phase with
  | .finished => if c.looping then d.cycleOver opts c else d
  | _ => d

/-- A new cycle; a `runCycle` makes its promise first. -/
def beginCycle (opts : DrainerOptions) (d : Drainer ε) (c : Cycle ε) : Drainer ε :=
  let d := { d with cycles := d.cycles ++ [c] }
  if c.looping then
    { d with waiter := some d.promises, promises := d.promises + 1 }.putCycle opts
      (d.cycles.length - 1) c
  else d

end Drainer

end Ap3xSolana.Webhooks
