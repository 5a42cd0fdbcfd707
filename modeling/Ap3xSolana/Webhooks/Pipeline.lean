import Ap3xSolana.Lib.Run
import Ap3xSolana.Webhooks.Drainer
import Ap3xSolana.Webhooks.Outbox

/-!
# Receiver and drainer over one outbox

`ingest` awaits one insertion after the other, so a delivery is a state: what runs
up to the first insertion (`ingest`) and one insertion (`insertNext`).
-/

namespace Ap3xSolana.Webhooks

/-! ## The receiver -/

structure IncomingRequest where
  method : String
  url : String
  headers : List (String × List String)
  body : List UInt8
  remoteAddress : Option String := none

/-- An event of the wire body and `JSON.stringify` of its payload: the text, which is
empty for `undefined`, or the message of what it throws. -/
structure ParsedEvent where
  id : String
  json : Except String String

/-- The part of a driver that the receiver uses. -/
structure ReceiverDriver where
  source : String
  /-- Why the request is refused. -/
  verifyRequest : IncomingRequest → Option String
  parseRawPayload : List UInt8 → Except String (List ParsedEvent)

structure ReceiverOptions where
  driver : ReceiverDriver
  maxBytes : Nat := 1024 * 1024
  maxConcurrent : Nat := 64

inductive RejectReason where
  | auth
  | tooLarge
  | parse
  | saturated
  deriving DecidableEq, Repr

inductive IngestResult where
  | accepted (eventCount : Nat)
  | rejected (reason : RejectReason) (detail : Option String)
  deriving DecidableEq, Repr

/-- The status of the response. -/
def IngestResult.status : IngestResult → Nat
  | .accepted _ => 200
  | .rejected .auth _ => 401
  | .rejected .tooLarge _ => 413
  | .rejected .parse _ => 400
  | .rejected .saturated _ => 503

/-- A delivery: the events it carried and where its `ingest` call is. -/
inductive Delivery where
  | inserting (keys : List Key) (todo : List ParsedEvent) (receivedAt : Int)
      (inserted duplicates : Nat)
  /-- `.error` is a throw, which the server answers with 500. -/
  | settled (keys : List Key) (result : Except String IngestResult)

def Delivery.keys : Delivery → List Key
  | .inserting keys .. => keys
  | .settled keys _ => keys

/-- It holds a permit of the semaphore. -/
def Delivery.inFlight : Delivery → Bool
  | .inserting .. => true
  | .settled .. => false

/-- The receiver has answered 200. -/
def Delivery.Acknowledged : Delivery → Prop
  | .settled _ (.ok (.accepted _)) => True
  | _ => False

instance (d : Delivery) : Decidable d.Acknowledged := by
  unfold Delivery.Acknowledged
  split <;> infer_instance

def reject (reason : RejectReason) (detail : Option String) : Delivery :=
  .settled [] (.ok (.rejected reason detail))

/-- The end of the loop over the events, or the next of its turns. -/
def insertLoop (keys : List Key) (todo : List ParsedEvent) (receivedAt : Int)
    (inserted duplicates : Nat) : Delivery :=
  match todo with
  | [] => .settled keys (.ok (.accepted inserted))
  | _ :: _ => .inserting keys todo receivedAt inserted duplicates

/-- `ingest` up to its first insertion; `inFlight` permits are taken. -/
def ingest (opts : ReceiverOptions) (inFlight : Nat) (req : IncomingRequest) (now : Int) :
    Delivery :=
  match opts.driver.verifyRequest req with
  | some reason => reject .auth (some reason)
  | none =>
      if req.body.length > opts.maxBytes then
        reject .tooLarge (some s!"{req.body.length} > {opts.maxBytes}")
      else if opts.maxConcurrent ≤ inFlight then reject .saturated none
      else
        match opts.driver.parseRawPayload req.body with
        | .error message => reject .parse (some message)
        | .ok parsed =>
            insertLoop (parsed.map fun e => (opts.driver.source, e.id)) parsed now 0 0

/-- One insertion, or what it throws. -/
def insertNext (opts : ReceiverOptions) (o : SqliteOutbox) (keys : List Key)
    (event : ParsedEvent) (todo : List ParsedEvent) (receivedAt : Int)
    (inserted duplicates : Nat) (statement : Option String) : SqliteOutbox × Delivery :=
  match event.json, statement with
  | .error message, _ => (o, .settled keys (.error message))
  | .ok _, some message => (o, .settled keys (.error message))
  | .ok json, none =>
      let row : WebhookEvent :=
        { id := event.id, source := opts.driver.source, receivedAt := receivedAt,
          rawPayload := json }
      let wasNew := (o.find? row.key).isNone
      (o.insert row,
        if wasNew then insertLoop keys todo receivedAt (inserted + 1) duplicates
        else insertLoop keys todo receivedAt inserted (duplicates + 1))

/-! ## Both over one outbox -/

structure Options where
  receiver : ReceiverOptions
  drainer : DrainerOptions

structure State (ε : Type) where
  outbox : SqliteOutbox := {}
  deliveries : List Delivery := []
  drainer : Drainer ε := {}
  /-- What the cycles have done. -/
  log : List (Entry ε) := []

inductive Action (ε : Type) where
  | request (req : IncomingRequest) (now : Int)
  /-- The next insertion of a delivery. -/
  | insert (delivery : Nat) (statement : Option String)
  | start
  | stop
  | stopped (call : Nat)
  | timer (timer : Nat) (now : Int) (statement : Option String)
  | drainOnce (now : Int) (statement : Option String)
  | advance (cycle : Nat) (reply : Reply ε)

variable {ε : Type}

/-- The permits that are taken. -/
def inFlight (deliveries : List Delivery) : Nat := deliveries.countP (·.inFlight)

def insertStep (opts : Options) (st : State ε) (i : Nat) (statement : Option String) :
    Option (State ε) :=
  match st.deliveries[i]? with
  | some (.inserting keys (event :: todo) receivedAt inserted duplicates) =>
      let (outbox, delivery) := insertNext opts.receiver st.outbox keys event todo
        receivedAt inserted duplicates statement
      some { st with outbox := outbox, deliveries := st.deliveries.set i delivery }
  | _ => none

def beginCycle (opts : Options) (st : State ε) (looping : Bool) (now : Int)
    (statement : Option String) : State ε :=
  { st with
    drainer := st.drainer.beginCycle opts.drainer
      (.begin opts.drainer st.outbox looping now statement) }

/-- A timer fires: `runCycle` looks at `stopRequested` first. -/
def timerStep (opts : Options) (st : State ε) (i : Nat) (now : Int)
    (statement : Option String) : Option (State ε) :=
  if i < st.drainer.timers.length then
    let st := { st with
      drainer := { st.drainer with timers := st.drainer.timers.eraseIdx i } }
    if st.drainer.stopRequested then some st
    else some (beginCycle opts st true now statement)
  else none

def advanceStep (opts : Options) (st : State ε) (i : Nat) (reply : Reply ε) :
    Option (State ε) :=
  match st.drainer.cycles[i]? with
  | none => none
  | some c =>
      (c.advance opts.drainer st.outbox st.drainer.stopRequested reply).map
        fun (outbox, entries, c) =>
          { st with
            outbox := outbox
            drainer := st.drainer.putCycle opts.drainer i c
            log := st.log ++ entries }

def step (opts : Options) (st : State ε) : Action ε → Option (State ε)
  | .request req now =>
      some { st with
        deliveries := st.deliveries ++
          [ingest opts.receiver (inFlight st.deliveries) req now] }
  | .insert i statement => insertStep opts st i statement
  | .start => some { st with drainer := st.drainer.start }
  | .stop => some { st with drainer := st.drainer.stop }
  | .stopped call =>
      (st.drainer.stopped call).map fun drainer => { st with drainer := drainer }
  | .timer i now statement => timerStep opts st i now statement
  | .drainOnce now statement => some (beginCycle opts st false now statement)
  | .advance i reply => advanceStep opts st i reply

end Ap3xSolana.Webhooks
