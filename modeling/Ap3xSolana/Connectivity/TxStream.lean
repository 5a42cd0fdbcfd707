import Mathlib.Algebra.Ring.Nat

/-!
# WebSocket transaction streams

`openStream` and the variables that its closures share.  A step is one event on a socket
that the stream listens to, the reconnect timer, or a call of `close`; a handler runs in
the middle of a step, and may call `close` there.  `ρ` is the result of a notification,
`π` what `parse` remembers from one notification to the next.
-/

namespace Ap3xSolana.Connectivity.TxStream

/-- A transaction as either stream delivers it. -/
structure StreamedTransaction where
  signature : String
  slot : Nat
  err : Option String
  logs : List String
  deriving DecidableEq, Repr

/-- What a notification comes to: an error, nothing, or a transaction. -/
def Parse (π ρ : Type) := π → String → ρ → π × Except String (Option StreamedTransaction)

/-- The optional handlers; `onTransaction` is always there. -/
structure TxStreamHandlers where
  hasOnReconnect : Bool := true
  hasOnDisconnect : Bool := true
  hasOnError : Bool := true
  deriving DecidableEq, Repr

structure StreamConfig (π ρ : Type) where
  /-- The number of subscriptions. -/
  requests : Nat
  handlers : TxStreamHandlers := {}
  parse : Parse π ρ
  reconnectDelayMs : Nat := 500
  maxReconnectDelayMs : Nat := 30000

/-- A socket.  `listening` says that the listeners of `connect` are still on it. -/
structure Socket where
  acked : Nat := 0
  listening : Bool := true
  deriving DecidableEq, Repr

structure ReconnectTimer where
  id : Nat
  delay : Nat
  deriving DecidableEq, Repr

/-- What others see of the stream. -/
inductive Output where
  | opened (socket : Nat)
  | resolved
  | rejected (error : String)
  | onTransaction (tx : StreamedTransaction) (receivedAt : Int)
  | onReconnect (lastSlot : Option Nat)
  | onDisconnect (error : String)
  | onError (error : String)
  | closeReturned
  deriving DecidableEq, Repr

structure Stream (π : Type) where
  sockets : List Socket := []
  ws : Option Nat := none
  /-- The intervals that still ping. -/
  pings : List Nat := []
  ping : Option Nat := none
  /-- The reconnect timers that are armed. -/
  timers : List ReconnectTimer := []
  retry : Option Nat := none
  /-- The id of the next interval or timer. -/
  nextTimer : Nat := 0
  closed : Bool := false
  started : Bool := false
  attempts : Nat := 0
  lastSlot : Option Nat := none
  parser : π
  trace : List Output := []

/-- A message after `JSON.parse`. -/
inductive Incoming (ρ : Type) where
  | unparseable
  | reply (error : Option (Option String))
  | notification (method : String) (result : ρ)
  | other

/-- What the handler does when the step calls one. -/
structure HandlerRun where
  closes : Bool := false
  throws : Bool := false
  deriving DecidableEq, Repr

inductive Action (ρ : Type) where
  | opened (socket : Nat)
  | message (socket : Nat) (msg : Incoming ρ) (receivedAt : Int) (run : HandlerRun)
  | error (socket : Nat) (err : String) (run : HandlerRun)
  | closed (socket : Nat) (code : Nat) (run : HandlerRun)
  | retryFires (timer : Nat)
  | close

variable {π ρ : Type}

namespace Stream

def emit (st : Stream π) (out : Output) : Stream π := { st with trace := st.trace ++ [out] }

/-- `clearInterval(ping)`. -/
def stopPing (st : Stream π) : Stream π :=
  { st with pings := st.pings.filter fun i => st.ping ≠ some i }

/-- `clearTimeout(retry)`. -/
def stopRetry (st : Stream π) : Stream π :=
  { st with timers := st.timers.filter fun t => st.retry ≠ some t.id }

/-- Takes the listeners off the socket and terminates it. -/
def terminate (st : Stream π) : Stream π :=
  match st.ws with
  | none => st
  | some i => { st with sockets := st.sockets.modify i ({ · with listening := false }) }

def close (st : Stream π) : Stream π :=
  ({ st with closed := true }.stopPing.stopRetry.terminate).emit .closeReturned

/-- Calls a handler that may be missing; the flag says that it threw. -/
def call (st : Stream π) (present : Bool) (out : Output) (run : HandlerRun) :
    Stream π × Bool :=
  if present then
    let st := st.emit out
    (if run.closes then st.close else st, run.throws)
  else (st, false)

/-- `setTimeout(connect, delay)`. -/
def armRetry (cfg : StreamConfig π ρ) (st : Stream π) : Stream π :=
  { st with
    attempts := st.attempts + 1
    timers := st.timers ++
      [{ id := st.nextTimer
         delay := min cfg.maxReconnectDelayMs (cfg.reconnectDelayMs * 2 ^ st.attempts) }]
    retry := some st.nextTimer
    nextTimer := st.nextTimer + 1 }

def fail (cfg : StreamConfig π ρ) (st : Stream π) (err : String) (run : HandlerRun) : Stream π :=
  if st.closed then st
  else
    let st := st.stopPing.terminate
    if ¬ st.started then { st with closed := true }.emit (.rejected err)
    else
      let (st, threw) := st.call cfg.handlers.hasOnDisconnect (.onDisconnect err) run
      if threw then st else st.armRetry cfg

def connect (st : Stream π) : Stream π :=
  { st with sockets := st.sockets ++ [({} : Socket)], ws := some st.sockets.length }.emit
    (.opened st.sockets.length)

/-- The `open` listener. -/
def onOpen (st : Stream π) : Stream π :=
  { st with
    pings := st.pings ++ [st.nextTimer]
    ping := some st.nextTimer
    nextTimer := st.nextTimer + 1 }

/-- A subscription is acknowledged on socket `i`; the last one makes the stream live. -/
def acknowledge (cfg : StreamConfig π ρ) (st : Stream π) (i : Nat) (run : HandlerRun) :
    Stream π :=
  let acked := ((st.sockets[i]?).map (·.acked)).getD 0 + 1
  let st := { st with sockets := st.sockets.modify i ({ · with acked := acked }) }
  if acked < cfg.requests then st
  else
    let st := { st with attempts := 0 }
    if st.started then
      (st.call cfg.handlers.hasOnReconnect (.onReconnect st.lastSlot) run).1
    else { st with started := true }.emit .resolved

/-- The highest slot seen. -/
def see (st : Stream π) (slot : Nat) : Stream π :=
  { st with
    lastSlot := match st.lastSlot with
      | none => some slot
      | some last => some (if slot > last then slot else last) }

/-- The `message` listener of socket `i`. -/
def onMessage (cfg : StreamConfig π ρ) (st : Stream π) (i : Nat) (msg : Incoming ρ)
    (receivedAt : Int) (run : HandlerRun) : Stream π :=
  match msg with
  | .unparseable =>
      (st.call cfg.handlers.hasOnError (.onError "unparseable stream message") run).1
  | .reply (some message) =>
      st.fail cfg ("subscribe rejected: " ++ message.getD "unknown error") run
  | .reply none => st.acknowledge cfg i run
  | .other => st
  | .notification method result =>
      let (parser, parsed) := cfg.parse st.parser method result
      let st := { st with parser := parser }
      match parsed with
      | .error err => (st.call cfg.handlers.hasOnError (.onError err) run).1
      | .ok none => st
      | .ok (some tx) => ((st.see tx.slot).call true (.onTransaction tx receivedAt) run).1

end Stream

/-! ## Steps -/

/-- The socket has its listeners. -/
def hears (st : Stream π) (i : Nat) : Bool := ((st.sockets[i]?).map (·.listening)).getD false

/-- A handler can call `close` once the promise has resolved. -/
def canRun (st : Stream π) (run : HandlerRun) : Bool := !run.closes || st.started

def step (cfg : StreamConfig π ρ) (st : Stream π) : Action ρ → Option (Stream π)
  | .opened i => if hears st i then some st.onOpen else none
  | .message i msg receivedAt run =>
      if hears st i && canRun st run then some (st.onMessage cfg i msg receivedAt run) else none
  | .error i err run =>
      if hears st i && canRun st run then some (st.fail cfg err run) else none
  | .closed i code run =>
      if hears st i && canRun st run then
        some (st.fail cfg ("socket closed (" ++ toString code ++ ")") run)
      else none
  | .retryFires timer =>
      if timer ∈ st.timers.map (·.id) then
        some { st with timers := st.timers.filter (·.id ≠ timer) }.connect
      else none
  | .close => if st.started then some st.close else none

/-- `openStream` connects before it returns the promise. -/
def openStream (parser : π) : Stream π := ({ parser := parser } : Stream π).connect

/-! ## The two parsers -/

/-- An insertion-ordered set that forgets its oldest entries past `capacity`. -/
structure RecentSet where
  capacity : Nat
  items : List String := []
  deriving DecidableEq, Repr

/-- False when `key` was already present. -/
def RecentSet.add (s : RecentSet) (key : String) : RecentSet × Bool :=
  if key ∈ s.items then (s, false)
  else
    let items := s.items ++ [key]
    ({ s with items := if items.length > s.capacity then items.drop 1 else items }, true)

/-- The result of a `logsNotification`. -/
structure LogsResult where
  slot : Nat
  signature : String
  err : Option String
  logs : Option (List String)

/-- A transaction that mentions several programs comes in once for each. -/
def parseLogs : Parse RecentSet LogsResult := fun seen method r =>
  if method ≠ "logsNotification" then (seen, .ok none)
  else
    let (seen, fresh) := seen.add r.signature
    if ¬ fresh then (seen, .ok none)
    else
      (seen, .ok (some { signature := r.signature, slot := r.slot, err := r.err,
                         logs := r.logs.getD [] }))

/-- `subscribeProgramLogs` on `programIds` programs. -/
def programLogs (programIds : Nat) (handlers : TxStreamHandlers) :
    StreamConfig RecentSet LogsResult :=
  { requests := programIds, handlers := handlers, parse := parseLogs }

def openProgramLogs : Stream RecentSet := openStream { capacity := 10000 }

end Ap3xSolana.Connectivity.TxStream
