import Ap3xSolana.Lib.RecentKeys
import Ap3xSolana.Lib.Run
import Ap3xSolana.Signals.Signal

/-!
# `MemorySignalBus`

The bus as a machine.  Every call of an `emit` shim that gets past the deduplication is
an `Emission`; its loop over the consumers is at the one whose `handle` it awaits.  The
registrations of consumers are numbered, so the live iteration over the map is "the next
registration from `cursor` on".  Producers may call `emit` whenever they have it, with or
without awaiting it, as `wrapSource` does.

What happens is recorded in `events`, in order.
-/

namespace Ap3xSolana.Signals

open Ap3xSolana.Lib

variable {δ : Type}

structure SignalBusOpts where
  dedupWindow : Int := 5000
  dedupTtlMs : Int := 600000
  deriving DecidableEq, Repr

def SignalBusOpts.dedup (opts : SignalBusOpts) : RecentKeys.Options :=
  { window := opts.dedupWindow, ttl := opts.dedupTtlMs }

structure SignalProducer where
  id : String
  source : String
  signalType : String
  signalVersion : String
  deriving DecidableEq, Repr

inductive FilterReply where
  | accepts
  | rejects
  | throws
  deriving DecidableEq, Repr

/-- The filter may remember what it was asked before: it answers for the emission with
the given number. -/
structure SignalConsumer (δ : Type) where
  id : String
  signalType : Option String := none
  versionPin : Option String := none
  filter : Option (Nat → Signal δ → FilterReply) := none

structure VersionMismatchError where
  consumerId : String
  producerId : String
  consumerPin : String
  producerVersion : String
  deriving DecidableEq, Repr

def VersionMismatchError.message (e : VersionMismatchError) : String :=
  s!"Signal version mismatch: consumer \"{e.consumerId}\" pins \"{e.consumerPin}\"; " ++
    s!"producer \"{e.producerId}\" emits \"{e.producerVersion}\""

/-! ## State -/

/-- Where the loop of an `emit` call stands. -/
inductive EmitStage where
  | awaiting (consumer : Nat) (consumerId : String)
  | resolved
  | rejected
  deriving DecidableEq, Repr

/-- The call of the shim that the registration with number `registration` handed out.
`cursor` is the first consumer registration that the loop has not come to; `signal` is
stamped. -/
structure Emission (δ : Type) where
  registration : Nat
  producer : SignalProducer
  signal : Signal δ
  cursor : Nat
  stage : EmitStage

/-- What the bus does, as its surroundings see it.  `emission` is the number of the `emit`
call, `consumer` and `producer` those of registrations. -/
inductive BusEvent where
  | registered (consumer : Nat)
  | dropped (signalId : String)
  | published (emission : Nat)
  | versionMismatch (emission consumer : Nat) (error : VersionMismatchError)
  | handle (emission consumer : Nat)
  | handled (emission consumer : Nat) (threw : Bool)
  | filterThrew (emission consumer : Nat)
  | handlerError (emission consumer : Nat) (consumerId : String)
  | resolved (emission : Nat)
  | rejected (emission : Nat)
  | started (producer : Nat)
  | stopped (producer : Nat)
  | producerError (producerId : String)
  deriving DecidableEq, Repr

/-- A `registerProducer` call; `started` once its `start(emit)` was called. -/
structure ProducerRegistration where
  producer : SignalProducer
  started : Bool := false
  deriving DecidableEq, Repr

structure RegisteredConsumer (δ : Type) where
  ref : Nat
  consumer : SignalConsumer δ

/-- `deferred` are the microtasks that call `start`. -/
structure MemorySignalBus (δ : Type) where
  opts : SignalBusOpts
  registrations : List ProducerRegistration := []
  producers : OrderedMap String Nat := OrderedMap.empty
  deferred : List Nat := []
  consumers : List (RegisteredConsumer δ) := []
  nextConsumer : Nat := 0
  dedup : OrderedMap String Int := OrderedMap.empty
  closed : Bool := false
  emissions : List (Emission δ) := []
  events : List BusEvent := []

def MemorySignalBus.init (δ : Type) (opts : SignalBusOpts) : MemorySignalBus δ :=
  { opts := opts }

/-! ## The loop of `emit` -/

/-- What the loop does with one consumer. -/
inductive Turn where
  | skip
  | mismatch (error : VersionMismatchError)
  | handle
  | throws
  deriving DecidableEq, Repr

/-- The last check of the loop body. -/
def SignalConsumer.filtered (consumer : SignalConsumer δ) (k : Nat) (stamped : Signal δ) :
    Turn :=
  match consumer.filter with
  | none => .handle
  | some filter =>
      match filter k stamped with
      | .accepts => .handle
      | .rejects => .skip
      | .throws => .throws

/-- The checks of the loop body, for the emission with number `k`. -/
def SignalConsumer.turn (consumer : SignalConsumer δ) (producer : SignalProducer) (k : Nat)
    (stamped : Signal δ) : Turn :=
  -- an empty `signalType` is falsy and filters nothing
  if consumer.signalType.any fun t => t ≠ "" ∧ t ≠ producer.signalType then .skip
  else
    match consumer.versionPin with
    | some pin =>
        if some pin ≠ stamped.signalVersion then
          .mismatch
            { consumerId := consumer.id
              producerId := producer.id
              consumerPin := pin
              producerVersion := stamped.signalVersion.getD "" }
        else consumer.filtered k stamped
    | none => consumer.filtered k stamped

/-- The loop over `consumers` up to the next `await`: where it stands then, and the events
of it. -/
def dispatch (producer : SignalProducer) (k : Nat) (stamped : Signal δ) :
    List (RegisteredConsumer δ) → EmitStage × List BusEvent
  | [] => (.resolved, [.resolved k])
  | c :: rest =>
      match c.consumer.turn producer k stamped with
      | .skip => dispatch producer k stamped rest
      | .mismatch error =>
          let (stage, events) := dispatch producer k stamped rest
          (stage, .versionMismatch k c.ref error :: events)
      | .handle => (.awaiting c.ref c.consumer.id, [.handle k c.ref])
      | .throws => (.rejected, [.filterThrew k c.ref, .rejected k])

namespace MemorySignalBus

def record (bus : MemorySignalBus δ) (events : List BusEvent) : MemorySignalBus δ :=
  { bus with events := bus.events ++ events }

/-- The consumers that a loop with this cursor has still to come to. -/
def ahead (bus : MemorySignalBus δ) (cursor : Nat) : List (RegisteredConsumer δ) :=
  bus.consumers.filter (cursor ≤ ·.ref)

/-- The cursor of a loop that awaits, or that is over. -/
def cursorOf (bus : MemorySignalBus δ) : EmitStage → Nat
  | .awaiting consumer _ => consumer + 1
  | _ => bus.nextConsumer

/-- The loop of the emission `k` goes on up to its next `await`. -/
def advance (bus : MemorySignalBus δ) (k : Nat) (em : Emission δ) :
    Emission δ × List BusEvent :=
  let (stage, events) := dispatch em.producer k em.signal (bus.ahead em.cursor)
  ({ em with cursor := bus.cursorOf stage, stage := stage }, events)

/-- The shim stamps the version of the producer where the signal has none. -/
def stamp (producer : SignalProducer) (signal : Signal δ) : Signal δ :=
  if signal.signalVersion = none then
    { signal with signalVersion := some producer.signalVersion }
  else signal

/-- A signal that the shim accepts. -/
def publish (bus : MemorySignalBus δ) (p : Nat) (producer : SignalProducer)
    (signal : Signal δ) : MemorySignalBus δ :=
  let k := bus.emissions.length
  let (em, events) := bus.advance k
    { registration := p
      producer := producer
      signal := stamp producer signal
      cursor := 0
      stage := .resolved }
  { bus with emissions := bus.emissions ++ [em] }.record (.published k :: events)

/-- `emit`. -/
def emit (bus : MemorySignalBus δ) (p : Nat) (producer : SignalProducer) (signal : Signal δ)
    (sweptAt storedAt : Int) : MemorySignalBus δ :=
  if bus.closed then bus
  else
    let (dedup, admitted) := RecentKeys.offer bus.opts.dedup bus.dedup
      { key := signal.signalId, sweptAt := sweptAt, storedAt := storedAt }
    if admitted then { bus with dedup := dedup }.publish p producer signal
    else { bus with dedup := dedup }.record [.dropped signal.signalId]

/-- The `handle` that the emission `k` awaits settles. -/
def settle (bus : MemorySignalBus δ) (k : Nat) (threw : Bool) : Option (MemorySignalBus δ) :=
  match bus.emissions[k]? with
  | none => none
  | some em =>
      match em.stage with
      | .awaiting consumer consumerId =>
          let error : List BusEvent :=
            if threw then [.handlerError k consumer consumerId] else []
          let (em', events) := bus.advance k em
          some (MemorySignalBus.record { bus with emissions := bus.emissions.set k em' }
            (.handled k consumer threw :: error ++ events))
      | _ => none

inductive BusError where
  | closed
  | producerRegistered (id : String)
  | consumerRegistered (id : String)
  deriving DecidableEq, Repr

def BusError.message : BusError → String
  | .closed => "SignalBus is closed"
  | .producerRegistered id => s!"Producer with id \"{id}\" is already registered"
  | .consumerRegistered id => s!"Consumer with id \"{id}\" is already registered"

def registerProducer (bus : MemorySignalBus δ) (producer : SignalProducer) :
    Except BusError (MemorySignalBus δ) :=
  if bus.closed then .error .closed
  else if producer.id ∈ bus.producers.keys then .error (.producerRegistered producer.id)
  else
    let p := bus.registrations.length
    .ok
      { bus with
        registrations := bus.registrations ++ [{ producer := producer }]
        producers := bus.producers.set producer.id p
        deferred := bus.deferred ++ [p] }

/-- The next microtask calls `start`, unless its producer id is gone. -/
def runDeferred (bus : MemorySignalBus δ) : Option (MemorySignalBus δ) :=
  match bus.deferred with
  | [] => none
  | p :: deferred =>
      match bus.registrations[p]? with
      | none => none
      | some registration =>
          let bus := { bus with deferred := deferred }
          if bus.closed ∨ registration.producer.id ∉ bus.producers.keys then some bus
          else
            some ({ bus with
              registrations :=
                bus.registrations.set p { registration with started := true } }.record
                [.started p])

/-- `dispose` of the registration `p` stops whatever producer has its id now. -/
def disposeProducer (bus : MemorySignalBus δ) (p : Nat) : Option (MemorySignalBus δ) :=
  match bus.registrations[p]? with
  | none => none
  | some registration =>
      match bus.producers.get? registration.producer.id with
      | none => some bus
      | some current =>
          some ({ bus with producers := bus.producers.erase registration.producer.id }.record
            [.stopped current])

def registerConsumer (bus : MemorySignalBus δ) (consumer : SignalConsumer δ) :
    Except BusError (MemorySignalBus δ) :=
  if bus.closed then .error .closed
  else if consumer.id ∈ bus.consumers.map (·.consumer.id) then
    .error (.consumerRegistered consumer.id)
  else
    let registered : MemorySignalBus δ :=
      { bus with
        consumers := bus.consumers ++ [{ ref := bus.nextConsumer, consumer := consumer }]
        nextConsumer := bus.nextConsumer + 1 }
    .ok (registered.record [.registered bus.nextConsumer])

/-- `dispose` of a registration with this id removes whatever consumer has the id now. -/
def disposeConsumer (bus : MemorySignalBus δ) (id : String) : MemorySignalBus δ :=
  { bus with consumers := bus.consumers.filter (·.consumer.id ≠ id) }

/-- `close` up to its `await`: every registered producer is stopped. -/
def close (bus : MemorySignalBus δ) : MemorySignalBus δ :=
  if bus.closed then bus
  else { bus with closed := true }.record (bus.producers.values.map .stopped)

/-- The rest of `close`, when the `stop` calls have settled. -/
def clear (bus : MemorySignalBus δ) : Option (MemorySignalBus δ) :=
  if bus.closed then
    some
      { bus with
        producers := OrderedMap.empty
        consumers := []
        dedup := OrderedMap.empty }
  else none

/-! ## Steps -/

inductive BusAction (δ : Type) where
  | registerProducer (producer : SignalProducer)
  | runDeferred
  | startRejects (p : Nat)
  | disposeProducer (p : Nat)
  | registerConsumer (consumer : SignalConsumer δ)
  | disposeConsumer (id : String)
  | emit (p : Nat) (signal : Signal δ) (sweptAt storedAt : Int)
  | settle (k : Nat) (threw : Bool)
  | close
  | clear

/-- A call that throws leaves the bus as it was. -/
def unlessThrown (bus : MemorySignalBus δ) :
    Except BusError (MemorySignalBus δ) → MemorySignalBus δ
  | .ok bus' => bus'
  | .error _ => bus

def step (bus : MemorySignalBus δ) : BusAction δ → Option (MemorySignalBus δ)
  | .registerProducer producer => some (bus.unlessThrown (bus.registerProducer producer))
  | .runDeferred => bus.runDeferred
  | .startRejects p =>
      match bus.registrations[p]? with
      | some registration =>
          if registration.started then
            some (bus.record [.producerError registration.producer.id])
          else none
      | none => none
  | .disposeProducer p => bus.disposeProducer p
  | .registerConsumer consumer => some (bus.unlessThrown (bus.registerConsumer consumer))
  | .disposeConsumer id => some (bus.disposeConsumer id)
  | .emit p signal sweptAt storedAt =>
      match bus.registrations[p]? with
      | some registration =>
          if registration.started then
            some (bus.emit p registration.producer signal sweptAt storedAt)
          else none
      | none => none
  | .settle k threw => bus.settle k threw
  | .close => some bus.close
  | .clear => bus.clear

end MemorySignalBus

end Ap3xSolana.Signals
