import Ap3xSolana.Core.Borsh
import Ap3xSolana.Events.Registry
import Ap3xSolana.Pumpfun.IdlCodec

/-!
# `makeIdlDecoder`

The event decoder of a program, from what its IDL says about events.  The records it makes
are objects, so an event is a map from property names here.
-/

namespace Ap3xSolana.Pumpfun

open Core Lib Events

/-! ## `decodeIdlEvent` -/

def toHex (bytes : List UInt8) : String :=
  bytes.foldl (fun s b => s ++ Borsh.hexByte b.toNat) ""

structure IdlEventSchema where
  name : String
  discriminator : String
  fields : List IdlField
  deriving DecidableEq, Repr

/-- What the event decoder reads of a program's schema. -/
structure IdlProgramEvents where
  events : List IdlEventSchema
  types : String → Option IdlTypeDef

structure DecodedIdlEvent where
  name : String
  fields : String → IdlValue
  complete : Bool

/-- `undefined` where the discriminator is not an event's. -/
def decodeIdlEvent (schema : IdlProgramEvents) (fuel : Nat) (data : List UInt8) :
    Except IdlError (Option DecodedIdlEvent) :=
  if data.length < 8 then .ok none
  else
    match schema.events.find? (·.discriminator = toHex (data.take 8)) with
    | none => .ok none
    | some event =>
        (decodePrefix (decodeValue schema.types fuel) event.fields (fun _ => .undefined)
          ⟨data.drop 8, 0⟩).map fun result => some ⟨event.name, result.1.1, result.1.2⟩

/-! ## `eventKindSuffix` -/

/-- `.replace(/Event$/, '')`. -/
def dropEvent (cs : List Char) : List Char :=
  if "Event".toList.isSuffixOf cs then cs.take (cs.length - 5) else cs

/-- `.replace(/([a-z0-9])([A-Z])/g, '$1_$2')`. -/
def separateWords : List Char → List Char
  | a :: b :: cs =>
      if (a.isLower || a.isDigit) && b.isUpper then a :: '_' :: separateWords (b :: cs)
      else a :: separateWords (b :: cs)
  | cs => cs

/-- An IDL's names are ASCII. -/
def eventKindSuffix (eventName : String) : String :=
  String.ofList ((separateWords (dropEvent eventName.toList)).map Char.toLower)

example : eventKindSuffix "CompletePumpAmmMigrationEvent" = "complete_pump_amm_migration" := by
  decide +kernel

/-! ## Records -/

abbrev IdlEvent := String → IdlValue

/-- `key in object`: the decoder puts no `undefined` into an object. -/
def IdlValue.present : IdlValue → Bool
  | .undefined => false
  | _ => true

/-- `{ kind, ...fields }`: a field of that name replaces the kind. -/
def typedEvent (kind : String) (fields : String → IdlValue) : IdlEvent := fun key =>
  if key = "kind" && !(fields key).present then .string kind else fields key

/-- `{ kind, eventName, fields }`. -/
def otherEvent (kind eventName : String) (fields : String → IdlValue) : IdlEvent := fun key =>
  if key = "kind" then .string kind
  else if key = "eventName" then .string eventName
  else if key = "fields" then .object fields
  else .undefined

inductive KindPrefix where
  | pumpfun
  | pumpswap
  deriving DecidableEq, Repr

def KindPrefix.text : KindPrefix → String
  | .pumpfun => "pumpfun"
  | .pumpswap => "pumpswap"

/-- The options of `makeIdlDecoder`. -/
structure IdlDecoderOptions where
  programId : PublicKey
  schema : IdlProgramEvents
  kindPrefix : KindPrefix
  /-- The required fields of the events that have a kind of their own. -/
  typed : String → Option (List String)

namespace IdlDecoderOptions

variable (opts : IdlDecoderOptions)

def unknown (reason : String) : UnknownEventDecode :=
  { programId := opts.programId.toBase58, reason := reason }

def kind (suffix : String) : String := opts.kindPrefix.text ++ "." ++ suffix

/-- The rest of `decodePayload`, behind `if (!decoded) return undefined`. -/
def record (decoded : DecodedIdlEvent) : DecoderResult IdlEvent :=
  let suffix := eventKindSuffix decoded.name
  match opts.typed suffix with
  | none => .event (otherEvent (opts.kind "other") decoded.name decoded.fields)
  | some required =>
      let missing := required.filter fun f => !(decoded.fields f).present
      if 0 < missing.length then
        .unknown (opts.unknown ("incomplete:" ++ decoded.name ++ ":" ++ ",".intercalate missing))
      else .event (typedEvent (opts.kind suffix) decoded.fields)

/-- `undefined` where the discriminator is not an event's. -/
def decodePayload (fuel : Nat) (data : List UInt8) : Option (DecoderResult IdlEvent) :=
  match decodeIdlEvent opts.schema fuel data with
  | .error e => some (.unknown (opts.unknown ("borsh-parse-error:" ++ e.message)))
  | .ok none => none
  | .ok (some decoded) => some (opts.record decoded)

def unrecognised : Option (List UInt8) → UnknownEventDecode
  | none => opts.unknown "no-data-payload"
  | some data =>
      opts.unknown
        (if data.length < 8 then "truncated-data"
          else "unknown-discriminator:" ++ toHex (data.take 8))

/-- The first payload that is an event. -/
def decode (fuel : Nat) (chunk : ProgramLogChunk) : DecoderResult IdlEvent :=
  (chunk.dataPayloads.findSome? (opts.decodePayload fuel)).getD
    (.unknown (opts.unrecognised chunk.dataPayloads.head?))

/-- Every payload of the invocation. -/
def decodeAll (fuel : Nat) (chunk : ProgramLogChunk) : List (DecoderResult IdlEvent) :=
  if chunk.dataPayloads.length = 0 then [.unknown (opts.unrecognised none)]
  else
    chunk.dataPayloads.map fun data =>
      (opts.decodePayload fuel data).getD (.unknown (opts.unrecognised (some data)))

end IdlDecoderOptions

def makeIdlDecoder (opts : IdlDecoderOptions) (fuel : Nat) : ProgramDecoder IdlEvent :=
  { decode := fun chunk => .ok (opts.decode fuel chunk)
    decodeAll := some fun chunk => .ok (opts.decodeAll fuel chunk) }

end Ap3xSolana.Pumpfun
