import Ap3xSolana.Core.PublicKey
import Ap3xSolana.Events.ParseLogs
import Ap3xSolana.Lib.OrderedMap

/-!
# `EventDecoderRegistry`

The decoders that are registered, by the base58 text of their program, and the walk of
`decode` over the forest of a transaction log.  `δ` is the type of the decoded events.
-/

namespace Ap3xSolana.Events

open Ap3xSolana.Core Ap3xSolana.Lib

variable {δ : Type}

structure UnknownEventDecode where
  programId : String
  reason : String
  rawLines : Option (List String) := none
  deriving DecidableEq, Repr

/-- What a decoder makes of a chunk: an event of its own, or the record that it does not
know it. -/
inductive DecoderResult (δ : Type) where
  | event (data : δ)
  | unknown (u : UnknownEventDecode)
  deriving DecidableEq, Repr

/-- A decoder that throws gives the message of what it throws. -/
structure ProgramDecoder (δ : Type) where
  decode : ProgramLogChunk → Except String (DecoderResult δ)
  decodeAll : Option (ProgramLogChunk → Except String (List (DecoderResult δ))) := none

inductive EventUnion (δ : Type) where
  | decoded (programId : String) (data : δ)
  | unknown (u : UnknownEventDecode)
  deriving DecidableEq, Repr

structure DecodedEventStream (δ : Type) where
  events : List (EventUnion δ) := []
  unknown : List UnknownEventDecode := []
  parseErrors : List LogParseError := []

namespace DecodedEventStream

def pushDecoded (stream : DecodedEventStream δ) (programId : String) (data : δ) :
    DecodedEventStream δ :=
  { stream with events := stream.events ++ [.decoded programId data] }

def pushUnknown (stream : DecodedEventStream δ) (u : UnknownEventDecode) :
    DecodedEventStream δ :=
  { stream with events := stream.events ++ [.unknown u], unknown := stream.unknown ++ [u] }

/-- One turn of the loop over what the decoder returned; an unknown record is completed
from the chunk. -/
def pushResult (chunk : ProgramLogChunk) (stream : DecodedEventStream δ) :
    DecoderResult δ → DecodedEventStream δ
  | .event data => stream.pushDecoded chunk.programId data
  | .unknown u =>
      stream.pushUnknown
        { programId := if u.programId = "" then chunk.programId else u.programId
          reason := u.reason
          rawLines := some (u.rawLines.getD chunk.rawLines) }

end DecodedEventStream

structure EventDecoderRegistry (δ : Type) where
  decoders : OrderedMap String (ProgramDecoder δ) := OrderedMap.empty

namespace EventDecoderRegistry

/-- Replaces the decoder that the program had. -/
def register (registry : EventDecoderRegistry δ) (programId : String)
    (decoder : ProgramDecoder δ) : EventDecoderRegistry δ :=
  { decoders := registry.decoders.set programId decoder }

def results (decoder : ProgramDecoder δ) (chunk : ProgramLogChunk) :
    Except String (List (DecoderResult δ)) :=
  match decoder.decodeAll with
  | some decodeAll => decodeAll chunk
  | none => (decoder.decode chunk).map fun result => [result]

/-- A chunk without its children. -/
def decodeChunk (registry : EventDecoderRegistry δ) (chunk : ProgramLogChunk)
    (stream : DecodedEventStream δ) : DecodedEventStream δ :=
  match registry.decoders.get? chunk.programId with
  | none =>
      stream.pushUnknown
        { programId := chunk.programId
          reason := "no decoder registered"
          rawLines := some chunk.rawLines }
  | some decoder =>
      match results decoder chunk with
      | .ok results => results.foldl (DecodedEventStream.pushResult chunk) stream
      | .error message =>
          stream.pushUnknown
            { programId := chunk.programId
              reason := s!"decoder threw: {message}"
              rawLines := some chunk.rawLines }

mutual

/-- A chunk comes before its children. -/
def walk (registry : EventDecoderRegistry δ) (stream : DecodedEventStream δ) :
    ProgramLogChunk → DecodedEventStream δ
  | ⟨programId, depth, success, failureReason, logs, dataPayloads, computeUnits, returnData,
      children, rawLines⟩ =>
      registry.walkAll
        (registry.decodeChunk ⟨programId, depth, success, failureReason, logs, dataPayloads,
          computeUnits, returnData, children, rawLines⟩ stream) children

def walkAll (registry : EventDecoderRegistry δ) (stream : DecodedEventStream δ) :
    List ProgramLogChunk → DecodedEventStream δ
  | [] => stream
  | chunk :: chunks => registry.walkAll (registry.walk stream chunk) chunks

end

theorem walk_eq (registry : EventDecoderRegistry δ) (stream : DecodedEventStream δ)
    (chunk : ProgramLogChunk) :
    registry.walk stream chunk =
      registry.walkAll (registry.decodeChunk chunk stream) chunk.children := by
  cases chunk
  rw [walk]

def decode (registry : EventDecoderRegistry δ) (log : TransactionLog) :
    DecodedEventStream δ :=
  { registry.walkAll {} log.chunks with parseErrors := log.parseErrors }

end EventDecoderRegistry

end Ap3xSolana.Events
