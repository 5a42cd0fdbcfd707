import Ap3xSolana.Events.RawTraces
import Ap3xSolana.Events.Registry

/-!
# `walkInvocations` and the walk of the registry

Two walks over the tree of a transaction log, written apart: the generator that yields every
chunk with its path, and the recursion of `EventDecoderRegistry.decode`.  Both are in preorder,
so the events are those of the chunks one after the other (`decode_events`).  A chunk makes no
event at all exactly if the `decodeAll` of its decoder returns none (`decode_follows_iff`).
-/

namespace Ap3xSolana.Events

/-- One step of the walk. -/
structure InvocationWalkStep where
  chunk : ProgramLogChunk
  depth : Nat
  path : List String

namespace CpiDecoder

mutual

def go (path : List String) : ProgramLogChunk → List InvocationWalkStep
  | { programId, depth, success, failureReason, logs, dataPayloads, computeUnits, returnData,
      children, rawLines } =>
    { chunk := ⟨programId, depth, success, failureReason, logs, dataPayloads, computeUnits,
        returnData, children, rawLines⟩
      depth := depth
      path := path } :: goAll path children

def goAll (path : List String) : List ProgramLogChunk → List InvocationWalkStep
  | [] => []
  | child :: rest => go (path ++ [child.programId]) child ++ goAll path rest

end

end CpiDecoder

/-- A chunk comes before its children, and these in the order of the trace. -/
def walkInvocations (transactionLog : TransactionLog) : List InvocationWalkStep :=
  CpiDecoder.goAll [] transactionLog.chunks

namespace CpiDecoder

open RawTraces

variable {δ : Type}

/-! ## The order of the walk -/

mutual

theorem go_chunks (path : List String) :
    ∀ chunk, (go path chunk).map (·.chunk) = preorder chunk
  | { children, .. } => by
      rw [go, preorder, List.map_cons, goAll_chunks path children]

theorem goAll_chunks (path : List String) :
    ∀ chunks, (goAll path chunks).map (·.chunk) = preorders chunks
  | [] => rfl
  | child :: rest => by
      rw [goAll, preorders, List.map_append, go_chunks _ child, goAll_chunks path rest]

end

theorem walkInvocations_chunks (log : TransactionLog) :
    (walkInvocations log).map (·.chunk) = preorders log.chunks := goAll_chunks [] log.chunks

/-! ## The events of a chunk -/

/-- What the decoder of a chunk does with it; `none` is that there is no decoder. -/
def outcome (registry : EventDecoderRegistry δ) (chunk : ProgramLogChunk) :
    Option (Except String (List (DecoderResult δ))) :=
  (registry.decoders.get? chunk.programId).map fun decoder =>
    EventDecoderRegistry.results decoder chunk

/-- A result as an event of the chunk. -/
def completed (chunk : ProgramLogChunk) : DecoderResult δ → EventUnion δ
  | .event data => .decoded chunk.programId data
  | .unknown u =>
      .unknown
        { programId := if u.programId = "" then chunk.programId else u.programId
          reason := u.reason
          rawLines := some (u.rawLines.getD chunk.rawLines) }

/-- The events of a chunk, from what its own decoder does. -/
def chunkEvents (chunk : ProgramLogChunk) :
    Option (Except String (List (DecoderResult δ))) → List (EventUnion δ)
  | none =>
      [.unknown
        { programId := chunk.programId
          reason := "no decoder registered"
          rawLines := some chunk.rawLines }]
  | some (.error message) =>
      [.unknown
        { programId := chunk.programId
          reason := s!"decoder threw: {message}"
          rawLines := some chunk.rawLines }]
  | some (.ok results) => results.map (completed chunk)

/-- The events of the chunks of a walk, one chunk after the other. -/
def walkEvents (registry : EventDecoderRegistry δ) (steps : List InvocationWalkStep) :
    List (EventUnion δ) :=
  steps.flatMap fun step => chunkEvents step.chunk (outcome registry step.chunk)

def unknownOf : EventUnion δ → Option UnknownEventDecode
  | .decoded _ _ => none
  | .unknown u => some u

/-- The events in the order of the walk, and every chunk among them. -/
structure FollowsTree (registry : EventDecoderRegistry δ) (log : TransactionLog) : Prop where
  events : (registry.decode log).events = walkEvents registry (walkInvocations log)
  present : ∀ step ∈ walkInvocations log,
    chunkEvents step.chunk (outcome registry step.chunk) ≠ []
  /-- A decoder that throws gives one unknown, for its chunk. -/
  threw : ∀ step ∈ walkInvocations log, ∀ message,
    outcome registry step.chunk = some (.error message) →
      ∃ u, chunkEvents step.chunk (outcome registry step.chunk) = [.unknown u] ∧
        u.programId = step.chunk.programId
  /-- What happens to one chunk leaves the events of all others alone. -/
  apart : ∀ (registry' : EventDecoderRegistry δ) pre step post,
    walkInvocations log = pre ++ step :: post →
    (∀ other ∈ pre ++ post, outcome registry' other.chunk = outcome registry other.chunk) →
    ∃ before after,
      (registry.decode log).events =
        before ++ chunkEvents step.chunk (outcome registry step.chunk) ++ after ∧
      (registry'.decode log).events =
        before ++ chunkEvents step.chunk (outcome registry' step.chunk) ++ after
  named : ∀ u, .unknown u ∈ (registry.decode log).events → u.programId ≠ ""
  unknown : (registry.decode log).unknown = (registry.decode log).events.filterMap unknownOf

/-! ## The walk of the registry -/

/-- Events that are put at the end of a stream. -/
def extend (stream : DecodedEventStream δ) (events : List (EventUnion δ)) :
    DecodedEventStream δ :=
  { stream with
    events := stream.events ++ events
    unknown := stream.unknown ++ events.filterMap unknownOf }

theorem extend_nil (stream : DecodedEventStream δ) : extend stream [] = stream := by
  unfold extend
  rw [List.append_nil, List.filterMap_nil, List.append_nil]

theorem extend_extend (stream : DecodedEventStream δ) (events events' : List (EventUnion δ)) :
    extend (extend stream events) events' = extend stream (events ++ events') := by
  unfold extend
  rw [List.append_assoc, List.append_assoc, List.filterMap_append]

theorem pushDecoded_eq (stream : DecodedEventStream δ) (programId : String) (data : δ) :
    stream.pushDecoded programId data = extend stream [.decoded programId data] := by
  unfold extend DecodedEventStream.pushDecoded
  rw [List.filterMap_cons_none rfl, List.filterMap_nil, List.append_nil]

theorem pushUnknown_eq (stream : DecodedEventStream δ) (u : UnknownEventDecode) :
    stream.pushUnknown u = extend stream [.unknown u] := rfl

theorem pushResult_eq (chunk : ProgramLogChunk) (stream : DecodedEventStream δ)
    (result : DecoderResult δ) :
    DecodedEventStream.pushResult chunk stream result = extend stream [completed chunk result] := by
  cases result with
  | event data => exact pushDecoded_eq stream chunk.programId data
  | unknown u => rfl

theorem pushResults_eq (chunk : ProgramLogChunk) (stream : DecodedEventStream δ)
    (results : List (DecoderResult δ)) :
    results.foldl (DecodedEventStream.pushResult chunk) stream =
      extend stream (results.map (completed chunk)) := by
  induction results generalizing stream with
  | nil => exact (extend_nil stream).symm
  | cons result results ih =>
      rw [List.foldl_cons, ih, pushResult_eq, extend_extend]
      rfl

theorem decodeChunk_eq (registry : EventDecoderRegistry δ) (chunk : ProgramLogChunk)
    (stream : DecodedEventStream δ) :
    registry.decodeChunk chunk stream =
      extend stream (chunkEvents chunk (outcome registry chunk)) := by
  unfold EventDecoderRegistry.decodeChunk outcome
  cases registry.decoders.get? chunk.programId with
  | none => rfl
  | some decoder =>
      rw [Option.map_some]
      cases hresults : EventDecoderRegistry.results decoder chunk with
      | ok results =>
          simp only [hresults]
          exact pushResults_eq chunk stream results
      | error message =>
          simp only [hresults]
          rfl

mutual

theorem walk_extends (registry : EventDecoderRegistry δ) (stream : DecodedEventStream δ) :
    ∀ chunk, registry.walk stream chunk =
      extend stream ((preorder chunk).flatMap fun c => chunkEvents c (outcome registry c))
  | { children, .. } => by
      rw [EventDecoderRegistry.walk, decodeChunk_eq, walkAll_extends registry _ children,
        extend_extend, preorder, List.flatMap_cons]

theorem walkAll_extends (registry : EventDecoderRegistry δ) (stream : DecodedEventStream δ) :
    ∀ chunks, registry.walkAll stream chunks =
      extend stream ((preorders chunks).flatMap fun c => chunkEvents c (outcome registry c))
  | [] => (extend_nil stream).symm
  | chunk :: rest => by
      rw [EventDecoderRegistry.walkAll, walk_extends registry stream chunk,
        walkAll_extends registry _ rest, extend_extend, preorders, List.flatMap_append]

end

theorem decode_eq (registry : EventDecoderRegistry δ) (log : TransactionLog) :
    registry.decode log =
      { extend {} (walkEvents registry (walkInvocations log)) with
        parseErrors := log.parseErrors } := by
  unfold EventDecoderRegistry.decode walkEvents
  rw [walkAll_extends, ← walkInvocations_chunks, List.flatMap_map]

/-- The two walks agree. -/
theorem decode_events (registry : EventDecoderRegistry δ) (log : TransactionLog) :
    (registry.decode log).events = walkEvents registry (walkInvocations log) := by
  rw [decode_eq]
  exact List.nil_append _

theorem decode_unknown (registry : EventDecoderRegistry δ) (log : TransactionLog) :
    (registry.decode log).unknown = (registry.decode log).events.filterMap unknownOf := by
  rw [decode_eq]
  rfl

/-! ## Every chunk has a program -/

/-- The pattern is not that of an `invoke` line. -/
def NotInvoke (read : Option LogLine) : Prop :=
  ∀ programId depth, read ≠ some (.invoke programId depth)

theorem notInvoke_bind {α : Type} {x : Option α} {f : α → Option LogLine}
    (h : ∀ a, NotInvoke (f a)) : NotInvoke (x >>= f) := by
  cases x with
  | none => exact fun _ _ => nofun
  | some a => exact h a

theorem notInvoke_orElse {x y : Option LogLine} (hx : NotInvoke x) (hy : NotInvoke y) :
    NotInvoke (x <|> y) := by
  cases x with
  | none => exact hy
  | some l => exact hx

theorem notInvoke_readers (cs : List Char) :
    NotInvoke (readSuccess cs <|> readFailed cs <|> readLog cs <|> readData cs <|>
      readConsumed cs <|> readReturn cs <|> readConsumption cs) := by
  refine notInvoke_orElse ?_ (notInvoke_orElse ?_ (notInvoke_orElse ?_ (notInvoke_orElse ?_
    (notInvoke_orElse ?_ (notInvoke_orElse ?_ ?_)))))
  · refine notInvoke_bind fun _ => notInvoke_bind fun _ _ _ => ?_
    dsimp only
    split <;> nofun
  · refine notInvoke_bind fun _ => notInvoke_bind fun _ => notInvoke_bind fun _ =>
      notInvoke_bind fun _ _ _ => ?_
    split <;> nofun
  · exact notInvoke_bind fun _ => notInvoke_bind fun _ _ _ => nofun
  · refine notInvoke_bind fun _ => notInvoke_bind fun _ _ _ => ?_
    split <;> nofun
  · refine notInvoke_bind fun _ => notInvoke_bind fun _ => notInvoke_bind fun _ =>
      notInvoke_bind fun _ => notInvoke_bind fun _ => notInvoke_bind fun _ _ _ => ?_
    dsimp only
    split <;> nofun
  · exact notInvoke_bind fun _ => notInvoke_bind fun _ => notInvoke_bind fun _ =>
      notInvoke_bind fun _ _ _ => nofun
  · refine notInvoke_bind fun _ => notInvoke_bind fun _ _ _ => ?_
    dsimp only
    split <;> nofun

theorem readInvoke_of_read {line programId : String} {depth : Nat}
    (h : LogLine.read line = .invoke programId depth) :
    readInvoke line.toList = some (.invoke programId depth) := by
  unfold LogLine.read at h
  dsimp only at h
  cases hread : readInvoke line.toList with
  | some l =>
      rw [hread] at h
      exact congrArg some h
  | none =>
      rw [hread] at h
      have hnot := notInvoke_readers line.toList programId depth
      generalize (readSuccess line.toList <|> readFailed line.toList <|> readLog line.toList <|>
        readData line.toList <|> readConsumed line.toList <|> readReturn line.toList <|>
        readConsumption line.toList) = other at h hnot
      cases other with
      | some l => exact absurd (congrArg some h) hnot
      | none =>
          change (if line = "Log truncated" then LogLine.logTruncated else .unrecognized) = _ at h
          split at h <;> cases h

theorem programId_of_read {line programId : String} {depth : Nat}
    (h : LogLine.read line = .invoke programId depth) : programId ≠ "" := by
  have hread := readInvoke_of_read h
  simp only [readInvoke, readId, Option.bind_eq_bind, Option.bind_eq_some_iff,
    Option.ite_none_right_eq_some, Option.some.injEq, LogLine.invoke.injEq, Prod.exists,
    Prod.mk.injEq] at hread
  obtain ⟨_, -, id, _, ⟨⟨hlength, -⟩, rfl, -⟩, _, -, _, _, -, -, rfl, -⟩ := hread
  intro hempty
  rw [String.ofList_eq_empty_iff.1 hempty] at hlength
  exact Nat.not_succ_le_zero 31 hlength

theorem windows_programId {entries : List (Nat × String)} {w : Window}
    (h : w ∈ windows entries) : w.programId ≠ "" := by
  induction entries with
  | nil => cases h
  | cons entry rest ih =>
      obtain ⟨depth, line⟩ := entry
      rw [windows] at h
      split at h
      · rename_i hread
        rcases List.mem_cons.1 h with rfl | h
        · exact programId_of_read hread
        · exact ih h
      · exact ih h

theorem chunk_programId {lines : List String} {chunk : ProgramLogChunk}
    (h : chunk ∈ preorders (parseLogs lines).chunks) : chunk.programId ≠ "" := by
  have hmem := List.mem_map_of_mem (f := summary) h
  rw [parseLogs_summary] at hmem
  obtain ⟨w, hw, heq⟩ := List.mem_map.1 hmem
  rw [← (Prod.mk.inj heq).1]
  exact windows_programId hw

theorem step_programId {lines : List String} {step : InvocationWalkStep}
    (h : step ∈ walkInvocations (parseLogs lines)) : step.chunk.programId ≠ "" := by
  have hmem : step.chunk ∈ preorders (parseLogs lines).chunks := by
    rw [← walkInvocations_chunks]
    exact List.mem_map_of_mem h
  exact chunk_programId hmem

/-- No event is without a program. -/
theorem chunkEvents_named {chunk : ProgramLogChunk} (hchunk : chunk.programId ≠ "")
    {result : Option (Except String (List (DecoderResult δ)))} {u : UnknownEventDecode}
    (h : .unknown u ∈ chunkEvents chunk result) : u.programId ≠ "" := by
  match result with
  | none =>
      cases List.mem_singleton.1 h
      exact hchunk
  | some (.error message) =>
      cases List.mem_singleton.1 h
      exact hchunk
  | some (.ok results) =>
      obtain ⟨result, -, heq⟩ := List.mem_map.1 h
      cases result with
      | event data => cases heq
      | unknown u' =>
          cases heq
          dsimp only
          split
          · exact hchunk
          · assumption

/-! ## One outcome for each chunk -/

theorem chunkEvents_eq_nil_iff (chunk : ProgramLogChunk)
    (result : Option (Except String (List (DecoderResult δ)))) :
    chunkEvents chunk result = [] ↔ result = some (.ok []) := by
  match result with
  | none => exact iff_of_false (List.cons_ne_nil _ _) nofun
  | some (.error message) => exact iff_of_false (List.cons_ne_nil _ _) nofun
  | some (.ok results) =>
      rw [chunkEvents, List.map_eq_nil_iff]
      exact ⟨fun h => h ▸ rfl, fun h => Except.ok.inj (Option.some.inj h)⟩

theorem decode_split (registry registry' : EventDecoderRegistry δ) {log : TransactionLog}
    {pre post : List InvocationWalkStep} {step : InvocationWalkStep}
    (hwalk : walkInvocations log = pre ++ step :: post)
    (hsame : ∀ other ∈ pre ++ post, outcome registry' other.chunk = outcome registry other.chunk) :
    ∃ before after,
      (registry.decode log).events =
        before ++ chunkEvents step.chunk (outcome registry step.chunk) ++ after ∧
      (registry'.decode log).events =
        before ++ chunkEvents step.chunk (outcome registry' step.chunk) ++ after := by
  have hgroups : ∀ steps : List InvocationWalkStep, (∀ other ∈ steps, other ∈ pre ++ post) →
      walkEvents registry' steps = walkEvents registry steps :=
    fun steps hsteps => List.flatMap_congr fun other hother => by
      rw [hsame other (hsteps other hother)]
  have hpre := hgroups pre fun other h => List.mem_append_left _ h
  have hpost := hgroups post fun other h => List.mem_append_right _ h
  have hsplit : ∀ reg : EventDecoderRegistry δ, (reg.decode log).events =
      walkEvents reg pre ++ chunkEvents step.chunk (outcome reg step.chunk) ++
        walkEvents reg post := by
    intro reg
    rw [decode_events, hwalk, walkEvents, List.flatMap_append, List.flatMap_cons,
      ← List.append_assoc]
    rfl
  refine ⟨walkEvents registry pre, walkEvents registry post, hsplit registry, ?_⟩
  rw [hsplit, hpre, hpost]

/-- **Decoding follows the tree.**  It does, with an outcome for every chunk, exactly if no
`decodeAll` returns an empty list for a chunk of the tree. -/
theorem decode_follows_iff (registry : EventDecoderRegistry δ) (lines : List String) :
    FollowsTree registry (parseLogs lines) ↔
      ∀ step ∈ walkInvocations (parseLogs lines),
        outcome registry step.chunk ≠ some (.ok []) := by
  constructor
  · intro h step hstep hnone
    exact h.present step hstep ((chunkEvents_eq_nil_iff step.chunk _).2 hnone)
  · intro h
    refine ⟨decode_events registry _, ?_, ?_, ?_, ?_, decode_unknown registry _⟩
    · intro step hstep hnil
      exact h step hstep ((chunkEvents_eq_nil_iff step.chunk _).1 hnil)
    · intro step _ message hthrew
      rw [hthrew]
      exact ⟨_, rfl, rfl⟩
    · exact fun registry' pre step post hwalk hsame => decode_split registry registry' hwalk hsame
    · intro u hu
      rw [decode_events] at hu
      obtain ⟨step, hstep, hu⟩ := List.mem_flatMap.1 hu
      exact chunkEvents_named (step_programId hstep) hu

/-- A decoder that has nothing to say. -/
def silentRegistry : EventDecoderRegistry Unit :=
  EventDecoderRegistry.register {} "11111111111111111111111111111111"
    { decode := fun _ => .ok (.event ()), decodeAll := some fun _ => .ok [] }

/-- Its chunk makes no event. -/
theorem silent_not_follows : ¬ FollowsTree silentRegistry (parseLogs [opens "1", succeeds]) := by
  intro h
  have hstep : ∃ step ∈ walkInvocations (parseLogs [opens "1", succeeds]),
      outcome silentRegistry step.chunk = some (.ok []) := by
    refine ⟨_, List.mem_cons_self, ?_⟩
    rfl
  obtain ⟨step, hmem, hnone⟩ := hstep
  exact h.present step hmem (by rw [hnone]; rfl)

end CpiDecoder

end Ap3xSolana.Events
