import Ap3xSolana.Events.LogForest

/-!
# The log tree round trip

The innermost open invocation takes in its events one by one, so the lines of a list of
events change the top of the stack only (`lines_events`).  A line that no pattern matches
leaves a parse error behind, and then the log is not read back.
-/

namespace Ap3xSolana.Events.LogForest

/-! ## What an open invocation takes in -/

def took (chunk : ProgramLogChunk) (depth : Nat) (events : List Event) : ProgramLogChunk :=
  { chunk with
    logs := chunk.logs ++ messages events
    dataPayloads := chunk.dataPayloads ++ payloads events
    computeUnits := (lastUnits events).or chunk.computeUnits
    returnData := (lastReturn events).or chunk.returnData
    children := chunk.children ++ chunksOf depth events
    rawLines := chunk.rawLines ++ trace chunk.programId depth events }

attribute [local simp] messages payloads lastUnits lastReturn chunksOf chunkOf trace

theorem took_nil (chunk : ProgramLogChunk) (depth : Nat) : took chunk depth [] = chunk := by
  unfold took
  simp only [messages, payloads, lastUnits, lastReturn, chunksOf, trace, List.append_nil,
    Option.none_or]
  cases chunk
  rfl

theorem took_log (chunk : ProgramLogChunk) (depth : Nat) (message : String)
    (rest : List Event) :
    took (({ chunk with logs := chunk.logs ++ [message] } : ProgramLogChunk).push
      (logLine message)) depth rest = took chunk depth (.log message :: rest) := by
  unfold took ProgramLogChunk.push
  simp only [messages, payloads, lastUnits, lastReturn, chunksOf, chunkOf, trace, List.append_assoc,
    List.singleton_append, List.nil_append]

theorem took_data (chunk : ProgramLogChunk) (depth : Nat) (slices : List (List UInt8))
    (rest : List Event) :
    took (({ chunk with
      dataPayloads := chunk.dataPayloads ++ [slices.flatten] } : ProgramLogChunk).push
        (dataLine slices)) depth rest = took chunk depth (.data slices :: rest) := by
  unfold took ProgramLogChunk.push
  simp only [messages, payloads, lastUnits, lastReturn, chunksOf, chunkOf, trace, List.append_assoc,
    List.singleton_append, List.nil_append]

theorem took_consumed (chunk : ProgramLogChunk) (depth : Nat) (units : ComputeUnits)
    (rest : List Event) :
    took (({ chunk with computeUnits := some units } : ProgramLogChunk).push
      (consumedLine chunk.programId units)) depth rest =
        took chunk depth (.consumed units :: rest) := by
  unfold took ProgramLogChunk.push
  simp only [messages, payloads, lastUnits, lastReturn, chunksOf, chunkOf, trace, List.append_assoc,
    List.singleton_append, List.nil_append, Option.or_assoc, Option.some_or]

theorem took_returned (chunk : ProgramLogChunk) (depth : Nat) (bytes : List UInt8)
    (rest : List Event) :
    took (({ chunk with returnData := some bytes } : ProgramLogChunk).push
      (returnLine chunk.programId bytes)) depth rest =
        took chunk depth (.returned bytes :: rest) := by
  unfold took ProgramLogChunk.push
  simp only [messages, payloads, lastUnits, lastReturn, chunksOf, chunkOf, trace, List.append_assoc,
    List.singleton_append, List.nil_append, Option.or_assoc, Option.some_or]

/-- The chunk of an invocation, as its first line makes it. -/
def opened (programId : String) (depth : Nat) : ProgramLogChunk :=
  { programId := programId, depth := depth, success := false,
    rawLines := [invokeLine programId depth] }

/-- What its last line does. -/
def settle (outcome : Outcome) (chunk : ProgramLogChunk) : ProgramLogChunk :=
  match outcome with
  | .success => { chunk with success := true }
  | .failed reason => { chunk with success := false, failureReason := some reason }

/-- Opened, filled and closed. -/
theorem settled_eq (programId : String) (depth : Nat) (events : List Event) (outcome : Outcome) :
    [(settle outcome (took (opened programId (depth + 1)) (depth + 1) events)).push
      (outcomeLine programId outcome)] = chunkOf depth (.invoke programId events outcome) := by
  unfold took opened settle ProgramLogChunk.push
  cases outcome <;> simp [failureReason, Option.or_none]

theorem took_invoke (chunk : ProgramLogChunk) (depth : Nat) (programId : String)
    (events : List Event) (outcome : Outcome) (rest : List Event) :
    took { (chunk.push (invokeLine programId (depth + 1))).push (outcomeLine programId outcome) with
      children := chunk.children ++
        [(settle outcome (took (opened programId (depth + 1)) (depth + 1) events)).push
          (outcomeLine programId outcome)] } depth rest =
      took chunk depth (.invoke programId events outcome :: rest) := by
  rw [settled_eq]
  unfold took
  simp only [ProgramLogChunk.push, messages, payloads, lastUnits, lastReturn, trace, chunksOf,
    List.append_assoc, List.singleton_append]
  rfl

/-! ## One line -/

theorem lines_append (st : ParseState) (i : Nat) (xs ys : List String) :
    st.lines i (xs ++ ys) = (st.lines i xs).lines (i + xs.length) ys := by
  induction xs generalizing st i with
  | nil => rfl
  | cons line xs ih =>
      show (st.line i line).lines (i + 1) (xs ++ ys) = _
      rw [ih]
      show _ = ((st.line i line).lines (i + 1) xs).lines (i + (xs.length + 1)) ys
      congr 1
      omega

/-- The state with another stack. -/
def onStack (st : ParseState) (stack : List ProgramLogChunk) : ParseState :=
  { st with stack := stack }

theorem mapM_decode (slices : List (List UInt8)) :
    (slices.map fun slice => String.ofList (encodeBase64 slice)).mapM decodeBase64Data =
      .ok slices := by
  induction slices with
  | nil => rfl
  | cons slice rest ih =>
      rw [List.map_cons, List.mapM_cons, decode_encodeBase64, ih]
      rfl

variable (st : ParseState) (chunk : ProgramLogChunk) (rest : List ProgramLogChunk) (i : Nat)

theorem line_log {message : String} (hone : OneLine message) :
    (onStack st (chunk :: rest)).line i (logLine message) = onStack st
      (({ chunk with logs := chunk.logs ++ [message] } : ProgramLogChunk).push
        (logLine message) :: rest) := by
  unfold ParseState.line
  rw [read_log hone]
  rfl

theorem line_data {slices : List (List UInt8)} (hne : slices ≠ [])
    (hfull : ∀ slice ∈ slices, slice ≠ []) :
    (onStack st (chunk :: rest)).line i (dataLine slices) = onStack st
      (({ chunk with dataPayloads := chunk.dataPayloads ++ [slices.flatten] } :
        ProgramLogChunk).push (dataLine slices) :: rest) := by
  unfold ParseState.line
  rw [read_data hne hfull]
  show ParseState.dataLine _ _ _ _ = _
  unfold ParseState.dataLine
  rw [mapM_decode]
  rfl

theorem line_consumed (hid : ValidId chunk.programId) (units : ComputeUnits) :
    (onStack st (chunk :: rest)).line i (consumedLine chunk.programId units) = onStack st
      (({ chunk with computeUnits := some units } : ProgramLogChunk).push
        (consumedLine chunk.programId units) :: rest) := by
  have hhead : (onStack st (chunk :: rest)).stack.head?.map (·.programId) =
      some chunk.programId := rfl
  unfold ParseState.line
  rw [read_consumed hid]
  dsimp only
  rw [if_pos hhead]
  rfl

theorem line_returned (hid : ValidId chunk.programId) (bytes : List UInt8) :
    (onStack st (chunk :: rest)).line i (returnLine chunk.programId bytes) = onStack st
      (({ chunk with returnData := some bytes } : ProgramLogChunk).push
        (returnLine chunk.programId bytes) :: rest) := by
  have hhead : (onStack st (chunk :: rest)).stack.head?.map (·.programId) =
      some chunk.programId := rfl
  unfold ParseState.line
  rw [read_return hid]
  dsimp only
  rw [if_pos hhead]
  unfold ParseState.returnLine
  rw [decode_encodeBase64]
  rfl

theorem line_invoke (stack : List ProgramLogChunk) {programId : String}
    (hid : ValidId programId) (depth : Nat) :
    (onStack st stack).line i (invokeLine programId depth) = onStack st
      (opened programId depth :: stack.modifyHead (·.push (invokeLine programId depth))) := by
  unfold ParseState.line
  rw [read_invoke hid]
  rfl

/-- The line that ends the innermost invocation. -/
theorem line_outcome (hid : ValidId chunk.programId) {outcome : Outcome}
    (hwf : outcome.WellFormed) (hprint : outcome.Printable) :
    (onStack st (chunk :: rest)).line i (outcomeLine chunk.programId outcome) =
      (onStack st (chunk :: rest)).closeChunk (outcomeLine chunk.programId outcome)
        (settle outcome) := by
  have hterminate : ∀ marker f, (onStack st (chunk :: rest)).terminate i
      (outcomeLine chunk.programId outcome) marker chunk.programId f =
        (onStack st (chunk :: rest)).closeChunk (outcomeLine chunk.programId outcome) f := by
    intro marker f
    show ParseState.closeChunk (if chunk.programId ≠ chunk.programId then _ else _) _ _ = _
    rw [if_neg (not_not.2 rfl)]
  unfold ParseState.line
  cases outcome with
  | success =>
      rw [read_success hid]
      exact hterminate _ _
  | failed reason =>
      rw [read_failed hid hwf hprint]
      exact hterminate _ _

/-! ## The events of an invocation -/

/-- An invocation and its events, from its first line to its last one. -/
theorem lines_invocation (stack : List ProgramLogChunk) {programId : String} (depth : Nat)
    {events : List Event} {outcome : Outcome} (hid : ValidId programId)
    (hwf : outcome.WellFormed) (hprint : outcome.Printable)
    (hevents : ∀ (rest : List ProgramLogChunk) (i : Nat),
      (onStack st (opened programId (depth + 1) :: rest)).lines i
          (renderEvents programId (depth + 1) events) =
        onStack st (took (opened programId (depth + 1)) (depth + 1) events :: rest)) :
    (onStack st stack).lines i (renderEvent "" depth (.invoke programId events outcome)) =
      (onStack st (took (opened programId (depth + 1)) (depth + 1) events ::
        stack.modifyHead (·.push (invokeLine programId (depth + 1))))).closeChunk
          (outcomeLine programId outcome) (settle outcome) := by
  rw [renderEvent, ParseState.lines, line_invoke st i stack hid, lines_append, hevents]
  exact line_outcome st (took (opened programId (depth + 1)) (depth + 1) events) _ _ hid hwf
    hprint

/-- Printable events change the innermost invocation only, and it takes them in. -/
theorem lines_events : ∀ (events : List Event) (chunk : ProgramLogChunk)
    (rest : List ProgramLogChunk) (i depth : Nat), ValidId chunk.programId →
    WellFormedEvents events → PrintableEvents events →
    (onStack st (chunk :: rest)).lines i (renderEvents chunk.programId depth events) =
      onStack st (took chunk depth events :: rest)
  | [], chunk, rest, i, depth, _, _, _ => by
      rw [took_nil]
      rfl
  | .log message :: more, chunk, rest, i, depth, hid, hwf, hprint => by
      rw [renderEvents, renderEvent, List.singleton_append, ParseState.lines,
        line_log st chunk rest i hprint.1, ← took_log]
      exact lines_events more _ rest (i + 1) depth hid hwf.2 hprint.2
  | .data slices :: more, chunk, rest, i, depth, hid, hwf, hprint => by
      rw [renderEvents, renderEvent, List.singleton_append, ParseState.lines,
        line_data st chunk rest i hwf.1 hprint.1, ← took_data]
      exact lines_events more _ rest (i + 1) depth hid hwf.2 hprint.2
  | .consumed units :: more, chunk, rest, i, depth, hid, hwf, hprint => by
      rw [renderEvents, renderEvent, List.singleton_append, ParseState.lines,
        line_consumed st chunk rest i hid, ← took_consumed]
      exact lines_events more _ rest (i + 1) depth hid hwf.2 hprint.2
  | .returned bytes :: more, chunk, rest, i, depth, hid, hwf, hprint => by
      rw [renderEvents, renderEvent, List.singleton_append, ParseState.lines,
        line_returned st chunk rest i hid, ← took_returned]
      exact lines_events more _ rest (i + 1) depth hid hwf.2 hprint.2
  | .invoke programId events outcome :: more, chunk, rest, i, depth, hid, hwf, hprint => by
      obtain ⟨⟨hchild, hevents, houtcome⟩, hmore⟩ := hwf
      obtain ⟨⟨hprintEvents, hprintOutcome⟩, hprintMore⟩ := hprint
      show (onStack st (chunk :: rest)).lines i
        (renderEvent "" depth (.invoke programId events outcome) ++
          renderEvents chunk.programId depth more) = _
      rw [lines_append, lines_invocation st i _ depth hchild houtcome hprintOutcome
        fun rest' i' => lines_events events _ rest' i' (depth + 1) hchild hevents hprintEvents,
        ← took_invoke]
      exact lines_events more _ rest _ depth hid hmore hprintMore

/-- The invocations of a forest become the roots. -/
theorem lines_forest (forest : List Invocation) (hwf : WellFormed forest)
    (hprint : Printable forest) :
    (onStack st []).lines i (render forest) =
      onStack { st with roots := st.roots ++ chunksOf 0 (forest.map Invocation.event) } [] := by
  induction forest generalizing st i with
  | nil =>
      show onStack st [] = onStack { st with roots := st.roots ++ [] } []
      rw [List.append_nil]
  | cons inv forest ih =>
      obtain ⟨⟨hid, hevents, houtcome⟩, hmore⟩ := hwf
      obtain ⟨⟨hprintEvents, hprintOutcome⟩, hprintMore⟩ := hprint
      show (onStack st []).lines i (renderEvent "" 0 inv.event ++ render forest) = _
      rw [lines_append, Invocation.event, lines_invocation st i [] 0 hid houtcome hprintOutcome
        fun rest' i' => lines_events st inv.events _ rest' i' 1 hid hevents hprintEvents]
      have hclose : (onStack st (took (opened inv.programId 1) 1 inv.events ::
          [].modifyHead (·.push (invokeLine inv.programId 1)))).closeChunk
            (outcomeLine inv.programId inv.outcome) (settle inv.outcome) =
          onStack { st with roots := st.roots ++ chunkOf 0 inv.event } [] := by
        unfold Invocation.event
        rw [← settled_eq]
        rfl
      have hchunks : chunksOf 0 ((inv :: forest).map Invocation.event) =
          chunkOf 0 inv.event ++ chunksOf 0 (forest.map Invocation.event) := rfl
      rw [hclose, ih _ _ hmore hprintMore, hchunks, ← List.append_assoc]

/-! ## Lines that nothing matches -/

/-- Parse errors stay. -/
theorem line_errors (st : ParseState) (i : Nat) (line : String) :
    ∃ more, (st.line i line).parseErrors = st.parseErrors ++ more := by
  have hclose : ∀ (st : ParseState) f, (st.closeChunk line f).parseErrors = st.parseErrors := by
    intro st f
    unfold ParseState.closeChunk
    split <;> rfl
  have hterminate : ∀ marker programId f, ∃ more,
      (st.terminate i line marker programId f).parseErrors = st.parseErrors ++ more := by
    intro marker programId f
    unfold ParseState.terminate
    split
    · exact ⟨_, rfl⟩
    · dsimp only
      rw [hclose]
      split
      · exact ⟨_, rfl⟩
      · exact ⟨[], (List.append_nil _).symm⟩
  unfold ParseState.line
  split
  · exact ⟨[], (List.append_nil _).symm⟩
  · exact hterminate _ _ _
  · exact hterminate _ _ _
  · exact ⟨_, rfl⟩
  · exact ⟨[], (List.append_nil _).symm⟩
  · exact ⟨_, rfl⟩
  · unfold ParseState.dataLine
    split
    · exact ⟨[], (List.append_nil _).symm⟩
    · exact ⟨_, rfl⟩
  · split
    · exact ⟨[], (List.append_nil _).symm⟩
    · exact ⟨_, rfl⟩
  · split
    · unfold ParseState.returnLine
      split
      · exact ⟨[], (List.append_nil _).symm⟩
      · exact ⟨_, rfl⟩
    · exact ⟨_, rfl⟩
  · exact ⟨[], (List.append_nil _).symm⟩
  · exact ⟨[], (List.append_nil _).symm⟩
  · exact ⟨_, rfl⟩

theorem lines_errors (logs : List String) (st : ParseState) (i : Nat) :
    ∃ more, (st.lines i logs).parseErrors = st.parseErrors ++ more := by
  induction logs generalizing st i with
  | nil => exact ⟨[], (List.append_nil _).symm⟩
  | cons line logs ih =>
      obtain ⟨first, hfirst⟩ := line_errors st i line
      obtain ⟨more, hmore⟩ := ih (st.line i line) (i + 1)
      refine ⟨first ++ more, ?_⟩
      show ((st.line i line).lines (i + 1) logs).parseErrors = _
      rw [hmore, hfirst, List.append_assoc]

theorem errors_of_unrecognized {logs : List String} {line : String} (hmem : line ∈ logs)
    (hread : LogLine.read line = .unrecognized) : (parseLogs logs).parseErrors ≠ [] := by
  obtain ⟨before, after, rfl⟩ := List.append_of_mem hmem
  show (ParseState.lines {} 0 (before ++ line :: after)).parseErrors ≠ []
  rw [lines_append]
  show ((ParseState.line _ _ line).lines _ after).parseErrors ≠ []
  obtain ⟨more, hmore⟩ := lines_errors after
    ((ParseState.lines {} 0 before).line (0 + before.length) line) (0 + before.length + 1)
  rw [hmore]
  unfold ParseState.line
  rw [hread]
  show (_ ++ [_]) ++ _ ≠ []
  rw [List.append_assoc]
  exact List.append_ne_nil_of_right_ne_nil _ nofun

/-- What is not printable makes a line that nothing matches. -/
theorem unrecognized_of_broken : ∀ (events : List Event) (programId : String) (depth : Nat),
    WellFormedEvents events → ¬ PrintableEvents events →
    ∃ line ∈ renderEvents programId depth events, LogLine.read line = .unrecognized
  | [], _, _, _, hnot => absurd trivial hnot
  | .log message :: more, programId, depth, hwf, hnot => by
      by_cases hone : OneLine message
      · obtain ⟨line, hline, hread⟩ := unrecognized_of_broken more programId depth hwf.2
          fun hprint => hnot ⟨hone, hprint⟩
        exact ⟨line, List.mem_cons_of_mem _ hline, hread⟩
      · exact ⟨logLine message, List.mem_cons_self, read_log_broken hone⟩
  | .data slices :: more, programId, depth, hwf, hnot => by
      by_cases hfull : ∀ slice ∈ slices, slice ≠ []
      · obtain ⟨line, hline, hread⟩ := unrecognized_of_broken more programId depth hwf.2
          fun hprint => hnot ⟨hfull, hprint⟩
        exact ⟨line, List.mem_cons_of_mem _ hline, hread⟩
      · push Not at hfull
        exact ⟨dataLine slices, List.mem_cons_self, read_data_broken hwf.1 hfull⟩
  | .consumed units :: more, programId, depth, hwf, hnot => by
      obtain ⟨line, hline, hread⟩ := unrecognized_of_broken more programId depth hwf.2
        fun hprint => hnot ⟨trivial, hprint⟩
      exact ⟨line, List.mem_cons_of_mem _ hline, hread⟩
  | .returned bytes :: more, programId, depth, hwf, hnot => by
      obtain ⟨line, hline, hread⟩ := unrecognized_of_broken more programId depth hwf.2
        fun hprint => hnot ⟨trivial, hprint⟩
      exact ⟨line, List.mem_cons_of_mem _ hline, hread⟩
  | .invoke child events outcome :: more, programId, depth, hwf, hnot => by
      obtain ⟨⟨hid, hevents, houtcome⟩, hmore⟩ := hwf
      by_cases hinner : PrintableEvents events
      · by_cases hend : outcome.Printable
        · obtain ⟨line, hline, hread⟩ := unrecognized_of_broken more programId depth hmore
            fun hprint => hnot ⟨⟨hinner, hend⟩, hprint⟩
          exact ⟨line, List.mem_append_right _ hline, hread⟩
        · cases outcome with
          | success => exact absurd trivial hend
          | failed reason =>
              refine ⟨outcomeLine child (.failed reason), ?_, read_failed_broken hid hend⟩
              exact List.mem_append_left _
                (List.mem_cons_of_mem _ (List.mem_append_right _ List.mem_cons_self))
      · obtain ⟨line, hline, hread⟩ := unrecognized_of_broken events child (depth + 1) hevents
          hinner
        exact ⟨line, List.mem_append_left _
          (List.mem_cons_of_mem _ (List.mem_append_left _ hline)), hread⟩

/-- A well-formed forest is read back exactly if no message and no reason has a line
terminator in it and no slice is empty. -/
theorem parseLogs_render (forest : List Invocation) (hwf : WellFormed forest) :
    parseLogs (render forest) = expected forest ↔ Printable forest := by
  constructor
  · intro heq
    by_contra hnot
    obtain ⟨line, hline, hread⟩ := unrecognized_of_broken _ "" 0 hwf hnot
    exact errors_of_unrecognized hline hread (congrArg TransactionLog.parseErrors heq)
  · intro hprint
    unfold parseLogs
    have hlines : ParseState.lines {} 0 (render forest) = _ := lines_forest {} 0 forest hwf hprint
    rw [hlines]
    show TransactionLog.mk (([] ++ chunksOf 0 (forest.map Invocation.event)) ++ []) [] false = _
    rw [List.append_nil]
    rfl

/-! ## A message of two lines, and an empty slice -/

def systemProgram : String := "11111111111111111111111111111111"

/-- Checked character by character. -/
theorem validId_of_all {programId : String} (h : programId.toList.all isIdChar = true)
    (hshort : 32 ≤ programId.toList.length) (hlong : programId.toList.length ≤ 44) :
    ValidId programId :=
  ⟨List.all_eq_true.1 h, hshort, hlong⟩

theorem validId_systemProgram : ValidId systemProgram := by
  apply validId_of_all <;> decide +kernel

def twoLines : List Invocation := [⟨systemProgram, [.log "a\nb"], .success⟩]

def emptySlice : List Invocation := [⟨systemProgram, [.data [[1, 2], []]], .success⟩]

/-- Both are well formed, and neither is read back: their line is reported. -/
theorem twoLines_not_read :
    (WellFormed twoLines ∧ parseLogs (render twoLines) ≠ expected twoLines) ∧
      WellFormed emptySlice ∧ parseLogs (render emptySlice) ≠ expected emptySlice := by
  have hwf : WellFormed twoLines := ⟨⟨validId_systemProgram, ⟨trivial, trivial⟩, trivial⟩, trivial⟩
  have hwf' : WellFormed emptySlice := ⟨⟨validId_systemProgram, ⟨nofun, trivial⟩, trivial⟩, trivial⟩
  refine ⟨⟨hwf, fun heq => ?_⟩, hwf', fun heq => ?_⟩
  · have herrors := congrArg TransactionLog.parseErrors heq
    exact absurd herrors (by decide +kernel)
  · have herrors := congrArg TransactionLog.parseErrors heq
    exact absurd herrors (by decide +kernel)

/-- An invocation in an invocation, with one line of each kind. -/
def nested : List Invocation :=
  [⟨systemProgram,
    [.log "Program data: AQI=", .data [[1, 2], [3]], .consumed ⟨150, 200000⟩, .returned [],
      .invoke "TokenkegQfeZyiNwAJbNbGKPFXCWuBvf9Ss623VQ5DA"
        [.log "Instruction: Transfer"] (.failed "custom program error: 0x1")],
    .success⟩]

theorem parseLogs_render_nested :
    parseLogs (render nested) = expected nested ↔ Printable nested := by
  refine parseLogs_render nested ⟨⟨validId_systemProgram, ?_, trivial⟩, trivial⟩
  refine ⟨trivial, nofun, ?_, trivial, ⟨?_, ⟨trivial, trivial⟩, ?_⟩, trivial⟩
  · exact ⟨by decide, by decide⟩
  · apply validId_of_all <;> decide +kernel
  · show "custom program error: 0x1" ≠ ""
    decide

end Ap3xSolana.Events.LogForest
