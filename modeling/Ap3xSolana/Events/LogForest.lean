import Ap3xSolana.Events.Base64

/-!
# Logs of well-formed forests

The runtime prints a forest of invocations, and `parseLogs` reads it back.  `.` and the
non-empty fields of the line patterns decide for which forests: a message or a reason may
not contain a line terminator, and no slice of a data line may be empty
(`parseLogs_render`).
-/

namespace Ap3xSolana.Events.LogForest

/-! ## Forests -/

inductive Outcome where
  | success
  | failed (reason : String)
  deriving DecidableEq

/-- What happens in an invocation. -/
inductive Event where
  | log (message : String)
  | data (slices : List (List UInt8))
  | consumed (units : ComputeUnits)
  | returned (bytes : List UInt8)
  | invoke (programId : String) (events : List Event) (outcome : Outcome)

structure Invocation where
  programId : String
  events : List Event
  outcome : Outcome

def Invocation.event (inv : Invocation) : Event := .invoke inv.programId inv.events inv.outcome

/-! ## What the runtime prints -/

def invokeLine (programId : String) (depth : Nat) : String :=
  "Program " ++ programId ++ " invoke [" ++ toString depth ++ "]"

def outcomeLine (programId : String) : Outcome → String
  | .success => "Program " ++ programId ++ " success"
  | .failed reason => "Program " ++ programId ++ " failed: " ++ reason

def logLine (message : String) : String := "Program log: " ++ message

def dataLine (slices : List (List UInt8)) : String :=
  "Program data: " ++ String.ofList ([' '].intercalate (slices.map encodeBase64))

def consumedLine (programId : String) (units : ComputeUnits) : String :=
  "Program " ++ programId ++ " consumed " ++ toString units.consumed ++ " of " ++
    toString units.limit ++ " compute units"

def returnLine (programId : String) (bytes : List UInt8) : String :=
  "Program return: " ++ programId ++ " " ++ String.ofList (encodeBase64 bytes)

mutual

/-- The lines of an event of `programId`, which runs at `depth`. -/
def renderEvent (programId : String) (depth : Nat) : Event → List String
  | .log message => [logLine message]
  | .data slices => [dataLine slices]
  | .consumed units => [consumedLine programId units]
  | .returned bytes => [returnLine programId bytes]
  | .invoke child events outcome =>
      invokeLine child (depth + 1) ::
        (renderEvents child (depth + 1) events ++ [outcomeLine child outcome])

def renderEvents (programId : String) (depth : Nat) : List Event → List String
  | [] => []
  | event :: rest => renderEvent programId depth event ++ renderEvents programId depth rest

end

def render (forest : List Invocation) : List String :=
  renderEvents "" 0 (forest.map Invocation.event)

/-! ## What is to be read -/

def messages : List Event → List String
  | [] => []
  | .log message :: rest => message :: messages rest
  | _ :: rest => messages rest

def payloads : List Event → List (List UInt8)
  | [] => []
  | .data slices :: rest => slices.flatten :: payloads rest
  | _ :: rest => payloads rest

/-- The last compute-unit line counts. -/
def lastUnits : List Event → Option ComputeUnits
  | [] => none
  | .consumed units :: rest => (lastUnits rest).or (some units)
  | _ :: rest => lastUnits rest

def lastReturn : List Event → Option (List UInt8)
  | [] => none
  | .returned bytes :: rest => (lastReturn rest).or (some bytes)
  | _ :: rest => lastReturn rest

/-- The raw trace: of a child the first and the last line. -/
def trace (programId : String) (depth : Nat) : List Event → List String
  | [] => []
  | .log message :: rest => logLine message :: trace programId depth rest
  | .data slices :: rest => dataLine slices :: trace programId depth rest
  | .consumed units :: rest => consumedLine programId units :: trace programId depth rest
  | .returned bytes :: rest => returnLine programId bytes :: trace programId depth rest
  | .invoke child _ outcome :: rest =>
      invokeLine child (depth + 1) :: outcomeLine child outcome :: trace programId depth rest

def failureReason : Outcome → Option String
  | .success => none
  | .failed reason => some reason

mutual

/-- The chunk of an invocation among the events of depth `depth`. -/
def chunkOf (depth : Nat) : Event → List ProgramLogChunk
  | .invoke programId events outcome =>
      [{ programId := programId
         depth := depth + 1
         success := outcome = .success
         failureReason := failureReason outcome
         logs := messages events
         dataPayloads := payloads events
         computeUnits := lastUnits events
         returnData := lastReturn events
         children := chunksOf (depth + 1) events
         rawLines := invokeLine programId (depth + 1) ::
           (trace programId (depth + 1) events ++ [outcomeLine programId outcome]) }]
  | _ => []

def chunksOf (depth : Nat) : List Event → List ProgramLogChunk
  | [] => []
  | event :: rest => chunkOf depth event ++ chunksOf depth rest

end

def expected (forest : List Invocation) : TransactionLog where
  chunks := chunksOf 0 (forest.map Invocation.event)
  parseErrors := []
  logTruncated := false

/-! ## Well-formed and printable -/

/-- Base58 of 32 bytes has 32 to 44 characters. -/
def ValidId (programId : String) : Prop :=
  (∀ c ∈ programId.toList, isIdChar c = true) ∧ 32 ≤ programId.toList.length ∧
    programId.toList.length ≤ 44

def Outcome.WellFormed : Outcome → Prop
  | .success => True
  | .failed reason => reason ≠ ""

/-- `Number` is exact below; the budgets of the runtime are far smaller. -/
def integerBound : Nat := 9007199254740992

mutual

def WellFormedEvent : Event → Prop
  | .data slices => slices ≠ []
  | .consumed units => units.consumed < integerBound ∧ units.limit < integerBound
  | .invoke programId events outcome =>
      ValidId programId ∧ WellFormedEvents events ∧ outcome.WellFormed
  | _ => True

def WellFormedEvents : List Event → Prop
  | [] => True
  | event :: rest => WellFormedEvent event ∧ WellFormedEvents rest

end

def WellFormed (forest : List Invocation) : Prop :=
  WellFormedEvents (forest.map Invocation.event)

/-- One line of text. -/
def OneLine (text : String) : Prop := text.toList.any isLineTerminator = false

def Outcome.Printable : Outcome → Prop
  | .success => True
  | .failed reason => OneLine reason

mutual

def PrintableEvent : Event → Prop
  | .log message => OneLine message
  | .data slices => ∀ slice ∈ slices, slice ≠ []
  | .invoke _ events outcome => PrintableEvents events ∧ outcome.Printable
  | _ => True

def PrintableEvents : List Event → Prop
  | [] => True
  | event :: rest => PrintableEvent event ∧ PrintableEvents rest

end

/-- No text has a line terminator in it, and no slice is empty. -/
def Printable (forest : List Invocation) : Prop :=
  PrintableEvents (forest.map Invocation.event)

/-! ## Reading the parts of a line -/

theorem skip_append (literal : String) (cs : List Char) :
    skip literal (literal.toList ++ cs) = some cs := by
  unfold skip
  rw [if_pos (List.isPrefixOf_iff_prefix.2 (List.prefix_append _ _)), ← String.length_toList,
    List.drop_left]

theorem readId_append {programId : String} (h : ValidId programId) (rest : List Char)
    (htake : rest.takeWhile isIdChar = []) (hdrop : rest.dropWhile isIdChar = rest) :
    readId (programId.toList ++ rest) = some (programId, rest) := by
  unfold readId
  dsimp only
  rw [List.takeWhile_append_of_pos h.1, List.dropWhile_append_of_pos h.1, htake, hdrop,
    List.append_nil, if_pos h.2, String.ofList_toList]

/-- A program id is not the start of a word that has another character in it. -/
theorem skip_id_none {programId : String} (h : ValidId programId) {literal : String}
    (word : List Char) (hliteral : literal.toList = "Program ".toList ++ word) (k : Nat)
    (hk : k < 32) {c : Char} (hc : word[k]? = some c) (hno : isIdChar c = false)
    (rest : List Char) :
    skip literal ("Program ".toList ++ (programId.toList ++ rest)) = none := by
  unfold skip
  rw [if_neg]
  intro hpfx
  have hword := List.isPrefixOf_iff_prefix.1 hpfx
  rw [hliteral, List.prefix_append_right_inj] at hword
  obtain ⟨more, hmore⟩ := hword
  have hget : (programId.toList ++ rest)[k]? = some c := by
    rw [← hmore, List.getElem?_append_left (List.getElem?_eq_some_iff.1 hc).1]
    exact hc
  have hlength := h.2.1
  rw [List.getElem?_append_left (by omega)] at hget
  have hid := h.1 c (List.mem_of_getElem? hget)
  rw [hno] at hid
  cases hid

theorem value_eq_ofDigitChars (cs : List Char) :
    Lib.Radix.value 10 (cs.map fun c => c.toNat - '0'.toNat) = Nat.ofDigitChars 10 cs 0 := by
  unfold Lib.Radix.value
  rw [Nat.ofDigitChars_eq_foldl, List.foldl_map]
  congr 1
  funext n c
  rw [Nat.mul_comm]

theorem readNumber_append (n : Nat) (rest : List Char) (htake : rest.takeWhile Char.isDigit = [])
    (hdrop : rest.dropWhile Char.isDigit = rest) :
    readNumber ((toString n).toList ++ rest) = some (n, rest) := by
  have htext : (toString n).toList = Nat.toDigits 10 n := Nat.toList_repr
  have hdigits : ∀ c ∈ Nat.toDigits 10 n, c.isDigit = true := fun c hc =>
    Nat.isDigit_of_mem_toDigits (by decide) (by decide) hc
  unfold readNumber
  dsimp only
  rw [htext, List.takeWhile_append_of_pos hdigits, List.dropWhile_append_of_pos hdigits, htake,
    hdrop, List.append_nil, if_neg Nat.toDigits_ne_nil, value_eq_ofDigitChars,
    Nat.ofDigitChars_ten_toDigits]

theorem readText_oneLine {text : String} (h : OneLine text) :
    readText text.toList = some text := by
  unfold readText
  rw [if_neg (by rw [h]; exact Bool.false_ne_true), String.ofList_toList]

theorem readText_broken {text : String} (h : ¬ OneLine text) : readText text.toList = none := by
  unfold readText
  exact if_pos (by simpa [OneLine] using h)

theorem readBase64_encode (bytes : List UInt8) :
    readBase64 (encodeBase64 bytes) = some (String.ofList (encodeBase64 bytes)) := by
  unfold readBase64
  rw [if_pos (List.all_eq_true.2 (encodeBase64_chars bytes))]

/-! ## Reading a line -/

theorem read_invoke {programId : String} (h : ValidId programId) (depth : Nat) :
    LogLine.read (invokeLine programId depth) = .invoke programId depth := by
  have hline : (invokeLine programId depth).toList = "Program ".toList ++ (programId.toList ++
      (" invoke [".toList ++ ((toString depth).toList ++ [']']))) := by
    simp only [invokeLine, String.toList_append, List.append_assoc]
    rfl
  have hread : readInvoke (invokeLine programId depth).toList = some (.invoke programId depth) := by
    unfold readInvoke
    rw [hline, skip_append]
    simp only [Option.bind_eq_bind, Option.bind_some,
      readId_append h (" invoke [".toList ++ _) rfl rfl, skip_append, readNumber_append depth [']'] rfl rfl, if_true]
  unfold LogLine.read
  dsimp only
  rw [hread]
  rfl

theorem read_success {programId : String} (h : ValidId programId) :
    LogLine.read (outcomeLine programId .success) = .success programId := by
  have hline : (outcomeLine programId .success).toList =
      "Program ".toList ++ (programId.toList ++ " success".toList) := by
    unfold outcomeLine
    rw [String.toList_append, String.toList_append, List.append_assoc]
  have hid := readId_append h " success".toList rfl rfl
  have hinvoke : readInvoke (outcomeLine programId .success).toList = none := by
    unfold readInvoke
    rw [hline, skip_append]
    show (readId (programId.toList ++ " success".toList)).bind _ = none
    rw [hid]
    rfl
  have hread : readSuccess (outcomeLine programId .success).toList =
      some (.success programId) := by
    unfold readSuccess
    rw [hline, skip_append]
    show (readId (programId.toList ++ " success".toList)).bind _ = _
    rw [hid]
    rw [Option.bind_some]
    dsimp only
    rw [if_pos rfl]
  unfold LogLine.read
  dsimp only
  rw [hinvoke, hread]
  rfl

/-- The patterns before `FAILED_RE` do not match, and it matches one line of text. -/
theorem readFailed_line {programId : String} (h : ValidId programId) (reason : String) :
    readInvoke (outcomeLine programId (.failed reason)).toList = none ∧
      readSuccess (outcomeLine programId (.failed reason)).toList = none ∧
      readFailed (outcomeLine programId (.failed reason)).toList =
        (readText reason.toList).bind fun text =>
          if text = "" then none else some (.failed programId text) := by
  have hline : (outcomeLine programId (.failed reason)).toList =
      "Program ".toList ++ (programId.toList ++ (" failed: ".toList ++ reason.toList)) := by
    simp only [outcomeLine, String.toList_append, List.append_assoc]
  rw [hline]
  refine ⟨?_, ?_, ?_⟩
  · unfold readInvoke
    rw [skip_append]
    simp only [Option.bind_eq_bind, Option.bind_some,
      readId_append h (" failed: ".toList ++ _) rfl rfl]
    rfl
  · unfold readSuccess
    rw [skip_append]
    simp only [Option.bind_eq_bind, Option.bind_some,
      readId_append h (" failed: ".toList ++ _) rfl rfl]
    exact if_neg nofun
  · unfold readFailed
    rw [skip_append]
    simp only [Option.bind_eq_bind, Option.bind_some,
      readId_append h (" failed: ".toList ++ _) rfl rfl, skip_append]

theorem read_failed {programId : String} (h : ValidId programId) {reason : String}
    (hne : reason ≠ "") (hone : OneLine reason) :
    LogLine.read (outcomeLine programId (.failed reason)) = .failed programId reason := by
  obtain ⟨hinvoke, hsuccess, hfailed⟩ := readFailed_line h reason
  rw [readText_oneLine hone, Option.bind_some, if_neg hne] at hfailed
  unfold LogLine.read
  dsimp only
  rw [hinvoke, hsuccess, hfailed]
  rfl

/-- A reason of several lines makes a line that nothing matches. -/
theorem read_failed_broken {programId : String} (h : ValidId programId) {reason : String}
    (hbroken : ¬ OneLine reason) :
    LogLine.read (outcomeLine programId (.failed reason)) = .unrecognized := by
  obtain ⟨hinvoke, hsuccess, hfailed⟩ := readFailed_line h reason
  rw [readText_broken hbroken, Option.bind_none] at hfailed
  have hline : (outcomeLine programId (.failed reason)).toList =
      "Program ".toList ++ (programId.toList ++ (" failed: ".toList ++ reason.toList)) := by
    simp only [outcomeLine, String.toList_append, List.append_assoc]
  have hlog : readLog (outcomeLine programId (.failed reason)).toList = none := by
    unfold readLog
    rw [hline, skip_id_none h "log: ".toList rfl 0 (by decide) rfl rfl]
    rfl
  have hdata : readData (outcomeLine programId (.failed reason)).toList = none := by
    unfold readData
    rw [hline, skip_id_none h "data: ".toList rfl 4 (by decide) rfl rfl]
    rfl
  have hconsumed : readConsumed (outcomeLine programId (.failed reason)).toList = none := by
    unfold readConsumed
    rw [hline, skip_append]
    simp only [Option.bind_eq_bind, Option.bind_some,
      readId_append h (" failed: ".toList ++ _) rfl rfl]
    rfl
  have hreturn : readReturn (outcomeLine programId (.failed reason)).toList = none := by
    unfold readReturn
    rw [hline, skip_id_none h "return: ".toList rfl 6 (by decide) rfl rfl]
    rfl
  have hconsumption : readConsumption (outcomeLine programId (.failed reason)).toList = none := by
    unfold readConsumption
    rw [hline, skip_id_none h "consumption: ".toList rfl 11 (by decide) rfl rfl]
    rfl
  have hne : outcomeLine programId (.failed reason) ≠ "Log truncated" := by
    intro heq
    have hlist := congrArg String.toList heq
    rw [hline] at hlist
    cases hlist
  unfold LogLine.read
  dsimp only
  rw [hinvoke, hsuccess, hfailed, hlog, hdata, hconsumed, hreturn, hconsumption, if_neg hne]
  rfl

theorem read_log {message : String} (h : OneLine message) :
    LogLine.read (logLine message) = .log message := by
  have hread : readLog (logLine message).toList = some (.log message) := by
    unfold readLog logLine
    rw [String.toList_append, skip_append]
    show (readText message.toList).bind _ = _
    rw [readText_oneLine h]
    rfl
  unfold LogLine.read
  dsimp only
  rw [hread]
  unfold logLine
  rw [String.toList_append]
  rfl

theorem read_log_broken {message : String} (h : ¬ OneLine message) :
    LogLine.read (logLine message) = .unrecognized := by
  have hread : readLog (logLine message).toList = none := by
    unfold readLog logLine
    rw [String.toList_append, skip_append]
    show (readText message.toList).bind _ = _
    rw [readText_broken h]
    rfl
  have hne : logLine message ≠ "Log truncated" := by
    intro heq
    have hlist := congrArg String.toList heq
    unfold logLine at hlist
    rw [String.toList_append] at hlist
    cases hlist
  unfold LogLine.read
  dsimp only
  rw [hread, if_neg hne]
  unfold logLine
  rw [String.toList_append]
  rfl

theorem space_notMem_encode (bytes : List UInt8) : ' ' ∉ encodeBase64 bytes := by
  intro hmem
  have hchar := encodeBase64_chars bytes ' ' hmem
  revert hchar
  decide

theorem mapM_readBase64 (slices : List (List UInt8)) :
    (slices.map encodeBase64).mapM readBase64 =
      some (slices.map fun slice => String.ofList (encodeBase64 slice)) := by
  induction slices with
  | nil => rfl
  | cons slice rest ih =>
      rw [List.map_cons, List.mapM_cons, readBase64_encode, ih]
      rfl

theorem toList_dataLine (slices : List (List UInt8)) :
    (dataLine slices).toList =
      "Program data: ".toList ++ [' '].intercalate (slices.map encodeBase64) := by
  unfold dataLine
  simp only [String.toList_append, String.toList_ofList]

/-- `DATA_RE` asks for fields that are not empty. -/
theorem readData_line {slices : List (List UInt8)} (h : slices ≠ []) :
    readData (dataLine slices).toList =
      if "" ∈ slices.map (fun slice => String.ofList (encodeBase64 slice)) then none
      else some (.data (slices.map fun slice => String.ofList (encodeBase64 slice))) := by
  have hsplit : ([' '].intercalate (slices.map encodeBase64)).splitOn ' ' =
      slices.map encodeBase64 := by
    apply List.splitOn_intercalate
    · intro field hfield
      obtain ⟨slice, -, rfl⟩ := List.mem_map.1 hfield
      exact space_notMem_encode slice
    · exact fun hnil => h (List.map_eq_nil_iff.1 hnil)
  unfold readData
  rw [toList_dataLine, skip_append]
  show (List.mapM readBase64 _).bind _ = _
  rw [hsplit, mapM_readBase64]
  rfl

theorem empty_mem_fields {slices : List (List UInt8)} :
    "" ∈ slices.map (fun slice => String.ofList (encodeBase64 slice)) ↔
      ∃ slice ∈ slices, slice = [] := by
  rw [List.mem_map]
  apply exists_congr
  intro slice
  apply and_congr_right
  intro _
  constructor
  · intro hempty
    by_contra hne
    have hlist := congrArg String.toList hempty
    rw [String.toList_ofList] at hlist
    exact encodeBase64_ne_nil hne hlist
  · rintro rfl
    rfl

theorem read_data {slices : List (List UInt8)} (h : slices ≠ [])
    (hfull : ∀ slice ∈ slices, slice ≠ []) :
    LogLine.read (dataLine slices) =
      .data (slices.map fun slice => String.ofList (encodeBase64 slice)) := by
  have hread := readData_line h
  rw [if_neg fun hmem => by
    obtain ⟨slice, hslice, hnil⟩ := empty_mem_fields.1 hmem
    exact hfull slice hslice hnil] at hread
  unfold LogLine.read
  dsimp only
  rw [hread, toList_dataLine]
  rfl

theorem read_data_broken {slices : List (List UInt8)} (h : slices ≠ [])
    (hempty : ∃ slice ∈ slices, slice = []) :
    LogLine.read (dataLine slices) = .unrecognized := by
  have hread := readData_line h
  rw [if_pos (empty_mem_fields.2 hempty)] at hread
  have hne : dataLine slices ≠ "Log truncated" := by
    intro heq
    have hlist := congrArg String.toList heq
    rw [toList_dataLine] at hlist
    cases hlist
  unfold LogLine.read
  dsimp only
  rw [hread, if_neg hne, toList_dataLine]
  rfl

theorem read_consumed {programId : String} (h : ValidId programId) (units : ComputeUnits) :
    LogLine.read (consumedLine programId units) = .consumed programId units := by
  have hline : (consumedLine programId units).toList = "Program ".toList ++
      (programId.toList ++ (" consumed ".toList ++ ((toString units.consumed).toList ++
        (" of ".toList ++ ((toString units.limit).toList ++ " compute units".toList))))) := by
    unfold consumedLine
    simp only [String.toList_append, List.append_assoc]
  have hid := readId_append h (" consumed ".toList ++ ((toString units.consumed).toList ++
    (" of ".toList ++ ((toString units.limit).toList ++ " compute units".toList)))) rfl rfl
  have hinvoke : readInvoke (consumedLine programId units).toList = none := by
    unfold readInvoke
    rw [hline, skip_append]
    show (readId _).bind _ = none
    rw [hid]
    rfl
  have hsuccess : readSuccess (consumedLine programId units).toList = none := by
    unfold readSuccess
    rw [hline, skip_append]
    show (readId _).bind _ = none
    rw [hid, Option.bind_some]
    dsimp only
    rw [if_neg nofun]
  have hfailed : readFailed (consumedLine programId units).toList = none := by
    unfold readFailed
    rw [hline, skip_append]
    show (readId _).bind _ = none
    rw [hid]
    rfl
  have hlog : readLog (consumedLine programId units).toList = none := by
    unfold readLog
    rw [hline, skip_id_none h "log: ".toList rfl 0 (by decide) rfl rfl]
    rfl
  have hdata : readData (consumedLine programId units).toList = none := by
    unfold readData
    rw [hline, skip_id_none h "data: ".toList rfl 4 (by decide) rfl rfl]
    rfl
  have hread : readConsumed (consumedLine programId units).toList =
      some (.consumed programId units) := by
    unfold readConsumed
    rw [hline, skip_append]
    show (readId _).bind _ = _
    rw [hid, Option.bind_some]
    show (skip " consumed " (" consumed ".toList ++ _)).bind _ = _
    rw [skip_append, Option.bind_some]
    show (readNumber _).bind _ = _
    rw [readNumber_append units.consumed (" of ".toList ++ _) rfl rfl, Option.bind_some]
    show (skip " of " (" of ".toList ++ _)).bind _ = _
    rw [skip_append, Option.bind_some]
    show (readNumber _).bind _ = _
    rw [readNumber_append units.limit " compute units".toList rfl rfl, Option.bind_some]
    exact if_pos rfl
  unfold LogLine.read
  dsimp only
  rw [hinvoke, hsuccess, hfailed, hlog, hdata, hread]
  rfl

theorem read_return {programId : String} (h : ValidId programId) (bytes : List UInt8) :
    LogLine.read (returnLine programId bytes) =
      .returned programId (String.ofList (encodeBase64 bytes)) := by
  have hline : (returnLine programId bytes).toList = "Program return: ".toList ++
      (programId.toList ++ (" ".toList ++ encodeBase64 bytes)) := by
    unfold returnLine
    simp only [String.toList_append, List.append_assoc, String.toList_ofList]
  have hread : readReturn (returnLine programId bytes).toList =
      some (.returned programId (String.ofList (encodeBase64 bytes))) := by
    unfold readReturn
    rw [hline, skip_append]
    show (readId _).bind _ = _
    rw [readId_append h (" ".toList ++ _) rfl rfl]
    simp only [Option.bind_eq_bind, Option.bind_some, skip_append, readBase64_encode]
  unfold LogLine.read
  dsimp only
  rw [hread, hline]
  rfl

end Ap3xSolana.Events.LogForest
