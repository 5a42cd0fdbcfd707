import Mathlib.Data.List.Forall2
import Ap3xSolana.Events.ParseLogs

/-!
# Raw traces

The raw trace of a chunk is meant to be everything that was logged between its `invoke` line
and its terminator.  `annotate` gives every line of a log the number of invocations that are
open before it, and with it the window of an invocation is an interval of the log: the lines
after the `invoke` that are deeper than it.

A line goes to the innermost open chunk; an `invoke` line and a terminator also go to the
chunk around it.  So the trace of a chunk is its window without what its children log and
without the lines of its children's children (`rawLines_complete_iff`).  A data line that
does not decode is in no trace at all.
-/

namespace Ap3xSolana.Events.RawTraces

/-! ## Windows -/

/-- A line that closes an invocation. -/
def closes (line : String) : Bool :=
  match LogLine.read line with
  | .success _ => true
  | .failed _ _ => true
  | _ => false

/-- A data line with a field that is not base64. -/
def badData (line : String) : Bool :=
  match LogLine.read line with
  | .data fields =>
      match fields.mapM decodeBase64Data with
      | .ok _ => false
      | .error _ => true
  | _ => false

/-- The number of open invocations after a line. -/
def depthAfter (depth : Nat) (line : String) : Nat :=
  match LogLine.read line with
  | .invoke _ _ => depth + 1
  | .success _ => depth - 1
  | .failed _ _ => depth - 1
  | _ => depth

/-- Every line with the number of open invocations before it. -/
def annotate (depth : Nat) : List String → List (Nat × String)
  | [] => []
  | line :: rest => (depth, line) :: annotate (depthAfter depth line) rest

/-- What is logged from an `invoke` line on.  `depth` invocations are around it; `inner` are
the lines after it up to its terminator, or to the end of the log. -/
structure Window where
  programId : String
  depth : Nat
  opening : String
  inner : List (Nat × String)

def Window.lines (w : Window) : List String := w.opening :: w.inner.map Prod.snd

/-- The windows in the order of their `invoke` lines. -/
def windows : List (Nat × String) → List Window
  | [] => []
  | (depth, line) :: rest =>
      match LogLine.read line with
      | .invoke programId _ =>
          { programId := programId
            depth := depth
            opening := line
            inner := rest.takeWhile (depth < ·.1) } :: windows rest
      | _ => windows rest

def invocations (logs : List String) : List Window := windows (annotate 0 logs)

/-- A line of a window that goes to the trace of an invocation at this depth. -/
def Recorded (depth : Nat) (entry : Nat × String) : Prop :=
  (entry.1 = depth + 1 ∧ badData entry.2 = false) ∨ (entry.1 = depth + 2 ∧ closes entry.2 = true)

instance decidableRecorded (depth : Nat) (entry : Nat × String) :
    Decidable (Recorded depth entry) :=
  inferInstanceAs (Decidable (_ ∨ _))

/-- The invocations inside log nothing between their `invoke` line and their terminator, and
the data lines of this one decode. -/
def Window.Flat (w : Window) : Prop := ∀ entry ∈ w.inner, Recorded w.depth entry

/-! ## Chunks -/

mutual

/-- A chunk and the chunks inside it, in the order of their `invoke` lines. -/
def preorder : ProgramLogChunk → List ProgramLogChunk
  | { programId, depth, success, failureReason, logs, dataPayloads, computeUnits, returnData,
      children, rawLines } =>
    { programId, depth, success, failureReason, logs, dataPayloads, computeUnits, returnData,
      children, rawLines } :: preorders children

def preorders : List ProgramLogChunk → List ProgramLogChunk
  | [] => []
  | chunk :: rest => preorder chunk ++ preorders rest

end

theorem preorder_eq (chunk : ProgramLogChunk) :
    preorder chunk = chunk :: preorders chunk.children := by
  cases chunk
  rfl

theorem preorders_append (chunks chunks' : List ProgramLogChunk) :
    preorders (chunks ++ chunks') = preorders chunks ++ preorders chunks' := by
  induction chunks with
  | nil => rfl
  | cons chunk rest ih =>
      show preorder chunk ++ preorders (rest ++ chunks') =
        preorder chunk ++ preorders rest ++ preorders chunks'
      rw [ih, List.append_assoc]

theorem preorders_singleton (chunk : ProgramLogChunk) : preorders [chunk] = preorder chunk :=
  List.append_nil _

/-- What is of interest of a chunk. -/
def summary (chunk : ProgramLogChunk) : String × List String := (chunk.programId, chunk.rawLines)

/-- The lines of a log that go to the trace of an invocation which is open in front of them. -/
def recorded (depth : Nat) (later : List (Nat × String)) : List String :=
  ((later.takeWhile (depth < ·.1)).filter (Recorded depth ·)).map Prod.snd

theorem recorded_cons {depth : Nat} {entry : Nat × String} {later : List (Nat × String)}
    (h : depth < entry.1) :
    recorded depth (entry :: later) =
      (if Recorded depth entry then [entry.2] else []) ++ recorded depth later := by
  unfold recorded
  rw [List.takeWhile_cons, if_pos (decide_eq_true h), List.filter_cons]
  by_cases hr : Recorded depth entry <;> simp [hr]

/-- Lines that start outside the invocation are not for it. -/
theorem recorded_annotate (depth : Nat) (rest : List String) :
    recorded depth (annotate depth rest) = [] := by
  cases rest with
  | nil => rfl
  | cons line rest => simp [recorded, annotate]

/-- What the chunk of a window is to be. -/
def Window.traced (w : Window) : String × List String :=
  (w.programId, w.opening :: (w.inner.filter (Recorded w.depth ·)).map Prod.snd)

/-- The open chunks with the chunks inside them, as the lines that come later will have made
them. -/
def spine : List ProgramLogChunk → List (Nat × String) → List (String × List String)
  | [], _ => []
  | chunk :: below, later =>
      spine below later ++
        (chunk.programId, chunk.rawLines ++ recorded below.length later) ::
          (preorders chunk.children).map summary

def ledger (st : ParseState) (later : List (Nat × String)) : List (String × List String) :=
  (preorders st.roots).map summary ++ spine st.stack later

/-- A line that is for none of the chunks. -/
theorem spine_skip {entry : Nat × String} {later : List (Nat × String)}
    {stack : List ProgramLogChunk} (hdepth : stack.length ≤ entry.1)
    (hskip : ∀ depth < stack.length, ¬ Recorded depth entry) :
    spine stack (entry :: later) = spine stack later := by
  induction stack with
  | nil => rfl
  | cons chunk below ih =>
      rw [List.length_cons] at hdepth hskip
      rw [spine, spine, ih (by omega) fun depth hlt => hskip depth (by omega),
        recorded_cons (by omega), if_neg (hskip below.length (by omega)), List.nil_append]

/-! ## One line -/

/-- The innermost chunk records the line, unless it is a data line that does not decode. -/
structure Records (line : String) (st st' : ParseState) : Prop where
  roots : st'.roots = st.roots
  stack : ∃ f : ProgramLogChunk → ProgramLogChunk, st'.stack = st.stack.modifyHead f ∧
    ∀ chunk, (f chunk).programId = chunk.programId ∧ (f chunk).children = chunk.children ∧
      (f chunk).rawLines = chunk.rawLines ++ if badData line then [] else [line]

theorem Records.length {line : String} {st st' : ParseState} (h : Records line st st') :
    st'.stack.length = st.stack.length := by
  obtain ⟨f, hf, -⟩ := h.stack
  rw [hf, List.length_modifyHead]

/-- A line that is recorded in the innermost chunk alone. -/
theorem Records.ledger {line : String} {st st' : ParseState} (h : Records line st st')
    (hcloses : closes line = false) (later : List (Nat × String)) :
    ledger st' later = ledger st ((st.stack.length, line) :: later) := by
  obtain ⟨f, hf, hchunk⟩ := h.stack
  unfold RawTraces.ledger
  rw [h.roots, hf]
  congr 1
  cases st.stack with
  | nil => rfl
  | cons chunk below =>
      obtain ⟨hid, hchildren, hraw⟩ := hchunk chunk
      have hskip : ∀ depth < below.length, ¬ Recorded depth (below.length + 1, line) := by
        intro depth hlt hrecorded
        rcases hrecorded with ⟨hdepth, -⟩ | ⟨-, hclose⟩
        · omega
        · rw [hcloses] at hclose
          cases hclose
      have hown : Recorded below.length (below.length + 1, line) ↔ badData line = false := by
        simp [Recorded]
      show spine (f chunk :: below) later =
        spine (chunk :: below) ((below.length + 1, line) :: later)
      rw [spine, spine, spine_skip (Nat.le_succ _) hskip, recorded_cons (Nat.lt_succ_self _),
        hid, hchildren, hraw, List.append_assoc]
      cases hbad : badData line <;> simp [hown, hbad]

/-- Nothing is open, and nothing is recorded. -/
theorem records_nil {st st' : ParseState} (line : String) (hroots : st'.roots = st.roots)
    (hst : st.stack = []) (hst' : st'.stack = []) : Records line st st' := by
  refine ⟨hroots, fun chunk =>
    { chunk with rawLines := chunk.rawLines ++ if badData line then [] else [line] }, ?_, ?_⟩
  · rw [hst, hst']
    rfl
  · exact fun chunk => ⟨rfl, rfl, rfl⟩

theorem records_push {st : ParseState} {line : String} (hgood : badData line = false)
    {f : ProgramLogChunk → ProgramLogChunk}
    (hf : ∀ chunk, (f chunk).programId = chunk.programId ∧ (f chunk).children = chunk.children ∧
      (f chunk).rawLines = chunk.rawLines) : Records line st ((st.modifyTop f).push line) := by
  refine ⟨rfl, fun chunk => (f chunk).push line, ?_, fun chunk => ?_⟩
  · show (st.stack.modifyHead f).modifyHead _ = _
    cases st.stack <;> rfl
  · obtain ⟨hid, hchildren, hraw⟩ := hf chunk
    refine ⟨hid, hchildren, ?_⟩
    rw [hgood]
    show (f chunk).rawLines ++ [line] = _
    rw [hraw]
    rfl

/-- The line is recorded, whatever else is noted about it. -/
theorem records_noted {st st' : ParseState} {line : String} (hgood : badData line = false)
    (hroots : st'.roots = st.roots) (hstack : st'.stack = st.stack) :
    Records line st (st'.push line) := by
  refine ⟨hroots, fun chunk => chunk.push line, ?_, fun chunk => ⟨rfl, rfl, ?_⟩⟩
  · exact congrArg (List.modifyHead _) hstack
  · rw [hgood]
    rfl

theorem dataLine_records (st : ParseState) (i : Nat) {line : String} {fields : List String}
    (hread : LogLine.read line = .data fields) : Records line st (st.dataLine i line fields) := by
  unfold ParseState.dataLine
  cases hfields : fields.mapM decodeBase64Data with
  | ok slices =>
      have hgood : badData line = false := by simp [badData, hread, hfields]
      exact records_push hgood fun chunk => ⟨rfl, rfl, rfl⟩
  | error message =>
      have hbad : badData line = true := by simp [badData, hread, hfields]
      refine ⟨rfl, id, ?_, fun chunk => ⟨rfl, rfl, ?_⟩⟩
      · exact (congrFun List.modifyHead_id st.stack).symm
      · rw [hbad]
        exact (List.append_nil _).symm

theorem returnLine_records (st : ParseState) (i : Nat) {line : String} (data : String)
    (hgood : badData line = false) : Records line st (st.returnLine i line data) := by
  unfold ParseState.returnLine
  cases decodeBase64Data data with
  | ok bytes => exact records_push hgood fun chunk => ⟨rfl, rfl, rfl⟩
  | error message => exact records_noted hgood rfl rfl

/-- A line that opens and closes nothing. -/
theorem line_records (st : ParseState) (i : Nat) {line : String}
    (hinvoke : ∀ programId depth, LogLine.read line ≠ .invoke programId depth)
    (hcloses : closes line = false) : Records line st (st.line i line) := by
  unfold ParseState.line
  cases hread : LogLine.read line with
  | invoke programId depth => exact absurd hread (hinvoke programId depth)
  | success programId => simp [closes, hread] at hcloses
  | failed programId reason => simp [closes, hread] at hcloses
  | data fields =>
      cases hst : st.stack with
      | nil => exact records_nil line rfl hst hst
      | cons chunk below => exact dataLine_records st i hread
  | log message =>
      have hgood : badData line = false := by simp [badData, hread]
      cases hst : st.stack with
      | nil => exact records_nil line rfl hst hst
      | cons chunk below => exact records_push hgood fun chunk => ⟨rfl, rfl, rfl⟩
  | consumed programId units =>
      have hgood : badData line = false := by simp [badData, hread]
      dsimp only
      split
      · exact records_push hgood fun chunk => ⟨rfl, rfl, rfl⟩
      · exact records_noted hgood rfl rfl
  | returned programId data =>
      have hgood : badData line = false := by simp [badData, hread]
      dsimp only
      split
      · exact returnLine_records st i data hgood
      · exact records_noted hgood rfl rfl
  | consumption => exact records_noted (by simp [badData, hread]) rfl rfl
  | logTruncated => exact records_noted (by simp [badData, hread]) rfl rfl
  | unrecognized => exact records_noted (by simp [badData, hread]) rfl rfl

theorem openChunk_ledger (st : ParseState) {line programId : String} {depth : Nat}
    (hread : LogLine.read line = .invoke programId depth) (later : List (Nat × String)) :
    ledger (st.openChunk line programId depth) later =
      ledger st ((st.stack.length, line) :: later) ++
        [(programId, line :: recorded st.stack.length later)] := by
  have hgood : badData line = false := by simp [badData, hread]
  have hcloses : closes line = false := by simp [closes, hread]
  have hpush : Records line st (st.push line) := records_noted hgood rfl rfl
  rw [← hpush.ledger hcloses, ← hpush.length]
  unfold ledger
  rw [List.append_assoc]
  rfl

theorem badData_of_closes {line : String} (h : closes line = true) : badData line = false := by
  unfold closes at h
  unfold badData
  cases hread : LogLine.read line with
  | data fields => simp [hread] at h
  | _ => rfl

/-- The terminator is the last line of a chunk. -/
theorem recorded_terminator {line : String} (hcloses : closes line = true) (depth : Nat)
    (rest : List String) :
    recorded depth ((depth + 1, line) :: annotate depth rest) = [line] := by
  rw [recorded_cons (Nat.lt_succ_self _), if_pos (.inl ⟨rfl, badData_of_closes hcloses⟩),
    recorded_annotate]
  rfl

/-- The terminator of a child. -/
theorem recorded_child {line : String} (hcloses : closes line = true) (depth : Nat)
    (later : List (Nat × String)) :
    recorded depth ((depth + 2, line) :: later) = line :: recorded depth later := by
  rw [recorded_cons (Nat.lt_add_of_pos_right (Nat.succ_pos 1)), if_pos (.inr ⟨rfl, hcloses⟩)]
  rfl

/-- The innermost chunk takes its place, with its terminator. -/
theorem closeChunk_ledger {st : ParseState} {line : String} (hcloses : closes line = true)
    {f : ProgramLogChunk → ProgramLogChunk}
    (hf : ∀ chunk, (f chunk).programId = chunk.programId ∧ (f chunk).children = chunk.children ∧
      (f chunk).rawLines = chunk.rawLines) (rest : List String) :
    ledger (st.closeChunk line f) (annotate (st.stack.length - 1) rest) =
      ledger st ((st.stack.length, line) :: annotate (st.stack.length - 1) rest) := by
  have hclosed : ∀ chunk, (preorder ((f chunk).push line)).map summary =
      (chunk.programId, chunk.rawLines ++ [line]) :: (preorders chunk.children).map summary := by
    intro chunk
    obtain ⟨hid, hchildren, hraw⟩ := hf chunk
    rw [preorder_eq, List.map_cons]
    show ((f chunk).programId, (f chunk).rawLines ++ [line]) ::
      (preorders (f chunk).children).map summary = _
    rw [hid, hchildren, hraw]
  unfold ParseState.closeChunk ledger
  match hst : st.stack with
  | [] => simp [hst, spine]
  | [chunk] =>
      show (preorders (st.roots ++ [(f chunk).push line])).map summary ++ [] =
        (preorders st.roots).map summary ++
          spine [chunk] ((0 + 1, line) :: annotate 0 rest)
      rw [spine, List.length_nil, recorded_terminator hcloses, preorders_append,
        preorders_singleton, List.map_append, hclosed, List.append_nil]
      rfl
  | chunk :: parent :: below =>
      have hskip : ∀ depth < below.length, ¬ Recorded depth (below.length + 2, line) := by
        intro depth hlt hrecorded
        rcases hrecorded with ⟨hdepth, -⟩ | ⟨hdepth, -⟩
        · omega
        · omega
      show _ ++ spine ({ parent.push line with
          children := parent.children ++ [(f chunk).push line] } :: below)
            (annotate (below.length + 1) rest) =
        _ ++ spine (chunk :: parent :: below)
          ((below.length + 2, line) :: annotate (below.length + 1) rest)
      congr 1
      rw [spine, spine, spine, spine_skip (Nat.le_add_right _ _) hskip, List.length_cons,
        recorded_terminator hcloses, recorded_child hcloses]
      show _ ++ (parent.programId, (parent.rawLines ++ [line]) ++ _) ::
        (preorders (parent.children ++ [(f chunk).push line])).map summary = _
      rw [preorders_append, preorders_singleton, List.map_append, hclosed]
      simp only [List.append_assoc, List.cons_append, List.nil_append]

theorem length_closeChunk (st : ParseState) (line : String)
    (f : ProgramLogChunk → ProgramLogChunk) :
    (st.closeChunk line f).stack.length = st.stack.length - 1 := by
  unfold ParseState.closeChunk
  split
  · rename_i hst
    rw [hst]
    rfl
  · rename_i hst
    rw [hst]
    rfl
  · rename_i hst
    rw [hst]
    rfl

theorem closeChunk_nil {st : ParseState} (line : String)
    (f : ProgramLogChunk → ProgramLogChunk) (hst : st.stack = []) :
    st.closeChunk line f = st := by
  unfold ParseState.closeChunk
  rw [hst]

/-- A terminator closes the innermost chunk, if there is one. -/
theorem terminate_closes (st : ParseState) (i : Nat) (line marker programId : String)
    (f : ProgramLogChunk → ProgramLogChunk) :
    ∃ st' : ParseState, st.terminate i line marker programId f = st'.closeChunk line f ∧
      st'.roots = st.roots ∧ st'.stack = st.stack := by
  unfold ParseState.terminate
  split
  · rename_i hst
    refine ⟨st.report i line s!"{marker} without matching invoke", ?_, rfl, rfl⟩
    have hnil : (st.report i line s!"{marker} without matching invoke").stack = [] := hst
    exact (closeChunk_nil line f hnil).symm
  · dsimp only
    split
    · exact ⟨_, rfl, rfl, rfl⟩
    · exact ⟨_, rfl, rfl, rfl⟩

theorem terminate_ledger (st : ParseState) {line : String} (hcloses : closes line = true)
    {f : ProgramLogChunk → ProgramLogChunk}
    (hf : ∀ chunk, (f chunk).programId = chunk.programId ∧ (f chunk).children = chunk.children ∧
      (f chunk).rawLines = chunk.rawLines) (i : Nat) (marker programId : String)
    (rest : List String) :
    ledger (st.terminate i line marker programId f) (annotate (st.stack.length - 1) rest) =
      ledger st ((st.stack.length, line) :: annotate (st.stack.length - 1) rest) ∧
    (st.terminate i line marker programId f).stack.length = st.stack.length - 1 := by
  obtain ⟨st', hst', hroots, hstack⟩ := terminate_closes st i line marker programId f
  have hledger : ∀ later, ledger st' later = ledger st later := by
    intro later
    unfold ledger
    rw [hroots, hstack]
  rw [hst', ← hledger, ← hstack]
  exact ⟨closeChunk_ledger hcloses hf rest, length_closeChunk st' line f⟩

/-! ## All lines -/

theorem windows_of_other {depth : Nat} {line : String} (later : List (Nat × String))
    (hinvoke : ∀ programId depth, LogLine.read line ≠ .invoke programId depth) :
    windows ((depth, line) :: later) = windows later := by
  rw [windows]
  split
  · rename_i hread
    exact absurd hread (hinvoke _ _)
  · rfl

theorem depthAfter_of_other {line : String} (depth : Nat)
    (hinvoke : ∀ programId depth, LogLine.read line ≠ .invoke programId depth)
    (hcloses : closes line = false) : depthAfter depth line = depth := by
  unfold closes at hcloses
  unfold depthAfter
  cases hread : LogLine.read line with
  | invoke programId depth => exact absurd hread (hinvoke programId depth)
  | success programId => simp [hread] at hcloses
  | failed programId reason => simp [hread] at hcloses
  | _ => rfl

/-- A line that opens nothing leaves this to be said about the rest of the log. -/
theorem line_ledger_of_other {st : ParseState} {i : Nat} {line : String} {rest : List String}
    (hinvoke : ∀ programId depth, LogLine.read line ≠ .invoke programId depth)
    (hledger : ledger (st.line i line) (annotate (depthAfter st.stack.length line) rest) =
      ledger st ((st.stack.length, line) :: annotate (depthAfter st.stack.length line) rest)) :
    ledger (st.line i line) (annotate (depthAfter st.stack.length line) rest) ++
        (windows (annotate (depthAfter st.stack.length line) rest)).map Window.traced =
      ledger st (annotate st.stack.length (line :: rest)) ++
        (windows (annotate st.stack.length (line :: rest))).map Window.traced := by
  rw [annotate, windows_of_other _ hinvoke, hledger]

/-- What a line does to the traces and to the number of open chunks. -/
theorem line_ledger (st : ParseState) (i : Nat) (line : String) (rest : List String) :
    (st.line i line).stack.length = depthAfter st.stack.length line ∧
      ledger (st.line i line) (annotate (depthAfter st.stack.length line) rest) ++
          (windows (annotate (depthAfter st.stack.length line) rest)).map Window.traced =
        ledger st (annotate st.stack.length (line :: rest)) ++
          (windows (annotate st.stack.length (line :: rest))).map Window.traced := by
  cases hread : LogLine.read line with
  | invoke programId depth =>
      have hline : st.line i line = st.openChunk line programId depth := by
        unfold ParseState.line
        rw [hread]
      have hdepth : depthAfter st.stack.length line = st.stack.length + 1 := by
        simp [depthAfter, hread]
      have hpush : (st.push line).stack.length = st.stack.length := List.length_modifyHead
      have hwindows : ∀ later, windows ((st.stack.length, line) :: later) =
          { programId := programId, depth := st.stack.length, opening := line,
            inner := later.takeWhile (st.stack.length < ·.1) } :: windows later := by
        intro later
        rw [windows, hread]
      rw [hline, hdepth]
      refine ⟨congrArg (· + 1) hpush, ?_⟩
      rw [openChunk_ledger st hread, annotate, hdepth, hwindows, List.append_assoc]
      rfl
  | success programId =>
      have hcloses : closes line = true := by simp [closes, hread]
      have hdepth : depthAfter st.stack.length line = st.stack.length - 1 := by
        simp [depthAfter, hread]
      have hline : st.line i line =
          st.terminate i line "success" programId fun c => { c with success := true } := by
        unfold ParseState.line
        rw [hread]
      obtain ⟨hledger, hlength⟩ := terminate_ledger st hcloses
        (f := fun c => { c with success := true }) (fun chunk => ⟨rfl, rfl, rfl⟩) i "success"
        programId rest
      rw [← hline, ← hdepth] at hledger hlength
      exact ⟨hlength, line_ledger_of_other (by simp [hread]) hledger⟩
  | failed programId reason =>
      have hcloses : closes line = true := by simp [closes, hread]
      have hdepth : depthAfter st.stack.length line = st.stack.length - 1 := by
        simp [depthAfter, hread]
      have hline : st.line i line = st.terminate i line "failed" programId fun c =>
          { c with success := false, failureReason := some reason } := by
        unfold ParseState.line
        rw [hread]
      obtain ⟨hledger, hlength⟩ := terminate_ledger st hcloses
        (f := fun c => { c with success := false, failureReason := some reason })
        (fun chunk => ⟨rfl, rfl, rfl⟩) i "failed" programId rest
      rw [← hline, ← hdepth] at hledger hlength
      exact ⟨hlength, line_ledger_of_other (by simp [hread]) hledger⟩
  | _ =>
      have hcloses : closes line = false := by simp [closes, hread]
      have hinvoke : ∀ programId depth, LogLine.read line ≠ .invoke programId depth := by
        simp [hread]
      have hrecords := line_records st i hinvoke hcloses
      refine ⟨?_, line_ledger_of_other hinvoke ?_⟩
      · rw [hrecords.length, depthAfter_of_other _ hinvoke hcloses]
      · exact hrecords.ledger hcloses _

/-- The traces at the end are those of the chunks there are, and of those to come. -/
theorem lines_ledger (st : ParseState) (i : Nat) (rest : List String) :
    ledger (st.lines i rest) [] =
      ledger st (annotate st.stack.length rest) ++
        (windows (annotate st.stack.length rest)).map Window.traced := by
  induction rest generalizing st i with
  | nil => exact (List.append_nil _).symm
  | cons line rest ih =>
      obtain ⟨hlength, hledger⟩ := line_ledger st i line rest
      rw [← hledger, ← hlength]
      exact ih (st.line i line) (i + 1)

theorem enclose_summary (chunk : ProgramLogChunk) (below : List ProgramLogChunk) :
    (preorder (enclose chunk below)).map summary =
      spine below [] ++ (preorder chunk).map summary := by
  induction below generalizing chunk with
  | nil => rfl
  | cons parent below ih =>
      rw [enclose, ih, preorder_eq, List.map_cons, preorders_append, preorders_singleton,
        List.map_append, spine]
      show _ ++ (parent.programId, parent.rawLines) :: _ =
        _ ++ (parent.programId, parent.rawLines ++ []) :: _ ++ _
      rw [List.append_nil, List.append_assoc]
      rfl

/-- The chunks of a log, by their traces. -/
theorem parseLogs_summary (logs : List String) :
    (preorders (parseLogs logs).chunks).map summary = (invocations logs).map Window.traced := by
  have hledger := lines_ledger {} 0 logs
  have hchunks : (preorders (parseLogs logs).chunks).map summary =
      ledger (ParseState.lines {} 0 logs) [] := by
    unfold parseLogs ledger
    dsimp only
    rw [preorders_append, List.map_append]
    congr 1
    cases (ParseState.lines {} 0 logs).stack with
    | nil => rfl
    | cons chunk below =>
        show (preorders [enclose chunk.truncated below]).map summary = _
        rw [preorders_singleton, enclose_summary, preorder_eq, spine]
        show _ ++ (chunk.programId, chunk.rawLines) :: _ =
          _ ++ (chunk.programId, chunk.rawLines ++ []) :: _
        rw [List.append_nil]
        rfl
  rw [hchunks, hledger]
  rfl

theorem traced_eq_lines (w : Window) :
    w.opening :: (w.inner.filter (Recorded w.depth ·)).map Prod.snd = w.lines ↔ w.Flat := by
  unfold Window.lines Window.Flat
  rw [List.cons.injEq, and_iff_right rfl]
  constructor
  · intro h
    have hlength := congrArg List.length h
    rw [List.length_map, List.length_map, List.length_filter_eq_length_iff] at hlength
    exact fun entry hentry => of_decide_eq_true (hlength entry hentry)
  · intro h
    rw [List.filter_eq_self.2 fun entry hentry => decide_eq_true (h entry hentry)]

/-- **Raw traces.**  The chunks of a log are its invocations, in their order, and the trace
of one of them is its whole window exactly if the window is flat. -/
theorem rawLines_complete_iff (logs : List String) :
    List.Forall₂ (fun chunk w =>
        chunk.programId = w.programId ∧ (chunk.rawLines = w.lines ↔ w.Flat))
      (preorders (parseLogs logs).chunks) (invocations logs) := by
  have hall : List.Forall₂ (fun chunk w => summary chunk = Window.traced w)
      (preorders (parseLogs logs).chunks) (invocations logs) := by
    have heq := parseLogs_summary logs
    rw [← List.forall₂_eq_eq_eq, List.forall₂_map_left_iff, List.forall₂_map_right_iff] at heq
    exact heq
  refine hall.imp fun chunk w h => ?_
  obtain ⟨hid, hraw⟩ := Prod.mk.inj h
  refine ⟨hid, ?_⟩
  rw [hraw]
  exact traced_eq_lines w

/-! ## Traces with lines missing -/

def opens (depth : String) : String :=
  "Program 11111111111111111111111111111111 invoke [" ++ depth ++ "]"

def succeeds : String := "Program 11111111111111111111111111111111 success"

/-- A child logs a message. -/
def nested : List String := [opens "1", opens "2", "Program log: hi", succeeds, succeeds]

/-- A data line that no base64 string has. -/
def undecodable : List String := [opens "1", "Program data: A", succeeds]

/-- The message is not in the parent's trace, and the data line in nobody's. -/
theorem nested_not_complete :
    ¬ List.Forall₂ (fun chunk w => chunk.rawLines = Window.lines w)
        (preorders (parseLogs nested).chunks) (invocations nested) ∧
      ¬ List.Forall₂ (fun chunk w => chunk.rawLines = Window.lines w)
        (preorders (parseLogs undecodable).chunks) (invocations undecodable) := by
  decide +kernel

end Ap3xSolana.Events.RawTraces
