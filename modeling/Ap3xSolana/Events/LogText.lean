import Ap3xSolana.Events.ParseLogs

/-!
# Log text does not forge structure

A line that starts with `Program log: ` matches no pattern but its own, whatever follows, and
then the tree does not depend on it.
-/

namespace Ap3xSolana.Events.LogText

/-! ## The property -/

mutual

/-- A chunk without its texts: the messages and the raw lines. -/
def shape : ProgramLogChunk → ProgramLogChunk
  | { programId, depth, success, failureReason, dataPayloads, computeUnits, returnData,
      children, .. } =>
    { programId, depth, success, failureReason, dataPayloads, computeUnits, returnData,
      children := shapes children }

def shapes : List ProgramLogChunk → List ProgramLogChunk
  | [] => []
  | chunk :: rest => shape chunk :: shapes rest

end

def logPrefix : String := "Program log: "

/-- Two lines that are the same up to the text of a message. -/
def SameUpToText (line line' : String) : Prop :=
  line = line' ∨ ∃ text text', line = logPrefix ++ text ∧ line' = logPrefix ++ text'

/-! ## Shapes -/

theorem shapes_eq_map (chunks : List ProgramLogChunk) : shapes chunks = chunks.map shape := by
  induction chunks with
  | nil => rfl
  | cons chunk rest ih =>
      show shape chunk :: shapes rest = _
      rw [ih]
      rfl

theorem shape_eq (chunk : ProgramLogChunk) :
    shape chunk =
      { chunk with logs := [], rawLines := [], children := chunk.children.map shape } := by
  rw [← shapes_eq_map]
  cases chunk
  rfl

theorem shape_push (chunk : ProgramLogChunk) (line : String) :
    shape (chunk.push line) = shape chunk := by
  rw [shape_eq, shape_eq]
  rfl

/-- What a line does to a chunk, it does to its shape. -/
def Respects (f : ProgramLogChunk → ProgramLogChunk) : Prop := ∀ c, shape (f c) = f (shape c)

theorem Respects.congr {f : ProgramLogChunk → ProgramLogChunk} (hf : Respects f)
    {c c' : ProgramLogChunk} (h : shape c = shape c') : shape (f c) = shape (f c') := by
  rw [hf, hf, h]

/-- A chunk takes in a child. -/
theorem shape_adopt (parent chunk : ProgramLogChunk) (line : String) :
    shape { parent.push line with children := parent.children ++ [chunk] } =
      { shape parent with children := (shape parent).children ++ [shape chunk] } := by
  rw [shape_eq, shape_eq parent]
  simp only [List.map_append, List.map_singleton]
  rfl

/-- An open parent is closed around its child. -/
theorem shape_nest (parent chunk : ProgramLogChunk) :
    shape { parent.truncated with children := parent.children ++ [chunk] } =
      { (shape parent).truncated with children := (shape parent).children ++ [shape chunk] } := by
  rw [shape_eq, shape_eq parent]
  simp only [List.map_append, List.map_singleton]
  rfl

theorem respects_truncated : Respects ProgramLogChunk.truncated := by
  intro c
  rw [shape_eq, shape_eq]
  rfl

/-- The two states have the same shape. -/
structure Alike (st st' : ParseState) : Prop where
  roots : st.roots.map shape = st'.roots.map shape
  stack : st.stack.map shape = st'.stack.map shape
  logTruncated : st.logTruncated = st'.logTruncated

theorem Alike.trans {st₁ st₂ st₃ : ParseState} (h : Alike st₁ st₂) (h' : Alike st₂ st₃) :
    Alike st₁ st₃ :=
  ⟨h.roots.trans h'.roots, h.stack.trans h'.stack, h.logTruncated.trans h'.logTruncated⟩

theorem alike_report (st : ParseState) (i : Nat) (line reason : String) :
    Alike (st.report i line reason) st := ⟨rfl, rfl, rfl⟩

/-- A change of the innermost chunk that its shape does not show. -/
theorem alike_modifyTop {f : ProgramLogChunk → ProgramLogChunk}
    (hf : ∀ c, shape (f c) = shape c) (st : ParseState) : Alike (st.modifyTop f) st := by
  refine ⟨rfl, ?_, rfl⟩
  unfold ParseState.modifyTop
  cases st.stack with
  | nil => rfl
  | cons chunk rest =>
      show shape (f chunk) :: _ = _
      rw [hf]
      rfl

theorem alike_push (st : ParseState) (line : String) : Alike (st.push line) st :=
  alike_modifyTop (fun c => shape_push c line) st

theorem Alike.modifyTop {f g : ProgramLogChunk → ProgramLogChunk} {st st' : ParseState}
    (h : Alike st st') (hfg : ∀ c c', shape c = shape c' → shape (f c) = shape (g c')) :
    Alike (st.modifyTop f) (st'.modifyTop g) := by
  refine ⟨h.roots, ?_, h.logTruncated⟩
  have hstack := h.stack
  unfold ParseState.modifyTop
  cases hst : st.stack with
  | nil =>
      rw [hst] at hstack
      rw [List.map_eq_nil_iff.1 hstack.symm]
      rfl
  | cons chunk rest =>
      rw [hst] at hstack
      obtain ⟨chunk', rest', hst', hchunk, hrest⟩ := List.map_eq_cons_iff.1 hstack.symm
      rw [hst']
      show shape (f chunk) :: rest.map shape = shape (g chunk') :: rest'.map shape
      rw [hfg chunk chunk' hchunk.symm, hrest]

theorem Alike.push {st st' : ParseState} (h : Alike st st') (line line' : String) :
    Alike (st.push line) (st'.push line') :=
  h.modifyTop fun c c' hc => by rw [shape_push, shape_push, hc]

/-! ## A line of text -/

/-- Whatever follows the prefix, the line is a message or nothing known. -/
theorem read_text (text : String) :
    (∃ message, LogLine.read (logPrefix ++ text) = .log message) ∨
      LogLine.read (logPrefix ++ text) = .unrecognized := by
  have hlog : ∀ cs : List Char, readLog ("Program log: ".toList ++ cs) =
      (readText cs).map .log := fun cs => by
    unfold readLog
    have hskip : skip "Program log: " ("Program log: ".toList ++ cs) = some cs := rfl
    rw [hskip]
    show (readText cs).bind (fun message => some (LogLine.log message)) = _
    cases readText cs <;> rfl
  have hchain : LogLine.read (logPrefix ++ text) =
      ((readText text.toList).map LogLine.log).getD
        (if logPrefix ++ text = "Log truncated" then .logTruncated else .unrecognized) := by
    unfold LogLine.read
    dsimp only
    rw [String.toList_append]
    unfold logPrefix
    rw [hlog]
    cases readText text.toList <;> rfl
  have hne : logPrefix ++ text ≠ "Log truncated" := by
    intro heq
    have hlist := congrArg String.toList heq
    rw [String.toList_append] at hlist
    cases hlist
  rw [hchain, if_neg hne]
  cases readText text.toList with
  | none => exact .inr rfl
  | some message => exact .inl ⟨message, rfl⟩

/-- A line of text leaves the shape alone. -/
theorem line_text (st : ParseState) (i : Nat) (text : String) :
    Alike (st.line i (logPrefix ++ text)) st := by
  unfold ParseState.line
  rcases read_text text with ⟨message, hread⟩ | hread
  · rw [hread]
    cases hstack : st.stack with
    | nil => exact alike_report st i _ _
    | cons chunk rest =>
        apply (alike_push _ _).trans (alike_modifyTop (fun c => ?_) st)
        rw [shape_eq, shape_eq]
  · rw [hread]
    exact (alike_push _ _).trans (alike_report st i _ _)

/-! ## A line that is the same -/

theorem Alike.stack_nil {st st' : ParseState} (h : Alike st st') (hst : st.stack = []) :
    st'.stack = [] := by
  have hstack := h.stack
  rw [hst] at hstack
  exact List.map_eq_nil_iff.1 hstack.symm

theorem Alike.stack_cons {st st' : ParseState} (h : Alike st st') {chunk : ProgramLogChunk}
    {rest : List ProgramLogChunk} (hst : st.stack = chunk :: rest) :
    ∃ chunk' rest', st'.stack = chunk' :: rest' ∧ shape chunk = shape chunk' ∧
      rest.map shape = rest'.map shape := by
  have hstack := h.stack
  rw [hst] at hstack
  obtain ⟨chunk', rest', hst', hchunk, hrest⟩ := List.map_eq_cons_iff.1 hstack.symm
  exact ⟨chunk', rest', hst', hchunk.symm, hrest.symm⟩

theorem programId_of_shape {c c' : ProgramLogChunk} (h : shape c = shape c') :
    c.programId = c'.programId := by
  rw [shape_eq, shape_eq] at h
  have hid := congrArg ProgramLogChunk.programId h
  exact hid

theorem respects_success : Respects fun c => { c with success := true } := by
  intro c
  rw [shape_eq, shape_eq]

theorem respects_failed (reason : String) :
    Respects fun c => { c with success := false, failureReason := some reason } := by
  intro c
  rw [shape_eq, shape_eq]

theorem respects_data (payload : List UInt8) :
    Respects fun c => { c with dataPayloads := c.dataPayloads ++ [payload] } := by
  intro c
  rw [shape_eq, shape_eq]

theorem respects_units (units : ComputeUnits) :
    Respects fun c => { c with computeUnits := some units } := by
  intro c
  rw [shape_eq, shape_eq]

theorem respects_return (bytes : List UInt8) :
    Respects fun c => { c with returnData := some bytes } := by
  intro c
  rw [shape_eq, shape_eq]

theorem shape_logs (c : ProgramLogChunk) (logs : List String) :
    shape { c with logs := logs } = shape c := by
  rw [shape_eq, shape_eq]

theorem Alike.closeChunk {f : ProgramLogChunk → ProgramLogChunk} {st st' : ParseState}
    (h : Alike st st') (hf : Respects f) (line : String) :
    Alike (st.closeChunk line f) (st'.closeChunk line f) := by
  unfold ParseState.closeChunk
  cases hst : st.stack with
  | nil =>
      rw [h.stack_nil hst]
      exact h
  | cons chunk rest =>
      obtain ⟨chunk', rest', hst', hchunk, hrest⟩ := h.stack_cons hst
      have hclosed : shape ((f chunk).push line) = shape ((f chunk').push line) := by
        rw [shape_push, shape_push]
        exact hf.congr hchunk
      rw [hst']
      cases rest with
      | nil =>
          cases rest' with
          | cons parent' rest' => cases hrest
          | nil =>
              refine ⟨?_, rfl, h.logTruncated⟩
              show (st.roots ++ [_]).map shape = (st'.roots ++ [_]).map shape
              rw [List.map_append, List.map_append, h.roots, List.map_singleton,
                List.map_singleton, hclosed]
      | cons parent rest =>
          cases rest' with
          | nil => cases hrest
          | cons parent' rest' =>
              obtain ⟨hparent, hrest⟩ := List.cons_eq_cons.1 hrest
              refine ⟨h.roots, ?_, h.logTruncated⟩
              show shape _ :: rest.map shape = shape _ :: rest'.map shape
              rw [shape_adopt, shape_adopt, hparent, hclosed, hrest]

theorem Alike.terminate {f : ProgramLogChunk → ProgramLogChunk} {st st' : ParseState}
    (h : Alike st st') (hf : Respects f) (i : Nat) (line marker programId : String) :
    Alike (st.terminate i line marker programId f)
      (st'.terminate i line marker programId f) := by
  unfold ParseState.terminate
  cases hst : st.stack with
  | nil =>
      rw [h.stack_nil hst]
      exact ⟨h.roots, h.stack, h.logTruncated⟩
  | cons chunk rest =>
      obtain ⟨chunk', rest', hst', hchunk, -⟩ := h.stack_cons hst
      rw [hst']
      dsimp only
      rw [programId_of_shape hchunk]
      apply Alike.closeChunk ?_ hf
      split
      · exact ⟨h.roots, h.stack, h.logTruncated⟩
      · exact h

theorem Alike.openChunk {st st' : ParseState} (h : Alike st st') (line programId : String)
    (depth : Nat) : Alike (st.openChunk line programId depth)
      (st'.openChunk line programId depth) := by
  refine ⟨h.roots, ?_, h.logTruncated⟩
  show shape _ :: (st.push line).stack.map shape = shape _ :: (st'.push line).stack.map shape
  rw [(h.push line line).stack]

theorem Alike.report {st st' : ParseState} (h : Alike st st') (i : Nat)
    (line reason : String) : Alike (st.report i line reason) (st'.report i line reason) :=
  ⟨h.roots, h.stack, h.logTruncated⟩

theorem Alike.dataLine {st st' : ParseState} (h : Alike st st') (i : Nat) (line : String)
    (fields : List String) : Alike (st.dataLine i line fields) (st'.dataLine i line fields) := by
  unfold ParseState.dataLine
  cases fields.mapM decodeBase64Data with
  | error message => exact h.report i line _
  | ok slices =>
      exact (h.modifyTop fun _ _ hc => (respects_data slices.flatten).congr hc).push line line

theorem Alike.returnLine {st st' : ParseState} (h : Alike st st') (i : Nat)
    (line data : String) : Alike (st.returnLine i line data) (st'.returnLine i line data) := by
  unfold ParseState.returnLine
  cases decodeBase64Data data with
  | error message => exact (h.report i line _).push line line
  | ok bytes =>
      exact (h.modifyTop fun _ _ hc => (respects_return bytes).congr hc).push line line

theorem Alike.line {st st' : ParseState} (h : Alike st st') (i : Nat) (line : String) :
    Alike (st.line i line) (st'.line i line) := by
  have hhead : st.stack.head?.map (·.programId) = st'.stack.head?.map (·.programId) := by
    cases hst : st.stack with
    | nil => rw [h.stack_nil hst]
    | cons chunk rest =>
        obtain ⟨chunk', rest', hst', hchunk, -⟩ := h.stack_cons hst
        rw [hst']
        exact congrArg some (programId_of_shape hchunk)
  unfold ParseState.line
  cases LogLine.read line with
  | invoke programId depth => exact h.openChunk line programId depth
  | success programId => exact h.terminate respects_success i line _ programId
  | failed programId reason => exact h.terminate (respects_failed reason) i line _ programId
  | log message =>
      cases hst : st.stack with
      | nil =>
          rw [h.stack_nil hst]
          exact h.report i line _
      | cons chunk rest =>
          obtain ⟨chunk', rest', hst', -, -⟩ := h.stack_cons hst
          rw [hst']
          refine (h.modifyTop fun c c' hc => ?_).push line line
          rw [shape_logs, shape_logs, hc]
  | data fields =>
      cases hst : st.stack with
      | nil =>
          rw [h.stack_nil hst]
          exact h.report i line _
      | cons chunk rest =>
          obtain ⟨chunk', rest', hst', -, -⟩ := h.stack_cons hst
          rw [hst']
          exact h.dataLine i line fields
  | consumed programId units =>
      dsimp only
      rw [hhead]
      split
      · exact (h.modifyTop fun _ _ hc => (respects_units units).congr hc).push line line
      · exact (h.report i line _).push line line
  | returned programId data =>
      dsimp only
      rw [hhead]
      split
      · exact h.returnLine i line data
      · exact (h.report i line _).push line line
  | consumption => exact h.push line line
  | logTruncated =>
      refine Alike.push ?_ line line
      exact ⟨h.roots, h.stack, rfl⟩
  | unrecognized => exact (h.report i line _).push line line

/-! ## Two logs -/

theorem Alike.lines {st st' : ParseState} (h : Alike st st') (i : Nat)
    {logs logs' : List String} (hlogs : List.Forall₂ SameUpToText logs logs') :
    Alike (st.lines i logs) (st'.lines i logs') := by
  induction hlogs generalizing st st' i with
  | nil => exact h
  | cons hline _ ih =>
      apply ih
      rcases hline with rfl | ⟨text, text', rfl, rfl⟩
      · exact h.line i _
      · have hleft := line_text st i text
        have hright := line_text st' i text'
        exact ⟨hleft.roots.trans (h.roots.trans hright.roots.symm),
          hleft.stack.trans (h.stack.trans hright.stack.symm),
          hleft.logTruncated.trans (h.logTruncated.trans hright.logTruncated.symm)⟩

theorem shape_enclose {chunk chunk' : ProgramLogChunk} {rest rest' : List ProgramLogChunk}
    (hchunk : shape chunk = shape chunk') (hrest : rest.map shape = rest'.map shape) :
    shape (enclose chunk rest) = shape (enclose chunk' rest') := by
  induction rest generalizing chunk chunk' rest' with
  | nil =>
      rw [List.map_eq_nil_iff.1 hrest.symm]
      exact hchunk
  | cons parent rest ih =>
      obtain ⟨parent', rest', rfl, hparent, hmore⟩ := List.map_eq_cons_iff.1 hrest.symm
      apply ih _ hmore.symm
      rw [shape_nest, shape_nest, hchunk, hparent]

/-- Logs that differ in the text of messages only have the same tree and the same flag. -/
theorem text_forges_nothing {logs logs' : List String}
    (hlogs : List.Forall₂ SameUpToText logs logs') :
    (parseLogs logs).chunks.map shape = (parseLogs logs').chunks.map shape ∧
      (parseLogs logs).logTruncated = (parseLogs logs').logTruncated := by
  have halike : Alike (ParseState.lines {} 0 logs) (ParseState.lines {} 0 logs') :=
    Alike.lines ⟨rfl, rfl, rfl⟩ 0 hlogs
  refine ⟨?_, halike.logTruncated⟩
  unfold parseLogs
  dsimp only
  rw [List.map_append, List.map_append, halike.roots]
  congr 1
  cases hst : (ParseState.lines {} 0 logs).stack with
  | nil => rw [halike.stack_nil hst]
  | cons chunk rest =>
      obtain ⟨chunk', rest', hst', hchunk, hrest⟩ := halike.stack_cons hst
      rw [hst']
      show [shape _] = [shape _]
      congr 1
      apply shape_enclose _ hrest
      exact respects_truncated.congr hchunk

def invokeLine : String := "Program 11111111111111111111111111111111 invoke [1]"

def successLine : String := "Program 11111111111111111111111111111111 success"

/-- A message that looks like the end of its program. -/
def forged : String := "\n" ++ successLine

theorem text_forges_nothing_success :
    (parseLogs [invokeLine, logPrefix ++ "hi", successLine]).chunks.map shape =
        (parseLogs [invokeLine, logPrefix ++ forged, successLine]).chunks.map shape ∧
      (parseLogs [invokeLine, logPrefix ++ "hi", successLine]).logTruncated =
        (parseLogs [invokeLine, logPrefix ++ forged, successLine]).logTruncated :=
  text_forges_nothing (.cons (.inl rfl) (.cons (.inr ⟨"hi", forged, rfl, rfl⟩)
    (.cons (.inl rfl) .nil)))

end Ap3xSolana.Events.LogText
