import Ap3xSolana.Events.RawTraces

/-!
# Where every line goes

An account of a log: its invocations by the index of their `invoke` line, the lines that each
of them keeps, and the terminator that closes it.  It reads nothing of a line but what it
opens, closes or carries, and says which invocation is executing at any line.

The tree that `parseLogs` returns tells the same (`lines_accounted`): a line is in the trace of
the chunk that was executing, or it is reported.  What falls out is the runtime's bookkeeping
outside of any invocation, `Program consumption` lines and `Log truncated`.
-/

namespace Ap3xSolana.Events.LineAccounting

open Ap3xSolana.Events.RawTraces

/-! ## The property -/

def isInvoke (line : String) : Bool :=
  match LogLine.read line with
  | .invoke _ _ => true
  | _ => false

def isInvokeAt (logs : List String) (i : Nat) : Bool := (logs[i]?).any isInvoke

/-- Runtime bookkeeping with nothing to extract. -/
def isBookkeeping (line : String) : Bool :=
  match LogLine.read line with
  | .consumption => true
  | .logTruncated => true
  | _ => false

/-- The open invocations after a line, the innermost first. -/
def openAfter (running : List Nat) (i : Nat) (line : String) : List Nat :=
  match LogLine.read line with
  | .invoke _ _ => i :: running
  | .success _ => running.tail
  | .failed _ _ => running.tail
  | _ => running

def openFrom (running : List Nat) (i : Nat) : List String → List Nat
  | [] => running
  | line :: rest => openFrom (openAfter running i line) (i + 1) rest

/-- The invocations that are open before line `i`, by their `invoke` lines. -/
def openBefore (logs : List String) (i : Nat) : List Nat := openFrom [] 0 (logs.take i)

/-- The invocation that a line belongs to. -/
def executing (logs : List String) (i : Nat) (line : String) : Option Nat :=
  if isInvoke line then some i else (openBefore logs i).head?

/-- Line `i` is the terminator of an invocation. -/
def Closes (logs : List String) (i opened : Nat) : Prop :=
  ∃ line, logs[i]? = some line ∧ closes line = true ∧ executing logs i line = some opened

/-- An invocation, with the lines that are kept for it. -/
structure Invocation where
  opened : Nat
  kept : List Nat
  closed : Option Nat := none
  deriving DecidableEq, Repr

/-- The chunk is marked as its terminator says. -/
def MarkedBy (chunk : ProgramLogChunk) (line : String) : Prop :=
  (∃ programId, LogLine.read line = .success programId ∧ chunk.success = true) ∨
    ∃ programId reason, LogLine.read line = .failed programId reason ∧ chunk.success = false ∧
      chunk.failureReason = some reason

/-- The trace of the chunk is what the invocation keeps. -/
def Traced (logs : List String) (chunk : ProgramLogChunk) (inv : Invocation) : Prop :=
  chunk.rawLines.map some = inv.kept.map (logs[·]?)

/-- What a chunk tells of its invocation. -/
structure Tells (logs : List String) (chunk : ProgramLogChunk) (inv : Invocation) : Prop where
  trace : Traced logs chunk inv
  truncated : inv.closed = none → chunk.success = false ∧ chunk.failureReason = some "truncated"
  marked : ∀ i, inv.closed = some i → ∃ line, logs[i]? = some line ∧ MarkedBy chunk line

/-- The chunks are the invocations, in their order.  Every line is kept by the invocation that
was executing or reported, unless it may be `lost`. -/
structure Accounts (logs : List String) (lost : Nat → String → Prop)
    (invocations : List Invocation) : Prop where
  chunks : List.Forall₂ (Tells logs) (preorders (parseLogs logs).chunks) invocations
  opened : invocations.map (·.opened) = (List.range logs.length).filter (isInvokeAt logs)
  sorted : ∀ inv ∈ invocations, inv.kept.Pairwise (· < ·)
  lines : ∀ i line, logs[i]? = some line → ¬ lost i line →
    (∃ inv ∈ invocations, executing logs i line = some inv.opened ∧ i ∈ inv.kept) ∨
      ∃ e ∈ (parseLogs logs).parseErrors, e.lineIndex = i ∧ e.line = line
  truncated : ∀ inv ∈ invocations, inv.opened ∈ openBefore logs logs.length →
    inv.closed = none ∧ ∀ i, ¬ Closes logs i inv.opened
  closed : ∀ inv ∈ invocations, inv.opened ∉ openBefore logs logs.length →
    ∃ i, inv.closed = some i ∧ ∀ j, Closes logs j inv.opened ↔ j = i

/-- Every line goes somewhere, and the chunks are as many as the `invoke` lines. -/
def Accounted (logs : List String) (lost : Nat → String → Prop) : Prop :=
  (∃ invocations, Accounts logs lost invocations) ∧
    (preorders (parseLogs logs).chunks).length = (logs.filter isInvoke).length

/-- Bookkeeping outside of any invocation. -/
def Outside (logs : List String) (i : Nat) (line : String) : Prop :=
  isBookkeeping line = true ∧ openBefore logs i = []

/-! ## The account -/

/-- An open invocation, with those that were inside it and are closed. -/
structure Frame where
  own : Invocation
  inside : List Invocation := []

structure Account where
  ended : List Invocation := []
  stack : List Frame := []

def Invocation.keep (inv : Invocation) (i : Nat) : Invocation :=
  { inv with kept := inv.kept ++ [i] }

/-- An invocation after line `i`, which it may keep. -/
def Later (i : Nat) (inv inv' : Invocation) : Prop := inv' = inv ∨ inv' = inv.keep i

theorem later_refl {i : Nat} (invs : List Invocation) : List.Forall₂ (Later i) invs invs :=
  List.forall₂_same.2 fun _ _ => .inl rfl

/-- The invocation ends with line `i`. -/
def Invocation.close (inv : Invocation) (i : Nat) : Invocation :=
  { inv.keep i with closed := some i }

namespace Account

def keep (a : Account) (i : Nat) : Account :=
  { a with stack := a.stack.modifyHead fun f => { f with own := f.own.keep i } }

def start (a : Account) (i : Nat) : Account :=
  { a with stack := { own := { opened := i, kept := [i] } } :: (a.keep i).stack }

def close (a : Account) (i : Nat) : Account :=
  match a.stack with
  | [] => a
  | [f] => { ended := a.ended ++ f.own.close i :: f.inside, stack := [] }
  | f :: parent :: below =>
      { a with
        stack := { own := parent.own.keep i
                   inside := parent.inside ++ f.own.close i :: f.inside } :: below }

def line (a : Account) (i : Nat) (line : String) : Account :=
  match LogLine.read line with
  | .invoke _ _ => a.start i
  | .success _ => a.close i
  | .failed _ _ => a.close i
  | _ => if badData line then a else a.keep i

def lines (a : Account) (i : Nat) : List String → Account
  | [] => a
  | line :: rest => (a.line i line).lines (i + 1) rest

def inner : List Frame → List Invocation
  | [] => []
  | f :: below => inner below ++ f.own :: f.inside

/-- In the order of their `invoke` lines. -/
def invocations (a : Account) : List Invocation := a.ended ++ inner a.stack

/-- The invocations up to the innermost open one. -/
def before (a : Account) (below : List Frame) : Account := { a with stack := below }

theorem invocations_eq {a : Account} {f : Frame} {below : List Frame}
    (h : a.stack = f :: below) :
    a.invocations = (a.before below).invocations ++ f.own :: f.inside := by
  unfold invocations before
  rw [h, inner, List.append_assoc]

theorem keep_invocations {a : Account} {f : Frame} {below : List Frame} (i : Nat)
    (h : a.stack = f :: below) :
    (a.keep i).invocations = (a.before below).invocations ++ f.own.keep i :: f.inside := by
  have hstack : (a.keep i).stack = { f with own := f.own.keep i } :: below := by
    unfold keep
    rw [h]
    rfl
  rw [invocations_eq hstack]
  rfl

theorem keep_nil {a : Account} (i : Nat) (h : a.stack = []) : a.keep i = a := by
  unfold keep
  rw [h]
  cases a
  cases h
  rfl

theorem start_invocations (a : Account) (i : Nat) :
    (a.start i).invocations = (a.keep i).invocations ++ [{ opened := i, kept := [i] }] := by
  unfold start invocations
  rw [inner, List.append_assoc]
  rfl

theorem close_invocations {a : Account} {f : Frame} {below : List Frame} (i : Nat)
    (h : a.stack = f :: below) :
    (a.close i).invocations =
      ((a.before below).keep i).invocations ++ f.own.close i :: f.inside := by
  unfold close
  rw [h]
  cases below with
  | nil =>
      rw [keep_nil i rfl]
      show (a.ended ++ _) ++ [] = (a.ended ++ []) ++ _
      rw [List.append_nil, List.append_nil]
  | cons parent below =>
      have hparent : (a.before (parent :: below)).stack = parent :: below := rfl
      rw [keep_invocations i hparent]
      show a.ended ++ (inner below ++ _ :: (_ ++ _)) = (a.ended ++ inner below) ++ _ :: _ ++ _
      simp only [List.append_assoc, List.cons_append]

theorem keep_later (a : Account) (i : Nat) :
    List.Forall₂ (Later i) a.invocations (a.keep i).invocations := by
  cases h : a.stack with
  | nil =>
      rw [keep_nil i h]
      exact later_refl _
  | cons f below =>
      rw [keep_invocations i h, invocations_eq h]
      exact List.rel_append (later_refl _) (.cons (.inr rfl) (later_refl _))

end Account

/-! ## The chunks tell the same -/

/-- The state of the parser shows the account. -/
structure Mirrors (logs : List String) (st : ParseState) (a : Account) : Prop where
  roots : List.Forall₂ (Tells logs) (preorders st.roots) a.ended
  stack : List.Forall₂ (fun chunk f => Traced logs chunk f.own ∧
    List.Forall₂ (Tells logs) (preorders chunk.children) f.inside) st.stack a.stack

section Mirrors

variable {logs : List String} {st : ParseState} {a : Account} {i : Nat} {line : String}

theorem Traced.keep {chunk chunk' : ProgramLogChunk} {inv : Invocation}
    (h : Traced logs chunk inv) (hline : logs[i]? = some line)
    (hraw : chunk'.rawLines = chunk.rawLines ++ [line]) : Traced logs chunk' (inv.keep i) := by
  unfold Traced Invocation.keep
  rw [hraw, List.map_append, List.map_append, h, List.map_singleton, List.map_singleton, hline]

/-- The innermost chunk has the line in its trace. -/
theorem Mirrors.keep {st' : ParseState} (h : Mirrors logs st a) (hline : logs[i]? = some line)
    (hrecords : Records line st st') (hgood : badData line = false) :
    Mirrors logs st' (a.keep i) := by
  obtain ⟨f, hf, hchunk⟩ := hrecords.stack
  have hstack := h.stack
  refine ⟨hrecords.roots ▸ h.roots, ?_⟩
  rw [hf]
  show List.Forall₂ _ _ (a.stack.modifyHead _)
  cases hst : st.stack with
  | nil =>
      rw [hst] at hstack
      rw [List.forall₂_nil_left_iff.1 hstack]
      exact .nil
  | cons chunk below =>
      rw [hst] at hstack
      obtain ⟨fr, frames, hframe, hbelow, ha⟩ := List.forall₂_cons_left_iff.1 hstack
      obtain ⟨-, hchildren, hraw⟩ := hchunk chunk
      rw [hgood] at hraw
      rw [ha]
      refine .cons ⟨hframe.1.keep hline hraw, ?_⟩ hbelow
      rw [hchildren]
      exact hframe.2

theorem Mirrors.skip {st' : ParseState} (h : Mirrors logs st a)
    (hrecords : Records line st st') (hbad : badData line = true) : Mirrors logs st' a := by
  obtain ⟨f, hf, hchunk⟩ := hrecords.stack
  have hstack := h.stack
  refine ⟨hrecords.roots ▸ h.roots, ?_⟩
  rw [hf]
  cases hst : st.stack with
  | nil =>
      rw [hst] at hstack
      exact hstack
  | cons chunk below =>
      rw [hst] at hstack
      obtain ⟨fr, frames, hframe, hbelow, ha⟩ := List.forall₂_cons_left_iff.1 hstack
      obtain ⟨-, hchildren, hraw⟩ := hchunk chunk
      rw [hbad] at hraw
      rw [ha]
      refine .cons ⟨?_, ?_⟩ hbelow
      · unfold Traced
        rw [hraw, if_pos rfl, List.append_nil]
        exact hframe.1
      · rw [hchildren]
        exact hframe.2

theorem Mirrors.start (h : Mirrors logs st a) (hline : logs[i]? = some line)
    (hgood : badData line = false) (programId : String) (depth : Nat) :
    Mirrors logs (st.openChunk line programId depth) (a.start i) := by
  have hparent := h.keep hline (records_noted hgood rfl rfl : Records line st (st.push line)) hgood
  refine ⟨hparent.roots, .cons ⟨?_, .nil⟩ hparent.stack⟩
  show [line].map some = [i].map (logs[·]?)
  rw [List.map_singleton, List.map_singleton, hline]

/-- A chunk takes its place, marked by the terminator. -/
theorem closed_tells {chunk closed : ProgramLogChunk} {f : Frame}
    (hframe : Traced logs chunk f.own ∧
      List.Forall₂ (Tells logs) (preorders chunk.children) f.inside)
    (hline : logs[i]? = some line) (hraw : closed.rawLines = chunk.rawLines ++ [line])
    (hchildren : closed.children = chunk.children) (hmarked : MarkedBy closed line) :
    List.Forall₂ (Tells logs) (preorder closed) (f.own.close i :: f.inside) := by
  rw [preorder_eq, hchildren]
  refine .cons ⟨?_, nofun, ?_⟩ hframe.2
  · exact hframe.1.keep hline hraw
  · rintro j hj
    cases hj
    exact ⟨line, hline, hmarked⟩

theorem Mirrors.close (h : Mirrors logs st a) (hline : logs[i]? = some line)
    {f : ProgramLogChunk → ProgramLogChunk}
    (hf : ∀ chunk, (f chunk).children = chunk.children ∧ (f chunk).rawLines = chunk.rawLines ∧
      MarkedBy ((f chunk).push line) line) :
    Mirrors logs (st.closeChunk line f) (a.close i) := by
  have hclosed : ∀ {chunk : ProgramLogChunk} {fr : Frame}, (Traced logs chunk fr.own ∧
      List.Forall₂ (Tells logs) (preorders chunk.children) fr.inside) →
      List.Forall₂ (Tells logs) (preorder ((f chunk).push line))
        (fr.own.close i :: fr.inside) := by
    intro chunk fr hframe
    obtain ⟨hchildren, hraw, hmarked⟩ := hf chunk
    exact closed_tells hframe hline (congrArg (· ++ [line]) hraw) hchildren hmarked
  have hstack := h.stack
  unfold ParseState.closeChunk Account.close
  cases hst : st.stack with
  | nil =>
      rw [hst] at hstack
      rw [List.forall₂_nil_left_iff.1 hstack]
      exact h
  | cons chunk below =>
      rw [hst] at hstack
      obtain ⟨fr, frames, hframe, hbelow, ha⟩ := List.forall₂_cons_left_iff.1 hstack
      rw [ha]
      cases hbelow with
      | nil =>
          refine ⟨?_, .nil⟩
          show List.Forall₂ _ (preorders (st.roots ++ [_])) _
          rw [preorders_append, preorders_singleton]
          exact List.rel_append h.roots (hclosed hframe)
      | cons hparent hrest =>
          refine ⟨h.roots, .cons ⟨hparent.1.keep hline rfl, ?_⟩ hrest⟩
          show List.Forall₂ _ (preorders (_ ++ [_])) _
          rw [preorders_append, preorders_singleton]
          exact List.rel_append hparent.2 (hclosed hframe)

theorem terminate_mirrors (h : Mirrors logs st a) (hline : logs[i]? = some line)
    (marker programId : String) {f : ProgramLogChunk → ProgramLogChunk}
    (hf : ∀ chunk, (f chunk).children = chunk.children ∧ (f chunk).rawLines = chunk.rawLines ∧
      MarkedBy ((f chunk).push line) line) :
    Mirrors logs (st.terminate i line marker programId f) (a.close i) := by
  obtain ⟨st', hst', hroots, hstack⟩ := terminate_closes st i line marker programId f
  have h' : Mirrors logs st' a := ⟨hroots ▸ h.roots, hstack ▸ h.stack⟩
  rw [hst']
  exact h'.close hline hf

theorem Account.line_eq (a : Account) (i : Nat) (line : String) :
    a.line i line =
      if isInvoke line then a.start i
      else if closes line then a.close i
      else if badData line then a
      else a.keep i := by
  unfold Account.line isInvoke closes
  cases LogLine.read line <;> rfl

/-- One turn of the loop. -/
theorem Mirrors.turn (h : Mirrors logs st a) (hline : logs[i]? = some line) :
    Mirrors logs (st.line i line) (a.line i line) := by
  cases hread : LogLine.read line with
  | invoke programId depth =>
      have hgood : badData line = false := by simp [badData, hread]
      have hst : st.line i line = st.openChunk line programId depth := by
        unfold ParseState.line
        rw [hread]
      have ha : a.line i line = a.start i := by
        unfold Account.line
        rw [hread]
      rw [hst, ha]
      exact h.start hline hgood programId depth
  | success programId =>
      have hst : st.line i line =
          st.terminate i line "success" programId fun c => { c with success := true } := by
        unfold ParseState.line
        rw [hread]
      have ha : a.line i line = a.close i := by
        unfold Account.line
        rw [hread]
      rw [hst, ha]
      exact terminate_mirrors h hline _ _ fun chunk => ⟨rfl, rfl, .inl ⟨programId, hread, rfl⟩⟩
  | failed programId reason =>
      have hst : st.line i line = st.terminate i line "failed" programId fun c =>
          { c with success := false, failureReason := some reason } := by
        unfold ParseState.line
        rw [hread]
      have ha : a.line i line = a.close i := by
        unfold Account.line
        rw [hread]
      rw [hst, ha]
      exact terminate_mirrors h hline _ _ fun chunk =>
        ⟨rfl, rfl, .inr ⟨programId, reason, hread, rfl, rfl⟩⟩
  | _ =>
      have hinvoke : ∀ programId depth, LogLine.read line ≠ .invoke programId depth := by
        simp [hread]
      have hcloses : closes line = false := by simp [closes, hread]
      have hnotInvoke : isInvoke line = false := by simp [isInvoke, hread]
      have hrecords := line_records st i hinvoke hcloses
      rw [Account.line_eq, hnotInvoke, hcloses, if_neg Bool.false_ne_true,
        if_neg Bool.false_ne_true]
      split
      · rename_i hbad
        exact h.skip hrecords hbad
      · rename_i hgood
        exact h.keep hline hrecords (Bool.eq_false_iff.2 hgood)

/-- The line whose turn it is, where the lines from `i` on are still to come. -/
theorem line_of_drop {line : String} {rest : List String} (hrest : logs.drop i = line :: rest) :
    logs[i]? = some line ∧ logs.drop (i + 1) = rest := by
  constructor
  · rw [← List.head?_drop, hrest, List.head?_cons]
  · rw [← List.drop_drop, hrest, List.drop_one, List.tail_cons]

theorem Mirrors.turns {rest : List String} (h : Mirrors logs st a) (hrest : logs.drop i = rest) :
    Mirrors logs (st.lines i rest) (a.lines i rest) := by
  induction rest generalizing st a i with
  | nil => exact h
  | cons line rest ih =>
      obtain ⟨hline, hdrop⟩ := line_of_drop hrest
      exact ih (h.turn hline) hdrop

/-- What is still open at the end is closed from the inside out. -/
theorem enclose_tells {chunk : ProgramLogChunk} {invs : List Invocation}
    {below : List ProgramLogChunk} {frames : List Frame}
    (hchunk : List.Forall₂ (Tells logs) (preorder chunk) invs)
    (hbelow : List.Forall₂ (fun chunk f => Traced logs chunk f.own ∧
      List.Forall₂ (Tells logs) (preorders chunk.children) f.inside) below frames)
    (hopen : ∀ f ∈ frames, f.own.closed = none) :
    List.Forall₂ (Tells logs) (preorder (enclose chunk below)) (Account.inner frames ++ invs) := by
  induction hbelow generalizing chunk invs with
  | nil => exact hchunk
  | @cons parent f below frames hframe _ ih =>
      have hnone := hopen f List.mem_cons_self
      have hparent : List.Forall₂ (Tells logs)
          (preorder { parent.truncated with children := parent.children ++ [chunk] })
          (f.own :: (f.inside ++ invs)) := by
        rw [preorder_eq]
        refine .cons ⟨hframe.1, fun _ => ⟨rfl, rfl⟩, fun i hi => ?_⟩ ?_
        · rw [hnone] at hi
          cases hi
        · show List.Forall₂ _ (preorders (parent.children ++ [chunk])) _
          rw [preorders_append, preorders_singleton]
          exact List.rel_append hframe.2 hchunk
      have henclosed := ih hparent fun f' hf' => hopen f' (List.mem_cons_of_mem _ hf')
      rw [Account.inner, List.append_assoc]
      exact henclosed

/-- The tree shows the account of the whole log. -/
theorem Mirrors.tree (h : Mirrors logs (ParseState.lines {} 0 logs) a)
    (hopen : ∀ f ∈ a.stack, f.own.closed = none) :
    List.Forall₂ (Tells logs) (preorders (parseLogs logs).chunks) a.invocations := by
  have hstack := h.stack
  unfold parseLogs Account.invocations
  dsimp only
  rw [preorders_append]
  refine List.rel_append h.roots ?_
  cases hst : (ParseState.lines {} 0 logs).stack with
  | nil =>
      rw [hst] at hstack
      rw [List.forall₂_nil_left_iff.1 hstack]
      exact .nil
  | cons chunk below =>
      rw [hst] at hstack
      obtain ⟨f, frames, hframe, hbelow, ha⟩ := List.forall₂_cons_left_iff.1 hstack
      rw [ha] at hopen
      have hnone := hopen f List.mem_cons_self
      have hchunk : List.Forall₂ (Tells logs) (preorder chunk.truncated)
          (f.own :: f.inside) := by
        rw [preorder_eq]
        refine .cons ⟨hframe.1, fun _ => ⟨rfl, rfl⟩, fun i hi => ?_⟩ hframe.2
        rw [hnone] at hi
        cases hi
      rw [ha]
      show List.Forall₂ _ (preorders [enclose chunk.truncated below]) _
      rw [preorders_singleton, Account.inner]
      exact enclose_tells hchunk hbelow fun f' hf' => hopen f' (List.mem_cons_of_mem _ hf')

end Mirrors

/-! ## What is reported -/

/-- The line is reported, at least if it is due. -/
def Reports (i : Nat) (line : String) (due : Prop) (st st' : ParseState) : Prop :=
  ∃ es, st'.parseErrors = st.parseErrors ++ es ∧ (∀ e ∈ es, e.lineIndex = i ∧ e.line = line) ∧
    (due → es ≠ [])

section Reports

variable {i : Nat} {line : String} {due : Prop} {st st' : ParseState}

theorem reports_none (h : st'.parseErrors = st.parseErrors) (hdue : ¬ due) :
    Reports i line due st st' := by
  refine ⟨[], ?_, List.forall_mem_nil _, fun h => absurd h hdue⟩
  rw [h, List.append_nil]

theorem reports_one (reason : String)
    (h : st'.parseErrors = (st.report i line reason).parseErrors) :
    Reports i line due st st' := by
  refine ⟨_, h, ?_, fun _ => List.cons_ne_nil _ _⟩
  intro e he
  rw [List.mem_singleton.1 he]
  exact ⟨rfl, rfl⟩

theorem parseErrors_closeChunk (st : ParseState) (line : String)
    (f : ProgramLogChunk → ProgramLogChunk) :
    (st.closeChunk line f).parseErrors = st.parseErrors := by
  unfold ParseState.closeChunk
  split <;> rfl

theorem terminate_reports (st : ParseState) (i : Nat) (line marker programId : String)
    (f : ProgramLogChunk → ProgramLogChunk) (hdue : due → st.stack = []) :
    Reports i line due st (st.terminate i line marker programId f) := by
  unfold ParseState.terminate
  split
  · exact reports_one _ rfl
  · rename_i current below hst
    have hnot : ¬ due := fun h => by
      rw [hdue h] at hst
      cases hst
    dsimp only
    split
    · exact reports_one _ (parseErrors_closeChunk _ _ _)
    · exact reports_none (parseErrors_closeChunk _ _ _) hnot

theorem dataLine_reports (st : ParseState) (i : Nat) {line : String} {fields : List String}
    (hread : LogLine.read line = .data fields) (hdue : due → badData line = true) :
    Reports i line due st (st.dataLine i line fields) := by
  unfold ParseState.dataLine
  cases hfields : fields.mapM decodeBase64Data with
  | ok slices =>
      refine reports_none rfl fun h => ?_
      have hbad := hdue h
      simp [badData, hread, hfields] at hbad
  | error message => exact reports_one _ rfl

theorem returnLine_reports (st : ParseState) (i : Nat) (line data : String) (hdue : ¬ due) :
    Reports i line due st (st.returnLine i line data) := by
  unfold ParseState.returnLine
  cases decodeBase64Data data with
  | ok bytes => exact reports_none rfl hdue
  | error message => exact reports_one _ rfl

/-- A data line that does not decode is reported, and every line outside of any invocation that
is neither an `invoke` nor bookkeeping. -/
def Due (st : ParseState) (line : String) : Prop :=
  badData line = true ∨ st.stack = [] ∧ isInvoke line = false ∧ isBookkeeping line = false

theorem line_reports (st : ParseState) (i : Nat) (line : String) :
    Reports i line (Due st line) st (st.line i line) := by
  unfold ParseState.line
  cases hread : LogLine.read line with
  | invoke programId depth =>
      refine reports_none rfl ?_
      rintro (hbad | ⟨-, hinvoke, -⟩)
      · simp [badData, hread] at hbad
      · simp [isInvoke, hread] at hinvoke
  | success programId =>
      refine terminate_reports st i line _ _ _ ?_
      rintro (hbad | ⟨hst, -⟩)
      · simp [badData, hread] at hbad
      · exact hst
  | failed programId reason =>
      refine terminate_reports st i line _ _ _ ?_
      rintro (hbad | ⟨hst, -⟩)
      · simp [badData, hread] at hbad
      · exact hst
  | log message =>
      cases hst : st.stack with
      | nil => exact reports_one _ rfl
      | cons chunk below =>
          refine reports_none rfl ?_
          rintro (hbad | ⟨hnil, -⟩)
          · simp [badData, hread] at hbad
          · rw [hst] at hnil
            cases hnil
  | data fields =>
      cases hst : st.stack with
      | nil => exact reports_one _ rfl
      | cons chunk below =>
          refine dataLine_reports st i hread ?_
          rintro (hbad | ⟨hnil, -⟩)
          · exact hbad
          · rw [hst] at hnil
            cases hnil
  | consumed programId units =>
      dsimp only
      split
      · rename_i htop
        refine reports_none rfl ?_
        rintro (hbad | ⟨hnil, -⟩)
        · simp [badData, hread] at hbad
        · rw [hnil] at htop
          cases htop
      · exact reports_one _ rfl
  | returned programId data =>
      dsimp only
      split
      · rename_i htop
        refine returnLine_reports st i line data ?_
        rintro (hbad | ⟨hnil, -⟩)
        · simp [badData, hread] at hbad
        · rw [hnil] at htop
          cases htop
      · exact reports_one _ rfl
  | consumption =>
      refine reports_none rfl ?_
      rintro (hbad | ⟨-, -, hbook⟩)
      · simp [badData, hread] at hbad
      · simp [isBookkeeping, hread] at hbook
  | logTruncated =>
      refine reports_none rfl ?_
      rintro (hbad | ⟨-, -, hbook⟩)
      · simp [badData, hread] at hbad
      · simp [isBookkeeping, hread] at hbook
  | unrecognized => exact reports_one _ rfl

end Reports

/-! ## Which invocations are open -/

section Open

variable {logs : List String} {i : Nat} {line : String}

theorem openFrom_concat (running : List Nat) (i : Nat) (rest : List String) (line : String) :
    openFrom running i (rest ++ [line]) =
      openAfter (openFrom running i rest) (i + rest.length) line := by
  induction rest generalizing running i with
  | nil => rfl
  | cons first rest ih =>
      rw [List.cons_append, openFrom, ih, openFrom, List.length_cons]
      congr 1
      omega

theorem openBefore_succ (h : logs[i]? = some line) :
    openBefore logs (i + 1) = openAfter (openBefore logs i) i line := by
  have hlt := (List.getElem?_eq_some_iff.1 h).1
  unfold openBefore
  rw [List.take_add_one, h, Option.toList_some, openFrom_concat, List.length_take_of_le
    (Nat.le_of_lt hlt), Nat.zero_add]

theorem openAfter_eq (running : List Nat) (i : Nat) (line : String) :
    openAfter running i line =
      if isInvoke line then i :: running else if closes line then running.tail else running := by
  unfold openAfter isInvoke closes
  cases LogLine.read line <;> rfl

theorem mem_openFrom {running : List Nat} {i o : Nat} {rest : List String}
    (h : o ∈ openFrom running i rest) : o ∈ running ∨ o < i + rest.length := by
  induction rest generalizing running i with
  | nil => exact .inl h
  | cons first rest ih =>
      rw [List.length_cons]
      rcases ih h with hmem | hlt
      · rw [openAfter_eq] at hmem
        split at hmem
        · rcases List.mem_cons.1 hmem with rfl | hmem
          · right
            omega
          · exact .inl hmem
        · split at hmem
          · exact .inl (List.mem_of_mem_tail hmem)
          · exact .inl hmem
      · right
        omega

theorem openBefore_lt {o : Nat} (h : o ∈ openBefore logs i) : o < i := by
  rcases mem_openFrom h with hnil | hlt
  · cases hnil
  · rw [Nat.zero_add] at hlt
    exact Nat.lt_of_lt_of_le hlt (List.length_take_le i logs)

theorem isInvoke_of_closes (h : closes line = true) : isInvoke line = false := by
  unfold closes at h
  unfold isInvoke
  cases hread : LogLine.read line with
  | invoke programId depth => simp [hread] at h
  | _ => rfl

theorem closes_iff (h : logs[i]? = some line) (opened : Nat) :
    Closes logs i opened ↔ closes line = true ∧ (openBefore logs i).head? = some opened := by
  unfold Closes executing
  constructor
  · rintro ⟨line', hline', hcloses, hexec⟩
    cases h.symm.trans hline'
    rw [isInvoke_of_closes hcloses] at hexec
    exact ⟨hcloses, hexec⟩
  · rintro ⟨hcloses, hhead⟩
    refine ⟨line, h, hcloses, ?_⟩
    rw [isInvoke_of_closes hcloses]
    exact hhead

theorem Closes.lt {opened : Nat} (h : Closes logs i opened) : opened < i := by
  obtain ⟨line, hline, -⟩ := id h
  exact openBefore_lt (List.mem_of_mem_head? ((closes_iff hline opened).1 h).2)

end Open

/-! ## The account is right -/

/-- What the lines up to `i` have made of an invocation. -/
structure Settled (logs : List String) (i : Nat) (inv : Invocation) : Prop where
  truncated : inv.opened ∈ openBefore logs i →
    inv.closed = none ∧ ∀ j < i, ¬ Closes logs j inv.opened
  closed : inv.opened ∉ openBefore logs i →
    ∃ k < i, inv.closed = some k ∧ ∀ j < i, Closes logs j inv.opened ↔ j = k

structure Inv (logs : List String) (i : Nat) (a : Account) : Prop where
  running : openBefore logs i = a.stack.map (·.own.opened)
  opened : a.invocations.map (·.opened) = (List.range i).filter (isInvokeAt logs)
  kept : ∀ inv ∈ a.invocations, inv.kept.Pairwise (· < ·) ∧ ∀ j ∈ inv.kept, j < i
  lines : ∀ j line o, j < i → logs[j]? = some line → badData line = false →
    executing logs j line = some o → ∃ inv ∈ a.invocations, inv.opened = o ∧ j ∈ inv.kept
  settled : ∀ inv ∈ a.invocations, Settled logs i inv

theorem mem_right {R : Invocation → Invocation → Prop} {invs invs' : List Invocation}
    {inv' : Invocation} (h : List.Forall₂ R invs invs') (hmem : inv' ∈ invs') :
    ∃ inv ∈ invs, R inv inv' := by
  induction h with
  | nil => cases hmem
  | @cons first first' invs invs' hfirst _ ih =>
      rcases List.mem_cons.1 hmem with rfl | hmem
      · exact ⟨first, List.mem_cons_self, hfirst⟩
      · obtain ⟨inv, hinv, hrest⟩ := ih hmem
        exact ⟨inv, List.mem_cons_of_mem _ hinv, hrest⟩

/-- An invocation after line `i`; whether it is closed does not matter. -/
structure Grown (i : Nat) (inv inv' : Invocation) : Prop where
  opened : inv'.opened = inv.opened
  kept : inv'.kept = inv.kept ∨ inv'.kept = inv.kept ++ [i]

section Inv

variable {logs : List String} {i : Nat} {line : String} {a : Account} {f : Frame}
  {below : List Frame} {inv inv' : Invocation}

theorem Later.grown (h : Later i inv inv') : Grown i inv inv' := by
  rcases h with rfl | rfl
  · exact ⟨rfl, .inl rfl⟩
  · exact ⟨rfl, .inr rfl⟩

theorem Later.closed (h : Later i inv inv') : inv'.closed = inv.closed := by
  rcases h with rfl | rfl <;> rfl

theorem Later.opened (h : Later i inv inv') : inv'.opened = inv.opened := h.grown.opened

theorem grown_refl (invs : List Invocation) : List.Forall₂ (Grown i) invs invs :=
  List.forall₂_same.2 fun _ _ => ⟨rfl, .inl rfl⟩

theorem keep_grown (a : Account) (i : Nat) :
    List.Forall₂ (Grown i) a.invocations (a.keep i).invocations :=
  (a.keep_later i).imp fun _ _ h => Later.grown h

theorem close_grown (a : Account) (i : Nat) :
    List.Forall₂ (Grown i) a.invocations (a.close i).invocations := by
  cases h : a.stack with
  | nil =>
      have hclose : a.close i = a := by
        unfold Account.close
        rw [h]
      rw [hclose]
      exact grown_refl _
  | cons f below =>
      rw [Account.invocations_eq h, Account.close_invocations i h]
      exact List.rel_append (keep_grown _ i) (.cons ⟨rfl, .inr rfl⟩ (grown_refl _))

theorem map_opened_grown {invs invs' : List Invocation} (h : List.Forall₂ (Grown i) invs invs') :
    invs'.map (·.opened) = invs.map (·.opened) := by
  induction h with
  | nil => rfl
  | cons hgrown _ ih => rw [List.map_cons, List.map_cons, hgrown.opened, ih]

theorem Grown.sorted (h : Grown i inv inv')
    (hkept : inv.kept.Pairwise (· < ·) ∧ ∀ j ∈ inv.kept, j < i) :
    inv'.kept.Pairwise (· < ·) ∧ ∀ j ∈ inv'.kept, j < i + 1 := by
  rcases h.kept with heq | heq
  · rw [heq]
    exact ⟨hkept.1, fun j hj => Nat.lt_succ_of_lt (hkept.2 j hj)⟩
  · rw [heq]
    constructor
    · rw [List.pairwise_append]
      refine ⟨hkept.1, List.pairwise_singleton _ _, fun j hj k hk => ?_⟩
      rw [List.mem_singleton.1 hk]
      exact hkept.2 j hj
    · intro j hj
      rcases List.mem_append.1 hj with hj | hj
      · exact Nat.lt_succ_of_lt (hkept.2 j hj)
      · rw [List.mem_singleton.1 hj]
        exact Nat.lt_succ_self i

theorem Grown.mem {j : Nat} (h : Grown i inv inv') (hj : j ∈ inv.kept) : j ∈ inv'.kept := by
  rcases h.kept with heq | heq
  · rw [heq]
    exact hj
  · rw [heq]
    exact List.mem_append_left _ hj

/-- The line does not concern the invocation. -/
theorem Settled.skip (h : Settled logs i inv) (hopened : inv'.opened = inv.opened)
    (hclosed : inv'.closed = inv.closed)
    (hopen : inv.opened ∈ openBefore logs (i + 1) ↔ inv.opened ∈ openBefore logs i)
    (hnot : ¬ Closes logs i inv.opened) : Settled logs (i + 1) inv' := by
  refine ⟨fun hmem => ?_, fun hmem => ?_⟩
  · rw [hopened, hopen] at hmem
    obtain ⟨hnone, hnever⟩ := h.truncated hmem
    refine ⟨hclosed.trans hnone, fun j hj => ?_⟩
    rw [hopened]
    rcases Nat.lt_succ_iff_lt_or_eq.1 hj with hlt | rfl
    · exact hnever j hlt
    · exact hnot
  · rw [hopened, hopen] at hmem
    obtain ⟨k, hk, hsome, honce⟩ := h.closed hmem
    refine ⟨k, Nat.lt_succ_of_lt hk, hclosed.trans hsome, fun j hj => ?_⟩
    rw [hopened]
    rcases Nat.lt_succ_iff_lt_or_eq.1 hj with hlt | rfl
    · exact honce j hlt
    · exact iff_of_false hnot (Nat.ne_of_gt hk)

theorem Inv.nodup (h : Inv logs i a) : (a.invocations.map (·.opened)).Nodup := by
  rw [h.opened]
  exact List.nodup_range.filter _

theorem Inv.opened_lt (h : Inv logs i a) (hmem : inv ∈ a.invocations) : inv.opened < i := by
  have hopened := List.mem_map_of_mem (f := (·.opened)) hmem
  rw [h.opened] at hopened
  exact List.mem_range.1 (List.mem_filter.1 hopened).1

theorem own_mem (h : f ∈ below) : f.own ∈ Account.inner below := by
  induction below with
  | nil => cases h
  | cons g below ih =>
      rw [Account.inner]
      rcases List.mem_cons.1 h with rfl | h
      · exact List.mem_append_right _ List.mem_cons_self
      · exact List.mem_append_left _ (ih h)

/-- The innermost invocation is none of the others. -/
theorem Inv.apart (h : Inv logs i a) (hstack : a.stack = f :: below) :
    (∀ inv ∈ (a.before below).invocations, inv.opened ≠ f.own.opened) ∧
      (∀ inv ∈ f.inside, inv.opened ≠ f.own.opened) ∧
        f.own.opened ∉ below.map (·.own.opened) := by
  have hnodup := h.nodup
  rw [Account.invocations_eq hstack, List.map_append, List.map_cons, List.nodup_middle,
    List.nodup_cons, List.mem_append, not_or] at hnodup
  obtain ⟨⟨hbefore, hinside⟩, -⟩ := hnodup
  refine ⟨fun inv hinv heq => ?_, fun inv hinv heq => ?_, fun hmem => ?_⟩
  · exact hbefore (heq ▸ List.mem_map_of_mem hinv)
  · exact hinside (heq ▸ List.mem_map_of_mem hinv)
  · obtain ⟨g, hg, heq⟩ := List.mem_map.1 hmem
    apply hbefore
    rw [← heq]
    exact List.mem_map_of_mem (List.mem_append_right _ (own_mem hg))

/-- The invocation that a line may start. -/
def started (i : Nat) (line : String) : List Invocation :=
  if isInvoke line then [{ opened := i, kept := [i] }] else []

theorem Inv.next (h : Inv logs i a) (hline : logs[i]? = some line) {a' : Account}
    (hrunning : a'.stack.map (·.own.opened) = openAfter (openBefore logs i) i line)
    {invs : List Invocation} (hgrown : List.Forall₂ (Grown i) a.invocations invs)
    (hinvs : a'.invocations = invs ++ started i line)
    (hkeeps : badData line = false → ∀ o, executing logs i line = some o →
      ∃ inv ∈ a'.invocations, inv.opened = o ∧ i ∈ inv.kept)
    (hsettled : ∀ inv ∈ a'.invocations, Settled logs (i + 1) inv) : Inv logs (i + 1) a' := by
  refine ⟨?_, ?_, ?_, ?_, hsettled⟩
  · rw [openBefore_succ hline, hrunning]
  · have hlast : [i].filter (isInvokeAt logs) = (started i line).map (·.opened) := by
      unfold started
      rw [List.filter_singleton, isInvokeAt, hline, Option.any_some]
      cases isInvoke line <;> rfl
    rw [hinvs, List.map_append, map_opened_grown hgrown, h.opened, List.range_succ,
      List.filter_append, hlast]
  · intro inv' hinv'
    rw [hinvs] at hinv'
    rcases List.mem_append.1 hinv' with hinv' | hinv'
    · obtain ⟨inv, hinv, hone⟩ := mem_right hgrown hinv'
      exact hone.sorted (h.kept inv hinv)
    · unfold started at hinv'
      split at hinv'
      · rw [List.mem_singleton.1 hinv']
        refine ⟨List.pairwise_singleton _ _, fun j hj => ?_⟩
        rw [List.mem_singleton.1 hj]
        exact Nat.lt_succ_self i
      · cases hinv'
  · intro j line' o hj hline' hgood hexec
    rcases Nat.lt_succ_iff_lt_or_eq.1 hj with hlt | rfl
    · obtain ⟨inv, hinv, hopened, hkept⟩ := h.lines j line' o hlt hline' hgood hexec
      obtain ⟨inv', hinv', hone⟩ := mem_right hgrown.flip hinv
      rw [hinvs]
      exact ⟨inv', List.mem_append_left _ hinv', hone.opened.trans hopened, hone.mem hkept⟩
    · cases hline.symm.trans hline'
      exact hkeeps hgood o hexec

theorem keep_running (a : Account) (i : Nat) :
    (a.keep i).stack.map (·.own.opened) = a.stack.map (·.own.opened) := by
  unfold Account.keep
  cases a.stack <;> rfl

theorem Inv.start (h : Inv logs i a) (hline : logs[i]? = some line)
    (hinvoke : isInvoke line = true) : Inv logs (i + 1) (a.start i) := by
  have hstarted : started i line = [{ opened := i, kept := [i] }] := if_pos hinvoke
  have hafter : openAfter (openBefore logs i) i line = i :: openBefore logs i := by
    rw [openAfter_eq, if_pos hinvoke]
  refine h.next hline ?_ (keep_grown a i) ?_ ?_ ?_
  · rw [hafter, h.running, ← keep_running a i]
    rfl
  · rw [hstarted, Account.start_invocations]
  · intro _ o hexec
    rw [executing, if_pos hinvoke] at hexec
    cases hexec
    rw [Account.start_invocations]
    exact ⟨_, List.mem_append_right _ (List.mem_singleton_self _), rfl, List.mem_singleton_self _⟩
  · intro inv' hinv'
    rw [Account.start_invocations] at hinv'
    rcases List.mem_append.1 hinv' with hinv' | hinv'
    · obtain ⟨inv, hinv, hlater⟩ := mem_right (a.keep_later i) hinv'
      refine (h.settled inv hinv).skip hlater.opened hlater.closed ?_ ?_
      · rw [openBefore_succ hline, hafter, List.mem_cons,
          or_iff_right (Nat.ne_of_lt (h.opened_lt hinv))]
      · rw [closes_iff hline]
        rintro ⟨hcloses, -⟩
        rw [isInvoke_of_closes hcloses] at hinvoke
        cases hinvoke
    · rw [List.mem_singleton.1 hinv']
      refine ⟨fun _ => ⟨rfl, fun j hj hcloses => ?_⟩, fun hnot => ?_⟩
      · exact Nat.lt_irrefl i (Nat.lt_of_lt_of_le hcloses.lt (Nat.le_of_lt_succ hj))
      · rw [openBefore_succ hline, hafter] at hnot
        exact absurd List.mem_cons_self hnot

/-- A line that opens and closes nothing. -/
theorem Inv.pass (h : Inv logs i a) (hline : logs[i]? = some line)
    (hinvoke : isInvoke line = false) (hcloses : closes line = false) {a' : Account}
    (hrunning : a'.stack.map (·.own.opened) = a.stack.map (·.own.opened))
    (hlater : List.Forall₂ (Later i) a.invocations a'.invocations)
    (hkeeps : badData line = false → ∀ o, executing logs i line = some o →
      ∃ inv ∈ a'.invocations, inv.opened = o ∧ i ∈ inv.kept) : Inv logs (i + 1) a' := by
  have hafter : openAfter (openBefore logs i) i line = openBefore logs i := by
    rw [openAfter_eq, hinvoke, hcloses, if_neg Bool.false_ne_true, if_neg Bool.false_ne_true]
  refine h.next hline ?_ (hlater.imp fun _ _ h => h.grown) ?_ hkeeps ?_
  · rw [hafter, hrunning, h.running]
  · rw [started, hinvoke, if_neg Bool.false_ne_true, List.append_nil]
  · intro inv' hinv'
    obtain ⟨inv, hinv, hone⟩ := mem_right hlater hinv'
    refine (h.settled inv hinv).skip hone.opened hone.closed ?_ ?_
    · rw [openBefore_succ hline, hafter]
    · rw [closes_iff hline, hcloses]
      exact fun hand => Bool.false_ne_true hand.1

theorem executing_of_other (hinvoke : isInvoke line = false) (h : Inv logs i a) :
    executing logs i line = (a.stack.map (·.own.opened)).head? := by
  rw [executing, hinvoke, if_neg Bool.false_ne_true, h.running]

theorem Inv.keep (h : Inv logs i a) (hline : logs[i]? = some line)
    (hinvoke : isInvoke line = false) (hcloses : closes line = false) :
    Inv logs (i + 1) (a.keep i) := by
  refine h.pass hline hinvoke hcloses (keep_running a i) (a.keep_later i) ?_
  intro _ o hexec
  rw [executing_of_other hinvoke h] at hexec
  cases hstack : a.stack with
  | nil =>
      rw [hstack] at hexec
      cases hexec
  | cons f below =>
      rw [hstack] at hexec
      cases hexec
      rw [Account.keep_invocations i hstack]
      exact ⟨_, List.mem_append_right _ List.mem_cons_self, rfl,
        List.mem_append_right _ (List.mem_singleton_self i)⟩

theorem Inv.close (h : Inv logs i a) (hline : logs[i]? = some line)
    (hcloses : closes line = true) : Inv logs (i + 1) (a.close i) := by
  have hinvoke := isInvoke_of_closes hcloses
  have hstarted : started i line = [] := by
    rw [started, hinvoke, if_neg Bool.false_ne_true]
  have hafter : openAfter (openBefore logs i) i line = (openBefore logs i).tail := by
    rw [openAfter_eq, hinvoke, if_neg Bool.false_ne_true, if_pos hcloses]
  have hexecuting := executing_of_other hinvoke h
  cases hstack : a.stack with
  | nil =>
      have hclose : a.close i = a := by
        unfold Account.close
        rw [hstack]
      have hopen : openBefore logs i = [] := by
        rw [h.running, hstack]
        rfl
      rw [hclose]
      refine h.next hline ?_ (grown_refl _) ?_ ?_ ?_
      · rw [hafter, hopen, hstack]
        rfl
      · rw [hstarted, List.append_nil]
      · intro _ o hexec
        rw [hexecuting, hstack] at hexec
        cases hexec
      · intro inv hinv
        refine (h.settled inv hinv).skip rfl rfl ?_ ?_
        · rw [openBefore_succ hline, hafter, hopen]
          rfl
        · rw [closes_iff hline, hopen]
          exact fun hand => nomatch hand.2
  | cons f below =>
      obtain ⟨hbefore, hinside, hbelow⟩ := h.apart hstack
      have hopen : openBefore logs i = f.own.opened :: below.map (·.own.opened) := by
        rw [h.running, hstack]
        rfl
      have hnext : openBefore logs (i + 1) = below.map (·.own.opened) := by
        rw [openBefore_succ hline, hafter, hopen]
        rfl
      have hcloser : ∀ o, Closes logs i o ↔ o = f.own.opened := by
        intro o
        rw [closes_iff hline, and_iff_right hcloses, hopen]
        exact ⟨fun heq => (Option.some.inj heq).symm, fun heq => congrArg some heq.symm⟩
      -- any other invocation is open after the line if it was before, and not closed by it
      have hother : ∀ inv inv', inv ∈ a.invocations → inv.opened ≠ f.own.opened →
          Later i inv inv' → Settled logs (i + 1) inv' := by
        intro inv inv' hinv hne hlater
        refine (h.settled inv hinv).skip hlater.opened hlater.closed ?_ ?_
        · rw [hnext, hopen, List.mem_cons, or_iff_right hne]
        · rw [hcloser]
          exact hne
      have hmem : ∀ {inv : Invocation},
          inv ∈ (a.before below).invocations ∨ inv ∈ f.inside → inv ∈ a.invocations := by
        intro inv hinv
        rw [Account.invocations_eq hstack]
        rcases hinv with hinv | hinv
        · exact List.mem_append_left _ hinv
        · exact List.mem_append_right _ (List.mem_cons_of_mem _ hinv)
      refine h.next hline ?_ (close_grown a i) ?_ ?_ ?_
      · rw [hafter, hopen]
        show _ = below.map (·.own.opened)
        unfold Account.close
        rw [hstack]
        cases below <;> rfl
      · rw [hstarted, List.append_nil]
      · intro _ o hexec
        rw [hexecuting, hstack] at hexec
        cases hexec
        rw [Account.close_invocations i hstack]
        exact ⟨_, List.mem_append_right _ List.mem_cons_self, rfl,
          List.mem_append_right _ (List.mem_singleton_self i)⟩
      · intro inv' hinv'
        rw [Account.close_invocations i hstack] at hinv'
        rcases List.mem_append.1 hinv' with hinv' | hinv'
        · obtain ⟨inv, hinv, hlater⟩ := mem_right ((a.before below).keep_later i) hinv'
          exact hother inv inv' (hmem (.inl hinv)) (hbefore inv hinv) hlater
        · rcases List.mem_cons.1 hinv' with rfl | hinv'
          · have hown : f.own ∈ a.invocations := by
              rw [Account.invocations_eq hstack]
              exact List.mem_append_right _ List.mem_cons_self
            have hnever := ((h.settled f.own hown).truncated (hopen ▸ List.mem_cons_self)).2
            refine ⟨fun hmem => ?_, fun _ => ⟨i, Nat.lt_succ_self i, rfl, fun j hj => ?_⟩⟩
            · rw [hnext] at hmem
              exact absurd hmem hbelow
            · rcases Nat.lt_succ_iff_lt_or_eq.1 hj with hlt | rfl
              · exact iff_of_false (hnever j hlt) (Nat.ne_of_lt hlt)
              · exact iff_of_true ((hcloser _).2 rfl) rfl
          · exact hother inv' inv' (hmem (.inr hinv')) (hinside inv' hinv') (.inl rfl)

theorem Inv.turn (h : Inv logs i a) (hline : logs[i]? = some line) :
    Inv logs (i + 1) (a.line i line) := by
  rw [Account.line_eq]
  cases hinvoke : isInvoke line with
  | true => exact h.start hline hinvoke
  | false =>
      cases hcloses : closes line with
      | true => exact h.close hline hcloses
      | false =>
          cases hbad : badData line with
          | true =>
              refine h.pass hline hinvoke hcloses rfl (later_refl _) fun hgood => ?_
              rw [hbad] at hgood
              cases hgood
          | false => exact h.keep hline hinvoke hcloses

theorem Inv.turns {rest : List String} (h : Inv logs i a) (hrest : logs.drop i = rest) :
    Inv logs (i + rest.length) (a.lines i rest) := by
  induction rest generalizing a i with
  | nil => exact h
  | cons line rest ih =>
      obtain ⟨hline, hdrop⟩ := line_of_drop hrest
      have hnext := ih (h.turn hline) hdrop
      rw [Nat.add_assoc, Nat.add_comm 1] at hnext
      exact hnext

theorem inv_init (logs : List String) : Inv logs 0 {} where
  running := rfl
  opened := rfl
  kept := List.forall_mem_nil _
  lines _ _ _ h := absurd h (Nat.not_lt_zero _)
  settled := List.forall_mem_nil _

/-- The marks at the end of the log. -/
theorem Inv.marks (h : Inv logs logs.length a) (hmem : inv ∈ a.invocations) :
    (inv.opened ∈ openBefore logs logs.length →
      inv.closed = none ∧ ∀ i, ¬ Closes logs i inv.opened) ∧
    (inv.opened ∉ openBefore logs logs.length →
      ∃ i, inv.closed = some i ∧ ∀ j, Closes logs j inv.opened ↔ j = i) := by
  have hlt : ∀ j, Closes logs j inv.opened → j < logs.length := by
    rintro j ⟨line, hline, -⟩
    exact (List.getElem?_eq_some_iff.1 hline).1
  have hsettled := h.settled inv hmem
  refine ⟨fun hopen => ?_, fun hclosed => ?_⟩
  · obtain ⟨hnone, hnever⟩ := hsettled.truncated hopen
    exact ⟨hnone, fun j hj => hnever j (hlt j hj) hj⟩
  · obtain ⟨i, hi, hsome, honce⟩ := hsettled.closed hclosed
    refine ⟨i, hsome, fun j => ⟨fun hj => (honce j (hlt j hj)).1 hj, ?_⟩⟩
    rintro rfl
    exact (honce j hi).2 rfl

theorem Inv.open_unmarked (h : Inv logs i a) (hf : f ∈ a.stack) : f.own.closed = none := by
  have hmem : f.own ∈ a.invocations := List.mem_append_right _ (own_mem hf)
  refine ((h.settled f.own hmem).truncated ?_).1
  rw [h.running]
  exact List.mem_map_of_mem hf

end Inv

/-! ## The whole log -/

/-- The account of a log. -/
def account (logs : List String) : Account := Account.lines {} 0 logs

section Log

variable {logs : List String}

theorem inv_account (logs : List String) : Inv logs logs.length (account logs) := by
  have h := (inv_init logs).turns List.drop_zero
  rw [Nat.zero_add] at h
  exact h

theorem mirrors_account (logs : List String) :
    Mirrors logs (ParseState.lines {} 0 logs) (account logs) :=
  Mirrors.turns ⟨.nil, .nil⟩ List.drop_zero

/-- Up to line `i`, what was due is reported. -/
def AllReported (logs : List String) (i : Nat) (st : ParseState) : Prop :=
  ∀ j line, j < i → logs[j]? = some line →
    (badData line = true ∨
      openBefore logs j = [] ∧ isInvoke line = false ∧ isBookkeeping line = false) →
    ∃ e ∈ st.parseErrors, e.lineIndex = j ∧ e.line = line

theorem turn_allReported {i : Nat} {line : String} {st : ParseState} {a : Account}
    (h : AllReported logs i st) (hline : logs[i]? = some line) (hmirrors : Mirrors logs st a)
    (hinv : Inv logs i a) : AllReported logs (i + 1) (st.line i line) := by
  obtain ⟨es, herrors, habout, hdue⟩ := line_reports st i line
  intro j line' hj hline' hcond
  rw [herrors]
  rcases Nat.lt_succ_iff_lt_or_eq.1 hj with hlt | rfl
  · obtain ⟨e, he, heq⟩ := h j line' hlt hline' hcond
    exact ⟨e, List.mem_append_left _ he, heq⟩
  · cases hline.symm.trans hline'
    have hempty : openBefore logs j = [] → st.stack = [] := by
      intro hnone
      rw [hinv.running, List.map_eq_nil_iff] at hnone
      have hstack := hmirrors.stack
      rw [hnone] at hstack
      exact List.forall₂_nil_right_iff.1 hstack
    have hdue' : Due st line := by
      rcases hcond with hbad | ⟨hnone, hrest⟩
      · exact .inl hbad
      · exact .inr ⟨hempty hnone, hrest⟩
    obtain ⟨e, he⟩ := List.exists_mem_of_ne_nil es (hdue hdue')
    exact ⟨e, List.mem_append_right _ he, habout e he⟩

theorem turns_allReported {i : Nat} {rest : List String} {st : ParseState} {a : Account}
    (h : AllReported logs i st) (hmirrors : Mirrors logs st a) (hinv : Inv logs i a)
    (hrest : logs.drop i = rest) : AllReported logs (i + rest.length) (st.lines i rest) := by
  induction rest generalizing st a i with
  | nil => exact h
  | cons line rest ih =>
      obtain ⟨hline, hdrop⟩ := line_of_drop hrest
      have hnext := ih (turn_allReported h hline hmirrors hinv) (hmirrors.turn hline)
        (hinv.turn hline) hdrop
      rw [Nat.add_assoc, Nat.add_comm 1] at hnext
      exact hnext

theorem allReported (logs : List String) :
    AllReported logs logs.length (ParseState.lines {} 0 logs) := by
  have hfirst : AllReported logs 0 {} := fun _ _ hj => absurd hj (Nat.not_lt_zero _)
  have h := turns_allReported hfirst ⟨.nil, .nil⟩ (inv_init logs) List.drop_zero
  rw [Nat.zero_add] at h
  exact h

theorem length_invokes (logs : List String) (i : Nat) :
    ((List.range i).filter (isInvokeAt logs)).length = ((logs.take i).filter isInvoke).length := by
  induction i with
  | zero => rfl
  | succ i ih =>
      rw [List.range_succ, List.filter_append, List.length_append, ih, List.take_add_one,
        List.filter_append, List.length_append, List.filter_singleton, isInvokeAt]
      cases logs[i]? with
      | none => rfl
      | some line =>
          rw [Option.any_some, Option.toList_some, List.filter_singleton]
          cases isInvoke line <;> rfl

theorem accounts_account (logs : List String) :
    Accounts logs (Outside logs) (account logs).invocations := by
  have hinv := inv_account logs
  refine ⟨(mirrors_account logs).tree fun f hf => hinv.open_unmarked hf, hinv.opened,
    fun inv hmem => (hinv.kept inv hmem).1, ?_, fun inv hmem => (hinv.marks hmem).1,
    fun inv hmem => (hinv.marks hmem).2⟩
  intro i line hline hlost
  have hlt := (List.getElem?_eq_some_iff.1 hline).1
  cases hbad : badData line with
  | true => exact .inr (allReported logs i line hlt hline (.inl hbad))
  | false =>
      cases hexec : executing logs i line with
      | some o =>
          obtain ⟨inv, hmem, rfl, hkept⟩ := hinv.lines i line o hlt hline hbad hexec
          exact .inl ⟨inv, hmem, rfl, hkept⟩
      | none =>
          right
          unfold executing at hexec
          split at hexec
          · cases hexec
          · rename_i hinvoke
            have hnone := List.head?_eq_none_iff.1 hexec
            refine allReported logs i line hlt hline (.inr ⟨hnone, ?_, ?_⟩)
            · exact Bool.eq_false_iff.2 hinvoke
            · exact Bool.eq_false_iff.2 fun hbook => hlost ⟨hbook, hnone⟩

end Log

/-! ## The flag of a truncated log -/

def isTruncation (line : String) : Bool := LogLine.read line = .logTruncated

theorem logTruncated_closeChunk (st : ParseState) (line : String)
    (f : ProgramLogChunk → ProgramLogChunk) :
    (st.closeChunk line f).logTruncated = st.logTruncated := by
  unfold ParseState.closeChunk
  split <;> rfl

theorem logTruncated_terminate (st : ParseState) (i : Nat) (line marker programId : String)
    (f : ProgramLogChunk → ProgramLogChunk) :
    (st.terminate i line marker programId f).logTruncated = st.logTruncated := by
  unfold ParseState.terminate
  split
  · rfl
  · dsimp only
    rw [logTruncated_closeChunk]
    split <;> rfl

theorem logTruncated_line (st : ParseState) (i : Nat) (line : String) :
    (st.line i line).logTruncated = (st.logTruncated || isTruncation line) := by
  unfold ParseState.line isTruncation
  cases hread : LogLine.read line with
  | logTruncated => exact (Bool.or_true _).symm
  | success programId => exact (logTruncated_terminate _ _ _ _ _ _).trans (Bool.or_false _).symm
  | failed programId reason =>
      exact (logTruncated_terminate _ _ _ _ _ _).trans (Bool.or_false _).symm
  | log message =>
      rw [decide_eq_false LogLine.noConfusion, Bool.or_false]
      cases st.stack <;> rfl
  | data fields =>
      rw [decide_eq_false LogLine.noConfusion, Bool.or_false]
      cases st.stack with
      | nil => rfl
      | cons chunk below =>
          show (st.dataLine i line fields).logTruncated = _
          unfold ParseState.dataLine
          split <;> rfl
  | consumed programId units =>
      rw [decide_eq_false LogLine.noConfusion, Bool.or_false]
      dsimp only
      split <;> rfl
  | returned programId data =>
      rw [decide_eq_false LogLine.noConfusion, Bool.or_false]
      dsimp only
      split
      · unfold ParseState.returnLine
        split <;> rfl
      · rfl
  | _ => exact (Bool.or_false _).symm

theorem logTruncated_lines (st : ParseState) (i : Nat) (rest : List String) :
    (st.lines i rest).logTruncated = (st.logTruncated || rest.any isTruncation) := by
  induction rest generalizing st i with
  | nil => exact (Bool.or_false _).symm
  | cons line rest ih =>
      rw [ParseState.lines, ih, logTruncated_line, List.any_cons, Bool.or_assoc]

/-- **Accounting.**  Every line of a log goes to the invocation that was executing, to the
parse errors or to both, but for bookkeeping outside of any invocation. -/
theorem lines_accounted (logs : List String) :
    Accounted logs (Outside logs) ∧
      (parseLogs logs).logTruncated = logs.any isTruncation := by
  have haccounts := accounts_account logs
  refine ⟨⟨⟨_, haccounts⟩, ?_⟩, logTruncated_lines {} 0 logs⟩
  have hopened := congrArg List.length haccounts.opened
  rw [List.length_map, length_invokes, List.take_length] at hopened
  rw [haccounts.chunks.length_eq, hopened]

/-! ## A line that is nowhere -/

/-- The log is cut short after its only invocation. -/
def cutShort : List String := [opens "1", succeeds, "Log truncated"]

/-- The last line is in no trace and not reported. -/
theorem cutShort_not_accounted : ¬ Accounted cutShort fun _ _ => False := by
  rintro ⟨⟨invocations, haccounts⟩, -⟩
  rcases haccounts.lines 2 "Log truncated" rfl not_false with ⟨inv, -, hexec, -⟩ | ⟨e, he, -⟩
  · have hnone : executing cutShort 2 "Log truncated" = none := by decide +kernel
    rw [hnone] at hexec
    cases hexec
  · have hclean : (parseLogs cutShort).parseErrors = [] := by decide +kernel
    rw [hclean] at he
    cases he

end Ap3xSolana.Events.LineAccounting
