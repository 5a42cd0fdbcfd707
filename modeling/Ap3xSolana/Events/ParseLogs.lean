import Mathlib.Data.List.TakeWhile
import Ap3xSolana.Lib.Radix

/-!
# `parseLogs`

Log lines become a forest of invocations.  `LogLine.read` is the chain of patterns of
the source, in its order; `ParseState.line` is one turn of the loop.  An invocation that
is still open is held on the stack without a place in its parent, and takes that place
when it is closed: only the newest child can be open, so the order is the same.
-/

namespace Ap3xSolana.Events

structure ComputeUnits where
  consumed : Nat
  limit : Nat
  deriving DecidableEq, Repr

structure ProgramLogChunk where
  programId : String
  depth : Nat
  success : Bool
  failureReason : Option String := none
  logs : List String := []
  dataPayloads : List (List UInt8) := []
  computeUnits : Option ComputeUnits := none
  returnData : Option (List UInt8) := none
  children : List ProgramLogChunk := []
  rawLines : List String := []
  deriving Repr

structure LogParseError where
  lineIndex : Nat
  line : String
  reason : String
  deriving DecidableEq, Repr

structure TransactionLog where
  chunks : List ProgramLogChunk
  parseErrors : List LogParseError
  logTruncated : Bool
  deriving Repr

/-! ## Line patterns -/

/-- `[1-9A-HJ-NP-Za-km-z]`. -/
def isIdChar (c : Char) : Bool :=
  ('1' ≤ c && c ≤ '9') || ('A' ≤ c && c ≤ 'H') || ('J' ≤ c && c ≤ 'N') ||
    ('P' ≤ c && c ≤ 'Z') || ('a' ≤ c && c ≤ 'k') || ('m' ≤ c && c ≤ 'z')

/-- `[A-Za-z0-9+/]`. -/
def isBase64Char (c : Char) : Bool := c.isAlphanum || c = '+' || c = '/'

/-- What `.` does not match. -/
def isLineTerminator (c : Char) : Bool :=
  c = '\n' || c = '\r' || c = '\u2028' || c = '\u2029'

/-- The rest of the line after a literal. -/
def skip (literal : String) (cs : List Char) : Option (List Char) :=
  if literal.toList.isPrefixOf cs then some (cs.drop literal.length) else none

/-- A program id and the rest of the line.  What follows it is never an `isIdChar`, so
the longest run is the only one that can match. -/
def readId (cs : List Char) : Option (String × List Char) :=
  let id := cs.takeWhile isIdChar
  if 32 ≤ id.length ∧ id.length ≤ 44 then some (String.ofList id, cs.dropWhile isIdChar) else none

/-- `\d+` and the rest of the line. -/
def readNumber (cs : List Char) : Option (Nat × List Char) :=
  let ds := cs.takeWhile Char.isDigit
  if ds = [] then none
  else some (Lib.Radix.value 10 (ds.map fun d => d.toNat - '0'.toNat), cs.dropWhile Char.isDigit)

/-- `(.*)$`. -/
def readText (cs : List Char) : Option String :=
  if cs.any isLineTerminator then none else some (String.ofList cs)

/-- `([A-Za-z0-9+/=]*)$`. -/
def readBase64 (cs : List Char) : Option String :=
  if cs.all fun c => isBase64Char c || c = '=' then some (String.ofList cs) else none

/-- A line as the first pattern that matches it reads it. -/
inductive LogLine where
  | invoke (programId : String) (depth : Nat)
  | success (programId : String)
  | failed (programId : String) (reason : String)
  | log (message : String)
  | data (fields : List String)
  | consumed (programId : String) (units : ComputeUnits)
  | returned (programId : String) (data : String)
  | consumption
  | logTruncated
  | unrecognized
  deriving DecidableEq, Repr

def readInvoke (cs : List Char) : Option LogLine := do
  let cs ← skip "Program " cs
  let (programId, cs) ← readId cs
  let cs ← skip " invoke [" cs
  let (depth, cs) ← readNumber cs
  if cs = [']'] then some (.invoke programId depth) else none

def readSuccess (cs : List Char) : Option LogLine := do
  let cs ← skip "Program " cs
  let (programId, cs) ← readId cs
  if cs = " success".toList then some (.success programId) else none

def readFailed (cs : List Char) : Option LogLine := do
  let cs ← skip "Program " cs
  let (programId, cs) ← readId cs
  let cs ← skip " failed: " cs
  let reason ← readText cs
  if reason = "" then none else some (.failed programId reason)

def readLog (cs : List Char) : Option LogLine := do
  let cs ← skip "Program log: " cs
  let message ← readText cs
  some (.log message)

/-- The fields are separated by single blanks and none of them is empty. -/
def readData (cs : List Char) : Option LogLine := do
  let cs ← skip "Program data: " cs
  let fields ← (cs.splitOn ' ').mapM readBase64
  if "" ∈ fields then none else some (.data fields)

def readConsumed (cs : List Char) : Option LogLine := do
  let cs ← skip "Program " cs
  let (programId, cs) ← readId cs
  let cs ← skip " consumed " cs
  let (consumed, cs) ← readNumber cs
  let cs ← skip " of " cs
  let (limit, cs) ← readNumber cs
  if cs = " compute units".toList then some (.consumed programId ⟨consumed, limit⟩) else none

def readReturn (cs : List Char) : Option LogLine := do
  let cs ← skip "Program return: " cs
  let (programId, cs) ← readId cs
  let cs ← skip " " cs
  let data ← readBase64 cs
  some (.returned programId data)

def readConsumption (cs : List Char) : Option LogLine := do
  let cs ← skip "Program consumption: " cs
  let (_, cs) ← readNumber cs
  if cs = " units remaining".toList then some .consumption else none

def LogLine.read (line : String) : LogLine :=
  let cs := line.toList
  (readInvoke cs <|> readSuccess cs <|> readFailed cs <|> readLog cs <|> readData cs <|>
    readConsumed cs <|> readReturn cs <|> readConsumption cs).getD
    (if line = "Log truncated" then .logTruncated else .unrecognized)

/-! ## Base64 -/

def base64Alphabet : List Char :=
  "ABCDEFGHIJKLMNOPQRSTUVWXYZabcdefghijklmnopqrstuvwxyz0123456789+/".toList

def base64Value (c : Char) : Nat := base64Alphabet.idxOf c

/-- Four characters are three bytes; two or three of them, at the end, one or two. -/
def base64Bytes : List Char → List UInt8
  | a :: b :: c :: d :: rest =>
      let n := base64Value a * 262144 + base64Value b * 4096 + base64Value c * 64 + base64Value d
      .ofNat (n / 65536) :: .ofNat (n / 256) :: .ofNat n :: base64Bytes rest
  | [a, b, c] =>
      let n := base64Value a * 1024 + base64Value b * 16 + base64Value c / 4
      [.ofNat (n / 256), .ofNat n]
  | [a, b] => [.ofNat (base64Value a * 4 + base64Value b / 16)]
  | _ => []

/-- The padding is at most two `=`. -/
def decodeBase64Data (s : String) : Except String (List UInt8) :=
  let cs := s.toList
  let padding := cs.dropWhile isBase64Char
  if ¬ (padding = [] ∨ padding = ['='] ∨ padding = ['=', '=']) then
    .error "decodeBase64Data: invalid base64 input"
  else if cs.length % 4 ≠ 0 then .error "decodeBase64Data: invalid base64 padding"
  else .ok (base64Bytes (cs.takeWhile isBase64Char))

/-! ## The loop -/

/-- The innermost open invocation is the first of the stack. -/
structure ParseState where
  roots : List ProgramLogChunk := []
  stack : List ProgramLogChunk := []
  parseErrors : List LogParseError := []
  logTruncated : Bool := false

def ProgramLogChunk.push (chunk : ProgramLogChunk) (line : String) : ProgramLogChunk :=
  { chunk with rawLines := chunk.rawLines ++ [line] }

namespace ParseState

def report (st : ParseState) (i : Nat) (line reason : String) : ParseState :=
  { st with parseErrors := st.parseErrors ++ [{ lineIndex := i, line := line, reason := reason }] }

/-- What becomes of the innermost open invocation. -/
def modifyTop (st : ParseState) (f : ProgramLogChunk → ProgramLogChunk) : ParseState :=
  { st with stack := st.stack.modifyHead f }

def push (st : ParseState) (line : String) : ParseState := st.modifyTop (·.push line)

/-- `stack.push(chunk)`; the line also belongs to the trace of the parent. -/
def openChunk (st : ParseState) (line programId : String) (depth : Nat) : ParseState :=
  { st with
    stack := { programId := programId, depth := depth, success := false, rawLines := [line] } ::
      (st.push line).stack }

/-- `stack.pop()`; the terminator also belongs to the trace of the parent. -/
def closeChunk (st : ParseState) (line : String)
    (f : ProgramLogChunk → ProgramLogChunk) : ParseState :=
  match st.stack with
  | [] => st
  | [chunk] => { st with roots := st.roots ++ [(f chunk).push line], stack := [] }
  | chunk :: parent :: rest =>
      { st with
        stack := { parent.push line with
          children := parent.children ++ [(f chunk).push line] } :: rest }

/-- A terminator pops even when it names another program. -/
def terminate (st : ParseState) (i : Nat) (line marker programId : String)
    (f : ProgramLogChunk → ProgramLogChunk) : ParseState :=
  match st.stack with
  | [] => st.report i line s!"{marker} without matching invoke"
  | current :: _ =>
      let st :=
        if current.programId ≠ programId then
          st.report i line (s!"programId mismatch on {marker}: expected " ++
            s!"{current.programId}, got {programId}")
        else st
      st.closeChunk line f

def dataLine (st : ParseState) (i : Nat) (line : String) (fields : List String) : ParseState :=
  match fields.mapM decodeBase64Data with
  | .ok slices =>
      (st.modifyTop fun c =>
        { c with dataPayloads := c.dataPayloads ++ [slices.flatten] }).push line
  | .error message => st.report i line s!"invalid base64 in Program data: {message}"

def returnLine (st : ParseState) (i : Nat) (line data : String) : ParseState :=
  match decodeBase64Data data with
  | .ok bytes => (st.modifyTop fun c => { c with returnData := some bytes }).push line
  | .error message =>
      (st.report i line s!"invalid base64 in Program return: {message}").push line

/-- One turn of the loop. -/
def line (st : ParseState) (i : Nat) (line : String) : ParseState :=
  match LogLine.read line, st.stack with
  | .invoke programId depth, _ => st.openChunk line programId depth
  | .success programId, _ =>
      st.terminate i line "success" programId fun c => { c with success := true }
  | .failed programId reason, _ =>
      st.terminate i line "failed" programId fun c =>
        { c with success := false, failureReason := some reason }
  | .log _, [] => st.report i line "log line outside any invocation"
  | .log message, _ :: _ =>
      (st.modifyTop fun c => { c with logs := c.logs ++ [message] }).push line
  | .data _, [] => st.report i line "data line outside any invocation"
  | .data fields, _ :: _ => st.dataLine i line fields
  | .consumed programId units, stack =>
      if (stack.head?.map (·.programId)) = some programId then
        (st.modifyTop fun c => { c with computeUnits := some units }).push line
      else
        (st.report i line "compute units line for a program that is not executing").push line
  | .returned programId data, stack =>
      if (stack.head?.map (·.programId)) = some programId then st.returnLine i line data
      else (st.report i line "return data for a program that is not executing").push line
  | .consumption, _ => st.push line
  | .logTruncated, _ => { st with logTruncated := true }.push line
  | .unrecognized, _ => (st.report i line "unrecognized line pattern").push line

/-- The loop, from line `i` on. -/
def lines (st : ParseState) (i : Nat) : List String → ParseState
  | [] => st
  | line :: rest => (st.line i line).lines (i + 1) rest

end ParseState

def ProgramLogChunk.truncated (chunk : ProgramLogChunk) : ProgramLogChunk :=
  { chunk with success := false, failureReason := some "truncated" }

/-- The open invocations, closed from the inside out. -/
def enclose (chunk : ProgramLogChunk) : List ProgramLogChunk → ProgramLogChunk
  | [] => chunk
  | parent :: rest =>
      enclose { parent.truncated with children := parent.children ++ [chunk] } rest

def parseLogs (logs : List String) : TransactionLog :=
  let st := ParseState.lines {} 0 logs
  { chunks := st.roots ++ match st.stack with
      | [] => []
      | chunk :: rest => [enclose chunk.truncated rest]
    parseErrors := st.parseErrors
    logTruncated := st.logTruncated }

end Ap3xSolana.Events
