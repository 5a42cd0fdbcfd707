import Ap3xSolana.Lib.Run
import Mathlib.Data.List.Basic
import Mathlib.Logic.Function.Basic

/-!
# `FileVaultStorage`

Calls of `write` and `read` over one directory.  A directory entry names an inode, and an open
file keeps its inode whatever becomes of the entry.  `fs.writeFile` truncates the file that it
opens and then writes at its own offset; `fs.rename` moves an entry; `fs.readFile` opens a file
and reads on to its end.  A crash drops the calls under way and leaves the files.
-/

namespace Ap3xSolana.Vault.FileVaultStorage

open Ap3xSolana.Lib.Run

variable {ρ : Type*}

/-- `JSON.stringify` and `JSON.parse` of a record. -/
structure Codec (ρ : Type*) where
  stringify : ρ → List UInt8
  parse : List UInt8 → Except String ρ

/-- `<name>.json`, and `<name>.json.tmp`. -/
inductive Path where
  | record (name : String)
  | tmp (name : String)
  deriving DecidableEq, Repr

/-- The promise that a `write` awaits, or how it ended. -/
inductive WriteStage where
  /-- `mkdir`, and the `open` of `writeFile`. -/
  | opening
  | writing (inode offset : Nat)
  /-- The file is renamed; `chmod` is best effort. -/
  | permitting
  | resolved
  | rejected
  | lost
  deriving DecidableEq, Repr

inductive ReadResult (ρ : Type*) where
  | null
  | record (rec : ρ)
  | threw (message : String)
  deriving DecidableEq, Repr

inductive ReadStage (ρ : Type*) where
  | opening
  | reading (inode : Nat) (content : List UInt8)
  | settled (result : ReadResult ρ)
  | lost
  deriving DecidableEq, Repr

inductive Call (ρ : Type*) where
  | write (name : String) (rec : ρ) (stage : WriteStage)
  | read (name : String) (stage : ReadStage ρ)
  deriving DecidableEq, Repr

/-- A rename, and what was then to be read under the name. -/
structure Renamed where
  call : Nat
  name : String
  content : Option (List UInt8)
  deriving DecidableEq, Repr

structure State (ρ : Type*) where
  inodes : List (List UInt8) := []
  dir : Path → Option Nat := fun _ => none
  calls : List (Call ρ) := []
  renames : List Renamed := []

inductive Action (ρ : Type*) where
  | write (name : String) (rec : ρ)
  | openTmp (call : Nat)
  /-- `writeFile` writes up to `size` bytes more. -/
  | writeChunk (call size : Nat)
  | rename (call : Nat)
  | chmod (call : Nat)
  /-- What a `write` awaits fails. -/
  | fail (call : Nat)
  | read (name : String)
  | openRecord (call : Nat)
  | readChunk (call size : Nat)
  | endOfFile (call : Nat)
  | crash
  deriving DecidableEq, Repr

/-! ## Files -/

/-- What the file under the path holds. -/
def contentOf (st : State ρ) (path : Path) : Option (List UInt8) :=
  (st.dir path).bind (st.inodes[·]?)

/-- `pwrite`: a write past the end fills the gap with zeros. -/
def writeAt (content : List UInt8) (offset : Nat) (chunk : List UInt8) : List UInt8 :=
  content.take offset ++ List.replicate (offset - content.length) 0 ++ chunk ++
    content.drop (offset + chunk.length)

def setCall (st : State ρ) (i : Nat) (c : Call ρ) : State ρ :=
  { st with calls := st.calls.set i c }

/-- `open` with `O_CREAT | O_TRUNC`. -/
def openTrunc (st : State ρ) (path : Path) : State ρ × Nat :=
  match st.dir path with
  | some inode => ({ st with inodes := st.inodes.set inode [] }, inode)
  | none =>
      ({ st with
        inodes := st.inodes ++ [[]]
        dir := Function.update st.dir path (some st.inodes.length) }, st.inodes.length)

/-- `rename(tmp, final)`; `none` where there is no `tmp`. -/
def renameFile (st : State ρ) (old new : Path) : Option (State ρ) :=
  (st.dir old).map fun inode =>
    { st with dir := Function.update (Function.update st.dir new (some inode)) old none }

/-! ## Steps -/

def openTmp (st : State ρ) (i : Nat) (name : String) (rec : ρ) : State ρ :=
  let (st, inode) := openTrunc st (.tmp name)
  setCall st i (.write name rec (.writing inode 0))

def writeChunk (codec : Codec ρ) (st : State ρ) (i : Nat) (name : String) (rec : ρ)
    (inode offset size : Nat) : State ρ :=
  let chunk := ((codec.stringify rec).drop offset).take size
  setCall { st with inodes := st.inodes.modify inode (writeAt · offset chunk) } i
    (.write name rec (.writing inode (offset + chunk.length)))

def rename (st : State ρ) (i : Nat) (name : String) (rec : ρ) : State ρ :=
  match renameFile st (.tmp name) (.record name) with
  | none => setCall st i (.write name rec .rejected)
  | some st =>
      { setCall st i (.write name rec .permitting) with
        renames := st.renames ++
          [{ call := i, name := name, content := contentOf st (.record name) }] }

def openRecord (st : State ρ) (i : Nat) (name : String) : State ρ :=
  match st.dir (.record name) with
  | none => setCall st i (.read name (.settled .null))
  | some inode => setCall st i (.read name (.reading inode []))

/-- `JSON.parse` of what was read. -/
def parsed (codec : Codec ρ) (content : List UInt8) : ReadResult ρ :=
  match codec.parse content with
  | .ok rec => .record rec
  | .error message => .threw message

def Call.dropped : Call ρ → Call ρ
  | .write name rec .resolved => .write name rec .resolved
  | .write name rec .rejected => .write name rec .rejected
  | .write name rec _ => .write name rec .lost
  | .read name (.settled result) => .read name (.settled result)
  | .read name _ => .read name .lost

def step (codec : Codec ρ) (st : State ρ) : Action ρ → Option (State ρ)
  | .write name rec => some { st with calls := st.calls ++ [.write name rec .opening] }
  | .openTmp i =>
      match st.calls[i]? with
      | some (.write name rec .opening) => some (openTmp st i name rec)
      | _ => none
  | .writeChunk i size =>
      match st.calls[i]? with
      | some (.write name rec (.writing inode offset)) =>
          some (writeChunk codec st i name rec inode offset size)
      | _ => none
  | .rename i =>
      match st.calls[i]? with
      | some (.write name rec (.writing _ offset)) =>
          if offset = (codec.stringify rec).length then some (rename st i name rec) else none
      | _ => none
  | .chmod i =>
      match st.calls[i]? with
      | some (.write name rec .permitting) => some (setCall st i (.write name rec .resolved))
      | _ => none
  | .fail i =>
      match st.calls[i]? with
      | some (.write name rec .opening) => some (setCall st i (.write name rec .rejected))
      | some (.write name rec (.writing _ _)) => some (setCall st i (.write name rec .rejected))
      | _ => none
  | .read name => some { st with calls := st.calls ++ [.read name .opening] }
  | .openRecord i =>
      match st.calls[i]? with
      | some (.read name .opening) => some (openRecord st i name)
      | _ => none
  | .readChunk i size =>
      match st.calls[i]? with
      | some (.read name (.reading inode content)) =>
          (st.inodes[inode]?).map fun file =>
            setCall st i
              (.read name (.reading inode (content ++ (file.drop content.length).take size)))
      | _ => none
  | .endOfFile i =>
      match st.calls[i]? with
      | some (.read name (.reading inode content)) =>
          if (st.inodes[inode]?).all (·.length ≤ content.length) then
            some (setCall st i (.read name (.settled (parsed codec content))))
          else none
      | _ => none
  | .crash => some { st with calls := st.calls.map Call.dropped }

end Ap3xSolana.Vault.FileVaultStorage
