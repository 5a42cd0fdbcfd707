import Ap3xSolana.Lib.KeyedMutex
import Ap3xSolana.Lib.Run

/-!
# `FileStrategyStateStore`

`set` writes a temporary file and renames it into place, `delete` unlinks; both hold the mutex of
their key.  The file is named by the key with everything but letters, digits, `_` and `-` turned
into `_`, so different keys can share a file, and then nothing keeps them apart
(`shared_file_keeps_first`).  Operations of one key run one after the other, whatever fails, and
leave no entry in the map (`ops_serialised`).

`Moves` lists what a step does to one operation.  Read as tickets, the operations are a lock for
every key (`mutex_step`), which gives their order and the entries of the map.  With that, the file
of a key that nobody shares holds the value of the last operation on it that went through
(`Holds.step`).
-/

namespace Ap3xSolana.Strategies.StateStore

open Ap3xSolana.Lib Ap3xSolana.Lib.Run Ap3xSolana.Lib.KeyedMutex

/-! ## The store -/

/-- `/[A-Za-z0-9_-]/`. -/
def isSafe (c : Char) : Bool := c.isAlphanum || c = '_' || c = '-'

/-- What `replace` makes of a character: a `_` for every code unit that is not safe. -/
def safeChars (c : Char) : List Char :=
  if isSafe c then [c] else if c.val < 0x10000 then ['_'] else ['_', '_']

def safeKey (key : String) : String := String.ofList (key.toList.flatMap safeChars)

/-- `<safe>.json`, or the temporary file next to it that bears the time. -/
inductive FileName where
  | json (safe : String)
  | tmp (safe : String) (ts : Int)
  deriving DecidableEq, Repr

/-- The files of the directory. -/
abbrev Disk := FileName → Option String

/-- `value` is the JSON text. -/
inductive StoreOp where
  | set (key value : String)
  | delete (key : String)
  deriving DecidableEq, Repr

def StoreOp.key : StoreOp → String
  | .set key _ => key
  | .delete key => key

inductive Stage where
  /-- `await prev`. -/
  | waiting
  | makingDir
  | writing (ts : Int)
  | renaming (ts : Int)
  | unlinking
  | settled (failure : Option String)
  deriving DecidableEq, Repr

structure OpRecord where
  op : StoreOp
  /-- The promise that was in the map. -/
  prev : Gate
  stage : Stage
  deriving DecidableEq, Repr

structure StoreState where
  disk : Disk
  mutexes : String → Option Gate := fun _ => none
  ops : List OpRecord := []

inductive StoreAction where
  | enter (op : StoreOp)
  /-- The promise that the operation waits for has settled. -/
  | begin (i : Nat)
  | madeDir (i : Nat) (now : Int) (failure : Option String)
  /-- A write that fails can leave anything in the temporary file. -/
  | wrote (i : Nat) (failure : Option (String × Option String))
  | renamed (i : Nat) (failure : Option String)
  /-- `ENOENT` is no failure. -/
  | unlinked (i : Nat) (failure : Option String)
  deriving DecidableEq, Repr

/-- `resolveOuter` of the operation was called. -/
def StoreState.released (st : StoreState) (i : Nat) : Bool :=
  match st.ops[i]? with
  | some ⟨_, _, .settled _⟩ => true
  | _ => false

/-- `withMutex`, up to `await prev`. -/
def enter (st : StoreState) (op : StoreOp) : StoreState :=
  let prev := (st.mutexes op.key).getD .resolved
  { st with
    mutexes := Function.update st.mutexes op.key (some (.chained prev st.ops.length))
    ops := st.ops ++ [{ op := op, prev := prev, stage := .waiting }] }

def setStage (st : StoreState) (i : Nat) (x : OpRecord) (stage : Stage) : StoreState :=
  { st with ops := st.ops.set i { x with stage := stage } }

/-- `finally`: the entry goes if it is still the operation's own chain. -/
def settle (st : StoreState) (i : Nat) (x : OpRecord) (failure : Option String) : StoreState :=
  { setStage st i x (.settled failure) with
    mutexes :=
      if st.mutexes x.op.key = some (.chained x.prev i) then
        Function.update st.mutexes x.op.key none
      else st.mutexes }

def write (st : StoreState) (name : FileName) (content : Option String) : StoreState :=
  { st with disk := Function.update st.disk name content }

/-- The first `await` of the operation. -/
def StoreOp.first : StoreOp → Stage
  | .set _ _ => .makingDir
  | .delete _ => .unlinking

def wroteStep (st : StoreState) (i : Nat) (x : OpRecord) (key value : String) (ts : Int) :
    Option (String × Option String) → StoreState
  | some (message, left) => settle (write st (.tmp (safeKey key) ts) left) i x (some message)
  | none => setStage (write st (.tmp (safeKey key) ts) (some value)) i x (.renaming ts)

/-- The temporary file can be gone: another operation may have used the same name. -/
def renamedStep (st : StoreState) (i : Nat) (x : OpRecord) (key : String) (ts : Int) :
    Option String → StoreState
  | some message => settle st i x (some message)
  | none =>
      match st.disk (.tmp (safeKey key) ts) with
      | none => settle st i x (some "ENOENT")
      | some content =>
          settle (write (write st (.tmp (safeKey key) ts) none) (.json (safeKey key))
            (some content)) i x none

def unlinkedStep (st : StoreState) (i : Nat) (x : OpRecord) (key : String) :
    Option String → StoreState
  | some message => settle st i x (some message)
  | none => settle (write st (.json (safeKey key)) none) i x none

def step (st : StoreState) : StoreAction → Option StoreState
  | .enter op => some (enter st op)
  | .begin i =>
      match st.ops[i]? with
      | some ⟨op, prev, .waiting⟩ =>
          if prev.settled st.released then some (setStage st i ⟨op, prev, .waiting⟩ op.first)
          else none
      | _ => none
  | .madeDir i now failure =>
      match st.ops[i]? with
      | some ⟨op, prev, .makingDir⟩ =>
          match failure with
          | some message => some (settle st i ⟨op, prev, .makingDir⟩ (some message))
          | none => some (setStage st i ⟨op, prev, .makingDir⟩ (.writing now))
      | _ => none
  | .wrote i failure =>
      match st.ops[i]? with
      | some ⟨.set key value, prev, .writing ts⟩ =>
          some (wroteStep st i ⟨.set key value, prev, .writing ts⟩ key value ts failure)
      | _ => none
  | .renamed i failure =>
      match st.ops[i]? with
      | some ⟨.set key value, prev, .renaming ts⟩ =>
          some (renamedStep st i ⟨.set key value, prev, .renaming ts⟩ key ts failure)
      | _ => none
  | .unlinked i failure =>
      match st.ops[i]? with
      | some ⟨.delete key, prev, .unlinking⟩ =>
          some (unlinkedStep st i ⟨.delete key, prev, .unlinking⟩ key failure)
      | _ => none

/-! ## What a step does to an operation -/

def Stage.phase : Stage → Phase
  | .waiting => .waiting
  | .settled _ => .done
  | _ => .running

def OpRecord.ticket (x : OpRecord) : Ticket String :=
  { key := x.op.key, prev := x.prev, phase := x.stage.phase }

def StoreState.mutex (st : StoreState) : Mutex String :=
  { chains := st.mutexes, tickets := st.ops.map (·.ticket) }

/-- From one stage of an operation to the next, and what becomes of the files. -/
inductive Moves (st : StoreState) (x : OpRecord) : Stage → Disk → Prop where
  | begin (h : x.stage = .waiting) (hprev : x.prev.settled st.released = true) :
      Moves st x x.op.first st.disk
  | madeDir (ts : Int) (h : x.stage = .makingDir) : Moves st x (.writing ts) st.disk
  | wrote {key value : String} {ts : Int} (hop : x.op = .set key value)
      (h : x.stage = .writing ts) :
      Moves st x (.renaming ts) (Function.update st.disk (.tmp (safeKey key) ts) (some value))
  | renamed {key value content : String} {ts : Int} (hop : x.op = .set key value)
      (h : x.stage = .renaming ts) (htmp : st.disk (.tmp (safeKey key) ts) = some content) :
      Moves st x (.settled none)
        (Function.update (Function.update st.disk (.tmp (safeKey key) ts) none)
          (.json (safeKey key)) (some content))
  | unlinked {key : String} (hop : x.op = .delete key) (h : x.stage = .unlinking) :
      Moves st x (.settled none) (Function.update st.disk (.json (safeKey key)) none)
  | failed (message : String) {disk : Disk} (h : x.stage.phase = .running)
      (hdisk : ∀ name, (∀ ts, name ≠ .tmp (safeKey x.op.key) ts) → disk name = st.disk name) :
      Moves st x (.settled (some message)) disk

/-- The map after a move: an operation that settles takes its entry out. -/
def mutexesAfter (st : StoreState) (i : Nat) (x : OpRecord) (stage : Stage) :
    String → Option Gate :=
  if stage.phase = .done then st.mutex.evict i x.ticket else st.mutexes

theorem settle_mutexes (st : StoreState) (i : Nat) (x : OpRecord) (failure : Option String) :
    (settle st i x failure).mutexes = mutexesAfter st i x (.settled failure) := rfl

theorem step_cases {st st' : StoreState} {a : StoreAction} (h : step st a = some st') :
    (∃ op, a = .enter op ∧ st' = enter st op) ∨
    ∃ i x stage, st.ops[i]? = some x ∧ Moves st x stage st'.disk ∧
      st'.ops = st.ops.set i { x with stage := stage } ∧
      st'.mutexes = mutexesAfter st i x stage := by
  cases a with
  | enter op => exact .inl ⟨op, rfl, (Option.some.inj h).symm⟩
  | begin i =>
      right
      simp only [step] at h
      split at h
      · next op prev hop =>
          split at h
          · next hprev =>
              cases h
              refine ⟨i, _, _, hop, .begin rfl hprev, rfl, ?_⟩
              cases op <;> rfl
          · cases h
      · cases h
  | madeDir i now failure =>
      right
      simp only [step] at h
      split at h
      · next op prev hop =>
          cases failure with
          | some message =>
              cases h
              exact ⟨i, _, _, hop, .failed message rfl fun _ _ => rfl, rfl, rfl⟩
          | none =>
              cases h
              exact ⟨i, _, _, hop, .madeDir now rfl, rfl, rfl⟩
      · cases h
  | wrote i failure =>
      right
      simp only [step] at h
      split at h
      · next key value prev ts hop =>
          cases h
          cases failure with
          | some failed =>
              obtain ⟨message, left⟩ := failed
              refine ⟨i, _, _, hop, .failed message rfl fun name hname => ?_, rfl, rfl⟩
              exact Function.update_of_ne (hname ts) _ _
          | none => exact ⟨i, _, _, hop, .wrote rfl rfl, rfl, rfl⟩
      · cases h
  | renamed i failure =>
      right
      simp only [step] at h
      split at h
      · next key value prev ts hop =>
          cases h
          cases failure with
          | some message => exact ⟨i, _, _, hop, .failed message rfl fun _ _ => rfl, rfl, rfl⟩
          | none =>
              unfold renamedStep
              dsimp only
              cases htmp : st.disk (.tmp (safeKey key) ts) with
              | none => exact ⟨i, _, _, hop, .failed "ENOENT" rfl fun _ _ => rfl, rfl, rfl⟩
              | some content => exact ⟨i, _, _, hop, .renamed rfl rfl htmp, rfl, rfl⟩
      · cases h
  | unlinked i failure =>
      right
      simp only [step] at h
      split at h
      · next key prev hop =>
          cases h
          cases failure with
          | some message => exact ⟨i, _, _, hop, .failed message rfl fun _ _ => rfl, rfl, rfl⟩
          | none => exact ⟨i, _, _, hop, .unlinked rfl rfl, rfl, rfl⟩
      · cases h

/-! ## The lock -/

theorem ticket_of_op {st : StoreState} {i : Nat} {x : OpRecord} (h : st.ops[i]? = some x) :
    st.mutex.tickets[i]? = some x.ticket := by
  show (st.ops.map _)[i]? = _
  rw [List.getElem?_map, h]
  rfl

theorem released_eq (st : StoreState) : st.mutex.released = st.released := by
  funext i
  unfold Mutex.released StoreState.released
  cases hop : st.ops[i]? with
  | none =>
      have hnone : st.mutex.tickets[i]? = none := by
        show (st.ops.map _)[i]? = _
        rw [List.getElem?_map, hop]
        rfl
      rw [hnone]
  | some x =>
      rw [ticket_of_op hop]
      obtain ⟨op, prev, stage⟩ := x
      cases stage <;> rfl

theorem Moves.stage_ne_waiting {st : StoreState} {x : OpRecord} {stage : Stage} {disk : Disk}
    (h : Moves st x stage disk) : stage.phase ≠ .waiting := by
  cases h with
  | begin =>
      cases x.op <;> exact Phase.noConfusion
  | _ => exact Phase.noConfusion

/-- Either an operation begins, or it is inside. -/
theorem Moves.running {st : StoreState} {x : OpRecord} {stage : Stage} {disk : Disk}
    (h : Moves st x stage disk) :
    (x.stage = .waiting ∧ x.prev.settled st.released = true ∧ stage = x.op.first ∧
      disk = st.disk) ∨ x.stage.phase = .running := by
  cases h with
  | begin hwaiting hprev => exact .inl ⟨hwaiting, hprev, rfl, rfl⟩
  | madeDir ts hstage => exact .inr (by rw [hstage]; rfl)
  | wrote hop hstage => exact .inr (by rw [hstage]; rfl)
  | renamed hop hstage htmp => exact .inr (by rw [hstage]; rfl)
  | unlinked hop hstage => exact .inr (by rw [hstage]; rfl)
  | failed message hrunning hdisk => exact .inr hrunning

theorem first_phase (op : StoreOp) : op.first.phase = .running := by
  cases op <;> rfl

theorem mutex_step {st st' : StoreState} {a : StoreAction} (h : step st a = some st') :
    Step st.mutex st'.mutex ∨ st'.mutex = st.mutex := by
  rcases step_cases h with ⟨op, -, rfl⟩ | ⟨i, x, stage, hx, hmove, hops, hmutexes⟩
  · left
    have henter : (enter st op).mutex = st.mutex.enter op.key := by
      unfold StoreState.mutex enter Mutex.enter Mutex.gate
      dsimp only
      rw [List.map_append, List.length_map]
      rfl
    rw [henter]
    exact .enter op.key
  · have htickets : st'.mutex.tickets =
        st.mutex.tickets.set i { x.ticket with phase := stage.phase } := by
      show st'.ops.map _ = (st.ops.map _).set i _
      rw [hops, List.map_set]
      rfl
    have hchains : st'.mutex.chains = mutexesAfter st i x stage := hmutexes
    have hmutex : st'.mutex = Mutex.mk (mutexesAfter st i x stage)
        (st.mutex.tickets.set i { x.ticket with phase := stage.phase }) := by
      rw [← htickets, ← hchains]
    rw [hmutex]
    unfold mutexesAfter
    rcases hmove.running with ⟨hwaiting, hprev, rfl, -⟩ | hrunning
    · left
      rw [first_phase, if_neg Phase.noConfusion]
      rw [← released_eq] at hprev
      exact .begin (ticket_of_op hx) (congrArg Stage.phase hwaiting) hprev
    · cases hphase : stage.phase with
      | waiting => exact absurd hphase hmove.stage_ne_waiting
      | running =>
          right
          rw [if_neg Phase.noConfusion, ← hrunning]
          obtain ⟨hlt, hget⟩ := List.getElem?_eq_some_iff.1 (ticket_of_op hx)
          show Mutex.mk st.mutexes (st.mutex.tickets.set i x.ticket) = st.mutex
          rw [← hget, List.set_getElem_self]
          rfl
      | done =>
          left
          rw [if_pos rfl]
          exact .release (ticket_of_op hx) hrunning

theorem mutex_inv {st st' : StoreState} {a : StoreAction} (h : Inv st.mutex)
    (hstep : step st a = some st') : Inv st'.mutex := by
  rcases mutex_step hstep with hmutex | hsame
  · exact inv_step h hmutex
  · rw [hsame]
    exact h

/-! ## The file of a key -/

/-- No operation has another key with the same file. -/
def Owned (st : StoreState) (key : String) : Prop :=
  ∀ x ∈ st.ops, safeKey x.op.key = safeKey key → x.op.key = key

def succeeded (key : String) (x : OpRecord) : Option StoreOp :=
  if x.op.key = key ∧ x.stage = .settled none then some x.op else none

/-- The operations on the key that have resolved, in call order. -/
def successes (st : StoreState) (key : String) : List StoreOp :=
  st.ops.filterMap (succeeded key)

/-- What an operation leaves in its file. -/
def StoreOp.leaves : StoreOp → Option String
  | .set _ value => some value
  | .delete _ => none

/-- The value of the last successful operation, and before the first one what was there. -/
def lastValue (disk : Disk) (st : StoreState) (key : String) : Option String :=
  match (successes st key).getLast? with
  | some op => op.leaves
  | none => disk (.json (safeKey key))

/-- The file of the key, and the temporary file of an operation that is about to rename it. -/
structure Holds (disk : Disk) (key : String) (st : StoreState) : Prop where
  file : st.disk (.json (safeKey key)) = lastValue disk st key
  tmp : ∀ (i : Nat) (x : OpRecord) (value : String) (ts : Int), st.ops[i]? = some x →
    x.op = .set key value → x.stage = .renaming ts →
    st.disk (.tmp (safeKey key) ts) = some value

theorem succeeded_of_unsettled {key : String} {x : OpRecord} (h : x.stage.phase ≠ .done) :
    succeeded key x = none :=
  if_neg fun hboth => h (by rw [hboth.2]; rfl)

theorem succeeded_of_ne {key : String} {x : OpRecord} (h : x.op.key ≠ key) :
    succeeded key x = none :=
  if_neg fun hboth => h hboth.1

theorem Holds.enter {disk : Disk} {key : String} {st : StoreState} (h : Holds disk key st)
    (op : StoreOp) : Holds disk key (enter st op) where
  file := by
    have hsame : successes (StateStore.enter st op) key = successes st key := by
      unfold successes StateStore.enter
      dsimp only
      rw [List.filterMap_append]
      have hnew : [OpRecord.mk op ((st.mutexes op.key).getD .resolved) .waiting].filterMap
          (succeeded key) = [] :=
        List.filterMap_cons_none (succeeded_of_unsettled Phase.noConfusion)
      rw [hnew, List.append_nil]
    unfold lastValue
    rw [hsame]
    exact h.file
  tmp i x value ts hi hop hstage := by
    have hi' : (st.ops ++ [OpRecord.mk op ((st.mutexes op.key).getD .resolved) .waiting])[i]? =
      some x := hi
    rw [Table.getElem?_added] at hi'
    split at hi'
    · cases hi'
      cases hstage
    · exact h.tmp i x value ts hi' hop hstage

section
variable {disk disk' : Disk} {key : String} {st st' : StoreState} {i : Nat} {x : OpRecord}
  {stage : Stage}

theorem op_after (hx : st.ops[i]? = some x)
    (hops : st'.ops = st.ops.set i { x with stage := stage }) (j : Nat) :
    st'.ops[j]? = if j = i then some { x with stage := stage } else st.ops[j]? := by
  rw [hops]
  exact Table.getElem?_replaced hx j

theorem lastValue_same (hx : st.ops[i]? = some x)
    (hops : st'.ops = st.ops.set i { x with stage := stage })
    (h : succeeded key { x with stage := stage } = succeeded key x) :
    lastValue disk st' key = lastValue disk st key := by
  unfold lastValue successes
  rw [hops, Table.filterMap_replaced hx h]

/-- A move that does not succeed on the key: its file and the temporary files of others stay. -/
theorem Holds.unchanged (h : Holds disk key st) (hx : st.ops[i]? = some x)
    (hops : st'.ops = st.ops.set i { x with stage := stage })
    (hsame : succeeded key { x with stage := stage } = succeeded key x)
    (hfile : st'.disk (.json (safeKey key)) = st.disk (.json (safeKey key)))
    (htmp : ∀ (j : Nat) (y : OpRecord) (value : String) (ts : Int), st.ops[j]? = some y → j ≠ i →
      y.op = .set key value → y.stage = .renaming ts →
      st'.disk (.tmp (safeKey key) ts) = st.disk (.tmp (safeKey key) ts))
    (hown : ∀ (value : String) (ts : Int), x.op = .set key value → stage = .renaming ts →
      st'.disk (.tmp (safeKey key) ts) = some value) : Holds disk key st' where
  file := by
    rw [hfile, lastValue_same hx hops hsame]
    exact h.file
  tmp j y value ts hj hop hstage := by
    rw [op_after hx hops] at hj
    split at hj
    · cases hj
      exact hown value ts hop hstage
    · next hji =>
        rw [htmp j y value ts hj hji hop hstage]
        exact h.tmp j y value ts hj hop hstage

/-- The operations after one that is inside have not begun. -/
theorem later_unsettled (hinv : Inv st.mutex) (hx : st.ops[i]? = some x)
    (hrunning : x.stage.phase = .running) {j : Nat} {y : OpRecord} (hij : i < j)
    (hy : st.ops[j]? = some y) (hkey : y.op.key = x.op.key) : y.stage.phase ≠ .done := by
  intro hdone
  have hearlier := hinv.order j i y.ticket x.ticket hij (ticket_of_op hy) (ticket_of_op hx)
    hkey.symm (by show y.stage.phase ≠ _; rw [hdone]; exact Phase.noConfusion)
  have hrunning' : x.ticket.phase = .running := hrunning
  rw [hrunning'] at hearlier
  cases hearlier

/-- An operation on the key goes through. -/
theorem holds_succeeded (hinv : Inv st.mutex) (hx : st.ops[i]? = some x)
    (hkey : x.op.key = key) (hrunning : x.stage.phase = .running)
    (hops : st'.ops = st.ops.set i { x with stage := .settled none })
    (hfile : st'.disk (.json (safeKey key)) = x.op.leaves) : Holds disk key st' where
  file := by
    have hlast : successes st' key = successes st key ++ [x.op] := by
      unfold successes
      rw [hops]
      refine Table.filterMap_replaced_last hx ?_ (if_pos ⟨hkey, rfl⟩) fun j y hij hy => ?_
      · refine succeeded_of_unsettled ?_
        rw [hrunning]
        exact Phase.noConfusion
      · by_cases hykey : y.op.key = key
        · exact succeeded_of_unsettled
            (later_unsettled hinv hx hrunning hij hy (hykey.trans hkey.symm))
        · exact succeeded_of_ne hykey
    unfold lastValue
    rw [hlast, List.getLast?_concat, hfile]
  tmp j y value ts hj hop hstage := by
    rw [op_after hx hops] at hj
    split at hj
    · cases hj
      cases hstage
    · next hji =>
        have hykey : y.op.key = x.op.key := by
          rw [hop, hkey]
          rfl
        exact absurd (hinv.running_unique (ticket_of_op hx) (ticket_of_op hj) hykey hrunning
          (congrArg Stage.phase hstage)) hji

/-- A move touches only the files of the operation's own key. -/
theorem Moves.elsewhere {after : Disk} (h : Moves st x stage after) {safe : String}
    (hne : safeKey x.op.key ≠ safe) :
    after (.json safe) = st.disk (.json safe) ∧
      ∀ ts, after (.tmp safe ts) = st.disk (.tmp safe ts) := by
  have hjson : ∀ {key : String}, x.op.key = key → FileName.json safe ≠ .json (safeKey key) :=
    fun hkey heq => hne (by rw [hkey]; exact (FileName.json.inj heq).symm)
  have htmp : ∀ {key : String}, x.op.key = key → ∀ ts ts' : Int,
      FileName.tmp safe ts ≠ .tmp (safeKey key) ts' :=
    fun hkey _ _ heq => hne (by rw [hkey]; exact (FileName.tmp.inj heq).1.symm)
  cases h with
  | begin => exact ⟨rfl, fun _ => rfl⟩
  | madeDir => exact ⟨rfl, fun _ => rfl⟩
  | @wrote key value ts hop =>
      have hkey : x.op.key = key := congrArg StoreOp.key hop
      exact ⟨Function.update_of_ne FileName.noConfusion _ _,
        fun ts' => Function.update_of_ne (htmp hkey ts' ts) _ _⟩
  | @renamed key value content ts hop =>
      have hkey : x.op.key = key := congrArg StoreOp.key hop
      constructor
      · rw [Function.update_of_ne (hjson hkey), Function.update_of_ne FileName.noConfusion]
      · intro ts'
        rw [Function.update_of_ne FileName.noConfusion, Function.update_of_ne (htmp hkey ts' ts)]
  | @unlinked key hop =>
      have hkey : x.op.key = key := congrArg StoreOp.key hop
      exact ⟨Function.update_of_ne (hjson hkey) _ _,
        fun _ => Function.update_of_ne FileName.noConfusion _ _⟩
  | failed message hrunning hdisk =>
      exact ⟨hdisk _ fun _ => FileName.noConfusion, fun ts => hdisk _ fun ts' => htmp rfl ts ts'⟩

theorem Holds.moved (h : Holds disk key st) (howned : Owned st key) (hinv : Inv st.mutex)
    (hx : st.ops[i]? = some x) (hmove : Moves st x stage st'.disk)
    (hops : st'.ops = st.ops.set i { x with stage := stage }) : Holds disk key st' := by
  by_cases hkey : x.op.key = key
  · -- nobody else is about to rename a temporary file of the key
    have halone : x.stage.phase = .running → ∀ (j : Nat) (y : OpRecord) (value : String) (ts : Int),
        st.ops[j]? = some y → j ≠ i → y.op = .set key value → y.stage = .renaming ts →
        st'.disk (.tmp (safeKey key) ts) = st.disk (.tmp (safeKey key) ts) := by
      intro hrunning j y value ts hy hji hop hstage
      have hykey : y.op.key = x.op.key := by
        rw [hop, hkey]
        rfl
      exact absurd (hinv.running_unique (ticket_of_op hx) (ticket_of_op hy) hykey hrunning
        (congrArg Stage.phase hstage)) hji
    generalize hafter : st'.disk = after at hmove
    cases hmove with
    | begin hwaiting =>
        refine h.unchanged hx hops ?_ (by rw [hafter]) (fun _ _ _ _ _ _ _ _ => by rw [hafter])
          fun value ts hop hstage => ?_
        · rw [succeeded_of_unsettled (by rw [first_phase]; exact Phase.noConfusion),
            succeeded_of_unsettled (by rw [hwaiting]; exact Phase.noConfusion)]
        · rw [hop] at hstage
          cases hstage
    | madeDir ts hstage =>
        refine h.unchanged hx hops ?_ (by rw [hafter]) (fun _ _ _ _ _ _ _ _ => by rw [hafter])
          fun value ts' hop hrenaming => ?_
        · rw [succeeded_of_unsettled Phase.noConfusion,
            succeeded_of_unsettled (by rw [hstage]; exact Phase.noConfusion)]
        · cases hrenaming
    | @wrote key' value ts hop hstage =>
        obtain rfl : key' = key := (congrArg StoreOp.key hop).symm.trans hkey
        refine h.unchanged hx hops ?_ ?_ (halone (by rw [hstage]; rfl))
          fun value' ts' hop' hrenaming => ?_
        · rw [succeeded_of_unsettled Phase.noConfusion,
            succeeded_of_unsettled (by rw [hstage]; exact Phase.noConfusion)]
        · rw [hafter]
          exact Function.update_of_ne FileName.noConfusion _ _
        · rw [hop] at hop'
          cases hop'
          cases hrenaming
          rw [hafter]
          exact Function.update_self _ _ _
    | @renamed key' value content ts hop hstage htmp =>
        obtain rfl : key' = key := (congrArg StoreOp.key hop).symm.trans hkey
        refine holds_succeeded hinv hx hkey (by rw [hstage]; rfl) hops ?_
        have hcontent := h.tmp i x value ts hx hop hstage
        rw [htmp] at hcontent
        rw [hafter, Function.update_self, hcontent, hop]
        rfl
    | @unlinked key' hop hstage =>
        obtain rfl : key' = key := (congrArg StoreOp.key hop).symm.trans hkey
        refine holds_succeeded hinv hx hkey (by rw [hstage]; rfl) hops ?_
        rw [hafter, Function.update_self, hop]
        rfl
    | failed message hrunning hdisk =>
        refine h.unchanged hx hops ?_ ?_ (halone hrunning) fun _ _ _ hrenaming => by cases hrenaming
        · have hunsettled : succeeded key x = none :=
            succeeded_of_unsettled (by rw [hrunning]; exact Phase.noConfusion)
          rw [hunsettled]
          exact if_neg fun hboth => by cases hboth.2
        · rw [hafter]
          exact hdisk _ fun _ => FileName.noConfusion
  · have hne : safeKey x.op.key ≠ safeKey key := fun hsafe =>
      hkey (howned x (List.mem_of_getElem? hx) hsafe)
    obtain ⟨hfile, htmp⟩ := hmove.elsewhere hne
    have hother : succeeded key { x with stage := stage } = succeeded key x := by
      rw [succeeded_of_ne hkey]
      exact if_neg fun hboth => hkey hboth.1
    refine h.unchanged hx hops hother hfile (fun _ _ _ ts _ _ _ _ => htmp ts) fun _ _ hop _ => ?_
    exact absurd (congrArg StoreOp.key hop) hkey

end

/-! ## Every run -/

theorem owned_before {st st' : StoreState} {a : StoreAction} (h : step st a = some st')
    {key : String} (howned : Owned st' key) : Owned st key := by
  intro x hx
  rcases step_cases h with ⟨op, -, rfl⟩ | ⟨i, y, stage, hy, -, hops, -⟩
  · exact howned x (List.mem_append_left _ hx)
  · obtain ⟨j, hj⟩ := List.mem_iff_getElem?.1 hx
    have hafter := op_after hy hops j
    by_cases hji : j = i
    · rw [if_pos hji] at hafter
      rw [hji, hy] at hj
      cases hj
      exact howned { x with stage := stage } (List.mem_of_getElem? hafter)
    · rw [if_neg hji, hj] at hafter
      exact howned x (List.mem_of_getElem? hafter)

structure RunInv (disk : Disk) (st : StoreState) : Prop where
  mutex : Inv st.mutex
  holds : ∀ key, Owned st key → Holds disk key st

theorem runInv_init (disk : Disk) : RunInv disk { disk := disk } where
  mutex := inv_empty
  holds _ _ := ⟨rfl, fun _ _ _ _ h => by cases h⟩

theorem RunInv.step {disk : Disk} {st st' : StoreState} {a : StoreAction} (h : RunInv disk st)
    (hstep : step st a = some st') : RunInv disk st' := by
  refine ⟨mutex_inv h.mutex hstep, fun key howned => ?_⟩
  have hbefore := owned_before hstep howned
  have hold := h.holds key hbefore
  rcases step_cases hstep with ⟨op, -, rfl⟩ | ⟨i, x, stage, hx, hmove, hops, -⟩
  · exact hold.enter op
  · exact hold.moved hbefore h.mutex hx hmove hops

/-- An operation that has begun has only settled operations of its key before it. -/
def InCallOrder (st : StoreState) : Prop :=
  ∀ (i j : Nat) (x y : OpRecord), j < i → st.ops[i]? = some x → st.ops[j]? = some y →
    y.op.key = x.op.key → x.stage ≠ .waiting → ∃ failure, y.stage = .settled failure

/-- An operation whose predecessors of the key have settled, one way or the other, can begin. -/
def NeverBlocked (st : StoreState) : Prop :=
  ∀ (i : Nat) (x : OpRecord), st.ops[i]? = some x → x.stage = .waiting →
    (∀ (j : Nat) (y : OpRecord), j < i → st.ops[j]? = some y → y.op.key = x.op.key →
      ∃ failure, y.stage = .settled failure) → ∃ st', step st (.begin i) = some st'

/-- The map has no entry for a key on which nothing is pending. -/
def Evicted (st : StoreState) : Prop :=
  ∀ key, (∀ x ∈ st.ops, x.op.key = key → ∃ failure, x.stage = .settled failure) →
    st.mutexes key = none

theorem settled_iff {stage : Stage} :
    stage.phase = .done ↔ ∃ failure, stage = .settled failure := by
  cases stage with
  | settled failure => exact ⟨fun _ => ⟨failure, rfl⟩, fun _ => rfl⟩
  | _ =>
      constructor
      · intro h
        cases h
      · rintro ⟨failure, h⟩
        cases h

theorem op_of_ticket {st : StoreState} {i : Nat} {t : Ticket String}
    (h : st.mutex.tickets[i]? = some t) : ∃ x, st.ops[i]? = some x ∧ x.ticket = t := by
  have h' : (st.ops.map (·.ticket))[i]? = some t := h
  rw [List.getElem?_map] at h'
  exact Option.map_eq_some_iff.1 h'

theorem phase_waiting {stage : Stage} (h : stage.phase = .waiting) : stage = .waiting := by
  cases stage with
  | waiting => rfl
  | _ => cases h

theorem step_begin {st : StoreState} {i : Nat} {op : StoreOp} {prev : Gate}
    (hx : st.ops[i]? = some ⟨op, prev, .waiting⟩) (hprev : prev.settled st.released = true) :
    step st (.begin i) = some (setStage st i ⟨op, prev, .waiting⟩ op.first) := by
  simp only [step]
  rw [hx]
  exact if_pos hprev

/-- The operations of a key run in call order whatever fails, the map has entries only for keys
with pending operations, and the file of a key that is not shared holds what the last successful
operation left in it. -/
theorem ops_serialised (disk : Disk) (actions : List StoreAction) (st : StoreState)
    (h : exec step { disk := disk } actions = some st) :
    InCallOrder st ∧ NeverBlocked st ∧ Evicted st ∧
      ∀ key, Owned st key → st.disk (.json (safeKey key)) = lastValue disk st key := by
  have hinv : RunInv disk st := exec_inv (fun _ _ _ h hstep => h.step hstep) (runInv_init disk) h
  refine ⟨fun i j x y hji hx hy hkey hbegun => ?_, fun i x hx hwaiting hdone => ?_,
    fun key hdone => ?_, fun key howned => (hinv.holds key howned).file⟩
  · exact settled_iff.1 (hinv.mutex.order i j _ _ hji (ticket_of_op hx) (ticket_of_op hy) hkey
      fun hphase => hbegun (phase_waiting hphase))
  · have hprev := hinv.mutex.can_begin (ticket_of_op hx) fun j t hji ht hkey => by
      obtain ⟨y, hy, rfl⟩ := op_of_ticket ht
      exact settled_iff.2 (hdone j y hji hy hkey)
    rw [released_eq] at hprev
    have hx' : st.ops[i]? = some ⟨x.op, x.prev, .waiting⟩ := by rw [hx, ← hwaiting]
    exact ⟨_, step_begin hx' hprev⟩
  · refine hinv.mutex.chains_eq_none fun t ht hkey => ?_
    obtain ⟨x, hx, rfl⟩ := List.mem_map.1 ht
    exact settled_iff.2 (hdone x hx hkey)

/-- The first write fails half way, the second goes through. -/
def retriedSet : List StoreAction :=
  [.enter (.set "k" "1"), .enter (.set "k" "2"), .begin 0, .madeDir 0 5 none,
    .wrote 0 (some ("ENOSPC", some "")), .begin 1, .madeDir 1 5 none, .wrote 1 none,
    .renamed 1 none]

theorem ops_serialised_retriedSet :
    ∃ st, exec step { disk := fun _ => none } retriedSet = some st ∧ InCallOrder st ∧
      NeverBlocked st ∧ Evicted st ∧
      ∀ key, Owned st key → st.disk (.json (safeKey key)) = lastValue (fun _ => none) st key := by
  have hrun : (exec step { disk := fun _ => none } retriedSet).isSome = true := by
    decide +kernel
  obtain ⟨st, hst⟩ := Option.isSome_iff_exists.1 hrun
  exact ⟨st, hst, ops_serialised (fun _ => none) retriedSet st hst⟩

/-- Two keys of one file: the temporary files are written side by side, the second call renames
first, and the file ends up with the value of the first. -/
theorem shared_file_keeps_first :
    safeKey "a/b" = safeKey "a_b" ∧
    ∃ st, exec step { disk := fun _ => none }
        [.enter (.set "a/b" "1"), .enter (.set "a_b" "2"), .begin 0, .begin 1, .madeDir 0 5 none,
          .madeDir 1 6 none, .wrote 0 none, .wrote 1 none, .renamed 1 none, .renamed 0 none] =
      some st ∧
      st.ops.map (fun x => (x.op, x.stage)) =
        [(.set "a/b" "1", .settled none), (.set "a_b" "2", .settled none)] ∧
      st.disk (.json (safeKey "a_b")) = some "1" := by
  decide +kernel

end Ap3xSolana.Strategies.StateStore
