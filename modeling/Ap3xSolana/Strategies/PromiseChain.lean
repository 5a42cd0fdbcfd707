import Ap3xSolana.Lib.Run
import Ap3xSolana.Lib.Table
import Ap3xSolana.Strategies.Instance
import Mathlib.Algebra.Group.Action.Defs

/-!
# The promise chain of `InstanceQueue`

`enqueue` adds a link to one chain of promises.  The task of a link is called once the promise of
the link before it is fulfilled, and that of the link itself is fulfilled after the promise given
to the caller has settled, however the task ended.
-/

namespace Ap3xSolana.Strategies.PromiseChain

open Ap3xSolana.Lib

/-! ## Links -/

/-- How a task ends.  It may throw before there is a promise to wait for. -/
inductive Outcome (ν ε : Type) where
  | value (v : ν)
  | rejection (e : ε)
  | throws (e : ε)
  deriving DecidableEq, Repr

inductive Settlement (ν ε : Type) where
  | fulfilled (v : ν)
  | rejected (e : ε)
  deriving DecidableEq, Repr

/-- `try { resolveTask(await task()) } catch (err) { rejectTask(err) }`. -/
def Outcome.settle {ν ε : Type} : Outcome ν ε → Settlement ν ε
  | .value v => .fulfilled v
  | .rejection e => .rejected e
  | .throws e => .rejected e

/-- How far the callback of a link has come: it waits for the chain, its task is on, over, known
to the caller, and the promise of the chain is fulfilled. -/
inductive Stage (ν ε : Type) where
  | queued
  | running
  | finished (o : Outcome ν ε)
  | settled
  | closed
  deriving DecidableEq, Repr

/-- `prev` is the number of the promise on which `then` was called, `result` the promise that
`enqueue` returned. -/
structure Link (τ ν ε : Type) where
  task : τ
  prev : ℕ
  stage : Stage ν ε := .queued
  result : Option (Settlement ν ε) := none
  deriving DecidableEq, Repr

inductive Move (ν ε : Type) where
  | start
  | finish (o : Outcome ν ε)
  | deliver
  | close
  deriving DecidableEq, Repr

namespace Link

variable {τ ν ε : Type}

/-- What happens next at a link.  A promise settles only once. -/
def advance (ready : Bool) (l : Link τ ν ε) (m : Move ν ε) : Option (Link τ ν ε) :=
  match l.stage, m with
  | .queued, .start => if ready then some { l with stage := .running } else none
  | .running, .finish o => some { l with stage := .finished o }
  | .finished o, .deliver =>
      some { l with stage := .settled, result := l.result.or (some o.settle) }
  | .settled, .close => some { l with stage := .closed }
  | _, _ => none

/-- How many moves a link has made. -/
def rank (l : Link τ ν ε) : ℕ :=
  match l.stage with
  | .queued => 0
  | .running => 1
  | .finished _ => 2
  | .settled => 3
  | .closed => 4

end Link

/-! ## The queue -/

/-- Promise 0 is `Promise.resolve()`, and `i + 1` that of link `i`.  `chain` is the last one. -/
structure Queue (τ ν ε : Type) where
  links : List (Link τ ν ε) := []
  chain : ℕ := 0
  deriving DecidableEq, Repr

inductive Action (τ ν ε : Type) where
  | enqueue (task : τ)
  | move (i : ℕ) (m : Move ν ε)
  deriving DecidableEq, Repr

namespace Queue

variable {τ ν ε : Type}

def fulfilled (q : Queue τ ν ε) : ℕ → Bool
  | 0 => true
  | i + 1 =>
      match q.links[i]? with
      | some { stage := .closed, .. } => true
      | _ => false

def enqueue (q : Queue τ ν ε) (task : τ) : Queue τ ν ε where
  links := q.links ++ [{ task := task, prev := q.chain }]
  chain := q.links.length + 1

end Queue

section Steps

variable {τ ν ε : Type}

/-- Tasks are enqueued at any time.  A running task finishes as it likes. -/
def step (q : Queue τ ν ε) : Action τ ν ε → Option (Queue τ ν ε)
  | .enqueue task => some (q.enqueue task)
  | .move i m => do
      let l ← q.links[i]?
      let l' ← l.advance (q.fulfilled l.prev) m
      pure { q with links := q.links.set i l' }

def enqueued (acts : List (Action τ ν ε)) : List τ :=
  acts.filterMap fun a => match a with
    | .enqueue task => some task
    | .move _ _ => none

/-- What happened at link `i`. -/
def moves (i : ℕ) (acts : List (Action τ ν ε)) : List (Move ν ε) :=
  acts.filterMap fun a => match a with
    | .enqueue _ => none
    | .move j m => if j = i then some m else none

/-- The links whose tasks were called, in that order. -/
def starts (acts : List (Action τ ν ε)) : List ℕ :=
  acts.filterMap fun a => match a with
    | .move i .start => some i
    | _ => none

/-- How many moves there were. -/
def served (acts : List (Action τ ν ε)) : ℕ :=
  acts.countP fun a => match a with
    | .enqueue _ => false
    | .move _ _ => true

variable {q q' : Queue τ ν ε} {l l' : Link τ ν ε} {m : Move ν ε} {ready : Bool}

theorem step_cases {a : Action τ ν ε} (h : step q a = some q') :
    (∃ task, a = .enqueue task ∧ q' = q.enqueue task) ∨
      ∃ i m l l', a = .move i m ∧ q.links[i]? = some l ∧
        l.advance (q.fulfilled l.prev) m = some l' ∧ q' = { q with links := q.links.set i l' } := by
  cases a with
  | enqueue task => exact .inl ⟨task, rfl, (Option.some.inj h).symm⟩
  | move i m =>
      obtain ⟨l, hl, h⟩ := Option.bind_eq_some_iff.1 h
      obtain ⟨l', hl', h⟩ := Option.bind_eq_some_iff.1 h
      exact .inr ⟨i, m, l, l', rfl, hl, hl', (Option.some.inj h).symm⟩

theorem advance_cases (h : l.advance ready m = some l') :
    (l.stage = .queued ∧ ready = true ∧ m = .start ∧ l' = { l with stage := .running }) ∨
    (∃ o, l.stage = .running ∧ m = .finish o ∧ l' = { l with stage := .finished o }) ∨
    (∃ o, l.stage = .finished o ∧ m = .deliver ∧
      l' = { l with stage := .settled, result := l.result.or (some o.settle) }) ∨
    (l.stage = .settled ∧ m = .close ∧ l' = { l with stage := .closed }) := by
  unfold Link.advance at h
  split at h
  · rename_i hstage
    cases ready with
    | false => cases h
    | true => exact .inl ⟨hstage, rfl, rfl, (Option.some.inj h).symm⟩
  · rename_i o hstage
    exact .inr (.inl ⟨o, hstage, rfl, (Option.some.inj h).symm⟩)
  · rename_i o hstage
    exact .inr (.inr (.inl ⟨o, hstage, rfl, (Option.some.inj h).symm⟩))
  · rename_i hstage
    exact .inr (.inr (.inr ⟨hstage, rfl, (Option.some.inj h).symm⟩))
  · cases h

theorem rank_advance (h : l.advance ready m = some l') : l'.rank = l.rank + 1 := by
  rcases advance_cases h with ⟨hs, -, -, rfl⟩ | ⟨o, hs, -, rfl⟩ | ⟨o, hs, -, rfl⟩ | ⟨hs, -, rfl⟩ <;>
    simp [Link.rank, hs]

theorem fulfilled_succ {i : ℕ} :
    q.fulfilled (i + 1) = true ↔ ∃ l, q.links[i]? = some l ∧ l.stage = .closed := by
  rw [Queue.fulfilled]
  split
  · rename_i heq
    exact iff_of_true rfl ⟨_, heq, rfl⟩
  · rename_i hne
    refine iff_of_false nofun ?_
    rintro ⟨⟨task, prev, stage, result⟩, hl, rfl⟩
    exact hne _ _ _ hl

/-! ## What every step keeps -/

/-- A link with what happened at it. -/
def Link.Traces (l : Link τ ν ε) (ms : List (Move ν ε)) : Prop :=
  match l.stage with
  | .queued => ms = [] ∧ l.result = none
  | .running => ms = [.start] ∧ l.result = none
  | .finished o => ms = [.start, .finish o] ∧ l.result = none
  | .settled => ∃ o, ms = [.start, .finish o, .deliver] ∧ l.result = some o.settle
  | .closed => ∃ o, ms = [.start, .finish o, .deliver, .close] ∧ l.result = some o.settle

/-- A link that has come further has only closed ones before it. -/
structure Inv (acts : List (Action τ ν ε)) (q : Queue τ ν ε) : Prop where
  chain : q.chain = q.links.length
  prev : ∀ (i : ℕ) (l : Link τ ν ε), q.links[i]? = some l → l.prev = i
  ordered : ∀ (i j : ℕ) (l l' : Link τ ν ε), i < j → q.links[i]? = some l →
    q.links[j]? = some l' → l'.stage ≠ .queued → l.stage = .closed
  tasks : q.links.map (·.task) = enqueued acts
  traces : ∀ (i : ℕ) (l : Link τ ν ε), q.links[i]? = some l → l.Traces (moves i acts)
  later : ∀ i, q.links.length ≤ i → moves i acts = []
  served : served acts = (q.links.map Link.rank).sum
  starts : ∃ k ≤ q.links.length, starts acts = List.range k ∧
    ∀ (i : ℕ) (l : Link τ ν ε), q.links[i]? = some l → (l.stage ≠ .queued ↔ i < k)

theorem Inv.init : Inv [] ({} : Queue τ ν ε) where
  chain := rfl
  prev := nofun
  ordered := nofun
  tasks := rfl
  traces := nofun
  later := fun _ _ => rfl
  served := rfl
  starts := ⟨0, le_rfl, rfl, nofun⟩

variable {acts : List (Action τ ν ε)}

theorem moves_enqueue (i : ℕ) (task : τ) : moves i (acts ++ [.enqueue task]) = moves i acts := by
  simp [moves]

theorem moves_move_self (i : ℕ) (m : Move ν ε) :
    moves i (acts ++ [.move i m]) = moves i acts ++ [m] := by
  simp [moves]

theorem moves_move_of_ne {i j : ℕ} (h : j ≠ i) (m : Move ν ε) :
    moves i (acts ++ [.move j m]) = moves i acts := by
  simp [moves, h]

theorem starts_start (i : ℕ) : starts (acts ++ [.move i .start]) = starts acts ++ [i] := by
  simp [starts]

theorem starts_of_ne {m : Move ν ε} (h : m ≠ .start) (i : ℕ) :
    starts (acts ++ [.move i m]) = starts acts := by
  cases m <;> simp [starts] at h ⊢

theorem served_move (i : ℕ) (m : Move ν ε) : served (acts ++ [.move i m]) = served acts + 1 := by
  simp [served]

theorem Inv.enqueue (h : Inv acts q) (task : τ) :
    Inv (acts ++ [.enqueue task]) (q.enqueue task) := by
  have hadded (i : ℕ) (l : Link τ ν ε) (hl : (q.enqueue task).links[i]? = some l) :
      q.links[i]? = some l ∨ i = q.links.length ∧ l = { task := task, prev := q.chain } := by
    rw [Queue.enqueue, Table.getElem?_added] at hl
    split at hl
    · rename_i heq
      exact .inr ⟨heq, (Option.some.inj hl).symm⟩
    · exact .inl hl
  constructor
  · simp [Queue.enqueue]
  · intro i l hl
    rcases hadded i l hl with hl | ⟨rfl, rfl⟩
    · exact h.prev i l hl
    · exact h.chain
  · intro i j l l' hij hl hl' hstage
    rcases hadded j l' hl' with hl' | ⟨rfl, rfl⟩
    · rcases hadded i l hl with hl | ⟨rfl, rfl⟩
      · exact h.ordered i j l l' hij hl hl' hstage
      · have hlt := (List.getElem?_eq_some_iff.1 hl').1
        omega
    · exact absurd rfl hstage
  · rw [Queue.enqueue, List.map_append, h.tasks]
    simp [enqueued]
  · intro i l hl
    rw [moves_enqueue]
    rcases hadded i l hl with hl | ⟨rfl, rfl⟩
    · exact h.traces i l hl
    · exact ⟨h.later _ le_rfl, rfl⟩
  · intro i hi
    rw [moves_enqueue]
    refine h.later i ?_
    simp only [Queue.enqueue, List.length_append] at hi
    omega
  · simp [PromiseChain.served, Queue.enqueue, Link.rank, ← h.served]
  · obtain ⟨k, hle, hk, hstarted⟩ := h.starts
    refine ⟨k, ?_, by simp [PromiseChain.starts, ← hk], fun i l hl => ?_⟩
    · simp only [Queue.enqueue, List.length_append]
      omega
    · rcases hadded i l hl with hl | ⟨rfl, rfl⟩
      · exact hstarted i l hl
      · exact iff_of_false (fun hne => hne rfl) (not_lt.2 hle)

/-- What moves is the first link that is not closed. -/
theorem Inv.before_move (h : Inv acts q) {i : ℕ} (hl : q.links[i]? = some l)
    (hadvance : l.advance (q.fulfilled l.prev) m = some l') {j : ℕ} (hj : j < i) :
    ∃ x, q.links[j]? = some x ∧ x.stage = .closed := by
  have hlt := (List.getElem?_eq_some_iff.1 hl).1
  have hx : q.links[j]? = some q.links[j] := List.getElem?_eq_getElem (hj.trans hlt)
  refine ⟨_, hx, ?_⟩
  rcases advance_cases hadvance with ⟨-, hready, -, -⟩ | hstarted
  · -- the link before is closed, and so are those before it
    rw [h.prev i l hl] at hready
    obtain ⟨p, rfl⟩ := Nat.exists_eq_add_of_lt hj
    obtain ⟨y, hy, hclosed⟩ := fulfilled_succ.1 hready
    rcases Nat.eq_zero_or_pos p with rfl | hpos
    · cases hx.symm.trans hy
      exact hclosed
    · refine h.ordered j (j + p) _ y (by omega) hx hy ?_
      rw [hclosed]
      exact nofun
  · refine h.ordered j i _ l hj hx hl ?_
    rcases hstarted with ⟨o, hs, -⟩ | ⟨o, hs, -⟩ | ⟨hs, -⟩ <;> rw [hs] <;> exact nofun

/-- And those behind it have not started. -/
theorem Inv.behind_move (h : Inv acts q) {i : ℕ} (hl : q.links[i]? = some l)
    (hadvance : l.advance ready m = some l') {j : ℕ} (hj : i < j) {x : Link τ ν ε}
    (hx : q.links[j]? = some x) : x.stage = .queued := by
  by_contra hne
  have hclosed := h.ordered i j l x hj hl hx hne
  rcases advance_cases hadvance with ⟨hs, -⟩ | ⟨o, hs, -⟩ | ⟨o, hs, -⟩ | ⟨hs, -⟩ <;>
    rw [hs] at hclosed <;> cases hclosed

theorem Link.Traces.advance {ms : List (Move ν ε)} (h : l.Traces ms)
    (hadvance : l.advance ready m = some l') : l'.Traces (ms ++ [m]) := by
  unfold Link.Traces at h
  rcases advance_cases hadvance with ⟨hs, -, rfl, rfl⟩ | ⟨o, hs, rfl, rfl⟩ | ⟨o, hs, rfl, rfl⟩ |
    ⟨hs, rfl, rfl⟩
  all_goals rw [hs] at h
  · obtain ⟨rfl, hresult⟩ := h
    exact ⟨rfl, hresult⟩
  · obtain ⟨rfl, hresult⟩ := h
    exact ⟨rfl, hresult⟩
  · obtain ⟨rfl, hresult⟩ := h
    exact ⟨o, rfl, by rw [hresult]; rfl⟩
  · obtain ⟨o, rfl, hresult⟩ := h
    exact ⟨o, rfl, hresult⟩

theorem Inv.move (h : Inv acts q) {i : ℕ} (hl : q.links[i]? = some l)
    (hadvance : l.advance (q.fulfilled l.prev) m = some l') :
    Inv (acts ++ [.move i m]) { q with links := q.links.set i l' } := by
  have hlt := (List.getElem?_eq_some_iff.1 hl).1
  have hsame : l'.task = l.task ∧ l'.prev = l.prev := by
    rcases advance_cases hadvance with ⟨-, -, -, rfl⟩ | ⟨o, -, -, rfl⟩ | ⟨o, -, -, rfl⟩ |
      ⟨-, -, rfl⟩ <;> exact ⟨rfl, rfl⟩
  have hset (j : ℕ) (x : Link τ ν ε) (hx : (q.links.set i l')[j]? = some x) :
      j = i ∧ x = l' ∨ j ≠ i ∧ q.links[j]? = some x := by
    rw [Table.getElem?_replaced hl] at hx
    split at hx
    · rename_i hji
      exact .inl ⟨hji, (Option.some.inj hx).symm⟩
    · rename_i hji
      exact .inr ⟨hji, hx⟩
  have hstarted : l'.stage ≠ .queued := by
    rcases advance_cases hadvance with ⟨-, -, -, rfl⟩ | ⟨o, -, -, rfl⟩ | ⟨o, -, -, rfl⟩ |
      ⟨-, -, rfl⟩ <;> exact nofun
  obtain ⟨hold, hnew⟩ := Table.split_at l' hl
  constructor
  · show q.chain = (q.links.set i l').length
    rw [List.length_set, h.chain]
  · intro j x hx
    rcases hset j x hx with ⟨rfl, rfl⟩ | ⟨-, hx⟩
    · rw [hsame.2, h.prev j l hl]
    · exact h.prev j x hx
  · intro j k x y hjk hx hy hstage
    rcases hset j x hx with ⟨rfl, rfl⟩ | ⟨-, hx₀⟩
    · rcases hset k y hy with ⟨rfl, -⟩ | ⟨-, hy₀⟩
      · exact absurd hjk (lt_irrefl _)
      · exact absurd (h.behind_move hl hadvance hjk hy₀) hstage
    · rcases hset k y hy with ⟨rfl, rfl⟩ | ⟨-, hy₀⟩
      · obtain ⟨x', hx', hclosed⟩ := h.before_move hl hadvance hjk
        rw [Option.some.inj (hx₀.symm.trans hx')]
        exact hclosed
      · exact h.ordered j k x y hjk hx₀ hy₀ hstage
  · show (q.links.set i l').map (·.task) = _
    have htasks := h.tasks
    rw [hold, List.map_append, List.map_cons] at htasks
    rw [hnew, List.map_append, List.map_cons, hsame.1, htasks]
    simp [enqueued]
  · intro j x hx
    rcases hset j x hx with ⟨rfl, rfl⟩ | ⟨hji, hx⟩
    · rw [moves_move_self]
      exact (h.traces j l hl).advance hadvance
    · rw [moves_move_of_ne (Ne.symm hji)]
      exact h.traces j x hx
  · intro j hj
    rw [List.length_set] at hj
    rw [moves_move_of_ne (by omega)]
    exact h.later j hj
  · show _ = ((q.links.set i l').map Link.rank).sum
    have hserved := h.served
    rw [hold, List.map_append, List.map_cons, List.sum_append, List.sum_cons] at hserved
    rw [hnew, List.map_append, List.map_cons, List.sum_append, List.sum_cons,
      rank_advance hadvance, served_move, hserved]
    omega
  · obtain ⟨k, hle, hk, hcount⟩ := h.starts
    by_cases hstart : m = .start
    · subst hstart
      have hqueued : l.stage = .queued := by
        rcases advance_cases hadvance with ⟨hs, -⟩ | ⟨o, -, hm, -⟩ | ⟨o, -, hm, -⟩ | ⟨-, hm, -⟩
        · exact hs
        all_goals cases hm
      have hik : i = k := by
        refine le_antisymm (not_lt.1 fun hki => ?_)
          (not_lt.1 fun hik => (hcount i l hl).2 hik hqueued)
        obtain ⟨x, hx, hclosed⟩ := h.before_move hl hadvance hki
        have hne : x.stage ≠ .queued := by
          rw [hclosed]
          exact nofun
        exact lt_irrefl k ((hcount k x hx).1 hne)
      subst hik
      refine ⟨i + 1, ?_, by rw [starts_start, hk, List.range_succ], fun j x hx => ?_⟩
      · rw [List.length_set]
        exact hlt
      · rcases hset j x hx with ⟨rfl, rfl⟩ | ⟨hji, hx⟩
        · exact iff_of_true hstarted (Nat.lt_succ_self _)
        · rw [hcount j x hx]
          omega
    · have hne : l.stage ≠ .queued := by
        rcases advance_cases hadvance with ⟨-, -, hm, -⟩ | ⟨o, hs, -⟩ | ⟨o, hs, -⟩ | ⟨hs, -⟩
        · exact absurd hm hstart
        all_goals
          rw [hs]
          exact nofun
      refine ⟨k, by rwa [List.length_set], by rw [starts_of_ne hstart, hk], fun j x hx => ?_⟩
      rcases hset j x hx with ⟨rfl, rfl⟩ | ⟨-, hx⟩
      · exact iff_of_true hstarted ((hcount j l hl).1 hne)
      · exact hcount j x hx

theorem inv_of_exec (h : Run.exec step ({} : Queue τ ν ε) acts = some q) : Inv acts q := by
  induction acts using List.reverseRecOn generalizing q with
  | nil =>
      cases h
      exact Inv.init
  | append_singleton acts a ih =>
      obtain ⟨u, hu, hstep⟩ := Run.exec_concat.1 h
      rcases step_cases hstep with ⟨task, rfl, rfl⟩ | ⟨i, m, l, l', rfl, hl, hadvance, rfl⟩
      · exact (ih hu).enqueue task
      · exact (ih hu).move hl hadvance

/-! ## Order, exclusion, isolation -/

theorem rank_le (l : Link τ ν ε) : l.rank ≤ 4 := by
  unfold Link.rank
  split <;> decide

theorem rank_eq_four {l : Link τ ν ε} : l.rank = 4 ↔ l.stage = .closed := by
  unfold Link.rank
  split <;> simp_all

theorem rank_eq_zero {l : Link τ ν ε} : l.rank = 0 ↔ l.stage = .queued := by
  unfold Link.rank
  split <;> simp_all

/-- How the task of link `i` ended. -/
def outcomes (i : ℕ) (acts : List (Action τ ν ε)) : List (Outcome ν ε) :=
  (moves i acts).filterMap fun m => match m with
    | .finish o => some o
    | _ => none

/-- Everything that happens at a link whose task ends with `o`. -/
def lifetime (o : Outcome ν ε) : List (Move ν ε) := [.start, .finish o, .deliver, .close]

theorem Inv.traces_closed (h : Inv acts q) {i : ℕ} (hl : q.links[i]? = some l)
    (hclosed : l.stage = .closed) :
    ∃ o, moves i acts = lifetime o ∧ l.result = some o.settle := by
  have htraces := h.traces i l hl
  unfold Link.Traces at htraces
  rw [hclosed] at htraces
  exact htraces

theorem Inv.result (h : Inv acts q) {i : ℕ} (hl : q.links[i]? = some l) {r : Settlement ν ε}
    (hr : l.result = some r) : ∃ o, outcomes i acts = [o] ∧ r = o.settle := by
  have htraces := h.traces i l hl
  unfold Link.Traces at htraces
  split at htraces
  · cases htraces.2.symm.trans hr
  · cases htraces.2.symm.trans hr
  · cases htraces.2.symm.trans hr
  · obtain ⟨o, hmoves, hresult⟩ := htraces
    refine ⟨o, by rw [outcomes, hmoves]; rfl, Option.some.inj (hr.symm.trans hresult)⟩
  · obtain ⟨o, hmoves, hresult⟩ := htraces
    refine ⟨o, by rw [outcomes, hmoves]; rfl, Option.some.inj (hr.symm.trans hresult)⟩

/-- A link whose turn it is can move; a running task moves with any outcome. -/
theorem Inv.can_move (h : Inv acts q) {i : ℕ} (hl : q.links[i]? = some l)
    (hopen : l.stage ≠ .closed)
    (hbefore : ∀ j x, j < i → q.links[j]? = some x → x.stage = .closed) (o : Outcome ν ε) :
    ∃ m ∈ lifetime o, (step q (.move i m)).isSome := by
  have hmoves {m : Move ν ε} (hadvance : (l.advance (q.fulfilled l.prev) m).isSome) :
      (step q (.move i m)).isSome := by
    obtain ⟨l', hl'⟩ := Option.isSome_iff_exists.1 hadvance
    simp [step, hl, hl']
  cases hstage : l.stage with
  | queued =>
      refine ⟨.start, by simp [lifetime], hmoves ?_⟩
      have hready : q.fulfilled l.prev = true := by
        rw [h.prev i l hl]
        cases i with
        | zero => rfl
        | succ i =>
            have hlt := (List.getElem?_eq_some_iff.1 hl).1
            have hx := List.getElem?_eq_getElem (Nat.lt_of_succ_lt hlt)
            exact fulfilled_succ.2 ⟨_, hx, hbefore i _ (Nat.lt_succ_self i) hx⟩
      simp [Link.advance, hstage, hready]
  | running =>
      refine ⟨.finish o, by simp [lifetime], hmoves ?_⟩
      simp [Link.advance, hstage]
  | finished o' =>
      refine ⟨.deliver, by simp [lifetime], hmoves ?_⟩
      simp [Link.advance, hstage]
  | settled =>
      refine ⟨.close, by simp [lifetime], hmoves ?_⟩
      simp [Link.advance, hstage]
  | closed => exact absurd hstage hopen

/-- As long as a link is not closed, some link can move. -/
theorem Inv.progress (h : Inv acts q) (hlt : PromiseChain.served acts < 4 * q.links.length) :
    ∃ i, ∀ o, ∃ m ∈ lifetime o, (step q (.move i m)).isSome := by
  have hex : ∃ (i : ℕ) (l : Link τ ν ε), q.links[i]? = some l ∧ l.stage ≠ .closed := by
    by_contra hnone
    have hall : ∀ n ∈ q.links.map Link.rank, n = 4 := by
      intro n hn
      obtain ⟨l, hmem, rfl⟩ := List.mem_map.1 hn
      obtain ⟨i, hi⟩ := List.mem_iff_getElem?.1 hmem
      by_contra hne
      exact hnone ⟨i, l, hi, fun hclosed => hne (rank_eq_four.2 hclosed)⟩
    have hsum := List.sum_eq_card_nsmul _ 4 hall
    rw [← h.served, List.length_map, smul_eq_mul] at hsum
    omega
  classical
  obtain ⟨l, hl, hopen⟩ := Nat.find_spec hex
  refine ⟨Nat.find hex, fun o => h.can_move hl hopen (fun j x hj hx => ?_) o⟩
  by_contra hne
  exact Nat.find_min hex hj ⟨x, hx, hne⟩

/-- After four moves for it and for each link before, a link is closed. -/
theorem Inv.closed_of_served (h : Inv acts q) {i : ℕ} (hl : q.links[i]? = some l)
    (hserved : 4 * (i + 1) ≤ PromiseChain.served acts) : l.stage = .closed := by
  by_contra hopen
  obtain ⟨hsplit, -⟩ := Table.split_at l hl
  have hbefore : ((q.links.take i).map Link.rank).sum ≤ i * 4 := by
    refine (List.sum_le_card_nsmul _ 4 fun n hn => ?_).trans ?_
    · obtain ⟨x, -, rfl⟩ := List.mem_map.1 hn
      exact rank_le x
    · rw [List.length_map, smul_eq_mul]
      exact Nat.mul_le_mul_right 4 (List.length_take_le i _)
  have hbehind : ((q.links.drop (i + 1)).map Link.rank).sum = 0 := by
    refine List.sum_eq_zero fun n hn => ?_
    obtain ⟨x, hx, rfl⟩ := List.mem_map.1 hn
    obtain ⟨j, hj⟩ := List.mem_iff_getElem?.1 hx
    rw [List.getElem?_drop] at hj
    rw [rank_eq_zero]
    by_contra hne
    exact hopen (h.ordered i (i + 1 + j) l x (by omega) hl hj hne)
  have hrank : l.rank < 4 := lt_of_le_of_ne (rank_le l) fun heq => hopen (rank_eq_four.1 heq)
  rw [h.served, hsplit, List.map_append, List.map_cons, List.sum_append, List.sum_cons,
    hbehind] at hserved
  omega

/-- A queue runs its tasks one at a time, in the order of the `enqueue` calls, and whatever they
do. -/
structure FifoMutex (acts : List (Action τ ν ε)) (q : Queue τ ν ε) : Prop where
  tasks : q.links.map (·.task) = enqueued acts
  order : ∃ k, starts acts = List.range k
  exclusive : ∀ before i after, acts = before ++ .move i .start :: after →
    ∀ j < i, ∃ o, moves j before = lifetime o
  outcome : ∀ (i : ℕ) (l : Link τ ν ε) (r : Settlement ν ε), q.links[i]? = some l →
    l.result = some r → ∃ o, outcomes i acts = [o] ∧ r = o.settle
  progress : served acts < 4 * q.links.length →
    ∃ i, ∀ o, ∃ m ∈ lifetime o, (step q (.move i m)).isSome
  settles : ∀ (i : ℕ) (l : Link τ ν ε), q.links[i]? = some l → 4 * (i + 1) ≤ served acts →
    ∃ o, moves i acts = lifetime o ∧ l.result = some o.settle

/-- **`InstanceQueue` is a FIFO mutex with error isolation.**  Four moves for each task are all
there is, and as long as some task has not had its own one of them is possible. -/
theorem fifo_mutex (acts : List (Action τ ν ε)) (q : Queue τ ν ε)
    (h : Run.exec step {} acts = some q) : FifoMutex acts q := by
  have hinv := inv_of_exec h
  refine ⟨hinv.tasks, ?_, ?_, fun i l r hl hr => hinv.result hl hr, hinv.progress,
    fun i l hl hserved => hinv.traces_closed hl (hinv.closed_of_served hl hserved)⟩
  · obtain ⟨k, -, hk, -⟩ := hinv.starts
    exact ⟨k, hk⟩
  · rintro before i after rfl j hj
    obtain ⟨u, hu, hrest⟩ := Run.exec_append_iff.1 h
    cases hstep : step u (.move i .start) with
    | none => simp [Run.exec, hstep] at hrest
    | some u' =>
        have hinv' := inv_of_exec hu
        rcases step_cases hstep with ⟨task, hact, -⟩ | ⟨i', m, l, l', hact, hl, hadvance, -⟩
        · cases hact
        · cases hact
          obtain ⟨x, hx, hclosed⟩ := hinv'.before_move hl hadvance hj
          obtain ⟨o, hmoves, -⟩ := hinv'.traces_closed hx hclosed
          exact ⟨o, hmoves⟩

/-- The first task throws while the second one is enqueued. -/
def oneThrows : List (Action ℕ ℕ String) :=
  [.enqueue 0, .move 0 .start, .enqueue 1, .move 0 (.finish (.throws "boom")), .move 0 .deliver,
    .move 0 .close, .move 1 .start, .move 1 (.finish (.value 7)), .move 1 .deliver]

theorem fifo_mutex_oneThrows : ∃ q, Run.exec step {} oneThrows = some q ∧ FifoMutex oneThrows q :=
  ⟨_, rfl, fifo_mutex _ _ rfl⟩

/-! ## The queue of an instance -/

/-- The queue as the record of an instance has it. -/
def Queue.view (q : Queue τ ν ε) : InstanceQueue τ τ where
  waiting := (q.links.filter fun l => decide (l.rank = 0)).map (·.task)
  running := (q.links.find? fun l => decide (0 < l.rank ∧ l.rank < 4)).map (·.task)

/-- What an action does to the queue of the instance. -/
def Follows (p p' : InstanceQueue τ τ) : Action τ ν ε → Prop
  | .enqueue task => p' = p.enqueue task
  | .move _ .start => ∃ task waiting, p.next = some (task, waiting) ∧
      p' = { waiting := waiting, running := some task }
  | .move _ (.finish _) => p' = p
  | .move _ .deliver => p' = p
  | .move _ .close => p.running.isSome ∧ p' = p.done

theorem view_split {A C : List (Link τ ν ε)} (hlinks : q.links = A ++ l :: C)
    (hA : ∀ x ∈ A, x.stage = .closed) (hC : ∀ x ∈ C, x.stage = .queued) :
    q.view =
      { waiting := (if l.rank = 0 then [l.task] else []) ++ C.map (·.task)
        running := if 0 < l.rank ∧ l.rank < 4 then some l.task else none } := by
  have hfilterA : (A.filter fun l => decide (l.rank = 0)) = [] :=
    List.filter_eq_nil_iff.2 fun x hx => by simp [rank_eq_four.2 (hA x hx)]
  have hfilterC : (C.filter fun l => decide (l.rank = 0)) = C :=
    List.filter_eq_self.2 fun x hx => by simp [rank_eq_zero.2 (hC x hx)]
  have hfindA : (A.find? fun l => decide (0 < l.rank ∧ l.rank < 4)) = none :=
    List.find?_eq_none.2 fun x hx => by simp [rank_eq_four.2 (hA x hx)]
  have hfindC : (C.find? fun l => decide (0 < l.rank ∧ l.rank < 4)) = none :=
    List.find?_eq_none.2 fun x hx => by simp [rank_eq_zero.2 (hC x hx)]
  unfold Queue.view
  rw [hlinks, List.filter_append, List.find?_append, hfilterA, hfindA, List.filter_cons,
    List.find?_cons, hfilterC, hfindC]
  by_cases h0 : l.rank = 0
  · simp [h0]
  · by_cases h4 : 0 < l.rank ∧ l.rank < 4 <;> simp [h0, h4]

/-- The chain of promises refines the queue of the instance. -/
theorem follows_of_step {a : Action τ ν ε} (h : Inv acts q) (hstep : step q a = some q') :
    Follows q.view q'.view a := by
  rcases step_cases hstep with ⟨task, rfl, rfl⟩ | ⟨i, m, l, l', rfl, hl, hadvance, rfl⟩
  · simp [Follows, Queue.view, Queue.enqueue, InstanceQueue.enqueue, Link.rank,
      List.filter_append, List.find?_append]
  · obtain ⟨hold, hnew⟩ := Table.split_at l' hl
    have hA : ∀ x ∈ q.links.take i, x.stage = .closed := by
      intro x hx
      obtain ⟨j, hj⟩ := List.mem_iff_getElem?.1 hx
      rw [List.getElem?_take] at hj
      split at hj
      · rename_i hlt
        obtain ⟨y, hy, hclosed⟩ := h.before_move hl hadvance hlt
        rw [Option.some.inj (hj.symm.trans hy)]
        exact hclosed
      · cases hj
    have hC : ∀ x ∈ q.links.drop (i + 1), x.stage = .queued := by
      intro x hx
      obtain ⟨j, hj⟩ := List.mem_iff_getElem?.1 hx
      rw [List.getElem?_drop] at hj
      exact h.behind_move hl hadvance (by omega) hj
    rw [view_split hold hA hC, view_split (q := { q with links := q.links.set i l' }) hnew hA hC]
    rcases advance_cases hadvance with ⟨hs, -, rfl, rfl⟩ | ⟨o, hs, rfl, rfl⟩ | ⟨o, hs, rfl, rfl⟩ |
      ⟨hs, rfl, rfl⟩
    · exact ⟨l.task, (q.links.drop (i + 1)).map (·.task),
        by simp [InstanceQueue.next, Link.rank, hs], by simp [Link.rank]⟩
    · simp [Follows, Link.rank, hs]
    · simp [Follows, Link.rank, hs]
    · simp [Follows, InstanceQueue.done, Link.rank, hs]

/-- Every step of every run of the chain is one of the queue that the runtime works with. -/
theorem chain_simulates_queue {a : Action τ ν ε}
    (hrun : Run.exec step ({} : Queue τ ν ε) acts = some q) (hstep : step q a = some q') :
    Follows q.view q'.view a := follows_of_step (inv_of_exec hrun) hstep

theorem chain_simulates_queue_oneThrows :
    ∃ q q', Run.exec step {} (oneThrows.take 6) = some q ∧ step q (.move 1 .start) = some q' ∧
      Follows q.view q'.view (.move 1 .start : Action ℕ ℕ String) :=
  have hrun : Run.exec step {} (oneThrows.take 6) = some _ := rfl
  ⟨_, _, rfl, rfl, chain_simulates_queue hrun rfl⟩

end Steps

end Ap3xSolana.Strategies.PromiseChain
