import Ap3xSolana.Lib.Table
import Ap3xSolana.Lib.Throwing
import Ap3xSolana.Portfolio.StoreCalls

/-!
# The calls on a wallet run one after the other

`Moves` lists what a step can do to one call.  From it: a call that has begun has only
settled calls before it (`InOrder`), so between its read and its write nobody else
writes the file, and the files are what the calls whose write went through make of them
in that order (`Inv.data`).  A call that has not settled has a first unsettled call
before it, or is it, and that one can always go on (`eventually_settled`).
-/

namespace Ap3xSolana.Portfolio.StoreFile

open Ap3xSolana.Core Ap3xSolana.Lib Ap3xSolana.Lib.Run Ap3xSolana.Lib.Throwing

/-! ## What a step does to a call -/

/-- The call has left `await prev`. -/
def Stage.begun : Stage → Bool
  | .waiting _ => false
  | _ => true

/-- The call has replaced the file. -/
def Stage.written : Stage → Bool
  | .auditing _ => true
  | .settled written _ => written
  | _ => false

/-- From one stage of a call to the next, and what becomes of the files. -/
inductive Moves (st : StoreState) (call : StoreCall) : Stage → Stage → Files → Prop where
  | begin {prev : Gate} (h : prev.settled st.released = true) :
      Moves st call (.waiting prev) .loading st.files
  | loaded {loaded : Option WalletData} (h : load st.files call.wallet = .ok loaded) :
      Moves st call .loading (.computing loaded) st.files
  | computed {loaded : Option WalletData} {c : Computed} (h : compute loaded call = .ok c) :
      Moves st call (.computing loaded) (.writing c) st.files
  | wrote (c : Computed) : Moves st call (.writing c) (.auditing c)
      (writeWalletData st.files call.wallet c.data)
  | failed {stage : Stage} (e : CallError) (hbegun : stage.begun = true)
      (hunsettled : stage.isSettled = false) (hunwritten : stage.written = false) :
      Moves st call stage (.settled false (.error e)) st.files
  | audited (c : Computed) (result : Except CallError Computed) :
      Moves st call (.auditing c) (.settled true result) st.files

theorem step_cases {st st' : StoreState} {a : StoreAction} (h : step st a = some st') :
    (∃ call, a = .enter call ∧ st' = enter st call) ∨
    ∃ i call stage stage', a.takes = some i ∧ st.calls[i]? = some ⟨call, stage⟩ ∧
      Moves st call stage stage' st'.files ∧
      st'.calls = st.calls.set i ⟨call, stage'⟩ ∧ st'.mutexes = st.mutexes := by
  cases a with
  | enter call => exact .inl ⟨call, rfl, (Option.some.inj h).symm⟩
  | begin i =>
      right
      simp only [step] at h
      split at h
      · rename_i call prev hcall
        split at h
        · rename_i hprev
          cases h
          exact ⟨i, call, _, _, rfl, hcall, .begin hprev, rfl, rfl⟩
        · cases h
      · cases h
  | loaded i failure =>
      right
      simp only [step] at h
      split at h
      · rename_i call hcall
        cases h
        cases failure with
        | some message =>
            exact ⟨i, call, _, _, rfl, hcall, .failed (.other message) rfl rfl rfl, rfl, rfl⟩
        | none =>
            unfold loadedStep
            dsimp only
            split
            · rename_i e _
              exact ⟨i, call, _, _, rfl, hcall, .failed e rfl rfl rfl, rfl, rfl⟩
            · rename_i loaded hloaded
              exact ⟨i, call, _, _, rfl, hcall, .loaded hloaded, rfl, rfl⟩
      · cases h
  | computed i thrown =>
      right
      simp only [step] at h
      split at h
      · rename_i call loaded hcall
        cases h
        unfold computedStep
        split
        · rename_i e _
          exact ⟨i, call, _, _, rfl, hcall, .failed e rfl rfl rfl, rfl, rfl⟩
        · rename_i c hcompute
          dsimp only
          split
          · rename_i message _ _
            exact ⟨i, call, _, _, rfl, hcall, .failed (.other _) rfl rfl rfl, rfl, rfl⟩
          · exact ⟨i, call, _, _, rfl, hcall, .computed hcompute, rfl, rfl⟩
      · cases h
  | wrote i failure =>
      right
      simp only [step] at h
      split at h
      · rename_i call c hcall
        cases h
        cases failure with
        | some message =>
            exact ⟨i, call, _, _, rfl, hcall, .failed (.other message) rfl rfl rfl, rfl, rfl⟩
        | none => exact ⟨i, call, _, _, rfl, hcall, .wrote c, rfl, rfl⟩
      · cases h
  | audited i failure =>
      right
      simp only [step] at h
      split at h
      · rename_i call c hcall
        cases h
        cases failure with
        | some message => exact ⟨i, call, _, _, rfl, hcall, .audited c _, rfl, rfl⟩
        | none => exact ⟨i, call, _, _, rfl, hcall, .audited c _, rfl, rfl⟩
      · cases h

theorem Moves.unsettled {st : StoreState} {call : StoreCall} {stage stage' : Stage}
    {files : Files} (h : Moves st call stage stage' files) : stage.isSettled = false := by
  cases h with
  | failed e _ hunsettled _ => exact hunsettled
  | _ => rfl

theorem Moves.begun {st : StoreState} {call : StoreCall} {stage stage' : Stage}
    {files : Files} (h : Moves st call stage stage' files) : stage'.begun = true := by
  cases h <;> rfl

/-- Only the write touches a file, that of the call's wallet. -/
theorem Moves.writes {st : StoreState} {call : StoreCall} {stage stage' : Stage}
    {files : Files} (h : Moves st call stage stage' files) :
    (files = st.files ∧ stage'.written = stage.written) ∨
      ∃ c, stage = .writing c ∧ stage' = .auditing c ∧
        files = writeWalletData st.files call.wallet c.data := by
  cases h with
  | wrote c => exact .inr ⟨c, rfl, rfl, rfl⟩
  | failed e _ _ hunwritten => exact .inl ⟨rfl, hunwritten.symm⟩
  | _ => exact .inl ⟨rfl, rfl⟩

/-! ## Order -/

/-- The wallet of the `i`-th call. -/
def walletAt (st : StoreState) (i : Nat) : Option PublicKey :=
  (st.calls[i]?).map (·.call.wallet)

/-- A call that has begun has only settled calls of its wallet before it. -/
def InOrder (st : StoreState) : Prop :=
  ∀ (i j : Nat) (x y : CallRecord), j < i → st.calls[i]? = some x → st.calls[j]? = some y →
    y.call.wallet = x.call.wallet → x.stage.begun = true → y.stage.isSettled = true

/-- What the promises in the map and in the waiting calls stand for. -/
structure Queued (st : StoreState) : Prop where
  gates : ∀ wallet i, i ∈ ((st.mutexes wallet).getD .resolved).waiters ↔
    walletAt st i = some wallet
  prevs : ∀ i call prev, st.calls[i]? = some ⟨call, .waiting prev⟩ →
    ∀ j, j ∈ prev.waiters ↔ j < i ∧ walletAt st j = some call.wallet
  order : InOrder st

theorem queued_init (files : Files) : Queued { files := files } :=
  { gates := fun _ _ => by simp [Gate.waiters, walletAt]
    prevs := fun _ _ _ h => by simp at h
    order := fun _ _ _ _ _ h => by simp at h }

theorem walletAt_enter (st : StoreState) (call : StoreCall) (i : Nat) :
    walletAt (enter st call) i =
      if i = st.calls.length then some call.wallet else walletAt st i := by
  unfold walletAt enter
  dsimp only
  rw [Table.getElem?_added]
  split <;> rfl

theorem Queued.enter {st : StoreState} (h : Queued st) (call : StoreCall) :
    Queued (enter st call) := by
  have hlen : walletAt st st.calls.length = none := by simp [walletAt]
  refine ⟨fun wallet i => ?_, fun i call' prev hi j => ?_, fun i j x y hji hi hj => ?_⟩
  · rw [walletAt_enter]
    show i ∈ ((Function.update st.mutexes call.wallet _ wallet).getD .resolved).waiters ↔ _
    by_cases hw : wallet = call.wallet
    · subst hw
      rw [Function.update_self, Option.getD_some, Gate.waiters, List.mem_append, h.gates,
        List.mem_singleton]
      by_cases hi : i = st.calls.length
      · simp [hi]
      · simp [hi]
    · rw [Function.update_of_ne hw, h.gates]
      by_cases hi : i = st.calls.length
      · subst hi
        rw [hlen, if_pos rfl]
        simp [Ne.symm hw]
      · rw [if_neg hi]
  · rw [walletAt_enter]
    unfold StoreFile.enter at hi
    dsimp only at hi
    rw [Table.getElem?_added] at hi
    split at hi
    · rename_i hlast
      cases hi
      rw [h.gates, hlast]
      by_cases hj : j = st.calls.length
      · simp [hj, hlen]
      · rw [if_neg hj]
        constructor
        · intro hwallet
          refine ⟨?_, hwallet⟩
          by_contra hge
          rw [walletAt, List.getElem?_eq_none (by omega)] at hwallet
          cases hwallet
        · exact fun hwallet => hwallet.2
    · rename_i hlast
      have hlt := (List.getElem?_eq_some_iff.1 hi).1
      rw [h.prevs i call' prev hi]
      by_cases hj : j = st.calls.length
      · subst hj
        rw [hlen, if_pos rfl]
        constructor
        · rintro ⟨_, hnone⟩
          cases hnone
        · rintro ⟨hlt', _⟩
          omega
      · rw [if_neg hj]
  · unfold StoreFile.enter at hi hj
    dsimp only at hi hj
    rw [Table.getElem?_added] at hi hj
    intro hwallet hbegun
    split at hi
    · -- the new call has not begun
      cases hi
      cases hbegun
    · have hlt := (List.getElem?_eq_some_iff.1 hi).1
      rw [if_neg (by omega)] at hj
      exact h.order i j x y hji hi hj hwallet hbegun

theorem Queued.moved {st st' : StoreState} (h : Queued st) {i : Nat} {call : StoreCall}
    {stage stage' : Stage} {files : Files} (hi : st.calls[i]? = some ⟨call, stage⟩)
    (hmove : Moves st call stage stage' files)
    (hcalls : st'.calls = st.calls.set i ⟨call, stage'⟩)
    (hmutexes : st'.mutexes = st.mutexes) : Queued st' := by
  have hget : ∀ j, st'.calls[j]? = if j = i then some ⟨call, stage'⟩ else st.calls[j]? := by
    intro j
    rw [hcalls]
    exact Table.getElem?_replaced hi j
  have hwallets : ∀ j, walletAt st' j = walletAt st j := by
    intro j
    unfold walletAt
    rw [hget]
    by_cases hj : j = i
    · rw [if_pos hj, hj, hi]
      rfl
    · rw [if_neg hj]
  refine ⟨fun wallet j => ?_, fun j call' prev hj k => ?_, fun j k x y hkj hj hk => ?_⟩
  · rw [hmutexes, hwallets, h.gates]
  · rw [hget] at hj
    split at hj
    · -- a call that moves does not wait any longer
      cases hj
      exact absurd hmove.begun Bool.false_ne_true
    · rw [hwallets]
      exact h.prevs j call' prev hj k
  · intro hwallet hbegun
    rw [hget] at hj hk
    by_cases hki : k = i
    · -- nothing behind an unsettled call has begun
      subst hki
      rw [if_neg (by omega)] at hj
      rw [if_pos rfl] at hk
      cases hk
      have hsettled := h.order j k x _ hkj hj hi hwallet hbegun
      rw [hmove.unsettled] at hsettled
      cases hsettled
    · rw [if_neg hki] at hk
      by_cases hji : j = i
      · subst hji
        rw [if_pos rfl] at hj
        cases hj
        by_cases hold : stage.begun = true
        · exact h.order j k _ y hkj hi hk hwallet hold
        · -- the call begins: the promise it waited for has settled
          cases hmove with
          | begin hprev =>
              rw [Gate.settled_iff] at hprev
              have hmem := (h.prevs j call _ hi k).2
                ⟨hkj, by rw [walletAt, hk, Option.map_some, hwallet]⟩
              have hreleased := hprev k hmem
              unfold StoreState.released at hreleased
              rw [hk] at hreleased
              exact hreleased
          | failed e hbegun' _ _ => exact absurd hbegun' hold
          | _ => exact absurd rfl hold
      · rw [if_neg hji] at hj
        exact h.order j k x y hkj hj hk hwallet hbegun

/-! ## Data -/

theorem runCall_congr {files₁ files₂ files' : Files} {call : StoreCall} {c : Computed}
    (h : files₁ call.wallet = files₂ call.wallet)
    (hrun : runCall files₁ call = .ok (files', c)) :
    ∃ files'', runCall files₂ call = .ok (files'', c) ∧
      files'' call.wallet = files' call.wallet := by
  obtain ⟨loaded, hload, hrun⟩ := bind_eq_ok.1 hrun
  obtain ⟨c', hcompute, hrun⟩ := bind_eq_ok.1 hrun
  obtain ⟨rfl, rfl⟩ := Prod.mk.inj (pure_eq_ok.1 hrun)
  refine ⟨writeWalletData files₂ call.wallet c'.data, ?_, ?_⟩
  · rw [load_congr h] at hload
    unfold runCall
    rw [hload]
    show (compute loaded call >>= _) = _
    rw [hcompute]
    rfl
  · rw [writeWalletData, writeWalletData, Function.update_self, Function.update_self]

theorem runCalls_snoc {files files₁ files₂ : Files} {calls : List StoreCall}
    {call : StoreCall} {events : List RealizedPnlEvent} {c : Computed}
    (h : runCalls files calls = .ok (files₁, events))
    (hcall : runCall files₁ call = .ok (files₂, c)) :
    runCalls files (calls ++ [call]) = .ok (files₂, events ++ c.realized.toList) := by
  unfold runCalls at h ⊢
  rw [List.foldlM_append, h]
  dsimp only [bind, Except.bind]
  rw [List.foldlM_cons, hcall]
  rfl

/-- What a call in its critical section knows is still true of the file. -/
def Holds (files : Files) (x : CallRecord) : Prop :=
  match x.stage with
  | .computing loaded => load files x.call.wallet = .ok loaded
  | .writing c => ∃ loaded, load files x.call.wallet = .ok loaded ∧
      compute loaded x.call = .ok c
  | _ => True

theorem holds_congr {files files' : Files} {x : CallRecord}
    (h : files x.call.wallet = files' x.call.wallet) : Holds files x → Holds files' x := by
  unfold Holds
  rw [load_congr h]
  exact id

theorem holds_of_settled {files : Files} {x : CallRecord} (h : x.stage.isSettled = true) :
    Holds files x := by
  unfold Holds
  cases hstage : x.stage with
  | settled written result => trivial
  | _ =>
      rw [hstage] at h
      cases h

theorem holds_of_not_begun {files : Files} {x : CallRecord} (h : x.stage.begun = false) :
    Holds files x := by
  unfold Holds
  cases hstage : x.stage with
  | waiting prev => trivial
  | _ =>
      rw [hstage] at h
      cases h

theorem Moves.holds {st : StoreState} {call : StoreCall} {stage stage' : Stage}
    {files : Files} (h : Moves st call stage stage' files)
    (hold : Holds st.files ⟨call, stage⟩) : Holds files ⟨call, stage'⟩ := by
  cases h with
  | loaded hload => exact hload
  | @computed loaded c hcompute => exact ⟨loaded, hold, hcompute⟩
  | _ => trivial

/-- The call as one of those that replaced the file of the wallet. -/
def writtenCall (wallet : PublicKey) (x : CallRecord) : Option StoreCall :=
  if x.call.wallet = wallet ∧ x.stage.written = true then some x.call else none

/-- The calls that replaced the file of the wallet, in the order of `withMutex`. -/
def writtenCalls (st : StoreState) (wallet : PublicKey) : List StoreCall :=
  st.calls.filterMap (writtenCall wallet)

/-- The file of the wallet is what those calls make of it, one after the other. -/
def RunsInOrder (files : Files) (st : StoreState) (wallet : PublicKey) : Prop :=
  ∃ r, runCalls files (writtenCalls st wallet) = .ok r ∧ r.1 wallet = st.files wallet

structure Inv (files : Files) (st : StoreState) : Prop where
  queued : Queued st
  holds : ∀ x ∈ st.calls, Holds st.files x
  data : ∀ wallet, RunsInOrder files st wallet

theorem inv_init (files : Files) : Inv files { files := files } where
  queued := queued_init files
  holds _ h := by cases h
  data _ := ⟨(files, []), rfl, rfl⟩

theorem Inv.enter {files : Files} {st : StoreState} (h : Inv files st) (call : StoreCall) :
    Inv files (enter st call) := by
  refine ⟨h.queued.enter call, fun x hx => ?_, fun wallet => ?_⟩
  · rcases List.mem_append.1 hx with hx | hx
    · exact h.holds x hx
    · rw [List.mem_singleton.1 hx]
      trivial
  · have hsame : writtenCalls (StoreFile.enter st call) wallet = writtenCalls st wallet := by
      unfold writtenCalls StoreFile.enter
      dsimp only
      rw [List.filterMap_append]
      simp [writtenCall, Stage.written]
    unfold RunsInOrder
    rw [hsame]
    exact h.data wallet

/-- A call that is about to write is the first of its wallet that has not settled, and
what it writes follows from the file as it is. -/
theorem Inv.wrote {files : Files} {st st' : StoreState} (h : Inv files st) {i : Nat}
    {call : StoreCall} {c : Computed} (hi : st.calls[i]? = some ⟨call, .writing c⟩)
    (hcalls : st'.calls = st.calls.set i ⟨call, .auditing c⟩)
    (hfiles : st'.files = writeWalletData st.files call.wallet c.data) :
    RunsInOrder files st' call.wallet := by
  obtain ⟨⟨files₁, events⟩, hrun, hfile⟩ := h.data call.wallet
  have hwritten : writtenCalls st' call.wallet =
      writtenCalls st call.wallet ++ [call] := by
    unfold writtenCalls
    rw [hcalls]
    refine Table.filterMap_replaced_last hi (by simp [writtenCall, Stage.written])
      (by simp [writtenCall, Stage.written]) fun j y hij hy => ?_
    unfold writtenCall
    apply if_neg
    rintro ⟨hwallet, hy'⟩
    have hbegun : y.stage.begun = true := by
      cases hstage : y.stage with
      | waiting prev =>
          rw [hstage] at hy'
          cases hy'
      | _ => rfl
    have hsettled := h.queued.order j i y _ hij hy hi hwallet.symm hbegun
    cases hsettled
  obtain ⟨loaded, hload, hcompute⟩ := h.holds _ (List.mem_of_getElem? hi)
  have hcall : runCall st.files call =
      .ok (writeWalletData st.files call.wallet c.data, c) := by
    unfold runCall
    rw [hload]
    show (compute loaded call >>= _) = _
    rw [hcompute]
    rfl
  obtain ⟨files₂, hcall', hfile'⟩ := runCall_congr hfile.symm hcall
  refine ⟨(files₂, events ++ c.realized.toList), ?_, ?_⟩
  · rw [hwritten]
    exact runCalls_snoc hrun hcall'
  · rw [hfiles]
    exact hfile'

theorem Inv.moved {files : Files} {st st' : StoreState} (h : Inv files st) {i : Nat}
    {call : StoreCall} {stage stage' : Stage} (hi : st.calls[i]? = some ⟨call, stage⟩)
    (hmove : Moves st call stage stage' st'.files)
    (hcalls : st'.calls = st.calls.set i ⟨call, stage'⟩)
    (hmutexes : st'.mutexes = st.mutexes) : Inv files st' := by
  refine ⟨h.queued.moved hi hmove hcalls hmutexes, fun x hx => ?_, fun wallet => ?_⟩
  · rw [hcalls] at hx
    obtain ⟨j, hj⟩ := List.mem_iff_getElem?.1 hx
    rw [Table.getElem?_replaced hi] at hj
    split at hj
    · cases hj
      exact hmove.holds (h.holds _ (List.mem_of_getElem? hi))
    · rename_i hne
      have hold := h.holds x (List.mem_of_getElem? hj)
      rcases hmove.writes with ⟨hsame, -⟩ | ⟨c, rfl, -, hfiles⟩
      · rwa [hsame]
      · by_cases hwallet : x.call.wallet = call.wallet
        · -- of two calls on one wallet at most one is in its critical section
          by_cases hbegun : x.stage.begun = true
          · rcases Nat.lt_or_gt_of_ne hne with hlt | hgt
            · exact holds_of_settled (h.queued.order i j _ x hlt hi hj hwallet rfl)
            · have hsettled := h.queued.order j i x _ hgt hj hi hwallet.symm hbegun
              cases hsettled
          · exact holds_of_not_begun (by simpa using hbegun)
        · refine holds_congr ?_ hold
          rw [hfiles, writeWalletData, Function.update_of_ne hwallet]
  · have hunchanged : (st'.files wallet = st.files wallet) →
        writtenCall wallet ⟨call, stage'⟩ = writtenCall wallet ⟨call, stage⟩ →
        RunsInOrder files st' wallet := by
      intro hfile hwritten
      unfold RunsInOrder writtenCalls
      rw [hcalls, Table.filterMap_replaced hi hwritten, hfile]
      exact h.data wallet
    rcases hmove.writes with ⟨hsame, hwritten⟩ | ⟨c, rfl, rfl, hfiles⟩
    · apply hunchanged (by rw [hsame])
      unfold writtenCall
      dsimp only
      rw [hwritten]
    · by_cases hwallet : call.wallet = wallet
      · subst hwallet
        exact h.wrote hi hcalls hfiles
      · apply hunchanged
        · rw [hfiles, writeWalletData, Function.update_of_ne (Ne.symm hwallet)]
        · rw [writtenCall, writtenCall, if_neg (fun h => hwallet h.1),
            if_neg (fun h => hwallet h.1)]

theorem Inv.step {files : Files} {st st' : StoreState} {a : StoreAction}
    (h : Inv files st) (hstep : StoreFile.step st a = some st') : Inv files st' := by
  rcases step_cases hstep with ⟨call, -, rfl⟩ |
    ⟨i, call, stage, stage', -, hi, hmove, hcalls, hmutexes⟩
  · exact h.enter call
  · exact h.moved hi hmove hcalls hmutexes

/-! ## Every call settles -/

/-- The awaits a call still has before it. -/
def Stage.remaining : Stage → Nat
  | .waiting _ => 5
  | .loading => 4
  | .computing _ => 3
  | .writing _ => 2
  | .auditing _ => 1
  | .settled .. => 0

theorem Moves.remaining {st : StoreState} {call : StoreCall} {stage stage' : Stage}
    {files : Files} (h : Moves st call stage stage' files) :
    stage'.remaining < stage.remaining := by
  cases h with
  | failed e _ hunsettled _ =>
      cases stage with
      | settled written result => cases hunsettled
      | _ => simp [Stage.remaining]
  | _ => simp [Stage.remaining]

/-- What the call awaits can settle: the mutex is free for it, or it is inside. -/
def CanGoOn (st : StoreState) (i : Nat) : Prop :=
  ∃ call stage, st.calls[i]? = some ⟨call, stage⟩ ∧ stage.isSettled = false ∧
    ∀ prev, stage = .waiting prev → prev.settled st.released = true

/-- Whatever the calls up to the `i`-th await settles at some time. -/
def Served (f : ℕ → StoreState) (a : ℕ → StoreAction) (i : ℕ) : Prop :=
  ∀ n, ∀ j ≤ i, CanGoOn (f n) j → ∃ m, n ≤ m ∧ (a m).takes = some j

/-- As long as a call has not settled, it or an unsettled call before it can go on. -/
theorem Queued.exists_canGoOn {st : StoreState} (h : Queued st) {i : Nat} {x : CallRecord}
    (hi : st.calls[i]? = some x) (hunsettled : x.stage.isSettled = false) :
    ∃ j ≤ i, CanGoOn st j := by
  classical
  have hex : ∃ j, ∃ y : CallRecord, st.calls[j]? = some y ∧ y.call.wallet = x.call.wallet ∧
      y.stage.isSettled = false := ⟨i, x, hi, rfl, hunsettled⟩
  obtain ⟨⟨call, stage⟩, hy, hwallet, hstage⟩ := Nat.find_spec hex
  refine ⟨Nat.find hex, Nat.find_min' hex ⟨x, hi, rfl, hunsettled⟩, call, stage, hy, hstage, ?_⟩
  rintro prev rfl
  rw [Gate.settled_iff]
  intro k hk
  obtain ⟨hlt, hwallet'⟩ := (h.prevs _ call prev hy k).1 hk
  unfold walletAt at hwallet'
  obtain ⟨z, hz, hzw⟩ := Option.map_eq_some_iff.1 hwallet'
  have hsettled : z.stage.isSettled = true := by
    by_contra hne
    exact Nat.find_min hex hlt ⟨z, hz, hzw.trans hwallet, by simpa using hne⟩
  unfold StoreState.released
  rw [hz]
  exact hsettled

/-- The awaits that the first `n` calls still have before them. -/
def awaitsLeft (st : StoreState) (n : Nat) : Nat :=
  ((st.calls.take n).map (·.stage.remaining)).sum

theorem step_awaitsLeft {st st' : StoreState} {a : StoreAction} (h : step st a = some st')
    {n : Nat} (hn : n ≤ st.calls.length) :
    awaitsLeft st' n ≤ awaitsLeft st n ∧
      ∀ i < n, a.takes = some i → awaitsLeft st' n < awaitsLeft st n := by
  rcases step_cases h with ⟨call, rfl, rfl⟩ |
    ⟨i, call, stage, stage', htakes, hi, hmove, hcalls, -⟩
  · refine ⟨?_, fun i _ hnone => by cases hnone⟩
    unfold awaitsLeft enter
    dsimp only
    rw [List.take_append_of_le_length hn]
  · unfold awaitsLeft
    rw [hcalls, htakes]
    by_cases hlt : i < n
    · have hsum := Table.sum_take_replaced ⟨call, stage'⟩ hi (·.stage.remaining) hlt
      have hless := hmove.remaining
      dsimp only at hsum
      exact ⟨by omega, fun _ _ _ => by omega⟩
    · rw [Table.take_replaced (Nat.le_of_not_lt hlt)]
      refine ⟨le_rfl, fun j hj heq => ?_⟩
      cases heq
      exact absurd hj hlt

/-- Calls stay in the list. -/
theorem step_persists {st st' : StoreState} {a : StoreAction} (h : step st a = some st')
    {i : Nat} {x : CallRecord} (hi : st.calls[i]? = some x) :
    ∃ y, st'.calls[i]? = some y ∧ y.call = x.call := by
  rcases step_cases h with ⟨call, rfl, rfl⟩ |
    ⟨j, call, stage, stage', -, hj, -, hcalls, -⟩
  · have hlt := (List.getElem?_eq_some_iff.1 hi).1
    refine ⟨x, ?_, rfl⟩
    show (st.calls ++ _)[i]? = _
    rw [List.getElem?_append_left hlt, hi]
  · rw [hcalls, Table.getElem?_replaced hj]
    by_cases hij : i = j
    · subst hij
      rw [hj] at hi
      cases hi
      exact ⟨_, if_pos rfl, rfl⟩
    · exact ⟨x, by rw [if_neg hij, hi], rfl⟩

theorem eventually_settled {files : Files} {f : ℕ → StoreState} {a : ℕ → StoreAction}
    (h0 : f 0 = { files := files }) (hrun : Endless step f a) {i n : ℕ} {x : CallRecord}
    (hx : (f n).calls[i]? = some x) (hserved : Served f a i) :
    ∃ m y, n ≤ m ∧ (f m).calls[i]? = some y ∧ y.call = x.call ∧
      y.stage.isSettled = true := by
  have hinv : ∀ m, Inv files (f m) := fun m =>
    hrun.inv (Inv files) (m := 0) (h0 ▸ inv_init files) (fun n h hstep => h.step hstep)
      (Nat.zero_le m)
  have hpersists : ∀ m, n ≤ m → ∃ y, (f m).calls[i]? = some y ∧ y.call = x.call := by
    intro m hm
    refine hrun.inv (fun st => ∃ y, st.calls[i]? = some y ∧ y.call = x.call)
      ⟨x, hx, rfl⟩ (fun k h hstep => ?_) hm
    obtain ⟨y, hy, hcall⟩ := h
    obtain ⟨z, hz, hcall'⟩ := step_persists hstep hy
    exact ⟨z, hz, hcall'.trans hcall⟩
  have hlen : ∀ k, i + 1 ≤ (f (n + k)).calls.length := by
    intro k
    obtain ⟨y, hy, -⟩ := hpersists (n + k) (by omega)
    exact (List.getElem?_eq_some_iff.1 hy).1
  obtain ⟨N, hN⟩ := eventually_not_of_rank (fun k => awaitsLeft (f (n + k)) (i + 1))
    (fun k => ∃ j ≤ i, (a (n + k)).takes = some j)
    (fun k => (step_awaitsLeft (hrun (n + k)) (hlen k)).1)
    (fun k hk => by
      obtain ⟨j, hj, htakes⟩ := hk
      exact (step_awaitsLeft (hrun (n + k)) (hlen k)).2 j (by omega) htakes)
  obtain ⟨y, hy, hcall⟩ := hpersists (n + N) (by omega)
  refine ⟨n + N, y, by omega, hy, hcall, ?_⟩
  by_contra hunsettled
  obtain ⟨j, hj, hgo⟩ := (hinv (n + N)).queued.exists_canGoOn hy (by simpa using hunsettled)
  obtain ⟨m, hm, htakes⟩ := hserved (n + N) j hj hgo
  refine hN (m - n) (by omega) ⟨j, hj, ?_⟩
  rwa [Nat.add_sub_cancel' (by omega)]

/-! ## The mutex -/

/-- A successful call has replaced the file. -/
def SuccessfulWritten (st : StoreState) : Prop :=
  ∀ call written c, ⟨call, .settled written (.ok c)⟩ ∈ st.calls → written = true

theorem step_successfulWritten {st st' : StoreState} {a : StoreAction}
    (h : SuccessfulWritten st) (hstep : step st a = some st') : SuccessfulWritten st' := by
  rcases step_cases hstep with ⟨call, -, rfl⟩ | ⟨i, call, stage, stage', -, -, hmove, hcalls, -⟩
  · intro call' written c hmem
    rcases List.mem_append.1 hmem with hmem | hmem
    · exact h call' written c hmem
    · rw [List.mem_singleton] at hmem
      cases hmem
  · intro call' written c hmem
    rw [hcalls] at hmem
    rcases List.mem_or_eq_of_mem_set hmem with hmem | heq
    · exact h call' written c hmem
    · cases heq
      generalize st'.files = files at hmove
      cases hmove with
      | audited c result => rfl

/-- The call is in its critical section. -/
def CallRecord.inside (x : CallRecord) : Prop :=
  x.stage.begun = true ∧ x.stage.isSettled = false

/-- No two calls on one wallet are in their critical sections. -/
def OneAtATime (st : StoreState) : Prop :=
  ∀ (i j : Nat) (x y : CallRecord), st.calls[i]? = some x → st.calls[j]? = some y →
    x.call.wallet = y.call.wallet → x.inside → y.inside → i = j

theorem InOrder.oneAtATime {st : StoreState} (h : InOrder st) : OneAtATime st := by
  intro i j x y hi hj hwallet hx hy
  rcases Nat.lt_trichotomy i j with hlt | heq | hgt
  · have hsettled := h j i y x hlt hj hi hwallet hy.1
    rw [hx.2] at hsettled
    cases hsettled
  · exact heq
  · have hsettled := h i j x y hgt hi hj hwallet.symm hx.1
    rw [hy.2] at hsettled
    cases hsettled

/-- The critical sections on a wallet run one at a time in the order of `withMutex`, its
file is what the calls that replaced it make of it in that order, the successful ones
among them, and every call settles. -/
theorem store_serialised (files : Files) :
    (∀ (acts : List StoreAction) (st : StoreState),
      exec step { files := files } acts = some st →
      OneAtATime st ∧ InOrder st ∧ SuccessfulWritten st ∧
        ∀ wallet, RunsInOrder files st wallet) ∧
    ∀ (f : ℕ → StoreState) (a : ℕ → StoreAction), f 0 = { files := files } →
      Endless step f a → ∀ (i n : ℕ) (x : CallRecord), (f n).calls[i]? = some x →
      Served f a i →
      ∃ m y, n ≤ m ∧ (f m).calls[i]? = some y ∧ y.call = x.call ∧
        y.stage.isSettled = true := by
  refine ⟨fun acts st hrun => ?_, fun f a h0 hrun i n x hx hserved =>
    eventually_settled h0 hrun hx hserved⟩
  have hinv : Inv files st :=
    exec_inv (fun _ _ _ h hstep => h.step hstep) (inv_init files) hrun
  have hwritten : SuccessfulWritten st :=
    exec_inv (fun _ _ _ h hstep => step_successfulWritten h hstep)
      (fun _ _ _ hmem => absurd hmem List.not_mem_nil) hrun
  exact ⟨hinv.queued.order.oneAtATime, hinv.queued.order, hwritten, hinv.data⟩

section FailingReads

def someBuy : StoreCall :=
  .applyLandedTrade
    { signature := "buy", slot := 1, wallet := .ofByte 0, mint := .ofByte 1,
      amountDelta := 4, solFlowLamports := -8, feeLamports := 0, source := .executor }

/-- A call whose read fails; more calls come in for ever behind it. -/
def failingRead : ℕ → StoreAction
  | 0 => .enter someBuy
  | 1 => .begin 0
  | 2 => .loaded 0 (some "EIO")
  | _ + 3 => .enter someBuy

def failingReadRun : ℕ → StoreState
  | 0 => { files := noFiles }
  | 1 => enter { files := noFiles } someBuy
  | 2 => setStage (enter { files := noFiles } someBuy) 0 someBuy .loading
  | 3 =>
      failCall (setStage (enter { files := noFiles } someBuy) 0 someBuy .loading) 0 someBuy
        (.other "EIO")
  | n + 4 => enter (failingReadRun (n + 3)) someBuy

theorem endless_failingReadRun : Endless step failingReadRun failingRead := by
  rintro (_ | _ | _ | n) <;> rfl

theorem failingReadRun_settled (n : ℕ) : (failingReadRun (n + 3)).calls[0]? =
    some ⟨someBuy, .settled false (.error (.other "EIO"))⟩ := by
  induction n with
  | zero => rfl
  | succ n ih =>
      show ((failingReadRun (n + 3)).calls ++ _)[0]? = _
      rw [List.getElem?_append_left (List.getElem?_eq_some_iff.1 ih).1, ih]

theorem store_serialised_failingRead :
    (∃ st, exec step { files := noFiles } [failingRead 0, failingRead 1, failingRead 2] =
        some st ∧ OneAtATime st ∧ InOrder st ∧ SuccessfulWritten st ∧
        ∀ wallet, RunsInOrder noFiles st wallet) ∧
      ∃ m y, 1 ≤ m ∧ (failingReadRun m).calls[0]? = some y ∧ y.call = someBuy ∧
        y.stage.isSettled = true := by
  obtain ⟨hfinite, hendless⟩ := store_serialised noFiles
  constructor
  · exact ⟨failingReadRun 3, rfl, hfinite [failingRead 0, failingRead 1, failingRead 2] _ rfl⟩
  · refine hendless failingReadRun failingRead rfl endless_failingReadRun 0 1 _ rfl ?_
    intro n j hj hgo
    obtain rfl : j = 0 := Nat.le_zero.1 hj
    match n with
    | 0 | 1 => exact ⟨1, by omega, rfl⟩
    | 2 => exact ⟨2, le_rfl, rfl⟩
    | n + 3 =>
        obtain ⟨call, stage, hcall, hunsettled, -⟩ := hgo
        rw [failingReadRun_settled] at hcall
        cases hcall
        cases hunsettled

end FailingReads

/-- The calls that have resolved, in the order of `withMutex`. -/
def successfulCalls (st : StoreState) (wallet : PublicKey) : List StoreCall :=
  st.calls.filterMap fun x =>
    match x.stage with
    | .settled _ (.ok _) => if x.call.wallet = wallet then some x.call else none
    | _ => none

/-- The audit log cannot be written: the call rejects, and the trade is in the file. -/
theorem store_keeps_failed_call :
    ∃ st, exec step { files := noFiles }
        [.enter someBuy, .begin 0, .loaded 0 none, .computed 0 none, .wrote 0 none,
          .audited 0 (some "ENOSPC")] = some st ∧
      (∀ x ∈ st.calls, x.stage.isSettled = true) ∧
      ¬ ∃ r, runCalls noFiles (successfulCalls st (.ofByte 0)) = .ok r ∧
        r.1 (.ofByte 0) = st.files (.ofByte 0) := by
  have hrun : ∃ st, exec step { files := noFiles }
      [.enter someBuy, .begin 0, .loaded 0 none, .computed 0 none, .wrote 0 none,
        .audited 0 (some "ENOSPC")] = some st ∧
      ((∀ x ∈ st.calls, x.stage.isSettled = true) ∧
        (successfulCalls st (.ofByte 0)).length = 0 ∧
        (st.files (.ofByte 0)).isSome = true) := by
    decide +kernel
  obtain ⟨st, hrun, hsettled, hnone, hfile⟩ := hrun
  refine ⟨st, hrun, hsettled, ?_⟩
  rintro ⟨r, hcalls, heq⟩
  rw [List.length_eq_zero_iff.1 hnone] at hcalls
  obtain rfl := pure_eq_ok.1 hcalls
  rw [← heq] at hfile
  cases hfile

end Ap3xSolana.Portfolio.StoreFile
