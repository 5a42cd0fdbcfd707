import Mathlib.Data.List.TakeWhile
import Ap3xSolana.Connectivity.TxStream
import Ap3xSolana.Lib.Run

/-!
# A closed stream

`close` takes the listeners off the socket and disarms the timers, so that nothing comes in
any more.  `fail` arms the reconnect timer after it has called `onDisconnect`, whether or
not that handler closed the stream (`closed_stays_closed`).
-/

namespace Ap3xSolana.Connectivity.StaysClosed

open Ap3xSolana.Lib.Run Ap3xSolana.Connectivity.TxStream
open Ap3xSolana.Connectivity.TxStream.Stream

variable {π ρ : Type}

/-! ## The property -/

/-- A new socket, or a call of a handler. -/
def loud : Output → Bool
  | .opened _ => true
  | .onTransaction _ _ => true
  | .onReconnect _ => true
  | .onDisconnect _ => true
  | .onError _ => true
  | _ => false

/-- Nothing happens after the first `close` that returned. -/
def QuietSince (trace : List Output) : Prop :=
  ∀ o ∈ (trace.dropWhile (· ≠ .closeReturned)), loud o = false

/-- Once `close` has returned no socket is opened, no handler is called and no reconnect
timer is armed. -/
def RemainsClosed (st : Stream π) : Prop :=
  QuietSince st.trace ∧ (.closeReturned ∈ st.trace → st.timers = [])

/-- One socket with listeners and one pending reconnect at most. -/
def OneAtATime (st : Stream π) : Prop :=
  (st.sockets.filter (·.listening)).length ≤ 1 ∧ st.timers.length ≤ 1

instance decidableOneAtATime (st : Stream π) : Decidable (OneAtATime st) :=
  inferInstanceAs (Decidable (_ ∧ _))

instance decidableRemainsClosed (st : Stream π) : Decidable (RemainsClosed st) :=
  inferInstanceAs (Decidable ((∀ o ∈ _, _) ∧ (_ → _)))

/-! ## The condition -/

/-- What the handler does if the event makes the stream fail. -/
def failRun : Action ρ → Option HandlerRun
  | .message _ (.reply (some _)) _ run => some run
  | .error _ _ run => some run
  | .closed _ _ run => some run
  | _ => none

/-- `onDisconnect` closes the stream and returns. -/
def Reopens (cfg : StreamConfig π ρ) (st : Stream π) (run : HandlerRun) : Prop :=
  cfg.handlers.hasOnDisconnect = true ∧ st.started = true ∧ run.closes = true ∧
    run.throws = false

instance decidableReopens (cfg : StreamConfig π ρ) (st : Stream π) (run : HandlerRun) :
    Decidable (Reopens cfg st run) :=
  inferInstanceAs (Decidable (_ ∧ _))

/-- When the stream fails, `onDisconnect` does not close it, or throws. -/
def KeepsOpen (cfg : StreamConfig π ρ) (st : Stream π) (a : Action ρ) : Prop :=
  ∀ run ∈ failRun a, ¬ Reopens cfg st run

instance decidableKeepsOpen (cfg : StreamConfig π ρ) (st : Stream π) (a : Action ρ) :
    Decidable (KeepsOpen cfg st a) :=
  inferInstanceAs (Decidable (∀ run ∈ failRun a, _))

/-! ## The trace -/

theorem quietSince_of_not_mem {trace : List Output} (h : .closeReturned ∉ trace) :
    QuietSince trace := by
  have hnil : trace.dropWhile (· ≠ .closeReturned) = [] := by
    apply List.dropWhile_eq_nil_iff.2
    intro o ho
    exact decide_eq_true fun heq => h (heq ▸ ho)
  unfold QuietSince
  rw [hnil]
  exact List.forall_mem_nil _

theorem QuietSince.concat {trace : List Output} (h : QuietSince trace) {o : Output}
    (ho : loud o = false) : QuietSince (trace ++ [o]) := by
  unfold QuietSince
  rw [List.dropWhile_append]
  intro o' ho'
  split at ho'
  · have hmem := (List.dropWhile_sublist _).subset ho'
    rw [List.mem_singleton.1 hmem]
    exact ho
  · rcases List.mem_append.1 ho' with ho' | ho'
    · exact h o' ho'
    · rw [List.mem_singleton.1 ho']
      exact ho

/-! ## The sockets -/

/-- Every socket but the last is deaf; `b` says whether the last one listens. -/
def Listens (st : Stream π) (b : Bool) : Prop :=
  ∃ n, st.ws = some n ∧ st.sockets.length = n + 1 ∧
    ∀ (i : Nat) (socket : Socket), st.sockets[i]? = some socket →
      socket.listening = (decide (i = n) && b)

theorem Listens.of_eq {st st' : Stream π} {b : Bool} (h : Listens st b)
    (hws : st'.ws = st.ws) (hsockets : st'.sockets = st.sockets) : Listens st' b := by
  unfold Listens
  rw [hws, hsockets]
  exact h

/-- A change of a socket that leaves its listeners alone. -/
theorem Listens.modify {st : Stream π} {b : Bool} (h : Listens st b) (i : Nat)
    {f : Socket → Socket} (hf : ∀ socket, (f socket).listening = socket.listening) :
    Listens { st with sockets := st.sockets.modify i f } b := by
  obtain ⟨n, hn, hlen, hlisten⟩ := h
  refine ⟨n, hn, (List.length_modify _ _ _).trans hlen, fun j socket hsocket => ?_⟩
  have hmod : (st.sockets.modify i f)[j]? = some socket := hsocket
  rw [List.getElem?_modify] at hmod
  obtain ⟨socket₀, hsocket₀, heq⟩ := Option.map_eq_some_iff.1 hmod
  rw [← hlisten j socket₀ hsocket₀]
  split at heq
  · rw [← heq, hf]
  · rw [← heq]

theorem Listens.terminate {st : Stream π} {b : Bool} (h : Listens st b) :
    Listens st.terminate false := by
  obtain ⟨n, hn, hlen, hlisten⟩ := h
  have hterminate : st.terminate =
      { st with sockets := st.sockets.modify n ({ · with listening := false }) } := by
    unfold Stream.terminate
    rw [hn]
  rw [hterminate]
  refine ⟨n, hn, (List.length_modify _ _ _).trans hlen, fun j socket hsocket => ?_⟩
  have hmod : (st.sockets.modify n ({ · with listening := false }))[j]? = some socket := hsocket
  rw [List.getElem?_modify] at hmod
  obtain ⟨socket₀, hsocket₀, heq⟩ := Option.map_eq_some_iff.1 hmod
  rw [Bool.and_false]
  by_cases hj : n = j
  · rw [if_pos hj] at heq
    rw [← heq]
  · rw [if_neg hj] at heq
    rw [← heq, hlisten j socket₀ hsocket₀, decide_eq_false (Ne.symm hj), Bool.false_and]

theorem Listens.connect {st : Stream π} (h : Listens st false) : Listens st.connect true := by
  obtain ⟨n, -, hlen, hlisten⟩ := h
  refine ⟨n + 1, congrArg some hlen, ?_, fun j socket hsocket => ?_⟩
  · show (st.sockets ++ [({} : Socket)]).length = _
    rw [List.length_append, hlen]
    rfl
  · have hget : (st.sockets ++ [({} : Socket)])[j]? = some socket := hsocket
    by_cases hj : j < st.sockets.length
    · rw [List.getElem?_append_left hj] at hget
      rw [hlisten j socket hget, Bool.and_false, decide_eq_false (by omega), Bool.false_and]
    · rw [List.getElem?_append_right (by omega)] at hget
      have hj' : j = n + 1 := by
        have hlt := (List.getElem?_eq_some_iff.1 hget).1
        rw [List.length_singleton] at hlt
        omega
      rw [decide_eq_true hj', List.mem_singleton.1 (List.mem_of_getElem? hget)]
      rfl

/-- What is heard is heard on the last socket. -/
theorem Listens.eq_true {st : Stream π} {b : Bool} (h : Listens st b) {i : Nat}
    (hhears : hears st i = true) : b = true := by
  obtain ⟨n, -, -, hlisten⟩ := h
  unfold hears at hhears
  cases hsocket : st.sockets[i]? with
  | none =>
      rw [hsocket] at hhears
      cases hhears
  | some socket =>
      rw [hsocket] at hhears
      have hlistening : socket.listening = true := hhears
      rw [hlisten i socket hsocket] at hlistening
      exact (Bool.and_eq_true_iff.1 hlistening).2

private theorem length_filter_le_one {α : Type} {p : α → Bool} {l : List α} {n : Nat}
    (h : ∀ (i : Nat) (a : α), l[i]? = some a → p a = true → i = n) :
    (l.filter p).length ≤ 1 := by
  induction l generalizing n with
  | nil => exact Nat.zero_le 1
  | cons a l ih =>
      by_cases ha : p a = true
      · have hn := h 0 a rfl ha
        have hrest : l.filter p = [] := by
          rw [List.filter_eq_nil_iff]
          intro b hb hpb
          obtain ⟨i, hi⟩ := List.mem_iff_getElem?.1 hb
          have hsucc := h (i + 1) b hi hpb
          omega
        rw [List.filter_cons_of_pos ha, hrest]
        rfl
      · rw [List.filter_cons_of_neg ha]
        apply ih (n := n - 1)
        intro i b hb hpb
        have hsucc := h (i + 1) b hb hpb
        omega

theorem Listens.one {st : Stream π} {b : Bool} (h : Listens st b) :
    (st.sockets.filter (·.listening)).length ≤ 1 := by
  obtain ⟨n, -, -, hlisten⟩ := h
  apply length_filter_le_one (n := n)
  intro i socket hsocket hlistening
  rw [hlisten i socket hsocket] at hlistening
  exact of_decide_eq_true (Bool.and_eq_true_iff.1 hlistening).1

/-! ## The invariant -/

/-- The timers that are armed are the one that `retry` names. -/
def Timed (st : Stream π) : Prop :=
  (∀ t ∈ st.timers, st.retry = some t.id) ∧ st.timers.length ≤ 1

/-- `close` has not been called. -/
structure Open (st : Stream π) : Prop where
  closed : st.closed = false
  trace : .closeReturned ∉ st.trace
  timed : Timed st
  sockets : ∃ b, Listens st b ∧ (st.timers ≠ [] → b = false)

/-- The stream is closed, and nothing can come in. -/
structure Shut (st : Stream π) : Prop where
  closed : st.closed = true
  trace : QuietSince st.trace
  timers : st.timers = []
  sockets : Listens st false

theorem Shut.remainsClosed {st : Stream π} (h : Shut st) : RemainsClosed st :=
  ⟨h.trace, fun _ => h.timers⟩

theorem Shut.oneAtATime {st : Stream π} (h : Shut st) : OneAtATime st :=
  ⟨h.sockets.one, by rw [h.timers]; exact Nat.zero_le 1⟩

theorem Open.remainsClosed {st : Stream π} (h : Open st) : RemainsClosed st :=
  ⟨quietSince_of_not_mem h.trace, fun hmem => absurd hmem h.trace⟩

theorem Open.oneAtATime {st : Stream π} (h : Open st) : OneAtATime st := by
  obtain ⟨b, hlistens, -⟩ := h.sockets
  exact ⟨hlistens.one, h.timed.2⟩

/-- Another trace without `close`. -/
theorem Open.emit {st : Stream π} (h : Open st) {o : Output} (ho : o ≠ .closeReturned) :
    Open (st.emit o) where
  closed := h.closed
  trace hmem := by
    rcases List.mem_append.1 hmem with hmem | hmem
    · exact h.trace hmem
    · exact ho (List.mem_singleton.1 hmem).symm
  timed := h.timed
  sockets := h.sockets

theorem stopRetry_timers {st : Stream π} (h : Timed st) : st.stopRetry.timers = [] := by
  show st.timers.filter _ = []
  rw [List.filter_eq_nil_iff]
  intro t ht hne
  exact of_decide_eq_true hne (h.1 t ht)

/-- Terminating the socket leaves the rest alone. -/
theorem terminate_rest (st : Stream π) :
    st.terminate.closed = st.closed ∧ st.terminate.trace = st.trace ∧
      st.terminate.timers = st.timers ∧ st.terminate.retry = st.retry ∧
      st.terminate.started = st.started := by
  unfold Stream.terminate
  split <;> exact ⟨rfl, rfl, rfl, rfl, rfl⟩

/-- `close` shuts a stream. -/
theorem shut_close {st : Stream π} {b : Bool} (htrace : QuietSince st.trace)
    (htimed : Timed st) (hsockets : Listens st b) : Shut st.close := by
  have hlistens : Listens ({ st with closed := true }.stopPing.stopRetry) b :=
    hsockets.of_eq rfl rfl
  obtain ⟨hclosed, htrace', htimers, -, -⟩ :=
    terminate_rest ({ st with closed := true }.stopPing.stopRetry)
  refine ⟨hclosed, ?_, ?_, hlistens.terminate.of_eq rfl rfl⟩
  · show QuietSince (_ ++ [Output.closeReturned])
    rw [htrace']
    exact htrace.concat rfl
  · have hdisarmed : ({ st with closed := true }.stopPing.stopRetry).timers = [] :=
      stopRetry_timers htimed
    exact htimers.trans hdisarmed

theorem Open.close {st : Stream π} (h : Open st) : Shut st.close := by
  obtain ⟨b, hlistens, -⟩ := h.sockets
  exact shut_close (quietSince_of_not_mem h.trace) h.timed hlistens

theorem Shut.close {st : Stream π} (h : Shut st) : Shut st.close := by
  refine shut_close h.trace ⟨?_, ?_⟩ h.sockets
  · rw [h.timers]
    exact List.forall_mem_nil _
  · rw [h.timers]
    exact Nat.zero_le 1

/-- A handler shuts the stream exactly if it is there and calls `close`. -/
theorem Open.call {st : Stream π} (h : Open st) (present : Bool) {out : Output}
    (hout : out ≠ .closeReturned) (run : HandlerRun) :
    if present && run.closes then Shut (st.call present out run).1
    else Open (st.call present out run).1 := by
  unfold Stream.call
  cases present with
  | false => exact h
  | true =>
      cases hcloses : run.closes with
      | true => exact (h.emit hout).close
      | false => exact h.emit hout

/-- Either way the invariant holds. -/
theorem Open.call_or {st : Stream π} (h : Open st) (present : Bool) {out : Output}
    (hout : out ≠ .closeReturned) (run : HandlerRun) :
    Open (st.call present out run).1 ∨ Shut (st.call present out run).1 := by
  have hcall := h.call present hout run
  split at hcall
  · exact .inr hcall
  · exact .inl hcall

/-! ## Failing -/

theorem Open.stop {st : Stream π} (h : Open st) (htimers : st.timers = []) :
    Open st.stopPing.terminate ∧ st.stopPing.terminate.timers = [] ∧
      Listens st.stopPing.terminate false := by
  obtain ⟨b, hlistens, -⟩ := h.sockets
  have hstop : Listens st.stopPing b := hlistens.of_eq rfl rfl
  obtain ⟨hclosed, htrace, htimers', -, -⟩ := terminate_rest st.stopPing
  have hnone : st.stopPing.terminate.timers = [] := htimers'.trans htimers
  refine ⟨⟨hclosed.trans h.closed, htrace ▸ h.trace, ?_, false, hstop.terminate, fun _ => rfl⟩,
    hnone, hstop.terminate⟩
  unfold Timed
  rw [hnone]
  exact ⟨List.forall_mem_nil _, Nat.zero_le 1⟩

/-- A deaf stream that is open may arm the timer. -/
theorem Open.armRetry {cfg : StreamConfig π ρ} {st : Stream π} (h : Open st)
    (htimers : st.timers = []) (hlistens : Listens st false) : Open (st.armRetry cfg) where
  closed := h.closed
  trace := h.trace
  timed := by
    unfold Timed Stream.armRetry
    rw [htimers]
    refine ⟨fun t ht => ?_, Nat.le_refl 1⟩
    rw [List.mem_singleton.1 ht]
  sockets := ⟨false, hlistens.of_eq rfl rfl, fun _ => rfl⟩

theorem call_rest (st : Stream π) (out : Output) (run : HandlerRun) (present : Bool)
    (hcloses : (present && run.closes) = false) :
    (st.call present out run).1.timers = st.timers ∧
      (st.call present out run).1.ws = st.ws ∧
      (st.call present out run).1.sockets = st.sockets := by
  unfold Stream.call
  cases present with
  | false => exact ⟨rfl, rfl, rfl⟩
  | true =>
      have hruns : run.closes = false := hcloses
      rw [hruns]
      exact ⟨rfl, rfl, rfl⟩

/-- The call of `onDisconnect` in `fail`. -/
def disconnect (cfg : StreamConfig π ρ) (st : Stream π) (err : String) (run : HandlerRun) :
    Stream π × Bool :=
  st.stopPing.terminate.call cfg.handlers.hasOnDisconnect (.onDisconnect err) run

theorem fail_started {cfg : StreamConfig π ρ} {st : Stream π} (hclosed : st.closed = false)
    (hstarted : st.started = true) (err : String) (run : HandlerRun) :
    st.fail cfg err run =
      if (disconnect cfg st err run).2 then (disconnect cfg st err run).1
      else (disconnect cfg st err run).1.armRetry cfg := by
  have hterminated : st.stopPing.terminate.started = true :=
    (terminate_rest st.stopPing).2.2.2.2.trans hstarted
  unfold Stream.fail disconnect
  rw [if_neg (hclosed ▸ Bool.false_ne_true), if_neg (fun hnot => hnot hterminated)]

/-- Before the stream is live a failure ends it. -/
theorem Open.fail_unstarted {cfg : StreamConfig π ρ} {st : Stream π} (h : Open st)
    (htimers : st.timers = []) (hstarted : st.started = false) (err : String)
    (run : HandlerRun) : Shut (st.fail cfg err run) := by
  obtain ⟨hopen, hnone, hlistens⟩ := h.stop htimers
  have hterminated : ¬ st.stopPing.terminate.started = true := by
    rw [(terminate_rest st.stopPing).2.2.2.2]
    exact hstarted ▸ Bool.false_ne_true
  unfold Stream.fail
  rw [if_neg (h.closed ▸ Bool.false_ne_true), if_pos hterminated]
  exact ⟨rfl, (quietSince_of_not_mem hopen.trace).concat rfl, hnone, hlistens.of_eq rfl rfl⟩

/-- Otherwise the stream stays open, or the handler shuts it and throws. -/
theorem Open.fail {cfg : StreamConfig π ρ} {st : Stream π} (h : Open st)
    (htimers : st.timers = []) {run : HandlerRun} (hkeeps : ¬ Reopens cfg st run)
    (err : String) : Open (st.fail cfg err run) ∨ Shut (st.fail cfg err run) := by
  cases hstarted : st.started with
  | false => exact .inr (h.fail_unstarted htimers hstarted err run)
  | true =>
      obtain ⟨hopen, hnone, hlistens⟩ := h.stop htimers
      have hcall := hopen.call cfg.handlers.hasOnDisconnect
        (show Output.onDisconnect err ≠ .closeReturned from Output.noConfusion) run
      rw [fail_started h.closed hstarted]
      cases hcloses : cfg.handlers.hasOnDisconnect && run.closes with
      | false =>
          rw [hcloses, if_neg Bool.false_ne_true] at hcall
          obtain ⟨htimers', hws, hsockets⟩ :=
            call_rest st.stopPing.terminate (.onDisconnect err) run _ hcloses
          left
          split
          · exact hcall
          · exact hcall.armRetry (htimers'.trans hnone) (hlistens.of_eq hws hsockets)
      | true =>
          rw [hcloses, if_pos rfl] at hcall
          obtain ⟨hpresent, hrun⟩ := Bool.and_eq_true_iff.1 hcloses
          have hthrew : (disconnect cfg st err run).2 = true := by
            unfold disconnect Stream.call
            rw [if_pos hpresent]
            exact Bool.of_not_eq_false fun hreturns =>
              hkeeps ⟨hpresent, hstarted, hrun, hreturns⟩
          rw [if_pos hthrew]
          exact .inr hcall

/-- The timer is armed on a closed stream. -/
theorem Reopens.fail {cfg : StreamConfig π ρ} {st : Stream π} {run : HandlerRun}
    (h : Reopens cfg st run) (hclosed : st.closed = false) (err : String) :
    .closeReturned ∈ (st.fail cfg err run).trace ∧ (st.fail cfg err run).timers ≠ [] := by
  obtain ⟨hpresent, hstarted, hcloses, hreturns⟩ := h
  have hdisconnect : (disconnect cfg st err run).2 = false ∧
      .closeReturned ∈ (disconnect cfg st err run).1.trace := by
    unfold disconnect Stream.call
    rw [if_pos hpresent]
    refine ⟨hreturns, ?_⟩
    dsimp only
    rw [if_pos hcloses]
    exact List.mem_append_right _ List.mem_cons_self
  rw [fail_started hclosed hstarted, if_neg (hdisconnect.1 ▸ Bool.false_ne_true)]
  exact ⟨hdisconnect.2, List.append_ne_nil_of_right_ne_nil _ (List.cons_ne_nil _ _)⟩

/-! ## One step -/

theorem Open.onOpen {st : Stream π} (h : Open st) : Open st.onOpen := by
  obtain ⟨b, hlistens, hdeaf⟩ := h.sockets
  exact ⟨h.closed, h.trace, h.timed, b, hlistens.of_eq rfl rfl, hdeaf⟩

theorem Open.acknowledge {cfg : StreamConfig π ρ} {st : Stream π} (h : Open st) (i : Nat)
    (run : HandlerRun) :
    Open (st.acknowledge cfg i run) ∨ Shut (st.acknowledge cfg i run) := by
  obtain ⟨b, hlistens, hdeaf⟩ := h.sockets
  have hacked : ∀ acked, Open
      { st with sockets := st.sockets.modify i ({ · with acked := acked }) } := fun acked =>
    ⟨h.closed, h.trace, h.timed, b,
      hlistens.modify i (f := ({ · with acked := acked })) fun _ => rfl, hdeaf⟩
  have hreset : ∀ acked, Open
      { st with
        sockets := st.sockets.modify i ({ · with acked := acked })
        attempts := 0 } := fun acked =>
    ⟨h.closed, h.trace, h.timed, (hacked acked).sockets⟩
  unfold Stream.acknowledge
  dsimp only
  split
  · exact .inl (hacked _)
  · split
    · exact (hreset _).call_or _ Output.noConfusion run
    · have hopen := (hreset (((st.sockets[i]?).map (·.acked)).getD 0 + 1)).emit
        (o := .resolved) Output.noConfusion
      exact .inl ⟨hopen.closed, hopen.trace, hopen.timed, hopen.sockets⟩

/-- The timer that fires is the only one, and opens the next socket. -/
theorem Open.retryFires {st : Stream π} (h : Open st) {timer : Nat}
    (hmem : timer ∈ st.timers.map (·.id)) :
    Open { st with timers := st.timers.filter (·.id ≠ timer) }.connect := by
  obtain ⟨b, hlistens, hdeaf⟩ := h.sockets
  obtain ⟨t, ht, rfl⟩ := List.mem_map.1 hmem
  have hb : b = false := hdeaf (List.ne_nil_of_mem ht)
  have hnone : st.timers.filter (·.id ≠ t.id) = [] := by
    rw [List.filter_eq_nil_iff]
    intro t' ht' hne
    have hsame := (h.timed.1 t ht).symm.trans (h.timed.1 t' ht')
    exact of_decide_eq_true hne (Option.some.inj hsame).symm
  have hconnect : Listens { st with timers := st.timers.filter (·.id ≠ t.id) }.connect true := by
    apply Listens.connect
    exact (hb ▸ hlistens).of_eq rfl rfl
  rw [hnone] at hconnect ⊢
  have hopen : Open { st with timers := [] } :=
    ⟨h.closed, h.trace, ⟨List.forall_mem_nil _, Nat.zero_le 1⟩, b, hlistens.of_eq rfl rfl,
      fun hne => absurd rfl hne⟩
  have hemit := hopen.emit (o := .opened st.sockets.length) Output.noConfusion
  exact ⟨hemit.closed, hemit.trace, hemit.timed, true, hconnect, fun hne => absurd rfl hne⟩

/-- A message makes the stream fail, or keeps it open, or its handler shuts it. -/
theorem Open.onMessage {cfg : StreamConfig π ρ} {st : Stream π} (h : Open st) (i : Nat)
    (msg : Incoming ρ) (receivedAt : Int) (run : HandlerRun) :
    (∃ err, failRun (.message i msg receivedAt run) = some run ∧
        st.onMessage cfg i msg receivedAt run = st.fail cfg err run) ∨
      failRun (.message i msg receivedAt run) = none ∧
        (Open (st.onMessage cfg i msg receivedAt run) ∨
          Shut (st.onMessage cfg i msg receivedAt run)) := by
  cases msg with
  | unparseable => exact .inr ⟨rfl, h.call_or _ Output.noConfusion run⟩
  | other => exact .inr ⟨rfl, .inl h⟩
  | reply error =>
      cases error with
      | some message => exact .inl ⟨_, rfl, rfl⟩
      | none => exact .inr ⟨rfl, h.acknowledge i run⟩
  | notification method result =>
      refine .inr ⟨rfl, ?_⟩
      have hparsed : ∀ parser : π, Open { st with parser := parser } := fun parser =>
        ⟨h.closed, h.trace, h.timed, h.sockets⟩
      have hseen : ∀ (parser : π) (slot : Nat),
          Open (({ st with parser := parser } : Stream π).see slot) :=
        fun parser slot => ⟨h.closed, h.trace, h.timed, h.sockets⟩
      unfold Stream.onMessage
      dsimp only
      split
      · exact (hparsed _).call_or _ Output.noConfusion run
      · exact .inl (hparsed _)
      · exact (hseen _ _).call_or true Output.noConfusion run

/-- Nothing comes in on a stream that is shut, so only `close` can be called. -/
theorem Shut.step {cfg : StreamConfig π ρ} {st st' : Stream π} {a : Action ρ} (h : Shut st)
    (hstep : step cfg st a = some st') : failRun a = none ∧ Shut st' := by
  have hdeaf : ∀ i, ¬ hears st i = true := fun i hhears =>
    Bool.false_ne_true (h.sockets.eq_true hhears)
  cases a with
  | opened i =>
      rw [TxStream.step, if_neg (hdeaf i)] at hstep
      cases hstep
  | message i msg receivedAt run =>
      rw [TxStream.step, if_neg fun hand => hdeaf i (Bool.and_eq_true_iff.1 hand).1] at hstep
      cases hstep
  | error i err run =>
      rw [TxStream.step, if_neg fun hand => hdeaf i (Bool.and_eq_true_iff.1 hand).1] at hstep
      cases hstep
  | closed i code run =>
      rw [TxStream.step, if_neg fun hand => hdeaf i (Bool.and_eq_true_iff.1 hand).1] at hstep
      cases hstep
  | retryFires timer =>
      rw [TxStream.step, h.timers] at hstep
      cases hstep
  | close =>
      rw [TxStream.step] at hstep
      split at hstep
      · cases hstep
        exact ⟨rfl, h.close⟩
      · cases hstep

/-- What a step does to a stream that is open. -/
theorem Open.step {cfg : StreamConfig π ρ} {st st' : Stream π} {a : Action ρ} (h : Open st)
    (hstep : step cfg st a = some st') :
    (∃ run err, failRun a = some run ∧ st.timers = [] ∧ st' = st.fail cfg err run) ∨
      failRun a = none ∧ (Open st' ∨ Shut st') := by
  -- a socket that is heard has disarmed the timer
  have hearing : ∀ i, hears st i = true → st.timers = [] := by
    intro i hhears
    obtain ⟨b, hlistens, hdeaf⟩ := h.sockets
    refine Decidable.by_contra fun htimers => ?_
    exact Bool.noConfusion ((hdeaf htimers).symm.trans (hlistens.eq_true hhears))
  cases a with
  | opened i =>
      rw [TxStream.step] at hstep
      split at hstep
      · cases hstep
        exact .inr ⟨rfl, .inl h.onOpen⟩
      · cases hstep
  | message i msg receivedAt run =>
      rw [TxStream.step] at hstep
      split at hstep
      · rename_i hand
        have htimers := hearing i (Bool.and_eq_true_iff.1 hand).1
        cases hstep
        cases h.onMessage i msg receivedAt run with
        | inl hfails =>
            obtain ⟨err, hrun, heq⟩ := hfails
            exact .inl ⟨run, err, hrun, htimers, heq⟩
        | inr hkeeps => exact .inr hkeeps
      · cases hstep
  | error i err run =>
      rw [TxStream.step] at hstep
      split at hstep
      · rename_i hand
        cases hstep
        exact .inl ⟨run, err, rfl, hearing i (Bool.and_eq_true_iff.1 hand).1, rfl⟩
      · cases hstep
  | closed i code run =>
      rw [TxStream.step] at hstep
      split at hstep
      · rename_i hand
        cases hstep
        exact .inl ⟨run, _, rfl, hearing i (Bool.and_eq_true_iff.1 hand).1, rfl⟩
      · cases hstep
  | retryFires timer =>
      rw [TxStream.step] at hstep
      split at hstep
      · rename_i hmem
        cases hstep
        refine .inr ⟨rfl, .inl ?_⟩
        exact h.retryFires hmem
      · cases hstep
  | close =>
      rw [TxStream.step] at hstep
      split at hstep
      · cases hstep
        exact .inr ⟨rfl, .inr h.close⟩
      · cases hstep

theorem open_openStream (parser : π) : Open (openStream parser) where
  closed := rfl
  trace := by
    intro hmem
    cases List.mem_singleton.1 hmem
  timed := ⟨List.forall_mem_nil _, Nat.zero_le 1⟩
  sockets := by
    refine ⟨true, ⟨0, rfl, rfl, fun i socket hsocket => ?_⟩, fun hne => absurd rfl hne⟩
    have hget : [({} : Socket)][i]? = some socket := hsocket
    have hi := (List.getElem?_eq_some_iff.1 hget).1
    rw [List.length_singleton] at hi
    rw [List.mem_singleton.1 (List.mem_of_getElem? hget), decide_eq_true (by omega)]
    rfl

/-- A step leaves the stream as it should be exactly if `onDisconnect` does not close it. -/
theorem step_remainsClosed {cfg : StreamConfig π ρ} {st st' : Stream π} {a : Action ρ}
    (h : Open st ∨ Shut st) (hstep : step cfg st a = some st') :
    (RemainsClosed st' ∧ OneAtATime st' ↔ KeepsOpen cfg st a) ∧
      (KeepsOpen cfg st a → Open st' ∨ Shut st') := by
  have hgood : Open st' ∨ Shut st' → RemainsClosed st' ∧ OneAtATime st' := by
    rintro (hopen | hshut)
    · exact ⟨hopen.remainsClosed, hopen.oneAtATime⟩
    · exact ⟨hshut.remainsClosed, hshut.oneAtATime⟩
  have hunasked : failRun a = none → KeepsOpen cfg st a := by
    intro hnone run hrun
    rw [hnone] at hrun
    cases hrun
  rcases h with hopen | hshut
  · rcases hopen.step hstep with ⟨run, err, hrun, htimers, rfl⟩ | ⟨hrun, hinv⟩
    · have hkeeps : KeepsOpen cfg st a ↔ ¬ Reopens cfg st run := by
        unfold KeepsOpen
        rw [hrun]
        exact ⟨fun hall => hall run rfl, fun hone run' hrun' => by cases hrun'; exact hone⟩
      rw [hkeeps]
      have hfail : ¬ Reopens cfg st run → Open (st.fail cfg err run) ∨ Shut (st.fail cfg err run) :=
        fun hnot => hopen.fail htimers hnot err
      refine ⟨⟨fun hremains hreopens => ?_, fun hnot => hgood (hfail hnot)⟩, hfail⟩
      obtain ⟨hreturned, harmed⟩ := hreopens.fail hopen.closed err
      exact harmed (hremains.1.2 hreturned)
    · exact ⟨⟨fun _ => hunasked hrun, fun _ => hgood hinv⟩, fun _ => hinv⟩
  · obtain ⟨hrun, hshut'⟩ := hshut.step hstep
    exact ⟨⟨fun _ => hunasked hrun, fun _ => hgood (.inr hshut')⟩, fun _ => .inr hshut'⟩

/-- A closed stream stays closed in every state of a run exactly if `onDisconnect` does not
call `close` in any step of it. -/
theorem closed_stays_closed (cfg : StreamConfig π ρ) (parser : π) (acts : List (Action ρ)) :
    Along (step cfg) (fun _ _ st => RemainsClosed st ∧ OneAtATime st) (openStream parser)
        acts ↔
      Along (step cfg) (fun st a _ => KeepsOpen cfg st a) (openStream parser) acts := by
  apply along_iff_of_inv fun st => Open st ∨ Shut st
  · exact fun st a st' hinv hstep => (step_remainsClosed hinv hstep).1
  · exact fun st a st' hinv hstep => (step_remainsClosed hinv hstep).2
  · exact .inl (open_openStream parser)

/-! ## `close` inside `onDisconnect` -/

section Reopened

def logsConfig : StreamConfig RecentSet LogsResult := programLogs 1 {}

def mention : LogsResult := { slot := 40, signature := "tx-1", err := none, logs := none }

/-- The socket of a live stream drops, and the handler closes the stream. -/
def droppedAndClosed : List (Action LogsResult) :=
  [.opened 0, .message 0 (.reply none) 0 {}, .error 0 "reset" { closes := true }]

/-- The timer fires, and the new socket delivers a transaction to the handler. -/
theorem droppedAndClosed_reopens :
    (∃ st, exec (step logsConfig) openProgramLogs
        (droppedAndClosed ++ [.retryFires 1, .opened 1,
          .message 1 (.notification "logsNotification" mention) 5 {}]) = some st ∧
      st.trace =
        [.opened 0, .resolved, .onDisconnect "reset", .closeReturned, .opened 1,
          .onTransaction { signature := "tx-1", slot := 40, err := none, logs := [] } 5]) ∧
      ¬ Along (step logsConfig) (fun _ _ st => RemainsClosed st ∧ OneAtATime st)
        openProgramLogs droppedAndClosed := by
  constructor
  · decide +kernel
  · decide +kernel

end Reopened

end Ap3xSolana.Connectivity.StaysClosed
