import Ap3xSolana.Connectivity.CallContract
import Ap3xSolana.Connectivity.ProbeCooldown
import Ap3xSolana.Core.RequestAborts

/-!
# Aborting a call of the pool

The pool sends through clients of one attempt and without a breaker, with the caller's signal.
To it an aborted send is a transport failure like any other: it is recorded with the endpoint,
and the call goes on to the next.

`aborts_stop_iff` says of which runs of a client and of a pool an abort stops the work.
-/

namespace Ap3xSolana.Connectivity.CallAborts

open Ap3xSolana.Lib.Run Ap3xSolana.Connectivity.CallContract
open Ap3xSolana.Core
open Ap3xSolana.Core.RequestAborts (SignalAction signalStep OnActs onActs_along_iff)

/-- `post` rejects with the abort, or the body of its response breaks off. -/
def heeds (aborted : List Nat) : PoolAction → Bool
  | .settle c outcome =>
      !aborted.contains c || outcome = .threw .network || outcome = .threw .parse
  | _ => true

structure CallStops (aborted : List Nat) (p : RpcPool) (a : PoolAction) (p' : RpcPool) :
    Prop where
  noSend : ∀ c ∈ aborted, sends c p' = sends c p
  rejects : ∀ c ∈ aborted, phaseOf p' c = some .resolved → phaseOf p c = some .resolved
  notCharged : ∀ c ∈ aborted, ∀ outcome, a = .settle c outcome → p'.states = p.states

/-- A call with an aborted signal finds no endpoint when it picks one, and has no send
under way. -/
def CallHarmless (aborted : List Nat) (p : RpcPool) (a : PoolAction) (_ : RpcPool) : Prop :=
  match a with
  | .elapse _ => True
  | .call => p.calls.length ∈ aborted → p.attempts = 0 ∨ NoneLeft p
  | .retry c => c ∈ aborted → NoneLeft p
  | .settle c _ => c ∉ aborted

/-! ## The steps -/

theorem failedHealth_counts (p : RpcPool) (f : ProbeCooldown.Failure) :
    (ProbeCooldown.failedHealth p f).consecutiveErrors =
      (p.health f.endpoint).consecutiveErrors + 1 := by
  unfold ProbeCooldown.failedHealth
  split
  · unfold HealthState.recordRateLimit
    dsimp only
    split <;> rfl
  · unfold HealthState.recordError
    dsimp only
    split
    · rfl
    · split <;> rfl

/-- A failed send leaves its mark on the endpoint. -/
theorem settle_states {p p' : RpcPool} {c i : Nat} {probe : Bool} {call : RpcCall}
    {errorClass : ErrorClass} (hbounded : ProbeCooldown.Bounded p)
    (hclass : errorClass ≠ .rpcMethod) (hcall : p.calls[c]? = some call)
    (hphase : call.phase = .sent i probe)
    (h : p.step (.settle c (.threw errorClass)) = some p') : p'.states ≠ p.states := by
  have hfailure : ProbeCooldown.failure p (.settle c (.threw errorClass)) =
      some { call := c, endpoint := i, probe := probe, errorClass := errorClass } := by
    simp only [ProbeCooldown.failure, ProbeCooldown.sentTo, hcall, Option.bind_some, hphase,
      if_neg hclass, Option.map_some]
  obtain ⟨-, ⟨hnone, -⟩ | ⟨f, hf, heffect⟩⟩ := ProbeCooldown.step_cases hbounded h
  · rw [hfailure] at hnone
    cases hnone
  · intro hsame
    have hhealth : p'.health f.endpoint = ProbeCooldown.failedHealth p f := by
      unfold RpcPool.health
      rw [heffect.states, List.getElem?_set_self heffect.bound]
      rfl
    have hcount := failedHealth_counts p f
    rw [← hhealth] at hcount
    unfold RpcPool.health at hcount
    rw [hsame] at hcount
    omega

/-- A turn of a call whose signal is not aborted. -/
theorem callStops_of_not_mem {aborted : List Nat} {p p' : RpcPool} {a : PoolAction} {c : Nat}
    {call' : RpcCall} (hc : c ∉ aborted) (hturn : Turn p p' c call')
    (hothers : ∀ d, d ≠ c → phaseOf p' d = phaseOf p d)
    (hsubject : ∀ d outcome, a = .settle d outcome → d = c) : CallStops aborted p a p' := by
  have hne : ∀ d ∈ aborted, d ≠ c := fun d hd h => hc (h ▸ hd)
  refine ⟨fun d hd => hturn.others (hne d hd), fun d hd hphase => ?_, fun d hd outcome ha => ?_⟩
  · rw [← hothers d (hne d hd)]
    exact hphase
  · exact absurd (hsubject d outcome ha) (hne d hd)

/-- A turn that ends a call without a send. -/
theorem callStops_of_rejected {aborted : List Nat} {p p' : RpcPool} {a : PoolAction} {c : Nat}
    {call' : RpcCall} {errorClass : ErrorClass} (hturn : Turn p p' c call')
    (hphase : call'.phase = .rejected errorClass) (hphase' : phaseOf p' c = some call'.phase)
    (hothers : ∀ d, d ≠ c → phaseOf p' d = phaseOf p d)
    (hpicks : ∀ d outcome, a ≠ .settle d outcome) :
    CallStops aborted p a p' := by
  refine ⟨fun d _ => ?_, fun d _ hresolved => ?_,
    fun d _ outcome ha => absurd ha (hpicks d outcome)⟩
  · by_cases hd : d = c
    · subst hd
      exact hturn.quiet (by rw [hphase]; rfl)
    · exact hturn.others hd
  · by_cases hd : d = c
    · subst hd
      rw [hphase', hphase] at hresolved
      cases hresolved
    · rw [← hothers d hd]
      exact hresolved

theorem heeds_aborted {aborted : List Nat} {c : Nat} {outcome : SendOutcome} (hc : c ∈ aborted)
    (h : heeds aborted (.settle c outcome) = true) :
    outcome = .threw .network ∨ outcome = .threw .parse := by
  simpa [heeds, hc] using h

theorem settle_stops_iff {aborted : List Nat} {p p' : RpcPool} {c : Nat}
    {call call' : RpcCall} {errorClass : ErrorClass} (hbounded : ProbeCooldown.Bounded p)
    (hclass : errorClass ≠ .rpcMethod) (hturn : Turn p p' c call')
    (hothers : ∀ d, d ≠ c → phaseOf p' d = phaseOf p d) (hcall : p.calls[c]? = some call)
    (hopen : Open (.settle c (.threw errorClass)) c call.phase)
    (h : p.step (.settle c (.threw errorClass)) = some p') :
    CallStops aborted p (.settle c (.threw errorClass)) p' ↔ c ∉ aborted := by
  constructor
  · intro hstops hc
    rcases hopen with ⟨hretry, -⟩ | ⟨outcome, i, probe, -, hphase⟩
    · cases hretry
    · exact settle_states hbounded hclass hcall hphase h (hstops.notCharged c hc _ rfl)
  · intro hc
    refine callStops_of_not_mem hc hturn hothers fun d outcome ha => ?_
    cases ha
    rfl

theorem step_stops_iff {aborted : List Nat} {p p' : RpcPool} {a : PoolAction}
    (hbounded : ProbeCooldown.Bounded p) (hheeds : heeds aborted a = true)
    (h : p.step a = some p') :
    CallStops aborted p a p' ↔ CallHarmless aborted p a p' := by
  by_cases hattempts : a = .call → 1 ≤ p.attempts
  · rcases step_turn hattempts h with ⟨ms, rfl, rfl⟩ | ⟨c, call, call', hturn, hkind, hcalls⟩
    · exact iff_of_true ⟨fun _ _ => rfl, fun _ _ hphase => hphase, nofun⟩ trivial
    · obtain ⟨hphase', -, hothers⟩ := phaseOf_turn hcalls
      have hsends := hturn.sends c
      cases hkind with
      | sent i probe hpicks _ hphase hpreferred =>
          rw [hphase, if_pos ⟨rfl, rfl⟩] at hsends
          have hleft := hpreferred.not_noneLeft
          have hharmless : CallHarmless aborted p a p' ↔ c ∉ aborted := by
            cases a with
            | call =>
                cases hpicks
                have hsome := Nat.ne_of_gt (hattempts rfl)
                simp only [CallHarmless, hsome, hleft, or_self, imp_false]
            | retry d =>
                cases hpicks
                simp only [CallHarmless, hleft, imp_false]
            | _ => cases hpicks
          rw [hharmless]
          constructor
          · intro hstops hc
            have hsame := hstops.noSend c hc
            omega
          · intro hc
            refine callStops_of_not_mem hc hturn hothers fun d outcome ha => ?_
            subst ha
            cases hpicks
      | noneLeft hpicks hnone hphase =>
          refine iff_of_true (callStops_of_rejected hturn hphase hphase' hothers ?_) ?_
          · rintro d outcome rfl
            cases hpicks
          · cases a with
            | call => exact fun _ => .inr hnone
            | retry d => exact fun _ => hnone
            | _ => cases hpicks
      | resolved hphase =>
          have hc : c ∉ aborted := fun hc => by
            rcases heeds_aborted hc hheeds with h | h <;> cases h
          exact iff_of_true (callStops_of_not_mem hc hturn hothers (by rintro d _ ⟨⟩; rfl)) hc
      | methodError hphase =>
          have hc : c ∉ aborted := fun hc => by
            rcases heeds_aborted hc hheeds with h | h <;> cases h
          exact iff_of_true (callStops_of_not_mem hc hturn hothers (by rintro d _ ⟨⟩; rfl)) hc
      | waits errorClass hclass _ =>
          rcases hcalls with ⟨-, -, hcall, -⟩ | ⟨hcall, hopen, -⟩
          · cases hcall
          · exact settle_stops_iff hbounded hclass hturn hothers hcall hopen h
      | gaveUp errorClass hclass _ =>
          rcases hcalls with ⟨-, -, hcall, -⟩ | ⟨hcall, hopen, -⟩
          · cases hcall
          · exact settle_stops_iff hbounded hclass hturn hothers hcall hopen h
  · -- without an attempt the call is over at once
    simp only [Classical.not_imp, Nat.not_le, Nat.lt_one_iff] at hattempts
    obtain ⟨rfl, hnone⟩ := hattempts
    cases h
    let call : RpcCall := { phase := .rejected .network }
    have hstart : p.start = ({ p with calls := p.calls ++ [call] } : RpcPool).exhausted
        p.calls.length call .network := by
      unfold RpcPool.start
      dsimp only
      rw [if_pos hnone]
    have hcalls : p.start.calls = p.calls ++ [call] := by
      rw [hstart]
      show (p.calls ++ [call]).set p.calls.length _ = _
      simp [call]
    have hfirst : call.attempt = 1 := rfl
    have haction : PoolAction.call = .call := rfl
    obtain ⟨hphase', -, hothers⟩ := phaseOf_turn (.inl ⟨rfl, hfirst, haction, hcalls⟩)
    obtain ⟨hattempts, hsends, hmetrics⟩ := turn_exhausted
      { p with calls := p.calls ++ [call] } p.calls.length call .network
    rw [← hstart] at hattempts hsends hmetrics
    have hturn : Turn p p.start p.calls.length call := ⟨hattempts, hsends, hmetrics⟩
    exact iff_of_true (callStops_of_rejected hturn rfl hphase' hothers nofun) fun _ => .inl hnone

/-- Aborts of calls to a pool whose endpoints may be in any health. -/
theorem pool_stops_iff (attempts : Nat) (states : List HealthState) (cursor clock : Nat)
    (acts : List (SignalAction PoolAction)) :
    Along (signalStep RpcPool.step heeds) (OnActs CallStops)
        { machine := idle attempts states cursor clock } acts ↔
      Along (signalStep RpcPool.step heeds) (OnActs CallHarmless)
        { machine := idle attempts states cursor clock } acts := by
  refine onActs_along_iff ProbeCooldown.Bounded ?_ acts fun _ hcall => absurd hcall List.not_mem_nil
  intro aborted p a p' hbounded hheeds h
  exact ⟨step_stops_iff hbounded hheeds h, (ProbeCooldown.step_cases hbounded h).1⟩

/-- The client of an endpoint hands the abort on as it is. -/
theorem client_settles_abort {c c' : HttpClient.Client} {id : Nat} {clock : HttpClient.Clock}
    (hinv : RequestAborts.Inv {} c)
    (h : HttpClient.step {} c (.settle id .network clock) = some c') :
    c'.settled = c.settled ++ [(id, .error .network)] := by
  simp only [HttpClient.step, Option.map_eq_some_iff] at h
  obtain ⟨r, hfind, rfl⟩ := h
  obtain ⟨hr, rfl, hphase⟩ := RequestAborts.findRequest_some hfind
  have hlast : r.attempt = 1 := Int.le_antisymm (hinv.inTime r hr).last (hinv.inTime r hr).first
  unfold HttpClient.settleAttempt
  rw [if_pos hlast]
  rfl

/-- An abort stops the work along exactly the runs in which no turn of an aborted request
ends in a fetch or is charged to a breaker, and in which an aborted call has no send under
way and finds no endpoint to send to. -/
theorem aborts_stop_iff (opts : HttpClient.HttpClientOptions)
    (clientActs : List (SignalAction HttpClient.Action)) (attempts : Nat)
    (states : List HealthState) (cursor clock : Nat) (acts : List (SignalAction PoolAction)) :
    (Along (signalStep (HttpClient.step opts) RequestAborts.heeds)
        (OnActs RequestAborts.ClientStops) { machine := {} } clientActs ↔
      Along (signalStep (HttpClient.step opts) RequestAborts.heeds)
        (OnActs (RequestAborts.ClientHarmless opts)) { machine := {} } clientActs) ∧
    (Along (signalStep RpcPool.step heeds) (OnActs CallStops)
        { machine := idle attempts states cursor clock } acts ↔
      Along (signalStep RpcPool.step heeds) (OnActs CallHarmless)
        { machine := idle attempts states cursor clock } acts) :=
  ⟨RequestAborts.client_stops_iff opts clientActs, pool_stops_iff attempts states cursor clock acts⟩

/-- The signal aborts during the first of two fetches. -/
def abortsFirstFetch : List (SignalAction HttpClient.Action) :=
  [.act (.request 0 (.at 0)), .abort 0, .act (.settle 0 .network (.at 1))]

/-- The signal aborts during a send. -/
def abortsSend : List (SignalAction PoolAction) := [.act .call, .abort 0]

/-- The client fetches again, and the pool blames the endpoint. -/
theorem aborts_go_on :
    ¬ Along (signalStep (HttpClient.step { retry := { attempts := 2 } }) RequestAborts.heeds)
        (OnActs RequestAborts.ClientStops) { machine := {} }
        (abortsFirstFetch ++ [.act (.delayElapsed 0 (.at 2))]) ∧
      ¬ Along (signalStep RpcPool.step heeds) (OnActs CallStops)
        { machine := idle 1 [{}] 0 0 } (abortsSend ++ [.act (.settle 0 (.threw .network))]) := by
  constructor
  · intro h
    obtain ⟨s, hs, hstops⟩ := h.last rfl
    cases hs
    refine hstops.noFetch 0 List.mem_cons_self ⟨_, List.mem_cons_self, rfl, rfl, ?_⟩
    decide
  · intro h
    obtain ⟨s, hs, hstops⟩ := h.last rfl
    cases hs
    have hstates := hstops.notCharged 0 List.mem_cons_self _ rfl
    revert hstates
    decide

end Ap3xSolana.Connectivity.CallAborts
