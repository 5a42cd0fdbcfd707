import Ap3xSolana.Connectivity.CallContract
import Ap3xSolana.Lib.RoundRobin

/-!
# Endpoints take turns

A pass visits the endpoints from the cursor on, and the cursor moves behind the endpoint that
is picked.  So the endpoints in one state stand in a line (`line`), the first of it is picked
and goes to its end (`pickEndpoint_line`).  That holds whatever else the pool does between two
picks, as long as no endpoint changes its state (`Picks.rounds`, `picks_of_run`).
-/

namespace Ap3xSolana.Connectivity.RoundRobin

open Ap3xSolana.Lib.RoundRobin Ap3xSolana.Lib.Run
open RpcPool (order_eq_rotate mem_order_iff)

/-! ## Picks in a row -/

/-- The same endpoints in the same states. -/
structure SameHealth (p q : RpcPool) : Prop where
  length : q.states.length = p.states.length
  state : ∀ i, (q.health i).state = (p.health i).state

/-- What a pick gives: the endpoint, and whether it is probed. -/
abbrev Pick := Option (Nat × Bool)

/-- Picks one after the other.  Between two of them the pool may do anything that leaves the
cursor and the health of the endpoints as they are. -/
inductive Picks : RpcPool → List Pick → RpcPool → Prop where
  | done {p q : RpcPool} (hhealth : SameHealth p q) (hcursor : q.cursor = p.cursor) :
      Picks p [] q
  | pick {p q r : RpcPool} {picked : List Pick} (hhealth : SameHealth p q)
      (hcursor : q.cursor = p.cursor) (hrest : Picks q.pickEndpoint.1 picked r) :
      Picks p (q.pickEndpoint.2 :: picked) r

/-- The endpoints in a state. -/
def endpoints (p : RpcPool) (name : HealthStateName) : List Nat :=
  (List.range p.states.length).filter (p.inState name)

/-- The state of the endpoints that are picked: degraded if there is no healthy one. -/
def Serving (p : RpcPool) (name : HealthStateName) : Prop :=
  endpoints p name ≠ [] ∧
    (name = .healthy ∨ name = .degraded ∧ endpoints p .healthy = [])

/-! ## The line -/

/-- The endpoints in a state, in the order in which a pass visits them. -/
def line (p : RpcPool) (name : HealthStateName) : List Nat := p.order.filter (p.inState name)

theorem line_perm (p : RpcPool) (name : HealthStateName) :
    (line p name).Perm (endpoints p name) := by
  rw [line, order_eq_rotate]
  exact (List.rotate_perm _ _).filter _

/-- After a pick the pass starts behind the endpoint. -/
theorem order_advance {p : RpcPool} {i : Nat} {xs ys : List Nat}
    (h : p.order = xs ++ i :: ys) : (p.advance i).order = ys ++ (xs ++ [i]) := by
  have hindex : i = (xs.length + p.cursor) % p.states.length := by
    have hat : p.order[xs.length]? = some i := by
      rw [h, List.getElem?_append_right (Nat.le_refl _), Nat.sub_self, List.getElem?_cons_zero]
    have hlt : xs.length < (List.range p.states.length).length := by
      have hlength := congrArg List.length h
      rw [RpcPool.order, List.length_map, List.length_append, List.length_cons] at hlength
      omega
    rw [order_eq_rotate, List.getElem?_rotate hlt, List.length_range] at hat
    rw [List.getElem?_range (Nat.mod_lt _ (by rw [List.length_range] at hlt; omega))] at hat
    exact (Option.some.inj hat).symm
  calc (p.advance i).order
      = (List.range p.states.length).rotate ((i + 1) % p.states.length) := order_eq_rotate _
    _ = (List.range p.states.length).rotate (p.cursor + (xs.length + 1)) := by
        have hmod := List.rotate_mod (List.range p.states.length) (p.cursor + (xs.length + 1))
        rw [List.length_range] at hmod
        rw [← hmod, hindex, Nat.mod_add_mod]
        congr 2
        omega
    _ = p.order.rotate (xs.length + 1) := by rw [← List.rotate_rotate, ← order_eq_rotate]
    _ = ys ++ (xs ++ [i]) := by rw [h, rotate_behind]

theorem line_of_firstIn {p : RpcPool} {name : HealthStateName} {i : Nat}
    (h : p.firstIn name = some i) :
    ∃ ts, line p name = i :: ts ∧ line (p.advance i) name = ts ++ [i] := by
  obtain ⟨hi, xs, ys, horder, hxs⟩ := List.find?_eq_some_iff_append.1 h
  have hskip : ∀ a ∈ xs, p.inState name a = false := fun a ha => by simpa using hxs a ha
  obtain ⟨hline, hbehind⟩ := filter_behind hskip hi ys
  refine ⟨ys.filter (p.inState name), ?_, ?_⟩
  · rw [line, horder]
    exact hline
  · rw [line, order_advance horder]
    exact hbehind

theorem firstIn_eq_none {p : RpcPool} {name : HealthStateName} :
    p.firstIn name = none ↔ endpoints p name = [] := by
  rw [RpcPool.firstIn, List.find?_eq_none, endpoints, List.filter_eq_nil_iff]
  exact forall_congr' fun i => by rw [mem_order_iff, List.mem_range]

/-- The first in the line is picked and goes to the end. -/
theorem pickEndpoint_line {p : RpcPool} {name : HealthStateName} (h : Serving p name) :
    ∃ i ts, p.pickEndpoint = (p.advance i, some (i, false)) ∧
      line p name = i :: ts ∧ line (p.advance i) name = ts ++ [i] := by
  obtain ⟨hsome, hname⟩ := h
  have hfirst : ∃ i, p.firstIn name = some i :=
    Option.ne_none_iff_exists'.1 fun hnone => hsome (firstIn_eq_none.1 hnone)
  obtain ⟨i, hi⟩ := hfirst
  obtain ⟨ts, hline, hbehind⟩ := line_of_firstIn hi
  refine ⟨i, ts, ?_, hline, hbehind⟩
  unfold RpcPool.pickEndpoint
  rcases hname with rfl | ⟨rfl, hhealthy⟩
  · rw [hi]
  · rw [firstIn_eq_none.2 hhealthy, hi]

/-! ## Whole rounds -/

theorem SameHealth.refl (p : RpcPool) : SameHealth p p := ⟨rfl, fun _ => rfl⟩

theorem SameHealth.trans {p q r : RpcPool} (h : SameHealth p q) (h' : SameHealth q r) :
    SameHealth p r :=
  ⟨h'.length.trans h.length, fun i => (h'.state i).trans (h.state i)⟩

theorem SameHealth.inState {p q : RpcPool} (h : SameHealth p q) (name : HealthStateName) :
    q.inState name = p.inState name := by
  funext i
  rw [RpcPool.inState, RpcPool.inState, h.state]

theorem SameHealth.endpoints {p q : RpcPool} (h : SameHealth p q) (name : HealthStateName) :
    endpoints q name = endpoints p name := by
  rw [RoundRobin.endpoints, RoundRobin.endpoints, h.length, h.inState]

theorem SameHealth.serving {p q : RpcPool} (h : SameHealth p q) {name : HealthStateName}
    (hserving : Serving p name) : Serving q name := by
  rw [Serving, h.endpoints, h.endpoints]
  exact hserving

theorem SameHealth.line {p q : RpcPool} (h : SameHealth p q) (hcursor : q.cursor = p.cursor)
    (name : HealthStateName) : line q name = line p name := by
  rw [RoundRobin.line, RoundRobin.line, h.inState, order_eq_rotate, order_eq_rotate, h.length,
    hcursor]

theorem sameHealth_advance (p : RpcPool) (i : Nat) : SameHealth p (p.advance i) :=
  ⟨rfl, fun _ => rfl⟩

theorem Picks.append {p q r : RpcPool} {before after : List Pick} (h : Picks p before q)
    (h' : Picks q after r) : Picks p (before ++ after) r := by
  induction h with
  | done hhealth hcursor =>
      cases h' with
      | done hhealth' hcursor' => exact .done (hhealth.trans hhealth') (hcursor'.trans hcursor)
      | pick hhealth' hcursor' hrest =>
          exact .pick (hhealth.trans hhealth') (hcursor'.trans hcursor) hrest
  | pick hhealth hcursor _ ih => exact .pick hhealth hcursor (ih h')

/-- The picks are the turns of the line. -/
theorem Picks.rounds {p q : RpcPool} {picked : List Pick} {name : HealthStateName}
    (h : Picks p picked q) (hserving : Serving p name) :
    picked = (rounds picked.length (line p name)).map (fun i => some (i, false)) ∧
      line q name = (line p name).rotate picked.length ∧ SameHealth p q := by
  induction h with
  | done hhealth hcursor =>
      refine ⟨rfl, ?_, hhealth⟩
      rw [hhealth.line hcursor, List.length_nil, List.rotate_zero]
  | @pick p q r picked hhealth hcursor _ ih =>
      have hserving' := hhealth.serving hserving
      obtain ⟨i, ts, hpick, hline, hbehind⟩ := pickEndpoint_line hserving'
      rw [hpick] at ih ⊢
      obtain ⟨hpicked, hlast, hsame⟩ :=
        ih ((sameHealth_advance q i).serving hserving')
      rw [hbehind] at hpicked hlast
      rw [← hhealth.line hcursor, hline, List.length_cons]
      refine ⟨?_, ?_, hhealth.trans ((sameHealth_advance q i).trans hsame)⟩
      · rw [Lib.RoundRobin.rounds, List.map_cons, ← hpicked]
      · rw [hlast, List.rotate_cons_succ]

/-- A round goes through the endpoints, wherever the cursor stands. -/
theorem Picks.perm_round {p q r : RpcPool} {name : HealthStateName} {before picked : List Pick}
    (hbefore : Picks p before q) (hpicked : Picks q picked r) (hserving : Serving p name)
    (hlength : picked.length = (endpoints p name).length) :
    picked.Perm ((endpoints p name).map fun i => some (i, false)) := by
  obtain ⟨_, hline, hsame⟩ := hbefore.rounds hserving
  obtain ⟨hround, _, _⟩ := hpicked.rounds (hsame.serving hserving)
  rw [hround, hline, hlength, ← (line_perm p name).length_eq]
  exact ((rounds_rotate_perm (line p name) before.length).trans (line_perm p name)).map _

/-- In as many picks as there are endpoints to pick, wherever the cursor stands, every one of
them is picked once and no other is. -/
theorem round_robin_fair {p q r : RpcPool} {name : HealthStateName} {before picked : List Pick}
    (hserving : Serving p name) (hbefore : Picks p before q) (hpicked : Picks q picked r)
    (hlength : picked.length = (endpoints p name).length) :
    (∀ i ∈ endpoints p name, picked.count (some (i, false)) = 1) ∧
      ∀ o ∈ picked, ∃ i ∈ endpoints p name, o = some (i, false) := by
  have hperm := hbefore.perm_round hpicked hserving hlength
  have hinjective : Function.Injective fun i : Nat => (some (i, false) : Pick) := by
    intro i j hij
    exact (Prod.mk.inj (Option.some.inj hij)).1
  have hnodup : (endpoints p name).Nodup := List.nodup_range.filter _
  constructor
  · intro i hi
    rw [hperm.count_eq]
    exact List.count_eq_one_of_mem (hnodup.map hinjective) (List.mem_map_of_mem hi)
  · intro o ho
    obtain ⟨i, hi, rfl⟩ := List.mem_map.1 (hperm.mem_iff.1 ho)
    exact ⟨i, hi, rfl⟩

/-- Two healthy endpoints with a degraded one between them. -/
def threeEndpoints : RpcPool :=
  { states := [{}, { consecutiveErrors := 5, state := .degraded }, {}], cursor := 2 }

theorem round_robin_fair_threeEndpoints :
    (∀ i ∈ [0, 2], [some (0, false), some (2, false)].count (some (i, false)) = 1) ∧
      ∀ o ∈ [some (0, false), some (2, false)], ∃ i ∈ [0, 2], o = some (i, false) :=
  have hserving : Serving threeEndpoints .healthy := ⟨by decide, .inl rfl⟩
  have hbefore : Picks threeEndpoints [some (2, false)] { threeEndpoints with cursor := 0 } :=
    .pick (.refl _) rfl (.done (.refl _) rfl)
  have hpicked : Picks { threeEndpoints with cursor := 0 } [some (0, false), some (2, false)]
      { threeEndpoints with cursor := 0 } :=
    .pick (.refl _) rfl (.pick (.refl _) rfl (.done (.refl _) rfl))
  round_robin_fair hserving hbefore hpicked (by decide)

/-! ## Runs of the pool -/

/-- What a step of the pool picks. -/
def pickOf (p : RpcPool) : PoolAction → List Pick
  | .call =>
      if p.attempts = 0 then []
      else
        [(RpcPool.pickEndpoint
          { p with calls := p.calls ++ [{ phase := .rejected .network }] }).2]
  | .retry _ => [p.pickEndpoint.2]
  | _ => []

/-- What a run picks, in order. -/
def picksOf : RpcPool → List PoolAction → List Pick
  | _, [] => []
  | p, a :: acts =>
      match p.step a with
      | none => []
      | some p' => pickOf p a ++ picksOf p' acts

theorem picks_attempt (p : RpcPool) (c : Nat) (call : RpcCall) :
    Picks p [p.pickEndpoint.2] (p.attempt c call) := by
  refine .pick (.refl p) rfl ?_
  unfold RpcPool.attempt
  cases p.pickEndpoint with
  | mk q pick =>
      cases pick with
      | none => exact .done ⟨rfl, fun _ => rfl⟩ rfl
      | some pick => exact .done ⟨rfl, fun _ => rfl⟩ rfl

theorem cursor_failed (p : RpcPool) (c : Nat) (call : RpcCall) (i : Nat) (probe : Bool)
    (errorClass : ErrorClass) : (p.failed c call i probe errorClass).cursor = p.cursor := by
  unfold RpcPool.failed
  dsimp only
  split
  · rfl
  · rfl

theorem cursor_settle {p p' : RpcPool} {c : Nat} {outcome : SendOutcome}
    (h : p.step (.settle c outcome) = some p') : p'.cursor = p.cursor := by
  unfold RpcPool.step at h
  dsimp only at h
  split at h
  · cases h
  · split at h
    · cases h
      rfl
    · cases h
      rfl
    · cases h
      exact cursor_failed p _ _ _ _ _
    · cases h

theorem picks_step {p p' : RpcPool} {a : PoolAction} (h : p.step a = some p')
    (hhealth : SameHealth p p') : Picks p (pickOf p a) p' := by
  cases a with
  | elapse ms =>
      cases h
      exact .done hhealth rfl
  | call =>
      cases h
      unfold pickOf RpcPool.start
      dsimp only
      split
      · exact .done ⟨rfl, fun _ => rfl⟩ rfl
      · have hadded : Picks p [] { p with calls := p.calls ++ [{ phase := .rejected .network }] } :=
          .done ⟨rfl, fun _ => rfl⟩ rfl
        exact hadded.append (picks_attempt _ _ _)
  | settle c outcome =>
      exact .done hhealth (cursor_settle h)
  | retry c =>
      unfold RpcPool.step at h
      dsimp only at h
      split at h
      · cases h
      · split at h
        · cases h
          exact picks_attempt _ _ _
        · cases h

/-- In a run that leaves the health of the endpoints as it is, the picks of all the calls
together are picks in a row. -/
theorem picks_of_run {acts : List PoolAction} {p q : RpcPool}
    (h : exec RpcPool.step p acts = some q)
    (hhealth : Along RpcPool.step (fun s _ s' => SameHealth s s') p acts) :
    Picks p (picksOf p acts) q := by
  induction acts generalizing p with
  | nil =>
      cases h
      exact .done (.refl q) rfl
  | cons a acts ih =>
      obtain ⟨p', hstep, hsame, hrest⟩ := along_cons.1 hhealth
      rw [exec_cons hstep] at h
      rw [picksOf, hstep]
      exact (picks_step hstep hsame).append (ih h hrest)

theorem Picks.split {p r : RpcPool} {before after : List Pick}
    (h : Picks p (before ++ after) r) : ∃ q, Picks p before q ∧ Picks q after r := by
  induction before generalizing p with
  | nil => exact ⟨p, .done (.refl p) rfl, h⟩
  | cons o before ih =>
      cases h with
      | pick hhealth hcursor hrest =>
          obtain ⟨q, hbefore, hafter⟩ := ih hrest
          exact ⟨q, .pick hhealth hcursor hbefore, hafter⟩

/-- The calls of a run, however they interleave, share the endpoints out evenly. -/
theorem picksOf_fair {acts : List PoolAction} {p q : RpcPool} {name : HealthStateName}
    {before picked after : List Pick} (h : exec RpcPool.step p acts = some q)
    (hhealth : Along RpcPool.step (fun s _ s' => SameHealth s s') p acts)
    (hserving : Serving p name) (hpicks : picksOf p acts = before ++ (picked ++ after))
    (hlength : picked.length = (endpoints p name).length) :
    picked.Perm ((endpoints p name).map fun i => some (i, false)) := by
  have hrun := picks_of_run h hhealth
  rw [hpicks] at hrun
  obtain ⟨p', hbefore, hrest⟩ := hrun.split
  obtain ⟨_, hpicked, _⟩ := hrest.split
  exact hbefore.perm_round hpicked hserving hlength

/-- Three calls of which none has settled yet. -/
theorem picksOf_fair_threeCalls :
    [some (0, false), some (2, false)].Perm ([0, 2].map fun i => some (i, false)) := by
  have hrun : Along RpcPool.step (fun s _ s' => SameHealth s s') threeEndpoints
      [.call, .call, .call] :=
    along_cons.2 ⟨_, rfl, ⟨rfl, fun _ => rfl⟩, along_cons.2 ⟨_, rfl, ⟨rfl, fun _ => rfl⟩,
      along_cons.2 ⟨_, rfl, ⟨rfl, fun _ => rfl⟩, trivial⟩⟩⟩
  have hserving : Serving threeEndpoints .healthy := ⟨by decide, .inl rfl⟩
  have hpicks : picksOf threeEndpoints [.call, .call, .call] =
      [some (2, false)] ++ ([some (0, false), some (2, false)] ++ []) := by
    decide
  exact picksOf_fair rfl hrun hserving hpicks (by decide)

end Ap3xSolana.Connectivity.RoundRobin
