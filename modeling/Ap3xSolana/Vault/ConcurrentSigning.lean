import Ap3xSolana.Lib.Run
import Ap3xSolana.Vault.WalletHandle

/-!
# Concurrent signing

Calls of `signTransaction` on one handle with a reserve, and the landing of what they sign.
A call checks the balance it has read, which may be older than the check and does not know
of transactions that were signed but have not landed.  The reserve is kept as long as each
check that passes would also pass on the balance with everything outstanding taken out of
it (`Covers`); a check that would not can be followed by landings that break the reserve.
-/

namespace Ap3xSolana.Vault.ConcurrentSigning

open Ap3xSolana.Lib.Run Ap3xSolana.Vault.ReserveGuard

/-- Where a call of `signTransaction` stands. -/
inductive Phase where
  /-- `getBalance` has been called. -/
  | reading (reserveLamports : Int)
  /-- It has read the balance, and its answer is under way. -/
  | balance (reserveLamports balance : Int)
  /-- The signature and its audit entry are under way. -/
  | signing
  | signed
  | landed
  | rejected (e : VaultError)
  deriving DecidableEq, Repr

structure SigningCall where
  tx : List UInt8
  phase : Phase
  deriving DecidableEq, Repr

/-- The balance on chain, and the calls in the order in which they were made. -/
structure State where
  lamports : Int
  calls : List SigningCall := []
  deriving DecidableEq, Repr

inductive Action where
  | signTransaction (tx : List UInt8)
  | read (call : Nat)
  /-- `getBalance` rejects, or `estimateDelta` throws. -/
  | hookFailed (call : Nat) (message : String)
  | check (call : Nat)
  | audited (call : Nat) (outcome : Except String Unit)
  | land (call : Nat)

/-- `signTransaction` up to its first `await`. -/
def startPhase (h : WalletHandle) (tx : List UInt8) : Phase :=
  match h.signTransaction tx with
  | .error e => .rejected e
  | .ok (.signs _) => .signing
  | .ok (.awaitsBalance reserveLamports) => .reading reserveLamports

/-- The rest, once the balance is there. -/
def checkPhase (h : WalletHandle) (reserveLamports balance delta : Int) : Phase :=
  match WalletHandle.checkReserve reserveLamports balance delta with
  | .ok => .signing
  | .breach _ projectedBalance reserveLamports =>
      .rejected (.walletReserveBreach h.role projectedBalance reserveLamports)

/-- The next phase of a call, and what lands with it. -/
def advance (h : WalletHandle) (estimateDelta : List UInt8 → Int) (lamports : Int)
    (c : SigningCall) : Action → Option (Phase × Int)
  | .signTransaction _ => none
  | .read _ =>
      match c.phase with
      | .reading reserveLamports => some (.balance reserveLamports lamports, 0)
      | _ => none
  | .hookFailed _ message =>
      match c.phase with
      | .reading _ => some (.rejected (.other message), 0)
      | .balance _ _ => some (.rejected (.other message), 0)
      | _ => none
  | .check _ =>
      match c.phase with
      | .balance reserveLamports balance =>
          some (checkPhase h reserveLamports balance (estimateDelta c.tx), 0)
      | _ => none
  | .audited _ outcome =>
      match c.phase with
      | .signing =>
          match outcome with
          | .ok () => some (.signed, 0)
          | .error message => some (.rejected (.other message), 0)
      | _ => none
  | .land _ =>
      match c.phase with
      | .signed => some (.landed, estimateDelta c.tx)
      | _ => none

/-- The call that an action belongs to; none where it makes a new one. -/
def Action.call : Action → Option Nat
  | .signTransaction _ => none
  | .read call => some call
  | .hookFailed call _ => some call
  | .check call => some call
  | .audited call _ => some call
  | .land call => some call

def State.setPhase (s : State) (call : Nat) (c : SigningCall) (phase : Phase) (landed : Int) :
    State :=
  { s with
    lamports := s.lamports + landed
    calls := s.calls.set call { c with phase := phase } }

def step (h : WalletHandle) (estimateDelta : List UInt8 → Int) (s : State) (a : Action) :
    Option State :=
  match a with
  | .signTransaction tx =>
      some { s with calls := s.calls ++ [{ tx := tx, phase := startPhase h tx }] }
  | a =>
      match a.call with
      | none => none
      | some call =>
          match s.calls[call]? with
          | none => none
          | some c =>
              (advance h estimateDelta s.lamports c a).map fun next =>
                s.setPhase call c next.1 next.2

/-! ## Outstanding transactions -/

/-- Signed, or about to be, and not landed. -/
def Phase.outstanding : Phase → Bool
  | .signing => true
  | .signed => true
  | _ => false

/-- What a call may still take out of the balance. -/
def spend (estimateDelta : List UInt8 → Int) (c : SigningCall) : Int :=
  if c.phase.outstanding then min (estimateDelta c.tx) 0 else 0

/-- What all calls may still take out, as a number that is not positive. -/
def outstanding (estimateDelta : List UInt8 → Int) (s : State) : Int :=
  (s.calls.map (spend estimateDelta)).sum

/-- A check that passes would pass with everything outstanding taken out of the present
balance. -/
def Covers (estimateDelta : List UInt8 → Int) (s : State) : Action → Prop
  | .check call =>
      ∀ c reserveLamports balance, s.calls[call]? = some c →
        c.phase = .balance reserveLamports balance →
        reserveLamports ≤ balance + estimateDelta c.tx →
        reserveLamports ≤ s.lamports + outstanding estimateDelta s + min (estimateDelta c.tx) 0
  | _ => True

variable {h : WalletHandle} {estimateDelta : List UInt8 → Int} {reserveLamports : Int}

theorem sum_map_set {α : Type*} (f : α → Int) {l : List α} {i : Nat} {a b : α}
    (h : l[i]? = some a) : ((l.set i b).map f).sum = (l.map f).sum - f a + f b := by
  induction l generalizing i with
  | nil => cases h
  | cons x l ih =>
      cases i with
      | zero =>
          cases h
          rw [List.set_cons_zero, List.map_cons, List.map_cons, List.sum_cons, List.sum_cons]
          omega
      | succ i =>
          rw [List.set_cons_succ, List.map_cons, List.map_cons, List.sum_cons, List.sum_cons,
            ih h]
          omega

theorem outstanding_setPhase (estimateDelta : List UInt8 → Int) {s : State} {call : Nat}
    {c : SigningCall}
    (hc : s.calls[call]? = some c) (phase : Phase) (landed : Int) :
    outstanding estimateDelta (s.setPhase call c phase landed) =
      outstanding estimateDelta s - spend estimateDelta c +
        spend estimateDelta { c with phase := phase } :=
  sum_map_set _ hc

theorem spend_nonpos (estimateDelta : List UInt8 → Int) (c : SigningCall) :
    spend estimateDelta c ≤ 0 := by
  unfold spend
  split
  · exact min_le_right _ _
  · exact Int.le_refl _

theorem spend_idle {c : SigningCall} (hidle : c.phase.outstanding = false) :
    spend estimateDelta c = 0 := by
  rw [spend, hidle]
  rfl

theorem spend_outstanding {c : SigningCall} (hout : c.phase.outstanding = true) :
    spend estimateDelta c = min (estimateDelta c.tx) 0 := by
  rw [spend, hout]
  rfl

/-- What is left of the reserve after everything outstanding; calls remember the reserve of
the handle. -/
structure Inv (estimateDelta : List UInt8 → Int) (reserveLamports : Int) (s : State) : Prop where
  floor : reserveLamports ≤ s.lamports + outstanding estimateDelta s
  reading : ∀ c ∈ s.calls, ∀ r, c.phase = .reading r → r = reserveLamports
  balance : ∀ c ∈ s.calls, ∀ r b, c.phase = .balance r b → r = reserveLamports

/-! ## Steps -/

/-- With a reserve nothing is signed before the balance is there. -/
theorem startPhase_cases (hreserve : h.reserve.reserveLamports = some reserveLamports)
    (tx : List UInt8) :
    startPhase h tx = .reading reserveLamports ∨ ∃ e, startPhase h tx = .rejected e := by
  unfold startPhase WalletHandle.signTransaction
  rw [hreserve]
  cases h.secretKey with
  | none => exact .inr ⟨_, rfl⟩
  | some key =>
      dsimp only
      split_ifs
      · exact .inr ⟨_, rfl⟩
      · exact .inr ⟨_, rfl⟩
      · exact .inr ⟨_, rfl⟩
      · exact .inl rfl

theorem checkPhase_eq (h : WalletHandle) (r b d : Int) :
    (r ≤ b + d ∧ checkPhase h r b d = .signing) ∨
      (b + d < r ∧ ∃ e, checkPhase h r b d = .rejected e) := by
  by_cases hle : r ≤ b + d
  · have hok : WalletHandle.checkReserve r b d = .ok := checkSpend_eq_ok.2 hle
    left
    rw [checkPhase, hok]
    exact ⟨hle, rfl⟩
  · right
    refine ⟨not_le.1 hle, ?_⟩
    rw [checkPhase]
    cases hcheck : WalletHandle.checkReserve r b d with
    | ok => exact absurd (checkSpend_eq_ok.1 hcheck) hle
    | breach _ projected reserve => exact ⟨_, rfl⟩

/-- What an action does to its call. -/
inductive Advance (estimateDelta : List UInt8 → Int) (lamports : Int) (c : SigningCall) :
    Action → Phase → Int → Prop
  | read {call : Nat} {r : Int} (hphase : c.phase = .reading r) :
      Advance estimateDelta lamports c (.read call) (.balance r lamports) 0
  | rejected {a : Action} {e : VaultError} : Advance estimateDelta lamports c a (.rejected e) 0
  | passed {call : Nat} {r b : Int} (hphase : c.phase = .balance r b)
      (hle : r ≤ b + estimateDelta c.tx) :
      Advance estimateDelta lamports c (.check call) .signing 0
  | audited {call : Nat} (hphase : c.phase = .signing) :
      Advance estimateDelta lamports c (.audited call (.ok ())) .signed 0
  | landed {call : Nat} (hphase : c.phase = .signed) :
      Advance estimateDelta lamports c (.land call) .landed (estimateDelta c.tx)

theorem advance_cases {lamports : Int} {c : SigningCall} {a : Action} {next : Phase × Int}
    (hnext : advance h estimateDelta lamports c a = some next) :
    Advance estimateDelta lamports c a next.1 next.2 := by
  cases a with
  | signTransaction tx => cases hnext
  | read call =>
      simp only [advance] at hnext
      split at hnext
      · rename_i r hphase
        cases hnext
        exact .read hphase
      · cases hnext
  | hookFailed call message =>
      simp only [advance] at hnext
      split at hnext
      · cases hnext
        exact .rejected
      · cases hnext
        exact .rejected
      · cases hnext
  | check call =>
      simp only [advance] at hnext
      split at hnext
      · rename_i r b hphase
        cases hnext
        rcases checkPhase_eq h r b (estimateDelta c.tx) with ⟨hle, heq⟩ | ⟨-, e, heq⟩
        · rw [heq]
          exact .passed hphase hle
        · rw [heq]
          exact .rejected
      · cases hnext
  | audited call outcome =>
      simp only [advance] at hnext
      split at hnext
      · rename_i hphase
        cases outcome with
        | ok _ =>
            cases hnext
            exact .audited hphase
        | error message =>
            cases hnext
            exact .rejected
      · cases hnext
  | land call =>
      simp only [advance] at hnext
      split at hnext
      · rename_i hphase
        cases hnext
        exact .landed hphase
      · cases hnext

/-- Only a check that passes adds to what is outstanding. -/
theorem Advance.spend_le {lamports landed : Int} {c : SigningCall} {a : Action} {phase : Phase}
    (hadvance : Advance estimateDelta lamports c a phase landed) :
    spend estimateDelta c ≤ landed + spend estimateDelta { c with phase := phase } ∨
      ∃ call r b, a = .check call ∧ c.phase = .balance r b ∧ r ≤ b + estimateDelta c.tx ∧
        phase = .signing ∧ landed = 0 := by
  cases hadvance with
  | read hphase =>
      left
      rw [spend_idle (by rw [hphase]; rfl), spend_idle rfl]
      exact Int.le_refl _
  | rejected =>
      left
      have hle := spend_nonpos estimateDelta c
      rw [spend_idle (c := { c with phase := .rejected _ }) rfl]
      omega
  | passed hphase hle => exact .inr ⟨_, _, _, rfl, hphase, hle, rfl, rfl⟩
  | audited hphase =>
      left
      have hsame : spend estimateDelta { c with phase := .signed } = min (estimateDelta c.tx) 0 :=
        spend_outstanding rfl
      rw [spend_outstanding (by rw [hphase]; rfl), hsame, zero_add]
  | landed hphase =>
      left
      rw [spend_outstanding (by rw [hphase]; rfl), spend_idle rfl]
      omega

theorem step_cases {s s' : State} {a : Action} (hstep : step h estimateDelta s a = some s') :
    (∃ tx, a = .signTransaction tx ∧
      s' = { s with calls := s.calls ++ [{ tx := tx, phase := startPhase h tx }] }) ∨
    ∃ call c next, a.call = some call ∧ s.calls[call]? = some c ∧
      advance h estimateDelta s.lamports c a = some next ∧
      s' = s.setPhase call c next.1 next.2 := by
  have hcall : ∀ call, a.call = some call →
      (match s.calls[call]? with
        | none => none
        | some c => (advance h estimateDelta s.lamports c a).map fun next =>
            s.setPhase call c next.1 next.2) = some s' →
      ∃ call c next, a.call = some call ∧ s.calls[call]? = some c ∧
        advance h estimateDelta s.lamports c a = some next ∧
        s' = s.setPhase call c next.1 next.2 := by
    intro call ha hs
    cases hc : s.calls[call]? with
    | none =>
        rw [hc] at hs
        cases hs
    | some c =>
        rw [hc] at hs
        obtain ⟨next, hnext, rfl⟩ := Option.map_eq_some_iff.1 hs
        exact ⟨call, c, next, ha, hc, hnext, rfl⟩
  cases a with
  | signTransaction tx => exact .inl ⟨tx, rfl, (Option.some.inj hstep).symm⟩
  | _ => exact .inr (hcall _ rfl hstep)

theorem Advance.reading {lamports landed : Int} {c : SigningCall} {a : Action} {phase : Phase}
    (hadvance : Advance estimateDelta lamports c a phase landed) {r : Int} :
    phase ≠ .reading r := by
  cases hadvance <;> nofun

theorem Advance.balance {lamports landed : Int} {c : SigningCall} {a : Action} {phase : Phase}
    (hadvance : Advance estimateDelta lamports c a phase landed) {r b : Int}
    (hphase : phase = .balance r b) : c.phase = .reading r := by
  cases hadvance with
  | read hreading =>
      cases hphase
      exact hreading
  | _ => cases hphase

theorem inv_signTransaction (hreserve : h.reserve.reserveLamports = some reserveLamports)
    {s : State} (hs : Inv estimateDelta reserveLamports s) (tx : List UInt8) :
    Inv estimateDelta reserveLamports
      { s with calls := s.calls ++ [{ tx := tx, phase := startPhase h tx }] } := by
  have hstart := startPhase_cases hreserve tx
  have hidle : (startPhase h tx).outstanding = false := by
    rcases hstart with heq | ⟨e, heq⟩
    · rw [heq]
      rfl
    · rw [heq]
      rfl
  constructor
  · have hspend : spend estimateDelta { tx := tx, phase := startPhase h tx } = 0 :=
      spend_idle hidle
    have hfloor := hs.floor
    show _ ≤ s.lamports + ((s.calls ++ [_]).map (spend estimateDelta)).sum
    rw [List.map_append, List.sum_append, List.map_singleton, List.sum_singleton, hspend,
      add_zero]
    exact hfloor
  · intro c hc r hphase
    rcases List.mem_append.1 hc with hc | hc
    · exact hs.reading c hc r hphase
    · rw [List.mem_singleton.1 hc] at hphase
      change startPhase h tx = _ at hphase
      rcases hstart with heq | ⟨e, heq⟩
      · rw [heq] at hphase
        cases hphase
        rfl
      · rw [heq] at hphase
        cases hphase
  · intro c hc r b hphase
    rcases List.mem_append.1 hc with hc | hc
    · exact hs.balance c hc r b hphase
    · rw [List.mem_singleton.1 hc] at hphase
      change startPhase h tx = _ at hphase
      rcases hstart with heq | ⟨e, heq⟩
      · rw [heq] at hphase
        cases hphase
      · rw [heq] at hphase
        cases hphase

theorem floor_setPhase {s : State} (hs : Inv estimateDelta reserveLamports s) {a : Action}
    {call : Nat} {c : SigningCall} {phase : Phase} {landed : Int} (hcall : a.call = some call)
    (hc : s.calls[call]? = some c)
    (hadvance : Advance estimateDelta s.lamports c a phase landed)
    (hcovers : Covers estimateDelta s a) :
    reserveLamports ≤ (s.setPhase call c phase landed).lamports +
      outstanding estimateDelta (s.setPhase call c phase landed) := by
  have hfloor := hs.floor
  have hlamports : (s.setPhase call c phase landed).lamports = s.lamports + landed := rfl
  rw [outstanding_setPhase estimateDelta hc, hlamports]
  rcases hadvance.spend_le with hle | ⟨call', r, b, rfl, hphase, hle, rfl, rfl⟩
  · omega
  · cases hcall
    have hbalance := hs.balance c (List.mem_of_getElem? hc) r b hphase
    subst hbalance
    have hroom := hcovers c r b hc hphase hle
    have hbefore : spend estimateDelta c = 0 := spend_idle (by rw [hphase]; rfl)
    have hafter : spend estimateDelta { c with phase := .signing } =
      min (estimateDelta c.tx) 0 := spend_outstanding rfl
    rw [hbefore, hafter]
    omega

theorem step_inv (hreserve : h.reserve.reserveLamports = some reserveLamports) {s s' : State}
    {a : Action} (hs : Inv estimateDelta reserveLamports s)
    (hstep : step h estimateDelta s a = some s') (hcovers : Covers estimateDelta s a) :
    Inv estimateDelta reserveLamports s' := by
  rcases step_cases hstep with ⟨tx, -, rfl⟩ | ⟨call, c, next, hcall, hc, hnext, rfl⟩
  · exact inv_signTransaction hreserve hs tx
  · have hadvance := advance_cases hnext
    have hmem := List.mem_of_getElem? hc
    refine ⟨floor_setPhase hs hcall hc hadvance hcovers, ?_, ?_⟩
    · intro c' hc' r hphase
      rcases List.mem_or_eq_of_mem_set hc' with hold | rfl
      · exact hs.reading c' hold r hphase
      · exact absurd hphase hadvance.reading
    · intro c' hc' r b hphase
      rcases List.mem_or_eq_of_mem_set hc' with hold | rfl
      · exact hs.balance c' hold r b hphase
      · exact hs.reading c hmem r (hadvance.balance hphase)

theorem outstanding_nonpos (estimateDelta : List UInt8 → Int) (s : State) :
    outstanding estimateDelta s ≤ 0 := by
  unfold outstanding
  induction s.calls with
  | nil => exact Int.le_refl _
  | cons c calls ih =>
      have hspend := spend_nonpos estimateDelta c
      rw [List.map_cons, List.sum_cons]
      omega

/-! ## Landing what is outstanding -/

theorem step_audited {s : State} {call : Nat} {c : SigningCall} (hc : s.calls[call]? = some c)
    (hphase : c.phase = .signing) :
    step h estimateDelta s (.audited call (.ok ())) = some (s.setPhase call c .signed 0) := by
  show (match s.calls[call]? with | none => none | some c => _) = _
  rw [hc]
  show (advance h estimateDelta s.lamports c (.audited call (.ok ()))).map _ = _
  rw [advance, hphase]
  rfl

theorem step_land {s : State} {call : Nat} {c : SigningCall} (hc : s.calls[call]? = some c)
    (hphase : c.phase = .signed) :
    step h estimateDelta s (.land call) =
      some (s.setPhase call c .landed (estimateDelta c.tx)) := by
  show (match s.calls[call]? with | none => none | some c => _) = _
  rw [hc]
  show (advance h estimateDelta s.lamports c (.land call)).map _ = _
  rw [advance, hphase]
  rfl

theorem step_check {s s' : State} {call : Nat} {c : SigningCall} {r b : Int}
    (hc : s.calls[call]? = some c) (hphase : c.phase = .balance r b)
    (hpass : r ≤ b + estimateDelta c.tx)
    (hstep : step h estimateDelta s (.check call) = some s') :
    s' = s.setPhase call c .signing 0 := by
  change (match s.calls[call]? with | none => none | some c => _) = _ at hstep
  rw [hc] at hstep
  change (advance h estimateDelta s.lamports c (.check call)).map _ = _ at hstep
  rw [advance, hphase] at hstep
  rcases checkPhase_eq h r b (estimateDelta c.tx) with ⟨-, heq⟩ | ⟨hlt, -⟩
  · dsimp only at hstep
    rw [heq] at hstep
    exact (Option.some.inj hstep).symm
  · exact absurd hpass (not_le.2 hlt)

/-- An outstanding transaction may land. -/
theorem exists_landing (h : WalletHandle) (estimateDelta : List UInt8 → Int) {s : State}
    {call : Nat} {c : SigningCall}
    (hc : s.calls[call]? = some c) (hout : c.phase.outstanding = true) :
    ∃ acts, exec (step h estimateDelta) s acts =
      some (s.setPhase call c .landed (estimateDelta c.tx)) := by
  cases hphase : c.phase with
  | signing =>
      have hsigned : (s.setPhase call c .signed 0).calls[call]? =
          some { c with phase := .signed } := by
        rw [State.setPhase, List.getElem?_set_self (List.getElem?_eq_some_iff.1 hc).1]
      refine ⟨[.audited call (.ok ()), .land call], ?_⟩
      rw [exec_cons (step_audited hc hphase), exec_cons (step_land hsigned rfl)]
      simp only [exec, State.setPhase, List.set_set, add_zero]
  | signed => exact ⟨[.land call], exec_cons (step_land hc hphase) []⟩
  | _ =>
      rw [hphase] at hout
      cases hout

/-- Everything that is outstanding may land. -/
theorem exists_landings (h : WalletHandle) (estimateDelta : List UInt8 → Int) (s : State) :
    ∃ acts t, exec (step h estimateDelta) s acts = some t ∧
      t.lamports = s.lamports + outstanding estimateDelta s := by
  -- each landing that takes something out leaves less outstanding
  induction hn : (-outstanding estimateDelta s).toNat using Nat.strong_induction_on
    generalizing s with
  | _ n ih =>
    by_cases hnone : ∀ c ∈ s.calls, spend estimateDelta c = 0
    · have hzero : outstanding estimateDelta s = 0 := by
        rw [outstanding, List.map_congr_left hnone, List.sum_map_zero]
      exact ⟨[], s, rfl, by rw [hzero, add_zero]⟩
    · push Not at hnone
      obtain ⟨c, hmem, hspend⟩ := hnone
      obtain ⟨call, hc⟩ := List.mem_iff_getElem?.1 hmem
      have hneg := spend_nonpos estimateDelta c
      have hout : c.phase.outstanding = true := by
        by_contra hidle
        exact hspend (spend_idle (Bool.not_eq_true _ ▸ hidle))
      have hvalue : spend estimateDelta c = estimateDelta c.tx := by
        rw [spend_outstanding hout] at hspend ⊢
        omega
      obtain ⟨acts, hacts⟩ := exists_landing h estimateDelta hc hout
      have hrest := outstanding_setPhase estimateDelta hc .landed (estimateDelta c.tx)
      rw [spend_idle (c := { c with phase := .landed }) rfl] at hrest
      have hbefore := outstanding_nonpos estimateDelta
        (s.setPhase call c .landed (estimateDelta c.tx))
      obtain ⟨more, t, hmore, ht⟩ := ih _ (by omega)
        (s.setPhase call c .landed (estimateDelta c.tx)) rfl
      refine ⟨acts ++ more, t, (exec_append hacts more).trans hmore, ?_⟩
      have hlamports : (s.setPhase call c .landed (estimateDelta c.tx)).lamports =
        s.lamports + estimateDelta c.tx := rfl
      rw [ht, hrest, hlamports]
      omega

/-! ## The reserve over runs -/

theorem inv_init {lamports : Int} (hle : reserveLamports ≤ lamports) :
    Inv estimateDelta reserveLamports { lamports := lamports } :=
  ⟨by show _ ≤ lamports + 0; omega, fun _ hc => absurd hc List.not_mem_nil,
    fun _ hc => absurd hc List.not_mem_nil⟩

/-- A run keeps the reserve if each of its checks covers what is outstanding; and after a
check that does not, landings alone can break it. -/
theorem reserve_kept_along (h : WalletHandle) (estimateDelta : List UInt8 → Int)
    {reserveLamports lamports : Int} (hreserve : h.reserve.reserveLamports = some reserveLamports)
    (hle : reserveLamports ≤ lamports) :
    (∀ acts t, Along (step h estimateDelta) (fun s a _ => Covers estimateDelta s a)
        { lamports := lamports } acts →
      exec (step h estimateDelta) { lamports := lamports } acts = some t →
      reserveLamports ≤ t.lamports) ∧
    ∀ acts s a s', Along (step h estimateDelta) (fun s a _ => Covers estimateDelta s a)
        { lamports := lamports } acts →
      exec (step h estimateDelta) { lamports := lamports } acts = some s →
      step h estimateDelta s a = some s' → ¬ Covers estimateDelta s a →
      ∃ more t, exec (step h estimateDelta) s' more = some t ∧ t.lamports < reserveLamports := by
  have hinv : ∀ acts t, Along (step h estimateDelta) (fun s a _ => Covers estimateDelta s a)
      { lamports := lamports } acts →
      exec (step h estimateDelta) { lamports := lamports } acts = some t →
      Inv estimateDelta reserveLamports t := fun acts t halong hrun =>
    halong.inv (Inv estimateDelta reserveLamports)
      (fun _ _ _ hs hstep hcovers => step_inv hreserve hs hstep hcovers) (inv_init hle) hrun
  constructor
  · intro acts t halong hrun
    have hfloor := (hinv acts t halong hrun).floor
    have hout := outstanding_nonpos estimateDelta t
    omega
  · intro acts s a s' halong hrun hstep hnot
    have hs := hinv acts s halong hrun
    obtain ⟨more, t, hmore, ht⟩ := exists_landings h estimateDelta s'
    refine ⟨more, t, hmore, ?_⟩
    cases a with
    | check call =>
        obtain ⟨c, hc, r, b, hphase, hpass, hshort⟩ : ∃ c, s.calls[call]? = some c ∧ ∃ r b,
            c.phase = .balance r b ∧ r ≤ b + estimateDelta c.tx ∧
            s.lamports + outstanding estimateDelta s + min (estimateDelta c.tx) 0 < r := by
          simp only [Covers] at hnot
          push Not at hnot
          obtain ⟨c, r, b, hc, hphase, hpass, hshort⟩ := hnot
          exact ⟨c, hc, r, b, hphase, hpass, hshort⟩
        have hreserved := hs.balance c (List.mem_of_getElem? hc) r b hphase
        have hs' : s' = s.setPhase call c .signing 0 := step_check hc hphase hpass hstep
        have hbefore : spend estimateDelta c = 0 := spend_idle (by rw [hphase]; rfl)
        have hafter : spend estimateDelta { c with phase := .signing } =
          min (estimateDelta c.tx) 0 := spend_outstanding rfl
        have hlamports : s'.lamports = s.lamports + 0 := by rw [hs']; rfl
        rw [ht, hlamports, hs', outstanding_setPhase estimateDelta hc, hbefore, hafter]
        omega
    | _ => exact absurd trivial hnot

/-! ## Two calls at once -/

/-- A wallet with a reserve of 1 SOL. -/
def reservedHandle : WalletHandle where
  address := .ofByte 1
  role := "trader"
  secretKey := some .zero
  reserve := { reserveLamports := some 1000000000, getBalance := true, estimateDelta := true }

/-- A transaction of the least length. -/
def spendTx : List UInt8 := 1 :: List.replicate 65 0

/-- One call reads, checks, is signed and lands. -/
def inTurn : List Action :=
  [.signTransaction spendTx, .read 0, .check 0, .audited 0 (.ok ()), .land 0]

theorem reserve_kept_along_inTurn :
    ∃ t, exec (step reservedHandle fun _ => -600000000) { lamports := 2000000000 } inTurn = some t ∧
      t.lamports = 1400000000 ∧ (1000000000 : Int) ≤ t.lamports := by
  have halong : Along (step reservedHandle fun _ => -600000000)
      (fun s a _ => Covers (fun _ => -600000000) s a) { lamports := 2000000000 } inTurn := by
    have hcheck : Covers (fun _ => -600000000) { lamports := 2000000000, calls :=
        [{ tx := spendTx, phase := .balance 1000000000 2000000000 }] } (.check 0) := by
      intro c r b hc hphase _
      cases hc
      cases hphase
      decide +kernel
    exact along_cons.2 ⟨_, rfl, trivial, along_cons.2 ⟨_, rfl, trivial, along_cons.2 ⟨_, rfl,
      hcheck, along_cons.2 ⟨_, rfl, trivial, along_cons.2 ⟨_, rfl, trivial, trivial⟩⟩⟩⟩⟩
  obtain ⟨t, hrun, hlamports⟩ : ∃ t, exec (step reservedHandle fun _ => -600000000)
      { lamports := 2000000000 } inTurn = some t ∧ t.lamports = 1400000000 :=
    ⟨_, rfl, rfl⟩
  exact ⟨t, hrun, hlamports, (reserve_kept_along reservedHandle _ rfl (by decide)).1 inTurn t
    halong hrun⟩

/-- Two calls read the same balance. -/
def overlapping : List Action :=
  [.signTransaction spendTx, .signTransaction spendTx, .read 0, .read 1, .check 0, .check 1,
    .audited 0 (.ok ()), .audited 1 (.ok ()), .land 0, .land 1]

/-- Each of them leaves the reserve, both together do not. -/
theorem overlapping_breaks_reserve :
    (∃ t, exec (step reservedHandle fun _ => -600000000) { lamports := 2000000000 } overlapping =
      some t ∧ t.lamports = 800000000) ∧
    ¬ ∀ (h : WalletHandle) (estimateDelta : List UInt8 → Int) (reserveLamports lamports : Int),
      h.reserve.reserveLamports = some reserveLamports → reserveLamports ≤ lamports →
      ∀ acts t, exec (step h estimateDelta) { lamports := lamports } acts = some t →
        reserveLamports ≤ t.lamports := by
  obtain ⟨t, hrun, hlamports⟩ : ∃ t, exec (step reservedHandle fun _ => -600000000)
      { lamports := 2000000000 } overlapping = some t ∧ t.lamports = 800000000 :=
    ⟨_, rfl, rfl⟩
  refine ⟨⟨t, hrun, hlamports⟩, fun hall => ?_⟩
  have hkept := hall reservedHandle _ 1000000000 2000000000 rfl (by decide) overlapping t hrun
  rw [hlamports] at hkept
  exact absurd hkept (by decide)

end Ap3xSolana.Vault.ConcurrentSigning
