import Mathlib.Logic.Function.Basic
import Ap3xSolana.Lib.Table

/-!
# Locks made of promises

A lock can be a promise: whoever wants it waits for the promise that is there and puts
in its place one that settles when its own turn is over as well.  `Gate` is such a
promise, `released` says whose turn is over.

With a lock for every key, a map holds one promise a key, the end of the chain of those who
asked for the lock of that key.  Whoever asks gets a ticket: it waits for the promise that is
there and replaces it by its own, and when it is done it takes its own promise out again
unless somebody has replaced it.

* `inv_step`: the three steps of a ticket keep the invariant, and with it the order: who has
  begun has only finished tickets of its key before it.
* `Inv.can_begin`: who has only finished tickets of its key before it can begin.
* `Inv.chains_eq_none`: the map has an entry for the keys that somebody still uses.
-/

namespace Ap3xSolana.Lib

inductive Gate where
  | resolved
  /-- `prev.then(() => next)`, where `next` is resolved by the waiter. -/
  | chained (prev : Gate) (waiter : Nat)
  deriving DecidableEq, Repr

namespace Gate

/-- The promise is settled. -/
def settled (released : Nat → Bool) : Gate → Bool
  | .resolved => true
  | .chained prev waiter => prev.settled released && released waiter

/-- The waiters that the promise stands for. -/
def waiters : Gate → List Nat
  | .resolved => []
  | .chained prev waiter => prev.waiters ++ [waiter]

theorem settled_iff {released : Nat → Bool} {g : Gate} :
    g.settled released = true ↔ ∀ i ∈ g.waiters, released i = true := by
  induction g with
  | resolved => simp [settled, waiters]
  | chained prev waiter ih =>
      rw [settled, Bool.and_eq_true, ih, waiters]
      constructor
      · rintro ⟨hprev, hlast⟩ i hi
        rcases List.mem_append.1 hi with hi | hi
        · exact hprev i hi
        · rw [List.mem_singleton.1 hi]
          exact hlast
      · intro h
        exact ⟨fun i hi => h i (List.mem_append_left _ hi),
          h waiter (List.mem_append_right _ (List.mem_singleton.2 rfl))⟩

end Gate

end Ap3xSolana.Lib

/-! ## A lock for every key -/

namespace Ap3xSolana.Lib.KeyedMutex

variable {κ : Type*}

inductive Phase where
  | waiting
  | running
  | done
  deriving DecidableEq, Repr

structure Ticket (κ : Type*) where
  key : κ
  /-- The promise that was there when it asked. -/
  prev : Gate
  phase : Phase
  deriving DecidableEq, Repr

structure Mutex (κ : Type*) where
  chains : κ → Option Gate
  tickets : List (Ticket κ)

def empty : Mutex κ := { chains := fun _ => none, tickets := [] }

def Mutex.released (m : Mutex κ) (i : Nat) : Bool :=
  match m.tickets[i]? with
  | some t => t.phase = .done
  | none => false

def Mutex.replace (m : Mutex κ) (i : Nat) (t : Ticket κ) : Mutex κ :=
  { m with tickets := m.tickets.set i t }

/-- What the next one to ask for the key waits for. -/
def Mutex.gate (m : Mutex κ) (key : κ) : Gate := (m.chains key).getD .resolved

def Mutex.enter [DecidableEq κ] (m : Mutex κ) (key : κ) : Mutex κ :=
  { chains := Function.update m.chains key (some (.chained (m.gate key) m.tickets.length))
    tickets := m.tickets ++ [{ key := key, prev := m.gate key, phase := .waiting }] }

/-- The promise is taken out only if it is still the last of its chain. -/
def Mutex.evict [DecidableEq κ] (m : Mutex κ) (i : Nat) (t : Ticket κ) : κ → Option Gate :=
  if m.chains t.key = some (.chained t.prev i) then Function.update m.chains t.key none
  else m.chains

inductive Step [DecidableEq κ] (m : Mutex κ) : Mutex κ → Prop where
  | enter (key : κ) : Step m (m.enter key)
  | begin {i : Nat} {t : Ticket κ} (h : m.tickets[i]? = some t) (hphase : t.phase = .waiting)
      (hprev : t.prev.settled m.released = true) :
      Step m (m.replace i { t with phase := .running })
  | release {i : Nat} {t : Ticket κ} (h : m.tickets[i]? = some t) (hphase : t.phase = .running) :
      Step m { (m.replace i { t with phase := .done }) with chains := m.evict i t }

/-! ## The invariant -/

/-- Among the first `n` tickets the gate stands for some of the key, and the others of that key
are done. -/
structure Covers (m : Mutex κ) (n : Nat) (key : κ) (g : Gate) : Prop where
  sound : ∀ j ∈ g.waiters, j < n ∧ ∃ t, m.tickets[j]? = some t ∧ t.key = key
  complete : ∀ (j : Nat) (t : Ticket κ), j < n → m.tickets[j]? = some t → t.key = key →
    j ∈ g.waiters ∨ t.phase = .done

structure Inv (m : Mutex κ) : Prop where
  gates : ∀ key, Covers m m.tickets.length key (m.gate key)
  prevs : ∀ (i : Nat) (t : Ticket κ), m.tickets[i]? = some t → Covers m i t.key t.prev
  order : ∀ (i j : Nat) (t u : Ticket κ), j < i → m.tickets[i]? = some t →
    m.tickets[j]? = some u → u.key = t.key → t.phase ≠ .waiting → u.phase = .done
  /-- An entry of the map belongs to a ticket that is not done. -/
  entries : ∀ key g, m.chains key = some g → ∃ (i : Nat) (t : Ticket κ),
    m.tickets[i]? = some t ∧ t.key = key ∧ g = .chained t.prev i ∧ t.phase ≠ .done

theorem inv_empty : Inv (empty : Mutex κ) where
  gates _ := ⟨fun _ h => (by cases h), fun _ _ h => absurd h (Nat.not_lt_zero _)⟩
  prevs _ _ h := by cases h
  order _ _ _ _ _ h := by cases h
  entries _ _ h := by cases h

variable {m : Mutex κ} {i : Nat} {t : Ticket κ}

theorem lt_of_ticket (h : m.tickets[i]? = some t) : i < m.tickets.length :=
  (List.getElem?_eq_some_iff.1 h).1

/-! ## A ticket that goes on -/

theorem replace_ticket (h : m.tickets[i]? = some t) (t' : Ticket κ) (j : Nat) :
    (m.replace i t').tickets[j]? = if j = i then some t' else m.tickets[j]? :=
  Table.getElem?_replaced h j

/-- What the gates cover stays covered: no ticket changes its key, and done stays done. -/
theorem Covers.replace {n : Nat} {key : κ} {g : Gate} (h : Covers m n key g)
    (hget : m.tickets[i]? = some t) {phase : Phase} (hdone : t.phase ≠ .done)
    {m' : Mutex κ} (htickets : m'.tickets = (m.replace i { t with phase := phase }).tickets) :
    Covers m' n key g where
  sound j hj := by
    obtain ⟨hlt, u, hu, hkey⟩ := h.sound j hj
    rw [htickets, replace_ticket hget]
    by_cases hji : j = i
    · subst hji
      rw [hget] at hu
      cases hu
      rw [if_pos rfl]
      exact ⟨hlt, _, rfl, hkey⟩
    · rw [if_neg hji]
      exact ⟨hlt, u, hu, hkey⟩
  complete j u hlt hu hkey := by
    rw [htickets, replace_ticket hget] at hu
    by_cases hji : j = i
    · subst hji
      rw [if_pos rfl] at hu
      cases hu
      exact .inl ((h.complete j t hlt hget hkey).resolve_right hdone)
    · rw [if_neg hji] at hu
      exact h.complete j u hlt hu hkey

/-- Whoever begins has only finished tickets of its key before it. -/
theorem Covers.done_of_settled {key : κ} {g : Gate} (h : Covers m i key g)
    (hsettled : g.settled m.released = true) {j : Nat} {u : Ticket κ} (hji : j < i)
    (hj : m.tickets[j]? = some u) (hkey : u.key = key) : u.phase = .done := by
  rcases h.complete j u hji hj hkey with hmem | hdone
  · have hreleased := Gate.settled_iff.1 hsettled j hmem
    unfold Mutex.released at hreleased
    rw [hj] at hreleased
    exact of_decide_eq_true hreleased
  · exact hdone

theorem Inv.begin (h : Inv m) (hget : m.tickets[i]? = some t) (hphase : t.phase = .waiting)
    (hprev : t.prev.settled m.released = true) :
    Inv (m.replace i { t with phase := .running }) := by
  have hdone : t.phase ≠ .done := by
    rw [hphase]
    exact Phase.noConfusion
  have hcovers : ∀ {n : Nat} {key : κ} {g : Gate}, Covers m n key g →
      Covers (m.replace i { t with phase := .running }) n key g :=
    fun hc => hc.replace hget hdone rfl
  constructor
  · intro key
    have hlength : (m.replace i { t with phase := .running }).tickets.length = m.tickets.length :=
      List.length_set
    rw [hlength]
    exact hcovers (h.gates key)
  · intro j u hu
    rw [replace_ticket hget] at hu
    split at hu
    · next hji =>
        cases hu
        rw [hji]
        exact hcovers (h.prevs i t hget)
    · exact hcovers (h.prevs j u hu)
  · intro j k u v hkj hj hk hkey hbegun
    rw [replace_ticket hget] at hj hk
    by_cases hji : j = i
    · subst hji
      rw [if_pos rfl] at hj
      rw [if_neg (by omega)] at hk
      cases hj
      exact (h.prevs j t hget).done_of_settled hprev hkj hk hkey
    · rw [if_neg hji] at hj
      by_cases hki : k = i
      · subst hki
        rw [if_pos rfl] at hk
        cases hk
        exact absurd (h.order j k u t hkj hj hget hkey hbegun) hdone
      · rw [if_neg hki] at hk
        exact h.order j k u v hkj hj hk hkey hbegun
  · intro key g hg
    obtain ⟨j, u, hu, hkey, hchain, hundone⟩ := h.entries key g hg
    by_cases hji : j = i
    · subst hji
      rw [hget] at hu
      cases hu
      exact ⟨j, { t with phase := .running }, by rw [replace_ticket hget, if_pos rfl], hkey, hchain,
        Phase.noConfusion⟩
    · exact ⟨j, u, by rw [replace_ticket hget, if_neg hji, hu], hkey, hchain, hundone⟩

/-! ## What the lock gives -/

/-- One at a time. -/
theorem Inv.running_unique (h : Inv m) {j : Nat} {u : Ticket κ} (hi : m.tickets[i]? = some t)
    (hj : m.tickets[j]? = some u) (hkey : u.key = t.key) (ht : t.phase = .running)
    (hu : u.phase = .running) : j = i := by
  rcases Nat.lt_trichotomy j i with hlt | heq | hgt
  · have hdone := h.order i j t u hlt hi hj hkey (by rw [ht]; exact Phase.noConfusion)
    rw [hu] at hdone
    cases hdone
  · exact heq
  · have hdone := h.order j i u t hgt hj hi hkey.symm (by rw [hu]; exact Phase.noConfusion)
    rw [ht] at hdone
    cases hdone

theorem Inv.can_begin (h : Inv m) (hi : m.tickets[i]? = some t)
    (hdone : ∀ (j : Nat) (u : Ticket κ), j < i → m.tickets[j]? = some u → u.key = t.key →
      u.phase = .done) : t.prev.settled m.released = true := by
  refine Gate.settled_iff.2 fun j hj => ?_
  obtain ⟨hji, u, hu, hkey⟩ := (h.prevs i t hi).sound j hj
  unfold Mutex.released
  rw [hu]
  exact decide_eq_true (hdone j u hji hu hkey)

theorem Inv.chains_eq_none (h : Inv m) {key : κ}
    (hdone : ∀ u ∈ m.tickets, u.key = key → u.phase = .done) : m.chains key = none := by
  cases hchain : m.chains key with
  | none => rfl
  | some g =>
      obtain ⟨i, u, hu, hkey, -, hundone⟩ := h.entries key g hchain
      exact absurd (hdone u (List.mem_of_getElem? hu) hkey) hundone

/-! ## A new ticket -/

variable [DecidableEq κ]

theorem enter_ticket (key : κ) (j : Nat) :
    (m.enter key).tickets[j]? =
      if j = m.tickets.length then some { key := key, prev := m.gate key, phase := .waiting }
      else m.tickets[j]? :=
  Table.getElem?_added j

theorem enter_ticket_lt (key : κ) {j : Nat} (h : j < m.tickets.length) :
    (m.enter key).tickets[j]? = m.tickets[j]? := by
  rw [enter_ticket, if_neg (by omega)]

theorem length_enter (key : κ) : (m.enter key).tickets.length = m.tickets.length + 1 := by
  unfold Mutex.enter
  rw [List.length_append, List.length_singleton]

theorem enter_gate_self (key : κ) :
    (m.enter key).gate key = .chained (m.gate key) m.tickets.length := by
  show (Function.update m.chains key _ key).getD _ = _
  rw [Function.update_self]
  rfl

theorem enter_gate_of_ne {key key' : κ} (h : key' ≠ key) :
    (m.enter key).gate key' = m.gate key' := by
  show (Function.update m.chains key _ key').getD _ = _
  rw [Function.update_of_ne h]
  rfl

theorem Covers.enter {n : Nat} {key : κ} {g : Gate} (h : Covers m n key g)
    (hn : n ≤ m.tickets.length) (key' : κ) : Covers (m.enter key') n key g where
  sound j hj := by
    obtain ⟨hlt, hticket⟩ := h.sound j hj
    rw [enter_ticket_lt key' (by omega)]
    exact ⟨hlt, hticket⟩
  complete j t hlt hget := by
    rw [enter_ticket_lt key' (by omega)] at hget
    exact h.complete j t hlt hget

theorem Inv.enter (h : Inv m) (key : κ) : Inv (m.enter key) where
  gates key' := by
    rw [length_enter]
    have hold := (h.gates key').enter (Nat.le_refl _) key
    by_cases hkey : key' = key
    · subst hkey
      rw [enter_gate_self]
      constructor
      · intro j hj
        rcases List.mem_append.1 hj with hj | hj
        · obtain ⟨hlt, hticket⟩ := hold.sound j hj
          exact ⟨by omega, hticket⟩
        · rw [List.mem_singleton.1 hj, enter_ticket, if_pos rfl]
          exact ⟨by omega, _, rfl, rfl⟩
      · intro j t hlt hget hkey
        by_cases hj : j = m.tickets.length
        · exact .inl (List.mem_append_right _ (List.mem_singleton.2 hj))
        · exact (hold.complete j t (by omega) hget hkey).imp (List.mem_append_left _) id
    · rw [enter_gate_of_ne hkey]
      constructor
      · intro j hj
        obtain ⟨hlt, hticket⟩ := hold.sound j hj
        exact ⟨by omega, hticket⟩
      · intro j t hlt hget htkey
        by_cases hj : j = m.tickets.length
        · rw [enter_ticket, if_pos hj] at hget
          cases hget
          exact absurd htkey.symm hkey
        · exact hold.complete j t (by omega) hget htkey
  prevs i t hget := by
    rw [enter_ticket] at hget
    split at hget
    · next hi =>
        cases hget
        rw [hi]
        exact (h.gates key).enter (Nat.le_refl _) key
    · exact (h.prevs i t hget).enter (Nat.le_of_lt (lt_of_ticket hget)) key
  order i j t u hji hi hj hkey hbegun := by
    rw [enter_ticket] at hi
    split at hi
    · cases hi
      exact absurd rfl hbegun
    · have hlt := lt_of_ticket hi
      rw [enter_ticket_lt key (by omega)] at hj
      exact h.order i j t u hji hi hj hkey hbegun
  entries key' g hg := by
    by_cases hkey : key' = key
    · subst hkey
      have hself : some (Gate.chained (m.gate key') m.tickets.length) = some g :=
        (Function.update_self key' _ m.chains).symm.trans hg
      exact ⟨m.tickets.length, _, by rw [enter_ticket, if_pos rfl], rfl,
        (Option.some.inj hself).symm, Phase.noConfusion⟩
    · have hother : m.chains key' = some g := (Function.update_of_ne hkey _ m.chains).symm.trans hg
      obtain ⟨i, t, hget, htkey, hchain, hphase⟩ := h.entries key' g hother
      exact ⟨i, t, by rw [enter_ticket_lt key (lt_of_ticket hget), hget], htkey, hchain, hphase⟩

/-! ## A ticket that is done -/

theorem evict_of_ne {key : κ} (h : key ≠ t.key) : m.evict i t key = m.chains key := by
  unfold Mutex.evict
  split
  · exact Function.update_of_ne h _ _
  · rfl

theorem Inv.release (h : Inv m) (hget : m.tickets[i]? = some t) (hphase : t.phase = .running) :
    Inv { (m.replace i { t with phase := .done }) with chains := m.evict i t } := by
  have hbegun : t.phase ≠ .waiting := by
    rw [hphase]
    exact Phase.noConfusion
  have hundone : t.phase ≠ .done := by
    rw [hphase]
    exact Phase.noConfusion
  have hcovers : ∀ {n : Nat} {key : κ} {g : Gate}, Covers m n key g →
      Covers { (m.replace i { t with phase := .done }) with chains := m.evict i t } n key g :=
    fun hc => hc.replace hget hundone rfl
  constructor
  · intro key
    have hlength : (m.tickets.set i { t with phase := .done }).length = m.tickets.length :=
      List.length_set
    show Covers _ (m.tickets.set i _).length key ((m.evict i t key).getD .resolved)
    rw [hlength]
    by_cases hown : key = t.key ∧ m.chains t.key = some (.chained t.prev i)
    · -- nobody has asked for the key since, and everybody before is done
      obtain ⟨rfl, hown⟩ := hown
      have hnone : m.evict i t t.key = none := by
        rw [Mutex.evict, if_pos hown, Function.update_self]
      rw [hnone]
      refine ⟨fun _ hj => (by cases hj), fun j u hlt hu hkey => .inr ?_⟩
      have hu' : (m.replace i { t with phase := .done }).tickets[j]? = some u := hu
      rw [replace_ticket hget] at hu'
      by_cases hji : j = i
      · rw [if_pos hji] at hu'
        cases hu'
        rfl
      · rw [if_neg hji] at hu'
        rcases (h.gates t.key).complete j u hlt hu' hkey with hmem | hdone
        · rw [Mutex.gate, hown, Option.getD_some, Gate.waiters] at hmem
          have hprev : j ∈ t.prev.waiters :=
            (List.mem_append.1 hmem).resolve_right fun hlast => hji (List.mem_singleton.1 hlast)
          exact h.order i j t u ((h.prevs i t hget).sound j hprev).1 hget hu' hkey hbegun
        · exact hdone
    · have hsame : m.evict i t key = m.chains key := by
        by_cases hkey : key = t.key
        · rw [Mutex.evict, if_neg fun hchain => hown ⟨hkey, hchain⟩]
        · exact evict_of_ne hkey
      rw [hsame]
      exact hcovers (h.gates key)
  · intro j u hu
    have hu' : (m.replace i { t with phase := .done }).tickets[j]? = some u := hu
    rw [replace_ticket hget] at hu'
    split at hu'
    · next hji =>
        cases hu'
        rw [hji]
        exact hcovers (h.prevs i t hget)
    · exact hcovers (h.prevs j u hu')
  · intro j k u v hkj hj hk hkey hbegun'
    have hj' : (m.replace i { t with phase := .done }).tickets[j]? = some u := hj
    have hk' : (m.replace i { t with phase := .done }).tickets[k]? = some v := hk
    rw [replace_ticket hget] at hj' hk'
    by_cases hki : k = i
    · rw [if_pos hki] at hk'
      cases hk'
      rfl
    · rw [if_neg hki] at hk'
      by_cases hji : j = i
      · subst hji
        rw [if_pos rfl] at hj'
        cases hj'
        exact h.order j k t v hkj hget hk' hkey hbegun
      · rw [if_neg hji] at hj'
        exact h.order j k u v hkj hj' hk' hkey hbegun'
  · intro key g hg
    have hentry : m.chains key = some g ∧ (key = t.key → g ≠ .chained t.prev i) := by
      by_cases hkey : key = t.key
      · subst hkey
        have hg' : m.evict i t t.key = some g := hg
        unfold Mutex.evict at hg'
        split at hg'
        · rw [Function.update_self] at hg'
          cases hg'
        · next hother => exact ⟨hg', fun _ hchain => hother (hchain ▸ hg')⟩
      · exact ⟨(evict_of_ne hkey).symm.trans hg, fun h => absurd h hkey⟩
    obtain ⟨j, u, hu, hkey, hchain, hundone'⟩ := h.entries key g hentry.1
    have hji : j ≠ i := by
      rintro rfl
      rw [hget] at hu
      cases hu
      exact hentry.2 hkey.symm hchain
    refine ⟨j, u, ?_, hkey, hchain, hundone'⟩
    show (m.replace i _).tickets[j]? = _
    rw [replace_ticket hget, if_neg hji, hu]

/-! ## Every step -/

theorem inv_step {m' : Mutex κ} (h : Inv m) (hstep : Step m m') : Inv m' := by
  cases hstep with
  | enter key => exact h.enter key
  | begin hget hphase hprev => exact h.begin hget hphase hprev
  | release hget hphase => exact h.release hget hphase

end Ap3xSolana.Lib.KeyedMutex
