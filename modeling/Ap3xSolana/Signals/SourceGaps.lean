import Mathlib.Data.List.Induction
import Ap3xSolana.Signals.Sources

/-!
# The gaps of a live source

The source compares every transaction with the one before it, also where that one was out of
order, and so it can report a gap over slots that it has received or reported already.
`gaps_sound_iff` says for which orders of slots that does not happen.
-/

namespace Ap3xSolana.Signals.GeyserSignalSource

open Ap3xSolana.Signals

variable {δ : Type}

/-! ## The property -/

/-- The slots of the transactions, in the order in which they come. -/
def receivedSlots (updates : List (GeyserUpdate × Int)) : List Nat :=
  updates.filterMap fun u => (extractTxUpdate u.1).map (·.slot)

def gapsOf (events : List (SourceEvent δ)) : List GapEvent :=
  events.filterMap fun e =>
    match e with
    | .gap g => some g
    | .signal _ => none

/-- The gaps emitted for the updates, from the start of the source. -/
def gaps (opts : SourceOpts δ) (updates : List (GeyserUpdate × Int)) : List GapEvent :=
  gapsOf (receive opts 0 updates)

/-- `lastSlot` after the updates. -/
def lastSlotAfter (opts : SourceOpts δ) (updates : List (GeyserUpdate × Int)) : Nat :=
  updates.foldl (fun lastSlot u => (onUpdate opts lastSlot u.1 u.2).1) 0

/-- The gaps that the next update gives. -/
def newGaps (opts : SourceOpts δ) (updates : List (GeyserUpdate × Int))
    (u : GeyserUpdate × Int) : List GapEvent :=
  gapsOf (onUpdate opts (lastSlotAfter opts updates) u.1 u.2).2

def Covers (g : GapEvent) (slot : Nat) : Prop := g.fromSlot ≤ slot ∧ slot ≤ g.toSlot

/-- No slot is in both. -/
def Apart (g g' : GapEvent) : Prop := ∀ slot, Covers g slot → ¬ Covers g' slot

structure GapsSound (opts : SourceOpts δ) (updates : List (GeyserUpdate × Int)) : Prop where
  nonempty : ∀ g ∈ gaps opts updates, g.fromSlot ≤ g.toSlot
  disjoint : (gaps opts updates).Pairwise Apart
  /-- A gap holds no slot that came before it. -/
  unseen : ∀ before u after, updates = before ++ u :: after →
    ∀ g ∈ newGaps opts before u, ∀ slot ∈ receivedSlots before, ¬ Covers g slot

/-! ## The orders of slots -/

/-- A slot up to `low` is followed by one from `high` on, with no slot 0 from one to the other. -/
def ClimbsPast (slots : List Nat) (low high : Nat) : Prop :=
  ∃ before p between q after, slots = before ++ p :: (between ++ q :: after) ∧
    0 ∉ p :: between ∧ p ≤ low ∧ high ≤ q

/-- Where a slot is more than one above the one before it, the slots so far are outside, and
those above them came before those below. -/
def JumpsFresh (slots : List Nat) : Prop :=
  ∀ before low high after, slots = before ++ low :: high :: after → low ≠ 0 → low + 1 < high →
    (∀ slot ∈ before, slot ≤ low ∨ high ≤ slot) ∧ ¬ ClimbsPast before low high

/-! ## One update -/

/-- The gap between a transaction and the next, if any. -/
def jump (low high : Nat) : List GapEvent :=
  if low ≠ 0 ∧ low + 1 < high then
    [{ fromSlot := low + 1, toSlot := high - 1, reason := .skip }]
  else []

theorem mem_jump {g : GapEvent} {low high : Nat} :
    g ∈ jump low high ↔ (low ≠ 0 ∧ low + 1 < high) ∧
      g = { fromSlot := low + 1, toSlot := high - 1, reason := .skip } := by
  unfold jump
  split
  · next hjump => simp [hjump]
  · next hjump => simp [hjump]

theorem gapsOf_append (events events' : List (SourceEvent δ)) :
    gapsOf (events ++ events') = gapsOf events ++ gapsOf events' := List.filterMap_append

theorem gapsOf_signals (signals : List (Signal δ)) : gapsOf (signals.map .signal) = [] :=
  List.filterMap_eq_nil_iff.2 fun e he => by
    obtain ⟨signal, -, rfl⟩ := List.mem_map.1 he
    rfl

/-- An update that is no transaction changes nothing. -/
theorem onUpdate_none (opts : SourceOpts δ) (lastSlot : Nat) {u : GeyserUpdate × Int}
    (hu : extractTxUpdate u.1 = none) : onUpdate opts lastSlot u.1 u.2 = (lastSlot, []) := by
  unfold onUpdate
  rw [hu]

theorem onUpdate_some (opts : SourceOpts δ) (lastSlot : Nat) {u : GeyserUpdate × Int}
    {tx : GeyserTxUpdate} (hu : extractTxUpdate u.1 = some tx) :
    (onUpdate opts lastSlot u.1 u.2).1 = tx.slot ∧
      gapsOf (onUpdate opts lastSlot u.1 u.2).2 = jump lastSlot tx.slot := by
  unfold onUpdate
  rw [hu]
  refine ⟨rfl, ?_⟩
  dsimp only
  rw [gapsOf_append, gapsOf_signals, List.append_nil]
  unfold jump
  split <;> rfl

theorem receive_append (opts : SourceOpts δ) (lastSlot : Nat)
    (updates updates' : List (GeyserUpdate × Int)) :
    receive opts lastSlot (updates ++ updates') =
      receive opts lastSlot updates ++
        receive opts (updates.foldl (fun l u => (onUpdate opts l u.1 u.2).1) lastSlot)
          updates' := by
  induction updates generalizing lastSlot with
  | nil => rfl
  | cons u updates ih =>
      rw [List.cons_append, receive, receive, ih, List.append_assoc]
      rfl

theorem gaps_concat (opts : SourceOpts δ) (updates : List (GeyserUpdate × Int))
    (u : GeyserUpdate × Int) :
    gaps opts (updates ++ [u]) = gaps opts updates ++ newGaps opts updates u := by
  unfold gaps
  rw [receive_append, gapsOf_append, receive, receive, List.append_nil]
  rfl

theorem receivedSlots_concat (updates : List (GeyserUpdate × Int)) (u : GeyserUpdate × Int) :
    receivedSlots (updates ++ [u]) =
      receivedSlots updates ++ ((extractTxUpdate u.1).map (·.slot)).toList := by
  unfold receivedSlots
  rw [List.filterMap_append]
  cases hu : extractTxUpdate u.1 <;> simp [hu]

theorem lastSlotAfter_eq (opts : SourceOpts δ) (updates : List (GeyserUpdate × Int)) :
    lastSlotAfter opts updates = (receivedSlots updates).getLast?.getD 0 := by
  induction updates using List.reverseRecOn with
  | nil => rfl
  | append_singleton updates u ih =>
      have hstep : lastSlotAfter opts (updates ++ [u]) =
          (onUpdate opts (lastSlotAfter opts updates) u.1 u.2).1 := by
        unfold lastSlotAfter
        rw [List.foldl_append]
        rfl
      rw [hstep, receivedSlots_concat]
      cases hu : extractTxUpdate u.1 with
      | none =>
          rw [onUpdate_none opts _ hu, ih]
          show _ = (receivedSlots updates ++ []).getLast?.getD 0
          rw [List.append_nil]
      | some tx =>
          rw [(onUpdate_some opts _ hu).1]
          show _ = (receivedSlots updates ++ [tx.slot]).getLast?.getD 0
          rw [List.getLast?_concat]
          rfl

/-! ## Gaps are jumps -/

/-- Two transactions one after the other. -/
def Adjacent (slots : List Nat) (p q : Nat) : Prop :=
  ∃ before after, slots = before ++ p :: q :: after

theorem adjacent_concat {slots : List Nat} {slot p q : Nat} :
    Adjacent (slots ++ [slot]) p q ↔
      Adjacent slots p q ∨ slots.getLast? = some p ∧ slot = q := by
  constructor
  · rintro ⟨before, after, heq⟩
    rcases List.eq_nil_or_concat after with rfl | ⟨after', last, rfl⟩
    · have hsplit : slots ++ [slot] = (before ++ [p]) ++ [q] := by
        rw [heq, List.append_assoc]
        rfl
      obtain ⟨rfl, hlast⟩ := List.append_inj' hsplit rfl
      cases hlast
      exact .inr ⟨List.getLast?_concat, rfl⟩
    · rw [List.concat_eq_append, ← List.cons_append, ← List.cons_append,
        ← List.append_assoc] at heq
      exact .inl ⟨before, after', (List.append_inj' heq rfl).1⟩
  · rintro (⟨before, after, rfl⟩ | ⟨hlast, rfl⟩)
    · exact ⟨before, after ++ [slot], by simp⟩
    · obtain ⟨before, rfl⟩ := List.getLast?_eq_some_iff.1 hlast
      exact ⟨before, [], by simp⟩

theorem mem_gaps {opts : SourceOpts δ} {updates : List (GeyserUpdate × Int)} {g : GapEvent} :
    g ∈ gaps opts updates ↔ ∃ p q, Adjacent (receivedSlots updates) p q ∧ g ∈ jump p q := by
  induction updates using List.reverseRecOn with
  | nil =>
      constructor
      · intro hg
        cases hg
      · rintro ⟨p, q, ⟨before, after, heq⟩, -⟩
        cases before <;> cases heq
  | append_singleton updates u ih =>
      rw [gaps_concat, List.mem_append, ih, receivedSlots_concat]
      unfold newGaps
      cases hu : extractTxUpdate u.1 with
      | none =>
          rw [onUpdate_none opts _ hu]
          show _ ∨ g ∈ [] ↔ ∃ p q, Adjacent (receivedSlots updates ++ []) p q ∧ _
          rw [List.append_nil]
          exact or_iff_left (List.not_mem_nil)
      | some tx =>
          rw [(onUpdate_some opts _ hu).2, lastSlotAfter_eq]
          show _ ↔ ∃ p q, Adjacent (receivedSlots updates ++ [tx.slot]) p q ∧ _
          simp only [adjacent_concat, or_and_right, exists_or]
          refine or_congr_right ?_
          constructor
          · intro hg
            obtain ⟨⟨hne, hjump⟩, hg'⟩ := mem_jump.1 hg
            cases hlast : (receivedSlots updates).getLast? with
            | none =>
                rw [hlast] at hne
                exact absurd rfl hne
            | some p =>
                rw [hlast] at hg
                exact ⟨p, tx.slot, ⟨rfl, rfl⟩, hg⟩
          · rintro ⟨p, q, ⟨hlast, rfl⟩, hg⟩
            rw [hlast]
            exact hg

/-! ## One more transaction -/

theorem Adjacent.mem {slots : List Nat} {p q : Nat} (h : Adjacent slots p q) :
    p ∈ slots ∧ q ∈ slots := by
  obtain ⟨before, after, rfl⟩ := h
  simp

/-- Outside the slots from one to the other, a climb has a step that passes all of them. -/
theorem climbsPast_iff {slots : List Nat} {low high : Nat}
    (hout : ∀ slot ∈ slots, slot ≤ low ∨ high ≤ slot) :
    ClimbsPast slots low high ↔ ∃ p q, Adjacent slots p q ∧ p ≠ 0 ∧ p ≤ low ∧ high ≤ q := by
  constructor
  · rintro ⟨before, p, between, q, after, rfl, hzero, hp, hq⟩
    induction between generalizing before p with
    | nil =>
        exact ⟨p, q, ⟨before, after, rfl⟩, fun h => hzero (h ▸ List.mem_cons_self), hp, hq⟩
    | cons r between ih =>
        rcases hout r (by simp) with hr | hr
        · have hsplit : before ++ p :: (r :: between ++ q :: after) =
              (before ++ [p]) ++ r :: (between ++ q :: after) := by simp
          rw [hsplit] at hout ⊢
          exact ih (before ++ [p]) r hout (fun h => hzero (List.mem_cons_of_mem _ h)) hr
        · exact ⟨p, r, ⟨before, between ++ q :: after, rfl⟩,
            fun h => hzero (h ▸ List.mem_cons_self), hp, hr⟩
  · rintro ⟨p, q, ⟨before, after, rfl⟩, hne, hp, hq⟩
    exact ⟨before, p, [], q, after, rfl, by simpa using hne.symm, hp, hq⟩

/-- What a transaction after `low` must not do. -/
def FreshNext (before : List Nat) (low high : Nat) : Prop :=
  low ≠ 0 → low + 1 < high →
    (∀ slot ∈ before, slot ≤ low ∨ high ≤ slot) ∧ ¬ ClimbsPast before low high

theorem jumpsFresh_concat (slots : List Nat) (high : Nat) :
    JumpsFresh (slots ++ [high]) ↔
      JumpsFresh slots ∧ ∀ before low, slots = before ++ [low] → FreshNext before low high := by
  constructor
  · intro h
    refine ⟨?_, ?_⟩
    · rintro before low high' after rfl
      exact h before low high' (after ++ [high]) (by simp)
    · rintro before low rfl
      exact h before low high [] (by simp)
  · rintro ⟨hslots, hnext⟩ before low high' after heq
    rcases List.eq_nil_or_concat after with rfl | ⟨after', last, rfl⟩
    · have hsplit : slots ++ [high] = (before ++ [low]) ++ [high'] := by
        rw [heq, List.append_assoc]
        rfl
      obtain ⟨rfl, hlast⟩ := List.append_inj' hsplit rfl
      cases hlast
      exact hnext before low rfl
    · rw [List.concat_eq_append, ← List.cons_append, ← List.cons_append,
        ← List.append_assoc] at heq
      exact hslots before low high' after' (List.append_inj' heq rfl).1

/-- What a new gap must not be. -/
def SoundNext (opts : SourceOpts δ) (updates : List (GeyserUpdate × Int))
    (g : GapEvent) : Prop :=
  (∀ g' ∈ gaps opts updates, Apart g' g) ∧ ∀ slot ∈ receivedSlots updates, ¬ Covers g slot

theorem gapsSound_concat (opts : SourceOpts δ) (updates : List (GeyserUpdate × Int))
    (u : GeyserUpdate × Int) {low high : Nat} (hnew : newGaps opts updates u = jump low high) :
    GapsSound opts (updates ++ [u]) ↔
      GapsSound opts updates ∧ ∀ g ∈ jump low high, SoundNext opts updates g := by
  constructor
  · rintro ⟨hnonempty, hdisjoint, hunseen⟩
    rw [gaps_concat, hnew] at hnonempty hdisjoint
    obtain ⟨hold, -, hboth⟩ := List.pairwise_append.1 hdisjoint
    refine ⟨⟨fun g hg => hnonempty g (List.mem_append_left _ hg), hold, ?_⟩, fun g hg => ⟨?_, ?_⟩⟩
    · rintro before u' after rfl
      exact hunseen before u' (after ++ [u]) (by simp)
    · exact fun g' hg' => hboth g' hg' g hg
    · exact hunseen updates u [] rfl g (hnew ▸ hg)
  · rintro ⟨⟨hnonempty, hdisjoint, hunseen⟩, hnext⟩
    refine ⟨?_, ?_, ?_⟩
    · rw [gaps_concat, hnew]
      intro g hg
      rcases List.mem_append.1 hg with hold | hjump
      · exact hnonempty g hold
      · obtain ⟨⟨-, hlt⟩, rfl⟩ := mem_jump.1 hjump
        exact Nat.le_sub_one_of_lt hlt
    · rw [gaps_concat, hnew]
      refine List.pairwise_append.2 ⟨hdisjoint, ?_, fun g' hg' g hg => (hnext g hg).1 g' hg'⟩
      unfold jump
      split
      · exact List.pairwise_singleton _ _
      · exact List.Pairwise.nil
    · intro before u' after heq
      rcases List.eq_nil_or_concat after with rfl | ⟨after', last, rfl⟩
      · obtain ⟨rfl, hlast⟩ := List.append_inj' heq rfl
        cases hlast
        rw [hnew]
        exact fun g hg => (hnext g hg).2
      · rw [List.concat_eq_append, ← List.cons_append, ← List.append_assoc] at heq
        exact hunseen before u' after' (List.append_inj' heq rfl).1

theorem soundNext_iff {opts : SourceOpts δ} {updates : List (GeyserUpdate × Int)}
    {before : List Nat} {low high : Nat} (hslots : receivedSlots updates = before ++ [low]) :
    (∀ g ∈ jump low high, SoundNext opts updates g) ↔ FreshNext before low high := by
  unfold FreshNext
  constructor
  · intro h hne hjump
    obtain ⟨hgaps, hunseen⟩ := h _ (mem_jump.2 ⟨⟨hne, hjump⟩, rfl⟩)
    have hout : ∀ slot ∈ before, slot ≤ low ∨ high ≤ slot := by
      intro slot hslot
      by_contra hbetween
      refine hunseen slot (hslots ▸ List.mem_append_left _ hslot) ⟨?_, ?_⟩
      · show low + 1 ≤ slot
        omega
      · show slot ≤ high - 1
        omega
    refine ⟨hout, ?_⟩
    rw [climbsPast_iff hout]
    rintro ⟨p, q, ⟨x, y, rfl⟩, hp, hlow, hhigh⟩
    -- the step from one to the other was a gap that holds this one
    have hold : (⟨p + 1, q - 1, .skip⟩ : GapEvent) ∈ gaps opts updates := by
      refine mem_gaps.2 ⟨p, q, ⟨x, y ++ [low], by rw [hslots]; simp⟩, ?_⟩
      exact mem_jump.2 ⟨⟨hp, by omega⟩, rfl⟩
    refine hgaps _ hold (low + 1) ⟨?_, ?_⟩ ⟨Nat.le_refl _, Nat.le_sub_one_of_lt hjump⟩
    · show p + 1 ≤ low + 1
      omega
    · show low + 1 ≤ q - 1
      omega
  · intro h g hg
    obtain ⟨⟨hne, hjump⟩, rfl⟩ := mem_jump.1 hg
    obtain ⟨hout, hclimb⟩ := h hne hjump
    rw [climbsPast_iff hout] at hclimb
    have hall : ∀ slot ∈ before ++ [low], slot ≤ low ∨ high ≤ slot := by
      intro slot hslot
      rcases List.mem_append.1 hslot with hbefore | hlow
      · exact hout slot hbefore
      · exact .inl (List.mem_singleton.1 hlow).le
    constructor
    · intro g' hg' slot hold hnew
      obtain ⟨p, q, hadjacent, hjump'⟩ := mem_gaps.1 hg'
      obtain ⟨⟨hp, hpq⟩, rfl⟩ := mem_jump.1 hjump'
      rw [hslots] at hadjacent
      have hbounds : p + 1 ≤ slot ∧ slot ≤ q - 1 ∧ low + 1 ≤ slot ∧ slot ≤ high - 1 :=
        ⟨hold.1, hold.2, hnew.1, hnew.2⟩
      have hpout := hall p hadjacent.mem.1
      have hqout := hall q hadjacent.mem.2
      rcases adjacent_concat.1 hadjacent with hbefore | ⟨-, rfl⟩
      · exact hclimb ⟨p, q, hbefore, hp, by omega, by omega⟩
      · omega
    · rw [hslots]
      rintro slot hslot ⟨hfirst, hlast⟩
      have hslot' := hall slot hslot
      have hbounds : low + 1 ≤ slot ∧ slot ≤ high - 1 := ⟨hfirst, hlast⟩
      omega

/-- The gaps are sound exactly where the slots jump over none that they have been to or jumped
over. -/
theorem gaps_sound_iff (opts : SourceOpts δ) (updates : List (GeyserUpdate × Int)) :
    GapsSound opts updates ↔ JumpsFresh (receivedSlots updates) := by
  induction updates using List.reverseRecOn with
  | nil =>
      constructor
      · rintro - before low high after heq
        cases before <;> cases heq
      · intro _
        refine ⟨fun g hg => (by cases hg), List.Pairwise.nil, fun before u after heq => ?_⟩
        cases before <;> cases heq
  | append_singleton updates u ih =>
      rw [receivedSlots_concat]
      cases hu : extractTxUpdate u.1 with
      | none =>
          have hnew : newGaps opts updates u = jump 0 0 := by
            unfold newGaps
            rw [onUpdate_none opts _ hu]
            rfl
          rw [gapsSound_concat opts updates u hnew, ih]
          show _ ↔ JumpsFresh (receivedSlots updates ++ [])
          rw [List.append_nil]
          exact and_iff_left fun g hg => absurd rfl (mem_jump.1 hg).1.1
      | some tx =>
          have hnew : newGaps opts updates u =
              jump ((receivedSlots updates).getLast?.getD 0) tx.slot := by
            unfold newGaps
            rw [(onUpdate_some opts _ hu).2, lastSlotAfter_eq]
          rw [gapsSound_concat opts updates u hnew, ih]
          show _ ↔ JumpsFresh (receivedSlots updates ++ [tx.slot])
          rw [jumpsFresh_concat]
          refine and_congr_right fun _ => ?_
          rcases List.eq_nil_or_concat (receivedSlots updates) with hnil | ⟨before, low, hslots⟩
          · rw [hnil]
            constructor
            · rintro - before low heq
              cases before <;> cases heq
            · exact fun _ g hg => absurd rfl (mem_jump.1 hg).1.1
          · rw [List.concat_eq_append] at hslots
            rw [hslots, List.getLast?_concat, Option.getD_some, soundNext_iff hslots]
            constructor
            · intro h before' low' heq
              obtain ⟨rfl, hlow⟩ := List.append_inj' heq rfl
              cases hlow
              exact h
            · exact fun h => h before low rfl

/-- A source without decoders. -/
def silent : SourceOpts Unit :=
  { decoderRegistry := {}
    programIds := []
    dataKind := fun _ => none
    sha256 := fun bytes => bytes }

def ofSlots (slots : List Nat) : List (GeyserUpdate × Int) :=
  slots.map fun slot => (.normalised slot "sig" [], 0)

/-- Slot 12 comes late, and the gap after it holds slot 15. -/
theorem gap_repeated :
    ¬ ∀ (opts : SourceOpts Unit) (updates : List (GeyserUpdate × Int)),
        GapsSound opts updates := by
  intro h
  have hgap : newGaps silent (ofSlots [10, 15, 12]) (.normalised 20 "sig" [], 0) =
      [{ fromSlot := 13, toSlot := 19, reason := .skip }] := rfl
  refine (h silent (ofSlots [10, 15, 12, 20])).unseen (ofSlots [10, 15, 12]) _ [] rfl _
    (hgap ▸ List.mem_cons_self) 15 (by decide) ⟨by decide, by decide⟩

end Ap3xSolana.Signals.GeyserSignalSource
