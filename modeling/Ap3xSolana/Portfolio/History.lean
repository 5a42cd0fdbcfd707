import Mathlib.Data.List.Nodup
import Ap3xSolana.Portfolio.Reconstructor

/-!
# What the walk finds

The walk takes a page at a time, and a page takes an entry at a time.  `Walked` says
what it knows after a part of the history it has not stopped in, `Finished` what it
returns: the changes back to the one that opened the position, wherever the pages end
(`walkPages_finished`).  It ends, since each page it goes on from has a signature it has
not seen (`walkPages_ends`).
-/

namespace Ap3xSolana.Portfolio.Reconstructor

open Ap3xSolana.Core

variable (rpc : RpcPool) (wallet mint : PublicKey)

/-! ## The history -/

/-- The change of the balance in the transaction of an entry. -/
def entryChange (e : SignatureEntry) : Option BalanceChange :=
  (transactionOf rpc e).bind (changeOf wallet mint e)

/-- The changes of the balance, newest first. -/
def changesOf (es : List SignatureEntry) : List BalanceChange :=
  es.filterMap (entryChange rpc wallet mint)

/-- The slot of the last entry with a transaction that did not fail. -/
def oldestSlot (es : List SignatureEntry) : Nat :=
  es.foldl (fun slot e => if (transactionOf rpc e).isSome then e.slot else slot) 0

/-- The changes up to the one that opened the position. -/
def sinceOpened : List BalanceChange → List BalanceChange
  | [] => []
  | c :: cs => if c.pre = 0 then [c] else c :: sinceOpened cs

/-- None of the changes opened a position. -/
def Unopened (cs : List BalanceChange) : Prop := ∀ c ∈ cs, c.pre ≠ 0

@[simp] theorem sinceOpened_nil : sinceOpened [] = [] := rfl

theorem sinceOpened_append {cs : List BalanceChange} (h : Unopened cs)
    (cs' : List BalanceChange) : sinceOpened (cs ++ cs') = cs ++ sinceOpened cs' := by
  induction cs with
  | nil => rfl
  | cons c cs ih =>
      obtain ⟨hc, hcs⟩ := List.forall_mem_cons.1 h
      rw [List.cons_append, sinceOpened, if_neg hc, ih hcs, List.cons_append]

theorem Unopened.sinceOpened_eq {cs : List BalanceChange} (h : Unopened cs) :
    sinceOpened cs = cs := by
  have happend := sinceOpened_append h []
  rwa [List.append_nil, sinceOpened_nil, List.append_nil] at happend

/-- What `sinceOpened` leaves out is before a change that starts from nothing. -/
theorem sinceOpened_split (cs : List BalanceChange) :
    Unopened cs ∨
      ∃ newer c older, cs = newer ++ c :: older ∧ c.pre = 0 ∧
        sinceOpened cs = newer ++ [c] := by
  induction cs with
  | nil => exact .inl (List.forall_mem_nil _)
  | cons c cs ih =>
      by_cases hc : c.pre = 0
      · refine .inr ⟨[], c, cs, rfl, hc, ?_⟩
        rw [sinceOpened, if_pos hc]
        rfl
      · rcases ih with h | ⟨newer, d, older, rfl, hd, hsince⟩
        · exact .inl (List.forall_mem_cons.2 ⟨hc, h⟩)
        · refine .inr ⟨c :: newer, d, older, rfl, hd, ?_⟩
          rw [sinceOpened, if_neg hc, hsince]
          rfl

theorem changesOf_append (es es' : List SignatureEntry) :
    changesOf rpc wallet mint (es ++ es') =
      changesOf rpc wallet mint es ++ changesOf rpc wallet mint es' :=
  List.filterMap_append

theorem changesOf_singleton (e : SignatureEntry) :
    changesOf rpc wallet mint [e] = (entryChange rpc wallet mint e).toList := by
  unfold changesOf
  cases h : entryChange rpc wallet mint e with
  | none => rw [List.filterMap_cons_none h]; rfl
  | some c => rw [List.filterMap_cons_some h]; rfl

theorem oldestSlot_concat (es : List SignatureEntry) (e : SignatureEntry) :
    oldestSlot rpc (es ++ [e]) =
      if (transactionOf rpc e).isSome then e.slot else oldestSlot rpc es := by
  unfold oldestSlot
  rw [List.foldl_append]
  rfl

/-! ## What the walk knows -/

/-- The walk after entries it has not stopped in. -/
structure Walked (es : List SignatureEntry) (w : Walk) : Prop where
  changes : w.changes = changesOf rpc wallet mint es
  unopened : Unopened w.changes
  oldest : w.oldestSlotWalked = oldestSlot rpc es
  seen : w.seen = es.map (·.signature)

/-- What the walk through a whole history returns. -/
structure Finished (es : List SignatureEntry) (w : Walk) : Prop where
  changes : w.changes = sinceOpened (changesOf rpc wallet mint es)
  oldest : Unopened (changesOf rpc wallet mint es) → w.oldestSlotWalked = oldestSlot rpc es

variable {rpc wallet mint}

theorem Walked.start : Walked rpc wallet mint [] {} :=
  ⟨rfl, List.forall_mem_nil _, rfl, rfl⟩

theorem Walked.finished {es : List SignatureEntry} {w : Walk}
    (h : Walked rpc wallet mint es w) : Finished rpc wallet mint es w := by
  have hunopened := h.unopened
  rw [h.changes] at hunopened
  refine ⟨?_, fun _ => h.oldest⟩
  rw [hunopened.sinceOpened_eq, h.changes]

/-- One entry: the walk goes on, or it has found the change that opened the position. -/
theorem walkEntry_walked {cutoffMs : Int} {es : List SignatureEntry} {w : Walk}
    (h : Walked rpc wallet mint es w) {e : SignatureEntry}
    (hcut : beforeCutoff cutoffMs e = false) (rest : List SignatureEntry) :
    ((walkEntry rpc wallet mint cutoffMs w e).2 = false →
      Walked rpc wallet mint (es ++ [e]) (walkEntry rpc wallet mint cutoffMs w e).1) ∧
    ((walkEntry rpc wallet mint cutoffMs w e).2 = true →
      Finished rpc wallet mint (es ++ e :: rest)
        (walkEntry rpc wallet mint cutoffMs w e).1) := by
  have hseen : w.seen ++ [e.signature] = (es ++ [e]).map (·.signature) := by
    rw [h.seen, List.map_append]
    rfl
  have hslot := oldestSlot_concat rpc es e
  have hchanges := changesOf_append rpc wallet mint es [e]
  rw [changesOf_singleton, ← h.changes] at hchanges
  unfold walkEntry
  dsimp only
  rw [if_neg (by simp [hcut])]
  unfold entryChange at hchanges
  cases htx : transactionOf rpc e with
  | none =>
      rw [htx] at hslot hchanges
      refine ⟨fun _ => ⟨?_, h.unopened, ?_, hseen⟩, nofun⟩
      · rw [hchanges]
        exact (List.append_nil _).symm
      · rw [hslot]
        exact h.oldest
  | some tx =>
      rw [htx, Option.isSome_some, if_pos rfl] at hslot
      rw [htx, Option.bind_some] at hchanges
      dsimp only
      cases hc : changeOf wallet mint e tx with
      | none =>
          rw [hc] at hchanges
          refine ⟨fun _ => ⟨?_, h.unopened, hslot.symm, hseen⟩, nofun⟩
          rw [hchanges]
          exact (List.append_nil _).symm
      | some c =>
          rw [hc] at hchanges
          refine ⟨fun hpre => ⟨hchanges.symm, ?_, hslot.symm, hseen⟩, fun hpre => ?_⟩
          · have hpre : c.pre ≠ 0 := of_decide_eq_false hpre
            intro c' hc'
            rcases List.mem_append.1 hc' with hc' | hc'
            · exact h.unopened c' hc'
            · rwa [List.mem_singleton.1 hc']
          · have hpre : c.pre = 0 := of_decide_eq_true hpre
            have hall : changesOf rpc wallet mint (es ++ e :: rest) =
                w.changes ++ c :: changesOf rpc wallet mint rest := by
              rw [List.append_cons, changesOf_append, hchanges]
              simp
            constructor
            · rw [hall, sinceOpened_append h.unopened, sinceOpened, if_pos hpre]
            · intro hunopened
              rw [hall] at hunopened
              exact absurd hpre (hunopened c (by simp))

/-- The entries of a page. -/
theorem walkEntries_walked {cutoffMs : Int} (page : List SignatureEntry) :
    ∀ {es : List SignatureEntry} {w : Walk}, Walked rpc wallet mint es w →
    (∀ e ∈ page, beforeCutoff cutoffMs e = false) → ∀ rest,
    ((walkEntries rpc wallet mint cutoffMs w page).2 = false →
      Walked rpc wallet mint (es ++ page) (walkEntries rpc wallet mint cutoffMs w page).1) ∧
    ((walkEntries rpc wallet mint cutoffMs w page).2 = true →
      Finished rpc wallet mint (es ++ (page ++ rest))
        (walkEntries rpc wallet mint cutoffMs w page).1) := by
  induction page with
  | nil =>
      intro es w h _ rest
      refine ⟨fun _ => ?_, nofun⟩
      rwa [List.append_nil]
  | cons e page ih =>
      intro es w h hcut rest
      obtain ⟨hcutE, hcutPage⟩ := List.forall_mem_cons.1 hcut
      obtain ⟨hon, hover⟩ := walkEntry_walked h hcutE (page ++ rest)
      unfold walkEntries
      rcases hstep : walkEntry rpc wallet mint cutoffMs w e with ⟨w', stop⟩
      rw [hstep] at hon hover
      cases stop with
      | true => exact ⟨nofun, fun _ => hover rfl⟩
      | false =>
          obtain ⟨hon', hover'⟩ := ih (hon rfl) hcutPage rest
          rw [List.append_assoc] at hon'
          rw [List.append_assoc] at hover'
          exact ⟨hon', hover'⟩

/-! ## Paging -/

variable (rpc wallet) in
/-- The node serves the history `es`, newest first: before a signature comes what
follows it, up to a page's end, and only the last page may be short. -/
structure Serves (es : List SignatureEntry) : Prop where
  signatures : ∀ e ∈ es, e.signature ≠ ""
  nodup : (es.map (·.signature)).Nodup
  pages : ∀ known older, es = known ++ older → ∃ page rest, older = page ++ rest ∧
    rpc.getSignaturesForAddress wallet (known.getLast?.map (·.signature)) = page ∧
    (rest ≠ [] → sigPageSize ≤ page.length)

theorem truthy_of_ne {s : String} (h : s ≠ "") : truthy (some s) = some s :=
  Option.filter_some_pos (decide_eq_true h)

theorem Serves.truthy_cursor {known older : List SignatureEntry}
    (h : Serves rpc wallet (known ++ older)) :
    truthy (known.getLast?.map (·.signature)) = known.getLast?.map (·.signature) := by
  cases hlast : known.getLast? with
  | none => rfl
  | some e =>
      have hmem := List.mem_append_left older (List.mem_of_getLast? hlast)
      exact truthy_of_ne (h.signatures e hmem)

/-- What comes after the entries seen is fresh. -/
theorem Serves.fresh {known page rest : List SignatureEntry}
    (h : Serves rpc wallet (known ++ (page ++ rest))) :
    page.filter (fun s => !(known.map (·.signature)).contains s.signature) = page := by
  rw [List.filter_eq_self]
  intro e he
  have hnodup := h.nodup
  rw [List.map_append] at hnodup
  have hdisjoint := List.disjoint_of_nodup_append hnodup
  have hnot : e.signature ∉ known.map (·.signature) := fun hmem =>
    hdisjoint hmem (List.mem_map_of_mem (List.mem_append_left rest he))
  simpa using hnot

/-- Whatever the paging, the walk returns the changes back to the one that opened the
position. -/
theorem walkPages_finished {cutoffMs : Int} {es : List SignatureEntry}
    (h : Serves rpc wallet es) (hcut : ∀ e ∈ es, beforeCutoff cutoffMs e = false)
    (turns : Nat) :
    ∀ {known older : List SignatureEntry} {w w' : Walk}, es = known ++ older →
    Walked rpc wallet mint known w →
    walkPages rpc wallet mint cutoffMs turns w (known.getLast?.map (·.signature)) = some w' →
    Finished rpc wallet mint es w' := by
  induction turns with
  | zero => exact fun _ _ hwalk => nomatch hwalk
  | succ turns ih =>
      intro known older w w' hes hw hwalk
      obtain ⟨page, rest, rfl, hpage, hfull⟩ := h.pages known older hes
      have hserves := h
      rw [hes] at hserves
      -- a page that is not full ends the history
      have hend : page.length < sigPageSize → es = known ++ page := by
        intro hlen
        have hrest : rest = [] := by
          by_contra hne
          have := hfull hne
          omega
        rw [hes, hrest, List.append_nil]
      have hcutPage : ∀ e ∈ page, beforeCutoff cutoffMs e = false := by
        intro e he
        apply hcut
        rw [hes]
        simp [he]
      unfold walkPages at hwalk
      dsimp only at hwalk
      rw [hserves.truthy_cursor, hpage, hw.seen, hserves.fresh] at hwalk
      by_cases hempty : page = []
      · rw [if_pos hempty] at hwalk
        obtain rfl := Option.some.inj hwalk
        rw [hend (by rw [hempty]; decide), hempty, List.append_nil]
        exact hw.finished
      · rw [if_neg hempty] at hwalk
        obtain ⟨hon, hover⟩ := walkEntries_walked page hw hcutPage rest
        rcases hstep : walkEntries rpc wallet mint cutoffMs w page with ⟨w₁, stop⟩
        rw [hstep] at hon hover hwalk
        cases stop with
        | true =>
            obtain rfl := Option.some.inj hwalk
            rw [hes]
            exact hover rfl
        | false =>
            have hw₁ := hon rfl
            dsimp only at hwalk
            by_cases hlast : page.length < sigPageSize
            · rw [if_pos hlast] at hwalk
              obtain rfl := Option.some.inj hwalk
              rw [hend hlast]
              exact hw₁.finished
            · rw [if_neg hlast] at hwalk
              rw [← List.append_assoc] at hes
              refine ih hes hw₁ ?_
              rwa [List.getLast?_append_of_ne_nil known hempty]

/-! ## Where changes come from -/

variable (rpc wallet mint) in
/-- A change of the balance in a transaction that the node has. -/
def Found (c : BalanceChange) : Prop :=
  ∃ e tx, rpc.getTransaction e.signature = some tx ∧ changeOf wallet mint e tx = some c

theorem found_of_transactionOf {e : SignatureEntry} {tx : RpcTransaction}
    {c : BalanceChange} (htx : transactionOf rpc e = some tx)
    (hc : changeOf wallet mint e tx = some c) : Found rpc wallet mint c := by
  unfold transactionOf at htx
  split at htx
  · cases htx
  · exact ⟨e, tx, (Option.filter_eq_some_iff.1 htx).1, hc⟩

theorem found_of_mem_changesOf {es : List SignatureEntry} {c : BalanceChange}
    (h : c ∈ changesOf rpc wallet mint es) : Found rpc wallet mint c := by
  obtain ⟨e, _, hc⟩ := List.mem_filterMap.1 h
  obtain ⟨tx, htx, hc⟩ := Option.bind_eq_some_iff.1 hc
  exact found_of_transactionOf htx hc

theorem walkEntry_found (cutoffMs : Int) {w : Walk} (e : SignatureEntry)
    (h : ∀ c ∈ w.changes, Found rpc wallet mint c) :
    ∀ c ∈ (walkEntry rpc wallet mint cutoffMs w e).1.changes, Found rpc wallet mint c := by
  unfold walkEntry
  dsimp only
  split
  · exact h
  · split
    · exact h
    · rename_i tx htx
      split
      · exact h
      · rename_i c hc
        intro c' hc'
        rcases List.mem_append.1 hc' with hc' | hc'
        · exact h c' hc'
        · rw [List.mem_singleton.1 hc']
          exact found_of_transactionOf htx hc

theorem walkEntries_found (cutoffMs : Int) (page : List SignatureEntry) :
    ∀ {w : Walk}, (∀ c ∈ w.changes, Found rpc wallet mint c) →
    ∀ c ∈ (walkEntries rpc wallet mint cutoffMs w page).1.changes,
      Found rpc wallet mint c := by
  induction page with
  | nil => exact fun h => h
  | cons e page ih =>
      intro w h
      have hstep := walkEntry_found cutoffMs e h
      unfold walkEntries
      rcases heq : walkEntry rpc wallet mint cutoffMs w e with ⟨w₁, stop⟩
      rw [heq] at hstep
      cases stop with
      | true => exact hstep
      | false => exact ih hstep

theorem walkPages_found {cutoffMs : Int} (turns : Nat) :
    ∀ {w w' : Walk} {before : Option String},
    walkPages rpc wallet mint cutoffMs turns w before = some w' →
    (∀ c ∈ w.changes, Found rpc wallet mint c) →
    ∀ c ∈ w'.changes, Found rpc wallet mint c := by
  induction turns with
  | zero => exact fun h => nomatch h
  | succ turns ih =>
      intro w w' before hwalk h
      unfold walkPages at hwalk
      dsimp only at hwalk
      split at hwalk
      · obtain rfl := Option.some.inj hwalk
        exact h
      · have hpage := walkEntries_found cutoffMs
          ((rpc.getSignaturesForAddress wallet (truthy before)).filter
            fun s => !w.seen.contains s.signature) h
        split at hwalk
        · rename_i w₁ heq
          obtain rfl := Option.some.inj hwalk
          rwa [heq] at hpage
        · rename_i w₁ heq
          rw [heq] at hpage
          split at hwalk
          · obtain rfl := Option.some.inj hwalk
            exact hpage
          · exact ih hwalk hpage

/-! ## The walk ends -/

variable (rpc wallet mint) in
theorem walkEntry_seen (cutoffMs : Int) (w : Walk) (e : SignatureEntry) :
    (walkEntry rpc wallet mint cutoffMs w e).1.seen = w.seen ++ [e.signature] := by
  unfold walkEntry
  dsimp only
  split
  · rfl
  · split
    · rfl
    · split <;> rfl

/-- A page that the walk goes on from has been seen. -/
theorem walkEntries_seen {cutoffMs : Int} (page : List SignatureEntry) :
    ∀ {w w' : Walk}, walkEntries rpc wallet mint cutoffMs w page = (w', false) →
    w'.seen = w.seen ++ page.map (·.signature) := by
  induction page with
  | nil =>
      intro w w' h
      obtain rfl : w = w' := (Prod.mk.inj h).1
      simp
  | cons e page ih =>
      intro w w' h
      have hseen := walkEntry_seen rpc wallet mint cutoffMs w e
      unfold walkEntries at h
      rcases hstep : walkEntry rpc wallet mint cutoffMs w e with ⟨w₁, stop⟩
      rw [hstep] at h hseen
      cases stop with
      | true => cases h
      | false =>
          rw [ih h, hseen, List.map_cons, List.append_assoc]
          rfl

/-- The signatures of `sigs` that a walk has not seen. -/
def unseen (sigs : List String) (w : Walk) : List String :=
  sigs.filter fun s => !w.seen.contains s

/-- Seeing a signature that was unseen leaves fewer. -/
theorem length_unseen_lt {sigs : List String} {w w' : Walk} {s : String}
    (hgrow : ∀ t ∈ w.seen, t ∈ w'.seen) (hmem : s ∈ sigs) (hold : s ∉ w.seen)
    (hnew : s ∈ w'.seen) : (unseen sigs w').length < (unseen sigs w).length := by
  have hfilter : unseen sigs w' = (unseen sigs w).filter fun s => !w'.seen.contains s := by
    unfold unseen
    rw [List.filter_filter]
    apply List.filter_congr
    intro t _
    by_cases ht : t ∈ w.seen
    · simp [ht, hgrow t ht]
    · simp [ht]
  rw [hfilter, List.length_filter_lt_length_iff_exists]
  refine ⟨s, List.mem_filter.2 ⟨hmem, ?_⟩, ?_⟩
  · simpa using hold
  · simpa using hnew

/-- With more turns than there are signatures the walk ends. -/
theorem walkPages_ends (mint : PublicKey) (cutoffMs : Int) {sigs : List String}
    (h : ∀ before, ∀ e ∈ rpc.getSignaturesForAddress wallet before, e.signature ∈ sigs)
    (turns : Nat) :
    ∀ {w : Walk} (before : Option String), (unseen sigs w).length < turns →
    ∃ w', walkPages rpc wallet mint cutoffMs turns w before = some w' := by
  induction turns with
  | zero => exact fun _ hlt => absurd hlt (Nat.not_lt_zero _)
  | succ turns ih =>
      intro w before hlt
      unfold walkPages
      dsimp only
      by_cases hempty : (rpc.getSignaturesForAddress wallet (truthy before)).filter
          (fun s => !w.seen.contains s.signature) = []
      · rw [if_pos hempty]
        exact ⟨w, rfl⟩
      · rw [if_neg hempty]
        rcases hstep : walkEntries rpc wallet mint cutoffMs w
          ((rpc.getSignaturesForAddress wallet (truthy before)).filter
            fun s => !w.seen.contains s.signature) with ⟨w₁, stop⟩
        cases stop with
        | true => exact ⟨w₁, rfl⟩
        | false =>
            dsimp only
            split
            · exact ⟨w₁, rfl⟩
            · refine ih _ (lt_of_lt_of_le ?_ (Nat.le_of_lt_succ hlt))
              have hseen := walkEntries_seen _ hstep
              obtain ⟨e, he⟩ := List.exists_mem_of_ne_nil _ hempty
              obtain ⟨hpage, hold⟩ := List.mem_filter.1 he
              refine length_unseen_lt (s := e.signature) ?_ (h _ e hpage) (by simpa using hold) ?_
              · intro t ht
                rw [hseen]
                exact List.mem_append_left _ ht
              · rw [hseen]
                exact List.mem_append_right _ (List.mem_map_of_mem he)

end Ap3xSolana.Portfolio.Reconstructor
