import Ap3xSolana.Vault.FileVaultStorage

/-!
# Records are whole

All writes of a name share one temporary file.  As long as at most one of them has it open,
what that one renames is the record it was given, and what was renamed is never written again.
`Inv` says so, and `records_whole` what follows for reads and writes.
-/

namespace Ap3xSolana.Vault.FileVaultStorage

open Ap3xSolana.Lib.Run

variable {ρ : Type*}

/-! ## What should hold -/

/-- The record was passed to a write of the name. -/
def Asked (st : State ρ) (name : String) (rec : ρ) : Prop :=
  ∃ (i : Nat) (stage : WriteStage), st.calls[i]? = some (.write name rec stage)

structure Whole (codec : Codec ρ) (st : State ρ) (a : Action ρ) (st' : State ρ) : Prop where
  null : ∀ i name, a = .openRecord i → st'.calls[i]? = some (.read name (.settled .null)) →
    ∀ r ∈ st.renames, r.name ≠ name
  record : ∀ i name result, a = .endOfFile i →
    st'.calls[i]? = some (.read name (.settled result)) →
    ∃ rec, result = .record rec ∧ Asked st name rec
  resolved : ∀ i name rec, a = .chmod i → st'.calls[i]? = some (.write name rec .resolved) →
    ∃ r ∈ st.renames, r.call = i ∧ r.name = name ∧ r.content = some (codec.stringify rec)

/-- The name whose temporary file the call has open. -/
def Call.busy : Call ρ → Option String
  | .write name _ (.writing _ _) => some name
  | _ => none

/-- The name whose temporary file the step opens. -/
def opens (st : State ρ) : Action ρ → Option String
  | .openTmp i =>
      match st.calls[i]? with
      | some (.write name _ .opening) => some name
      | _ => none
  | _ => none

/-- A write opens the temporary file when no other write of its name has it open. -/
def NoOverlap (st : State ρ) (a : Action ρ) (_ : State ρ) : Prop :=
  ∀ name ∈ opens st a, ∀ c ∈ st.calls, c.busy ≠ some name

instance (st : State ρ) (a : Action ρ) (st' : State ρ) : Decidable (NoOverlap st a st') :=
  inferInstanceAs (Decidable (∀ name ∈ opens st a, ∀ c ∈ st.calls, c.busy ≠ some name))

/-! ## The invariant -/

/-- No temporary file. -/
def Settled (st : State ρ) (inode : Nat) : Prop := ∀ name, st.dir (.tmp name) ≠ some inode

/-- The file holds a record that was passed to a write of the name. -/
def Complete (codec : Codec ρ) (st : State ρ) (name : String) (inode : Nat) : Prop :=
  ∃ rec, Asked st name rec ∧ st.inodes[inode]? = some (codec.stringify rec)

def CallOk (codec : Codec ρ) (st : State ρ) (i : Nat) : Call ρ → Prop
  | .write name rec (.writing inode offset) =>
      st.dir (.tmp name) = some inode ∧ offset ≤ (codec.stringify rec).length ∧
        st.inodes[inode]? = some ((codec.stringify rec).take offset)
  | .write name rec .permitting =>
      ∃ r ∈ st.renames, r.call = i ∧ r.name = name ∧ r.content = some (codec.stringify rec)
  | .read name (.reading inode content) =>
      Settled st inode ∧ ∃ rec, Asked st name rec ∧
        st.inodes[inode]? = some (codec.stringify rec) ∧ content <+: codec.stringify rec
  | _ => True

/-- No other call has the temporary file of the name open. -/
def Sole (st : State ρ) (i : Nat) (name : String) : Prop :=
  ∀ (j : Nat) c, j ≠ i → st.calls[j]? = some c → c.busy ≠ some name

/-- What the directory and the files are like. -/
structure FilesOk (codec : Codec ρ) (st : State ρ) : Prop where
  bound : ∀ path inode, st.dir path = some inode → inode < st.inodes.length
  apart : ∀ name path inode, st.dir (.tmp name) = some inode → st.dir path = some inode →
    path = .tmp name
  stored : ∀ name inode, st.dir (.record name) = some inode → Complete codec st name inode
  named : ∀ name, st.dir (.record name) = none → ∀ r ∈ st.renames, r.name ≠ name

structure Inv (codec : Codec ρ) (st : State ρ) : Prop where
  files : FilesOk codec st
  calls : ∀ (i : Nat) c, st.calls[i]? = some c → CallOk codec st i c
  sole : ∀ (i : Nat) c name, st.calls[i]? = some c → c.busy = some name → Sole st i name

theorem inv_init (codec : Codec ρ) : Inv codec {} where
  files :=
    { bound := fun _ _ h => by cases h
      apart := fun _ _ _ h => by cases h
      stored := fun _ _ h => by cases h
      named := fun _ _ _ h => absurd h List.not_mem_nil }
  calls := fun _ _ h => by cases h
  sole := fun _ _ _ h => by cases h

/-! ## What a step leaves alone -/

/-- A step touches the temporary file of one name, or none. -/
structure Touches (st st' : State ρ) (touched : Option String) : Prop where
  inodes : ∀ inode content, st.inodes[inode]? = some content →
    (∀ name, touched = some name → st.dir (.tmp name) ≠ some inode) →
    st'.inodes[inode]? = some content
  tmp : ∀ name, touched ≠ some name → st'.dir (.tmp name) = st.dir (.tmp name)
  fresh : ∀ name inode, touched = some name → inode < st.inodes.length →
    st'.dir (.tmp name) = some inode → st.dir (.tmp name) = some inode
  renames : st.renames ⊆ st'.renames
  asked : ∀ name rec, Asked st name rec → Asked st' name rec

theorem Touches.settled {st st' : State ρ} {touched : Option String}
    (h : Touches st st' touched) {inode : Nat} (hbound : inode < st.inodes.length)
    (hsettled : Settled st inode) : Settled st' inode := by
  intro name hdir
  by_cases hname : touched = some name
  · exact hsettled name (h.fresh name inode hname hbound hdir)
  · rw [h.tmp name hname] at hdir
    exact hsettled name hdir

theorem CallOk.frame {codec : Codec ρ} {st st' : State ρ} {touched : Option String}
    (hfiles : FilesOk codec st) (h : Touches st st' touched) {i : Nat} {c : Call ρ}
    (hcall : CallOk codec st i c) (hother : ∀ name, c.busy = some name → touched ≠ some name) :
    CallOk codec st' i c := by
  cases c with
  | write name rec stage =>
      cases stage with
      | writing inode offset =>
          obtain ⟨hdir, hle, hcontent⟩ := hcall
          have hname : touched ≠ some name := hother name rfl
          refine ⟨(h.tmp name hname).trans hdir, hle, h.inodes inode _ hcontent ?_⟩
          rintro name' rfl hdir'
          cases hfiles.apart name' (.tmp name) inode hdir' hdir
          exact hname rfl
      | permitting =>
          obtain ⟨r, hr, hrest⟩ := hcall
          exact ⟨r, h.renames hr, hrest⟩
      | _ => trivial
  | read name stage =>
      cases stage with
      | reading inode content =>
          obtain ⟨hsettled, rec, hasked, hcontent, hpfx⟩ := hcall
          have hbound := (List.getElem?_eq_some_iff.1 hcontent).1
          exact ⟨h.settled hbound hsettled, rec, h.asked name rec hasked,
            h.inodes inode _ hcontent fun name _ => hsettled name, hpfx⟩
      | _ => trivial

/-- The same call, at another stage. -/
def Call.SameAs : Call ρ → Call ρ → Prop
  | .write name rec _, .write name' rec' _ => name = name' ∧ rec = rec'
  | .read name _, .read name' _ => name = name'
  | _, _ => False

/-- A step of the call `i`. -/
theorem Inv.call {codec : Codec ρ} {st st' : State ρ} (h : Inv codec st) {i : Nat}
    {c c' : Call ρ} (touched : Option String) (hcall : st.calls[i]? = some c)
    (hcalls : st'.calls = st.calls.set i c') (htouches : Touches st st' touched)
    (hbusy : ∀ name, c'.busy = some name → Sole st i name)
    (htouched : ∀ name, touched = some name → Sole st i name)
    (hfiles : FilesOk codec st') (hnew : CallOk codec st' i c') : Inv codec st' := by
  have hlt := (List.getElem?_eq_some_iff.1 hcall).1
  have hcases : ∀ j d, st'.calls[j]? = some d →
      j = i ∧ d = c' ∨ j ≠ i ∧ st.calls[j]? = some d := by
    intro j d hd
    rw [hcalls] at hd
    by_cases hj : j = i
    · subst hj
      rw [List.getElem?_set_self hlt] at hd
      exact .inl ⟨rfl, (Option.some.inj hd).symm⟩
    · rw [List.getElem?_set_ne (Ne.symm hj)] at hd
      exact .inr ⟨hj, hd⟩
  refine ⟨hfiles, fun j d hd => ?_, fun j d name hd hdname k e hk he hename => ?_⟩
  · rcases hcases j d hd with ⟨rfl, rfl⟩ | ⟨hj, hd⟩
    · exact hnew
    · exact (h.calls j d hd).frame h.files htouches fun name hname htouch =>
        htouched name htouch j d hj hd hname
  · rcases hcases j d hd with ⟨rfl, rfl⟩ | ⟨hj, hd⟩
    · rcases hcases k e he with ⟨rfl, rfl⟩ | ⟨hk', he⟩
      · exact hk rfl
      · exact hbusy name hdname k e hk' he hename
    · rcases hcases k e he with ⟨rfl, rfl⟩ | ⟨-, he⟩
      · exact hbusy name hename j d hj hd hdname
      · exact h.sole j d name hd hdname k e hk he hename

theorem asked_set {st st' : State ρ} {i : Nat} {c c' : Call ρ} (hcall : st.calls[i]? = some c)
    (hsame : c.SameAs c') (hcalls : st'.calls = st.calls.set i c') {name : String} {rec : ρ}
    (h : Asked st name rec) : Asked st' name rec := by
  obtain ⟨j, stage, hj⟩ := h
  have hlt := (List.getElem?_eq_some_iff.1 hcall).1
  by_cases hij : j = i
  · subst hij
    rw [hcall] at hj
    cases hj
    cases c' with
    | write name' rec' stage' =>
        obtain ⟨rfl, rfl⟩ := hsame
        exact ⟨j, stage', by rw [hcalls, List.getElem?_set_self hlt]⟩
    | read => exact hsame.elim
  · exact ⟨j, stage, by rw [hcalls, List.getElem?_set_ne (Ne.symm hij)]; exact hj⟩

theorem FilesOk.same {codec : Codec ρ} {st st' : State ρ} (h : FilesOk codec st)
    (hinodes : st'.inodes = st.inodes) (hdir : st'.dir = st.dir)
    (hrenames : st'.renames = st.renames)
    (hasked : ∀ name rec, Asked st name rec → Asked st' name rec) : FilesOk codec st' where
  bound := by
    rw [hdir, hinodes]
    exact h.bound
  apart := by
    rw [hdir]
    exact h.apart
  stored := by
    intro name inode hentry
    rw [hdir] at hentry
    obtain ⟨rec, hrec, hcontent⟩ := h.stored name inode hentry
    exact ⟨rec, hasked name rec hrec, by rw [hinodes, hcontent]⟩
  named := by
    rw [hdir, hrenames]
    exact h.named

theorem touches_same {st st' : State ρ} (hinodes : st'.inodes = st.inodes)
    (hdir : st'.dir = st.dir) (hrenames : st'.renames = st.renames)
    (hasked : ∀ name rec, Asked st name rec → Asked st' name rec) : Touches st st' none where
  inodes := fun inode content hcontent _ => by rw [hinodes, hcontent]
  tmp := fun name _ => by rw [hdir]
  fresh := fun _ _ h => by cases h
  renames := by
    rw [hrenames]
    exact List.Subset.refl _
  asked := hasked

/-- A step that changes no file. -/
theorem Inv.sameFiles {codec : Codec ρ} {st : State ρ} (h : Inv codec st) {i : Nat}
    {c c' : Call ρ} (hcall : st.calls[i]? = some c) (hsame : c.SameAs c')
    (hbusy : c'.busy = none) (hnew : ∀ st' : State ρ, st'.inodes = st.inodes → st'.dir = st.dir →
      st'.renames = st.renames → (∀ name rec, Asked st name rec → Asked st' name rec) →
      CallOk codec st' i c') : Inv codec (setCall st i c') := by
  have hasked : ∀ name rec, Asked st name rec →
      Asked (setCall st i c') name rec :=
    fun name rec => asked_set hcall hsame rfl
  refine h.call none hcall rfl (touches_same rfl rfl rfl hasked) (fun name hname => ?_)
    (fun _ h => by cases h) (h.files.same rfl rfl rfl hasked) (hnew _ rfl rfl rfl hasked)
  rw [hbusy] at hname
  cases hname

/-- A new call. -/
theorem Inv.begin {codec : Codec ρ} {st : State ρ} (h : Inv codec st) {c : Call ρ}
    (hnew : ∀ st' : State ρ, CallOk codec st' st.calls.length c) (hbusy : c.busy = none) :
    Inv codec { st with calls := st.calls ++ [c] } := by
  have hasked : ∀ name rec, Asked st name rec →
      Asked { st with calls := st.calls ++ [c] } name rec := by
    rintro name rec ⟨i, stage, hi⟩
    exact ⟨i, stage, List.getElem?_append_left (List.getElem?_eq_some_iff.1 hi).1 ▸ hi⟩
  have htouches : Touches st { st with calls := st.calls ++ [c] } none :=
    touches_same rfl rfl rfl hasked
  have hcases : ∀ (j : Nat) d, (st.calls ++ [c])[j]? = some d →
      j = st.calls.length ∧ d = c ∨ st.calls[j]? = some d := by
    intro j d hd
    rcases Nat.lt_trichotomy j st.calls.length with hlt | rfl | hgt
    · rw [List.getElem?_append_left hlt] at hd
      exact .inr hd
    · rw [List.getElem?_concat_length] at hd
      exact .inl ⟨rfl, (Option.some.inj hd).symm⟩
    · rw [List.getElem?_eq_none (by simp; omega)] at hd
      cases hd
  refine ⟨h.files.same rfl rfl rfl hasked, fun j d hd => ?_,
    fun j d name hd hdname k e hk he hename => ?_⟩
  · rcases hcases j d hd with ⟨rfl, rfl⟩ | hold
    · exact hnew _
    · exact (h.calls j d hold).frame h.files htouches fun _ _ h => by cases h
  · rcases hcases j d hd with ⟨rfl, rfl⟩ | hold
    · rw [hbusy] at hdname
      cases hdname
    · rcases hcases k e he with ⟨rfl, rfl⟩ | hold'
      · rw [hbusy] at hename
        cases hename
      · exact h.sole j d name hold hdname k e hk hold' hename

/-! ## The steps of a write -/

/-- What `open` does to the temporary file of a name: it is empty, and the name's own. -/
structure OpensTmp (st : State ρ) (name : String) (st' : State ρ) (inode : Nat) : Prop where
  calls : st'.calls = st.calls
  renames : st'.renames = st.renames
  entry : st'.dir (.tmp name) = some inode
  empty : st'.inodes[inode]? = some []
  others : ∀ path, path ≠ .tmp name → st'.dir path = st.dir path
  own : ∀ path, st.dir path = some inode → path = .tmp name
  length : st.inodes.length ≤ st'.inodes.length
  kept : ∀ inode', inode' ≠ inode → inode' < st.inodes.length →
    st'.inodes[inode']? = st.inodes[inode']?
  fresh : inode < st.inodes.length → st.dir (.tmp name) = some inode

theorem openTrunc_opens {codec : Codec ρ} {st : State ρ} (hfiles : FilesOk codec st)
    (name : String) :
    OpensTmp st name (openTrunc st (.tmp name)).1 (openTrunc st (.tmp name)).2 := by
  unfold openTrunc
  cases hdir : st.dir (.tmp name) with
  | some inode =>
      have hlt := hfiles.bound _ inode hdir
      exact
        { calls := rfl
          renames := rfl
          entry := hdir
          empty := List.getElem?_set_self hlt
          others := fun _ _ => rfl
          own := fun path => hfiles.apart name path inode hdir
          length := Nat.le_of_eq List.length_set.symm
          kept := fun inode' hne _ => List.getElem?_set_ne (Ne.symm hne)
          fresh := fun _ => hdir }
  | none =>
      exact
        { calls := rfl
          renames := rfl
          entry := Function.update_self ..
          empty := List.getElem?_concat_length
          others := fun path hne => Function.update_of_ne hne ..
          own := fun path hpath => absurd (hfiles.bound path _ hpath) (Nat.lt_irrefl _)
          length := by simp
          kept := fun inode' _ hlt => List.getElem?_append_left hlt
          fresh := fun hlt => absurd hlt (Nat.lt_irrefl _) }

theorem OpensTmp.filesOk {codec : Codec ρ} {st st' st'' : State ρ} {name : String} {inode : Nat}
    (h : OpensTmp st name st' inode) (hfiles : FilesOk codec st)
    (hinodes : st''.inodes = st'.inodes) (hdir : st''.dir = st'.dir)
    (hrenames : st''.renames = st'.renames)
    (hasked : ∀ name rec, Asked st name rec → Asked st'' name rec) : FilesOk codec st'' where
  bound := by
    intro path inode' hentry
    rw [hdir] at hentry
    rw [hinodes]
    by_cases hpath : path = .tmp name
    · rw [hpath, h.entry] at hentry
      cases hentry
      exact (List.getElem?_eq_some_iff.1 h.empty).1
    · rw [h.others path hpath] at hentry
      exact Nat.lt_of_lt_of_le (hfiles.bound path inode' hentry) h.length
  apart := by
    intro name' path inode' htmp hentry
    rw [hdir] at htmp hentry
    by_cases hpath : path = .tmp name
    · by_cases hname : name' = name
      · rw [hpath, hname]
      · rw [hpath, h.entry] at hentry
        cases hentry
        rw [h.others _ fun heq => hname (Path.tmp.inj heq)] at htmp
        exact absurd (Path.tmp.inj (h.own _ htmp)) hname
    · rw [h.others path hpath] at hentry
      by_cases hname : name' = name
      · rw [hname, h.entry] at htmp
        cases htmp
        exact absurd (h.own path hentry) hpath
      · rw [h.others _ fun heq => hname (Path.tmp.inj heq)] at htmp
        exact hfiles.apart name' path inode' htmp hentry
  stored := by
    intro name' inode' hentry
    rw [hdir, h.others _ Path.noConfusion] at hentry
    obtain ⟨rec, hrec, hcontent⟩ := hfiles.stored name' inode' hentry
    have hne : inode' ≠ inode := by
      rintro rfl
      cases h.own _ hentry
    refine ⟨rec, hasked name' rec hrec, ?_⟩
    rw [hinodes, h.kept inode' hne (hfiles.bound _ inode' hentry), hcontent]
  named := by
    intro name' hentry
    rw [hdir, h.others _ Path.noConfusion] at hentry
    rw [hrenames, h.renames]
    exact hfiles.named name' hentry

theorem Inv.openTmp {codec : Codec ρ} {st : State ρ} (h : Inv codec st) {i : Nat}
    {name : String} {rec : ρ} (hcall : st.calls[i]? = some (.write name rec .opening))
    (halone : ∀ c ∈ st.calls, c.busy ≠ some name) : Inv codec (openTmp st i name rec) := by
  have hsole : Sole st i name := fun j c _ hc => halone c (List.mem_of_getElem? hc)
  have hopens := openTrunc_opens h.files name
  unfold FileVaultStorage.openTmp
  generalize openTrunc st (.tmp name) = opened at hopens ⊢
  obtain ⟨st', inode⟩ := opened
  dsimp only at hopens ⊢
  have hcalls : (setCall st' i (.write name rec (.writing inode 0))).calls =
      st.calls.set i (.write name rec (.writing inode 0)) := by
    show st'.calls.set i _ = _
    rw [hopens.calls]
  have hsame : (Call.write name rec .opening).SameAs (.write name rec (.writing inode 0)) :=
    ⟨rfl, rfl⟩
  have hasked : ∀ name' rec', Asked st name' rec' →
      Asked (setCall st' i (.write name rec (.writing inode 0))) name' rec' :=
    fun name' rec' => asked_set hcall hsame hcalls
  refine h.call (some name) hcall hcalls ?_ (fun _ h => Option.some.inj h ▸ hsole)
    (fun _ h => Option.some.inj h ▸ hsole) (hopens.filesOk h.files rfl rfl rfl hasked) ?_
  · refine ⟨fun inode' content hcontent htmp => ?_, fun name' hname => ?_,
      fun name' inode' hname hlt hentry => ?_, ?_, hasked⟩
    · have hlt := (List.getElem?_eq_some_iff.1 hcontent).1
      have hne : inode' ≠ inode := by
        rintro rfl
        exact htmp name rfl (hopens.fresh hlt)
      exact (hopens.kept inode' hne hlt).trans hcontent
    · exact hopens.others _ fun heq => hname (congrArg some (Path.tmp.inj heq).symm)
    · cases hname
      have hentry' : some inode = some inode' := hopens.entry.symm.trans hentry
      cases hentry'
      exact hopens.fresh hlt
    · show st.renames ⊆ st'.renames
      rw [hopens.renames]
      exact List.Subset.refl _
  · exact ⟨hopens.entry, Nat.zero_le _, hopens.empty⟩

/-- A writer at the end of the file appends. -/
theorem writeAt_take (content : List UInt8) (offset size : Nat) (hle : offset ≤ content.length) :
    writeAt (content.take offset) offset ((content.drop offset).take size) =
      content.take (offset + ((content.drop offset).take size).length) := by
  have hlength : (content.take offset).length = offset := List.length_take_of_le hle
  have hrest : (content.take offset).drop
      (offset + ((content.drop offset).take size).length) = [] :=
    List.drop_eq_nil_of_le (by omega)
  have htake : (content.drop offset).take size =
      (content.drop offset).take ((content.drop offset).take size).length := by
    rw [List.take_eq_take_iff]
    simp
  unfold writeAt
  rw [hlength, Nat.sub_self, List.take_take, Nat.min_self, hrest, List.replicate_zero,
    List.append_nil, List.append_nil, List.take_add, ← htake]

theorem Inv.writeChunk {codec : Codec ρ} {st : State ρ} (h : Inv codec st) {i : Nat}
    {name : String} {rec : ρ} {inode offset : Nat}
    (hcall : st.calls[i]? = some (.write name rec (.writing inode offset))) (size : Nat) :
    Inv codec (writeChunk codec st i name rec inode offset size) := by
  obtain ⟨hentry, hle, hcontent⟩ := h.calls i _ hcall
  unfold FileVaultStorage.writeChunk
  dsimp only
  generalize hchunk : ((codec.stringify rec).drop offset).take size = chunk
  have hsame : (Call.write name rec (.writing inode offset)).SameAs
      (.write name rec (.writing inode (offset + chunk.length))) := ⟨rfl, rfl⟩
  have hasked : ∀ name' rec', Asked st name' rec' →
      Asked (setCall { st with inodes := st.inodes.modify inode (writeAt · offset chunk) } i
        (.write name rec (.writing inode (offset + chunk.length)))) name' rec' :=
    fun name' rec' => asked_set hcall hsame rfl
  have hkept : ∀ inode', inode' ≠ inode →
      (st.inodes.modify inode (writeAt · offset chunk))[inode']? = st.inodes[inode']? :=
    fun inode' hne => List.getElem?_modify_ne _ _ (Ne.symm hne)
  have hsole : Sole st i name := h.sole i _ name hcall rfl
  refine h.call (some name) hcall rfl ?_ (fun _ h => Option.some.inj h ▸ hsole)
    (fun _ h => Option.some.inj h ▸ hsole) ?_ ?_
  · refine ⟨fun inode' content hcontent' htmp => ?_, fun _ _ => rfl, fun _ _ _ _ hentry' => hentry',
      List.Subset.refl _, hasked⟩
    have hne : inode' ≠ inode := by
      rintro rfl
      exact htmp name rfl hentry
    exact (hkept inode' hne).trans hcontent'
  · refine ⟨fun path inode' hpath => ?_, h.files.apart, fun name' inode' hentry' => ?_,
      h.files.named⟩
    · show inode' < (st.inodes.modify _ _).length
      rw [List.length_modify]
      exact h.files.bound path inode' hpath
    · obtain ⟨rec', hrec', hcontent'⟩ := h.files.stored name' inode' hentry'
      have hne : inode' ≠ inode := by
        rintro rfl
        cases h.files.apart name _ _ hentry hentry'
      exact ⟨rec', hasked name' rec' hrec', (hkept inode' hne).trans hcontent'⟩
  · have hwritten : writeAt ((codec.stringify rec).take offset) offset chunk =
        (codec.stringify rec).take (offset + chunk.length) := by
      rw [← hchunk]
      exact writeAt_take _ offset size hle
    refine ⟨hentry, ?_, ?_⟩
    · rw [← hchunk, List.length_take, List.length_drop]
      omega
    · show (st.inodes.modify inode _)[inode]? = _
      rw [List.getElem?_modify_eq, hcontent]
      exact congrArg some hwritten

/-- What `rename` does to the directory. -/
theorem dir_rename (dir : Path → Option Nat) (name : String) (inode : Nat) :
    let dir' := Function.update (Function.update dir (.record name) (some inode)) (.tmp name) none
    dir' (.tmp name) = none ∧ dir' (.record name) = some inode ∧
      ∀ name', name' ≠ name →
        dir' (.tmp name') = dir (.tmp name') ∧ dir' (.record name') = dir (.record name') := by
  refine ⟨Function.update_self .., ?_, fun name' hname => ⟨?_, ?_⟩⟩
  · rw [Function.update_of_ne Path.noConfusion, Function.update_self]
  · rw [Function.update_of_ne fun heq => hname (Path.tmp.inj heq),
      Function.update_of_ne Path.noConfusion]
  · rw [Function.update_of_ne Path.noConfusion,
      Function.update_of_ne fun heq => hname (Path.record.inj heq)]

theorem FilesOk.rename {codec : Codec ρ} {st st' : State ρ} (h : FilesOk codec st)
    {name : String} {inode : Nat} {r : Renamed} (hentry : st.dir (.tmp name) = some inode)
    (hcomplete : Complete codec st' name inode) (hinodes : st'.inodes = st.inodes)
    (htmp : st'.dir (.tmp name) = none) (hrecord : st'.dir (.record name) = some inode)
    (hothers : ∀ name', name' ≠ name → st'.dir (.tmp name') = st.dir (.tmp name') ∧
      st'.dir (.record name') = st.dir (.record name'))
    (hasked : ∀ name rec, Asked st name rec → Asked st' name rec)
    (hrenames : st'.renames = st.renames ++ [r]) (hr : r.name = name) : FilesOk codec st' := by
  have htmps : ∀ name' inode', st'.dir (.tmp name') = some inode' →
      name' ≠ name ∧ st.dir (.tmp name') = some inode' := by
    intro name' inode' hdir
    by_cases hname : name' = name
    · rw [hname, htmp] at hdir
      cases hdir
    · exact ⟨hname, (hothers name' hname).1.symm.trans hdir⟩
  have hrecords : ∀ name' inode', st'.dir (.record name') = some inode' →
      name' = name ∧ inode' = inode ∨ name' ≠ name ∧ st.dir (.record name') = some inode' := by
    intro name' inode' hdir
    by_cases hname : name' = name
    · rw [hname, hrecord] at hdir
      exact .inl ⟨hname, (Option.some.inj hdir).symm⟩
    · exact .inr ⟨hname, (hothers name' hname).2.symm.trans hdir⟩
  refine ⟨fun path inode' hdir => ?_, fun name' path inode' hdir hpath => ?_,
    fun name' inode' hdir => ?_, fun name' hnone r' hr' => ?_⟩
  · rw [hinodes]
    cases path with
    | tmp name' => exact h.bound _ inode' (htmps name' inode' hdir).2
    | record name' =>
        rcases hrecords name' inode' hdir with ⟨-, rfl⟩ | ⟨-, hold⟩
        · exact h.bound _ inode' hentry
        · exact h.bound _ inode' hold
  · obtain ⟨hname, hold⟩ := htmps name' inode' hdir
    cases path with
    | tmp name'' => exact h.apart name' _ inode' hold (htmps name'' inode' hpath).2
    | record name'' =>
        rcases hrecords name'' inode' hpath with ⟨-, rfl⟩ | ⟨-, hold'⟩
        · exact absurd (Path.tmp.inj (h.apart name _ inode' hentry hold)) hname
        · exact h.apart name' _ inode' hold hold'
  · rcases hrecords name' inode' hdir with ⟨rfl, rfl⟩ | ⟨-, hold⟩
    · exact hcomplete
    · obtain ⟨rec, hrec, hcontent⟩ := h.stored name' inode' hold
      exact ⟨rec, hasked name' rec hrec, hinodes ▸ hcontent⟩
  · have hname : name' ≠ name := by
      rintro rfl
      rw [hrecord] at hnone
      cases hnone
    rw [hrenames] at hr'
    rcases List.mem_append.1 hr' with hold | hnew
    · exact h.named name' ((hothers name' hname).2.symm.trans hnone) r' hold
    · rw [List.mem_singleton.1 hnew, hr]
      exact Ne.symm hname

theorem Inv.rename {codec : Codec ρ} {st : State ρ} (h : Inv codec st) {i : Nat}
    {name : String} {rec : ρ} {inode : Nat}
    (hcall : st.calls[i]? =
      some (.write name rec (.writing inode (codec.stringify rec).length))) :
    Inv codec (rename st i name rec) := by
  obtain ⟨hentry, -, hcontent⟩ := h.calls i _ hcall
  rw [List.take_length] at hcontent
  obtain ⟨htmp, hrecord, hothers⟩ := dir_rename st.dir name inode
  have hrenamed : renameFile st (.tmp name) (.record name) =
      some { st with
        dir := Function.update (Function.update st.dir (.record name) (some inode))
          (.tmp name) none } := by
    simp only [renameFile, hentry, Option.map_some]
  unfold FileVaultStorage.rename
  rw [hrenamed]
  dsimp only
  generalize Function.update (Function.update st.dir (.record name) (some inode)) (.tmp name)
    none = dir' at htmp hrecord hothers ⊢
  have hread : contentOf { st with dir := dir' } (.record name) =
      some (codec.stringify rec) := by
    simp only [contentOf, hrecord, Option.bind_some, hcontent]
  rw [hread]
  have hsame : (Call.write name rec (.writing inode (codec.stringify rec).length)).SameAs
      (.write name rec .permitting) := ⟨rfl, rfl⟩
  generalize hst' : ({ setCall { st with dir := dir' } i (.write name rec .permitting) with
    renames := _ } : State ρ) = st'
  have hcalls : st'.calls = st.calls.set i (.write name rec .permitting) := by rw [← hst']; rfl
  have hinodes : st'.inodes = st.inodes := by rw [← hst']; rfl
  have hdir : st'.dir = dir' := by rw [← hst']; rfl
  have hrenames : st'.renames =
      st.renames ++ [{ call := i, name := name, content := some (codec.stringify rec) }] := by
    rw [← hst']
  have hasked : ∀ name' rec', Asked st name' rec' → Asked st' name' rec' :=
    fun name' rec' => asked_set hcall hsame hcalls
  have hsole : Sole st i name := h.sole i _ name hcall rfl
  refine h.call (some name) hcall hcalls ?_ (fun _ h => by cases h)
    (fun _ h => Option.some.inj h ▸ hsole) ?_ ?_
  · refine ⟨fun _ _ h _ => hinodes ▸ h, fun name' hname => ?_, fun name' _ hname _ hnone => ?_,
      fun r hr => ?_, hasked⟩
    · rw [hdir]
      exact (hothers name' fun heq => hname (congrArg some heq.symm)).1
    · cases hname
      rw [hdir, htmp] at hnone
      cases hnone
    · rw [hrenames]
      exact List.mem_append_left _ hr
  · exact h.files.rename hentry ⟨rec, hasked name rec ⟨i, _, hcall⟩, hinodes ▸ hcontent⟩ hinodes
      (hdir ▸ htmp) (hdir ▸ hrecord) (hdir ▸ hothers) hasked hrenames rfl
  · refine ⟨_, hrenames ▸ List.mem_append_right _ (List.mem_singleton_self _), rfl, rfl, rfl⟩

theorem Inv.chmod {codec : Codec ρ} {st : State ρ} (h : Inv codec st) {i : Nat}
    {name : String} {rec : ρ} (hcall : st.calls[i]? = some (.write name rec .permitting)) :
    Inv codec (setCall st i (.write name rec .resolved)) :=
  h.sameFiles hcall ⟨rfl, rfl⟩ rfl fun _ _ _ _ _ => trivial

theorem Inv.fail {codec : Codec ρ} {st : State ρ} (h : Inv codec st) {i : Nat}
    {name : String} {rec : ρ} {stage : WriteStage}
    (hcall : st.calls[i]? = some (.write name rec stage)) :
    Inv codec (setCall st i (.write name rec .rejected)) :=
  h.sameFiles hcall ⟨rfl, rfl⟩ rfl fun _ _ _ _ _ => trivial

theorem Inv.write {codec : Codec ρ} {st : State ρ} (h : Inv codec st) (name : String) (rec : ρ) :
    Inv codec { st with calls := st.calls ++ [.write name rec .opening] } :=
  h.begin (fun _ => trivial) rfl

/-! ## The steps of a read -/

theorem Inv.read {codec : Codec ρ} {st : State ρ} (h : Inv codec st) (name : String) :
    Inv codec { st with calls := st.calls ++ [.read name .opening] } :=
  h.begin (fun _ => trivial) rfl

theorem Inv.openRecord {codec : Codec ρ} {st : State ρ} (h : Inv codec st) {i : Nat}
    {name : String} (hcall : st.calls[i]? = some (.read name .opening)) :
    Inv codec (openRecord st i name) := by
  unfold FileVaultStorage.openRecord
  cases hdir : st.dir (.record name) with
  | none => exact h.sameFiles hcall rfl rfl fun _ _ _ _ _ => trivial
  | some inode =>
      refine h.sameFiles hcall rfl rfl fun st' hinodes hsame _ hasked => ?_
      obtain ⟨rec, hrec, hcontent⟩ := h.files.stored name inode hdir
      refine ⟨fun name' htmp => ?_, rec, hasked name rec hrec, hinodes ▸ hcontent,
        List.nil_prefix⟩
      rw [hsame] at htmp
      cases h.files.apart name' _ inode htmp hdir

/-- A prefix grows by what follows it. -/
theorem prefix_append_drop {content file : List UInt8} (h : content <+: file) (size : Nat) :
    content ++ (file.drop content.length).take size <+: file := by
  obtain ⟨rest, rfl⟩ := h
  rw [List.drop_left]
  exact (List.prefix_append_right_inj content).2 (List.take_prefix size rest)

theorem Inv.readChunk {codec : Codec ρ} {st : State ρ} (h : Inv codec st) {i : Nat}
    {name : String} {inode : Nat} {content file : List UInt8}
    (hcall : st.calls[i]? = some (.read name (.reading inode content)))
    (hfile : st.inodes[inode]? = some file) (size : Nat) :
    Inv codec (setCall st i
      (.read name (.reading inode (content ++ (file.drop content.length).take size)))) := by
  obtain ⟨hsettled, rec, hrec, hcontent, hpfx⟩ := h.calls i _ hcall
  rw [hfile] at hcontent
  cases hcontent
  refine h.sameFiles hcall rfl rfl fun st' hinodes hdir _ hasked => ?_
  refine ⟨fun name' htmp => hsettled name' (hdir ▸ htmp), rec, hasked name rec hrec,
    hinodes ▸ hfile, prefix_append_drop hpfx size⟩

theorem Inv.endOfFile {codec : Codec ρ} {st : State ρ} (h : Inv codec st) {i : Nat}
    {name : String} {inode : Nat} {content : List UInt8}
    (hcall : st.calls[i]? = some (.read name (.reading inode content)))
    (result : ReadResult ρ) :
    Inv codec (setCall st i (.read name (.settled result))) :=
  h.sameFiles hcall rfl rfl fun _ _ _ _ _ => trivial

/-! ## A crash -/

theorem Call.busy_dropped (c : Call ρ) : c.dropped.busy = none := by
  cases c with
  | write name rec stage => cases stage <;> rfl
  | read name stage => cases stage <;> rfl

theorem callOk_dropped (codec : Codec ρ) (st : State ρ) (i : Nat) (c : Call ρ) :
    CallOk codec st i c.dropped := by
  cases c with
  | write name rec stage => cases stage <;> trivial
  | read name stage => cases stage <;> trivial

theorem asked_crash {st : State ρ} {name : String} {rec : ρ} (h : Asked st name rec) :
    Asked { st with calls := st.calls.map Call.dropped } name rec := by
  obtain ⟨i, stage, hi⟩ := h
  have hdropped : ∃ stage', (Call.write name rec stage).dropped = .write name rec stage' := by
    cases stage <;> exact ⟨_, rfl⟩
  obtain ⟨stage', hstage'⟩ := hdropped
  refine ⟨i, stage', ?_⟩
  rw [List.getElem?_map, hi, Option.map_some, hstage']

theorem Inv.crash {codec : Codec ρ} {st : State ρ} (h : Inv codec st) :
    Inv codec { st with calls := st.calls.map Call.dropped } := by
  have hdropped : ∀ (i : Nat) c, (st.calls.map Call.dropped)[i]? = some c →
      ∃ d : Call ρ, c = d.dropped := by
    intro i c hc
    rw [List.getElem?_map, Option.map_eq_some_iff] at hc
    obtain ⟨d, -, rfl⟩ := hc
    exact ⟨d, rfl⟩
  refine ⟨h.files.same rfl rfl rfl fun _ _ => asked_crash, fun i c hc => ?_,
    fun i c name hc hbusy => ?_⟩
  · obtain ⟨d, rfl⟩ := hdropped i c hc
    exact callOk_dropped codec _ i d
  · obtain ⟨d, rfl⟩ := hdropped i c hc
    rw [Call.busy_dropped] at hbusy
    cases hbusy

/-! ## Runs -/

/-- Every step keeps the invariant, but for an `open` that truncates another's file. -/
theorem step_inv {codec : Codec ρ} {st st' : State ρ} {a : Action ρ} (h : Inv codec st)
    (hstep : step codec st a = some st') (halone : NoOverlap st a st') : Inv codec st' := by
  cases a with
  | write name rec =>
      cases hstep
      exact h.write name rec
  | openTmp i =>
      simp only [step] at hstep
      split at hstep
      · next name rec hcall =>
          cases hstep
          exact h.openTmp hcall (halone name (by simp [opens, hcall]))
      · cases hstep
  | writeChunk i size =>
      simp only [step] at hstep
      split at hstep
      · next name rec inode offset hcall =>
          cases hstep
          exact h.writeChunk hcall size
      · cases hstep
  | rename i =>
      simp only [step] at hstep
      split at hstep
      · next name rec inode offset hcall =>
          split at hstep
          · next hoffset =>
              cases hstep
              subst hoffset
              exact h.rename hcall
          · cases hstep
      · cases hstep
  | chmod i =>
      simp only [step] at hstep
      split at hstep
      · next name rec hcall =>
          cases hstep
          exact h.chmod hcall
      · cases hstep
  | fail i =>
      simp only [step] at hstep
      split at hstep
      · next name rec hcall =>
          cases hstep
          exact h.fail hcall
      · next name rec inode offset hcall =>
          cases hstep
          exact h.fail hcall
      · cases hstep
  | read name =>
      cases hstep
      exact h.read name
  | openRecord i =>
      simp only [step] at hstep
      split at hstep
      · next name hcall =>
          cases hstep
          exact h.openRecord hcall
      · cases hstep
  | readChunk i size =>
      simp only [step] at hstep
      split at hstep
      · next name inode content hcall =>
          obtain ⟨file, hfile, rfl⟩ := Option.map_eq_some_iff.1 hstep
          exact h.readChunk hcall hfile size
      · cases hstep
  | endOfFile i =>
      simp only [step] at hstep
      split at hstep
      · next name inode content hcall =>
          split at hstep
          · cases hstep
            exact h.endOfFile hcall _
          · cases hstep
      · cases hstep
  | crash =>
      cases hstep
      exact h.crash

/-- The call that a step moved on, as it then is. -/
theorem setCall_self {st : State ρ} {i : Nat} {c c' : Call ρ} (hcall : st.calls[i]? = some c) :
    (setCall st i c').calls[i]? = some c' :=
  List.getElem?_set_self (List.getElem?_eq_some_iff.1 hcall).1

theorem openRecord_null {codec : Codec ρ} {st st' : State ρ} (h : Inv codec st) {i : Nat}
    (hstep : step codec st (.openRecord i) = some st') {name : String}
    (hnull : st'.calls[i]? = some (.read name (.settled .null))) :
    ∀ r ∈ st.renames, r.name ≠ name := by
  simp only [step] at hstep
  split at hstep
  · next name' hcall =>
      cases hstep
      unfold openRecord at hnull
      split at hnull
      · next hdir =>
          rw [setCall_self hcall] at hnull
          cases hnull
          exact h.files.named name hdir
      · rw [setCall_self hcall] at hnull
        cases hnull
  · cases hstep

/-- What a read saw to the end of the file is a record that was passed to a write. -/
theorem endOfFile_record {codec : Codec ρ}
    (hcodec : ∀ rec, codec.parse (codec.stringify rec) = .ok rec) {st st' : State ρ}
    (h : Inv codec st) {i : Nat} (hstep : step codec st (.endOfFile i) = some st')
    {name : String} {result : ReadResult ρ}
    (hresult : st'.calls[i]? = some (.read name (.settled result))) :
    ∃ rec, result = .record rec ∧ Asked st name rec := by
  simp only [step] at hstep
  split at hstep
  · next name' inode content hcall =>
      obtain ⟨-, rec, hrec, hcontent, hpfx⟩ := h.calls i _ hcall
      rw [hcontent] at hstep
      split at hstep
      · next hlength =>
          cases hstep
          rw [setCall_self hcall] at hresult
          cases hresult
          have hwhole : content = codec.stringify rec :=
            hpfx.eq_of_length_le (by simpa using hlength)
          refine ⟨rec, ?_, hrec⟩
          rw [hwhole, parsed, hcodec]
      · cases hstep
  · cases hstep

theorem chmod_resolved {codec : Codec ρ} {st st' : State ρ} (h : Inv codec st) {i : Nat}
    (hstep : step codec st (.chmod i) = some st') {name : String} {rec : ρ}
    (hresolved : st'.calls[i]? = some (.write name rec .resolved)) :
    ∃ r ∈ st.renames, r.call = i ∧ r.name = name ∧ r.content = some (codec.stringify rec) := by
  simp only [step] at hstep
  split at hstep
  · next name' rec' hcall =>
      cases hstep
      rw [setCall_self hcall] at hresolved
      cases hresolved
      exact h.calls i _ hcall
  · cases hstep

theorem step_whole {codec : Codec ρ}
    (hcodec : ∀ rec, codec.parse (codec.stringify rec) = .ok rec) {st st' : State ρ}
    {a : Action ρ} (h : Inv codec st) (hstep : step codec st a = some st') :
    Whole codec st a st' where
  null := by
    rintro i name rfl
    exact openRecord_null h hstep
  record := by
    rintro i name result rfl
    exact endOfFile_record hcodec h hstep
  resolved := by
    rintro i name rec rfl
    exact chmod_resolved h hstep

/-- As long as no two writes have one temporary file open, a read returns `null` only before
the first rename, and otherwise a record that a write was given; and a write that resolves has
renamed its own. -/
theorem records_whole (codec : Codec ρ)
    (hcodec : ∀ rec, codec.parse (codec.stringify rec) = .ok rec) (acts : List (Action ρ))
    (halone : Along (step codec) NoOverlap {} acts) :
    Along (step codec) (Whole codec) {} acts :=
  along_of_inv (Inv codec)
    (fun st a st' (h : Inv codec st) (hstep : step codec st a = some st')
        (hok : NoOverlap st a st') =>
      ⟨step_whole hcodec h hstep, step_inv h hstep hok⟩)
    acts {} (inv_init codec) halone

/-! ## An overlap -/

/-- A record is what stands before the last brace. -/
def braced : Codec (List UInt8) where
  stringify rec := rec ++ [125]
  parse content :=
    if content.getLast? = some 125 then .ok content.dropLast
    else .error "Unexpected end of JSON input"

theorem braced_roundTrip (rec : List UInt8) : braced.parse (braced.stringify rec) = .ok rec := by
  simp [braced]

/-- A write, with a read under way that began before it, and a second write. -/
theorem records_whole_inTurn :
    Along (step braced) (Whole braced) {}
      [.write "main" [1, 2], .read "main", .write "main" [3], .openTmp 0, .writeChunk 0 1,
        .writeChunk 0 2, .rename 0, .openRecord 1, .readChunk 1 2, .openTmp 2, .writeChunk 2 2,
        .rename 2, .readChunk 1 2, .endOfFile 1, .chmod 0, .chmod 2] :=
  records_whole braced braced_roundTrip _ (by decide)

/-- The second write truncates the file that the first has written and is about to rename. -/
def overlapping : List (Action (List UInt8)) :=
  [.write "main" [1, 2], .write "main" [3], .openTmp 0, .writeChunk 0 3, .openTmp 1, .rename 0,
    .read "main", .openRecord 2]

theorem overlap_tears :
    ¬ Along (step braced) (Whole braced) {} (overlapping ++ [.endOfFile 2]) := by
  intro h
  obtain ⟨st, hst, hwhole⟩ := h.last rfl
  cases hst
  obtain ⟨rec, hrec, -⟩ :=
    hwhole.record 2 "main" (.threw "Unexpected end of JSON input") rfl rfl
  cases hrec

end Ap3xSolana.Vault.FileVaultStorage
