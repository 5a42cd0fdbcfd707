import Ap3xSolana.Lib.Grouping
import Ap3xSolana.Tx.TransactionAssembler

/-!
# What `compileAccounts` computes

The accounts of a transaction are its distinct keys in order of first mention,
each with the permissions of all its mentions together (`collectAccounts_values`).
`indexByBase58` maps a key to its place in the resolved account list
(`index_get?`), and the lookup section lists, table by table, the positions of
the looked-up accounts (`buildAddressTableLookups_eq`).
-/

namespace Ap3xSolana.Tx.CompileAccounts

open Ap3xSolana.Core Ap3xSolana.Lib Ap3xSolana.Lib.Grouping
open Ap3xSolana.Tx.TransactionAssembler

/-! ## Mentions -/

/-- Every mention of an account, in the order `compileAccounts` sees them. -/
def mentions (instructions : List Instruction) (payer : PublicKey) :
    List AccountMeta :=
  { pubkey := payer, isSigner := true, isWritable := true } ::
    instructions.flatMap fun ix =>
      { pubkey := ix.programId, isSigner := false, isWritable := false } :: ix.keys

/-- Some mention of the key asks for a signature. -/
def signs (ms : List AccountMeta) (key : PublicKey) : Bool :=
  ms.any fun m => m.pubkey = key && m.isSigner

/-- Some mention of the key asks for write access. -/
def writes (ms : List AccountMeta) (key : PublicKey) : Bool :=
  ms.any fun m => m.pubkey = key && m.isWritable

/-- The distinct keys, in order of first mention. -/
def mentionedKeys (ms : List AccountMeta) : List PublicKey :=
  firstSeen (ms.map (·.pubkey))

def mentionInfo (ms : List AccountMeta) (key : PublicKey) : AccountInfo :=
  { pubkey := key, isSigner := signs ms key, isWritable := writes ms key, alt := none }

theorem collectAccounts_eq_foldl (instructions : List Instruction)
    (payer : PublicKey) :
    collectAccounts instructions payer =
      (mentions instructions payer).foldl upsert .empty := by
  rw [collectAccounts, mentions, List.foldl_cons, List.foldl_flatMap]
  rfl

theorem keys_upsert (byKey : OrderedMap PublicKey AccountInfo) (m : AccountMeta) :
    (upsert byKey m).keys = addSeen byKey.keys m.pubkey := by
  unfold upsert addSeen
  split <;> rw [OrderedMap.keys_set]

theorem get?_foldl_upsert (ms : List AccountMeta) (key : PublicKey) :
    (ms.foldl upsert .empty).get? key =
      if key ∈ ms.map (·.pubkey) then some (mentionInfo ms key) else none := by
  induction ms using List.reverseRecOn generalizing key with
  | nil => simp
  | append_singleton ms m ih =>
      rw [List.foldl_append, List.foldl_cons, List.foldl_nil]
      by_cases hkey : key = m.pubkey
      · subst hkey
        have hget := ih m.pubkey
        by_cases hseen : m.pubkey ∈ ms.map (·.pubkey)
        · rw [if_pos hseen] at hget
          simp [upsert, hget, OrderedMap.get?_set, mentionInfo, signs, writes]
        · rw [if_neg hseen] at hget
          have hnone : ∀ p : AccountMeta → Bool,
              ms.any (fun m' => m'.pubkey = m.pubkey && p m') = false := by
            intro p
            rw [List.any_eq_false]
            intro m' hm' h
            simp only [Bool.and_eq_true, decide_eq_true_eq] at h
            exact hseen (List.mem_map.2 ⟨m', hm', h.1⟩)
          simp [upsert, hget, OrderedMap.get?_set, mentionInfo, signs, writes,
            hnone (·.isSigner), hnone (·.isWritable)]
      · have hset : (upsert (ms.foldl upsert .empty) m).get? key =
            (ms.foldl upsert .empty).get? key := by
          unfold upsert
          split <;> rw [OrderedMap.get?_set, if_neg hkey]
        have hne : ¬ m.pubkey = key := fun h => hkey h.symm
        rw [hset, ih]
        simp [hkey, hne, mentionInfo, signs, writes]

/-- The collected accounts: the distinct keys in order of first mention, each
with its permissions over all mentions. -/
theorem collectAccounts_values (instructions : List Instruction)
    (payer : PublicKey) :
    (collectAccounts instructions payer).values =
      (mentionedKeys (mentions instructions payer)).map
        (mentionInfo (mentions instructions payer)) := by
  rw [collectAccounts_eq_foldl]
  have hkeys := keys_foldl_set (·.pubkey) upsert keys_upsert
    (mentions instructions payer)
  rw [OrderedMap.values_eq_map (f := mentionInfo (mentions instructions payer)),
    hkeys, mentionedKeys]
  intro key hkey
  rw [hkeys, mem_firstSeen] at hkey
  rw [get?_foldl_upsert, if_pos hkey]

/-! ## Account indices -/

theorem setIndexes_append (xs ys : List AccountInfo)
    (st : OrderedMap PublicKey Nat × Nat) :
    setIndexes (xs ++ ys) st = setIndexes ys (setIndexes xs st) := by
  simp [setIndexes, List.foldl_append]

theorem setIndexes_singleton (acc : AccountInfo)
    (st : OrderedMap PublicKey Nat × Nat) :
    setIndexes [acc] st = (st.1.set acc.pubkey st.2, st.2 + 1) := rfl

theorem setIndexes_empty {accs : List AccountInfo}
    (hnodup : (accs.map (·.pubkey)).Nodup) :
    (setIndexes accs (.empty, 0)).2 = accs.length ∧
      ∀ key, (setIndexes accs (.empty, 0)).1.get? key =
        if key ∈ accs.map (·.pubkey) then some ((accs.map (·.pubkey)).idxOf key)
        else none := by
  induction accs using List.reverseRecOn with
  | nil => simp [setIndexes]
  | append_singleton accs acc ih =>
      rw [List.map_append, List.nodup_append] at hnodup
      obtain ⟨hcount, hget⟩ := ih hnodup.1
      have hfresh : acc.pubkey ∉ accs.map (·.pubkey) := fun h =>
        hnodup.2.2 acc.pubkey h acc.pubkey (by simp) rfl
      rw [setIndexes_append, setIndexes_singleton, hcount]
      refine ⟨by simp, fun key => ?_⟩
      rw [OrderedMap.get?_set, hget, List.map_append]
      by_cases hkey : key = acc.pubkey
      · subst hkey
        rw [List.idxOf_append_of_notMem hfresh]
        simp
      · by_cases hmem : key ∈ accs.map (·.pubkey)
        · rw [List.idxOf_append_of_mem hmem]
          simp [hkey, hmem]
        · simp [hkey, hmem]

/-! ## The resolved account list -/

/-- The account of a mentioned key, resolved. -/
def account (ms : List AccountMeta) (invoked : List PublicKey) (alts : List KeyedAlt)
    (key : PublicKey) : AccountInfo :=
  resolveAlt invoked alts (mentionInfo ms key)

@[simp] theorem resolveAlt_pubkey (invoked : List PublicKey) (alts : List KeyedAlt)
    (acc : AccountInfo) : (resolveAlt invoked alts acc).pubkey = acc.pubkey := by
  unfold resolveAlt; split <;> rfl

@[simp] theorem resolveAlt_isSigner (invoked : List PublicKey) (alts : List KeyedAlt)
    (acc : AccountInfo) : (resolveAlt invoked alts acc).isSigner = acc.isSigner := by
  unfold resolveAlt; split <;> rfl

@[simp] theorem resolveAlt_isWritable (invoked : List PublicKey)
    (alts : List KeyedAlt) (acc : AccountInfo) :
    (resolveAlt invoked alts acc).isWritable = acc.isWritable := by
  unfold resolveAlt; split <;> rfl

theorem resolveAlt_alt (invoked : List PublicKey) (alts : List KeyedAlt)
    (acc : AccountInfo) :
    (resolveAlt invoked alts acc).alt =
      if acc.isSigner || decide (acc.pubkey ∈ invoked) then acc.alt
      else findAlt alts acc.pubkey := by
  unfold resolveAlt; split <;> rfl

/-- The static accounts followed by the looked-up ones. -/
def resolvedAccounts (c : CompiledAccounts) : List AccountInfo :=
  c.staticAccounts ++ c.altWritable ++ c.altReadonly

private theorem count_filter_eq (p : AccountInfo → Bool) (a : AccountInfo)
    (accs : List AccountInfo) :
    (accs.filter p).count a = if p a then accs.count a else 0 := by
  split
  · rename_i h
    exact List.count_filter h
  · rename_i h
    exact List.count_eq_zero.2 fun hmem => h (List.mem_filter.1 hmem).2

section Compiled

variable (instructions : List Instruction) (payer : PublicKey) (alts : List KeyedAlt)

/-- Compiling only rearranges the mentioned accounts. -/
theorem resolvedAccounts_perm :
    (resolvedAccounts (compileAccounts instructions payer alts)).Perm
      ((mentionedKeys (mentions instructions payer)).map
        (account (mentions instructions payer) (instructions.map (·.programId))
          alts)) := by
  have hvalues := collectAccounts_values instructions payer
  rw [List.perm_iff_count]
  intro a
  simp only [resolvedAccounts, compileAccounts, hvalues, List.map_map,
    List.count_append, (List.perm_insertionSort _ _).count_eq, count_filter_eq]
  change _ = List.count a (List.map (resolveAlt _ alts ∘ mentionInfo _) _)
  cases a.isSigner <;> cases a.isWritable <;> cases a.alt.isSome <;> simp

theorem nodup_resolvedAccounts :
    ((resolvedAccounts (compileAccounts instructions payer alts)).map
      (·.pubkey)).Nodup := by
  have hperm := (resolvedAccounts_perm instructions payer alts).map (·.pubkey)
  refine hperm.nodup_iff.2 ?_
  simpa [Function.comp_def, account, mentionInfo, mentionedKeys] using
    nodup_firstSeen ((mentions instructions payer).map (·.pubkey))

/-- The account of a mentioned key is in the list. -/
theorem account_mem {key : PublicKey}
    (hkey : key ∈ (mentions instructions payer).map (·.pubkey)) :
    account (mentions instructions payer) (instructions.map (·.programId)) alts key ∈
      resolvedAccounts (compileAccounts instructions payer alts) :=
  (resolvedAccounts_perm instructions payer alts).mem_iff.2
    (List.mem_map_of_mem (mem_firstSeen.2 hkey))

theorem index_get? (key : PublicKey) :
    (compileAccounts instructions payer alts).indexByBase58.get? key =
      if key ∈ (resolvedAccounts (compileAccounts instructions payer alts)).map
          (·.pubkey) then
        some (((resolvedAccounts (compileAccounts instructions payer alts)).map
          (·.pubkey)).idxOf key)
      else none := by
  have h := (setIndexes_empty (nodup_resolvedAccounts instructions payer alts)).2 key
  rw [← h, resolvedAccounts, setIndexes_append, setIndexes_append]
  rfl

/-- The four classes of static accounts and the two of looked-up ones, with the
header counts. -/
theorem compileAccounts_classes :
    ∃ writableSigners readonlySigners writableStatic readonlyStatic,
      (compileAccounts instructions payer alts).staticAccounts =
          writableSigners ++ readonlySigners ++ writableStatic ++ readonlyStatic ∧
        (compileAccounts instructions payer alts).numRequiredSignatures =
          writableSigners.length + readonlySigners.length ∧
        (compileAccounts instructions payer alts).numReadonlySigned =
          readonlySigners.length ∧
        (compileAccounts instructions payer alts).numReadonlyUnsigned =
          readonlyStatic.length ∧
        (∀ a ∈ writableSigners, a.isSigner = true ∧ a.isWritable = true) ∧
        (∀ a ∈ readonlySigners, a.isSigner = true ∧ a.isWritable = false) ∧
        (∀ a ∈ writableStatic, a.isSigner = false ∧ a.isWritable = true) ∧
        (∀ a ∈ readonlyStatic, a.isSigner = false ∧ a.isWritable = false) ∧
        (∀ a ∈ (compileAccounts instructions payer alts).altWritable,
          a.isSigner = false ∧ a.isWritable = true) ∧
        (∀ a ∈ (compileAccounts instructions payer alts).altReadonly,
          a.isSigner = false ∧ a.isWritable = false) := by
  refine ⟨_, _, _, _, rfl, rfl, rfl, rfl, ?_, ?_, ?_, ?_, ?_, ?_⟩
  · intro a ha
    simpa using (List.mem_filter.1 ((List.mem_insertionSort _).1 ha)).2
  all_goals
    intro a ha
    simp only [compileAccounts, List.mem_filter] at ha
    simp_all

/-- The account at a mentioned key's index is that key's. -/
theorem resolvedAccounts_getElem? {key : PublicKey}
    (hkey : key ∈ (mentions instructions payer).map (·.pubkey)) :
    (resolvedAccounts (compileAccounts instructions payer alts))[
        ((resolvedAccounts (compileAccounts instructions payer alts)).map
          (·.pubkey)).idxOf key]? =
      some (account (mentions instructions payer) (instructions.map (·.programId))
        alts key) := by
  have hmem := account_mem instructions payer alts hkey
  obtain ⟨i, hi⟩ := List.mem_iff_getElem?.1 hmem
  have hpub : ((resolvedAccounts (compileAccounts instructions payer alts)).map
      (·.pubkey))[i]? = some key := by
    rw [List.getElem?_map, hi]
    simp [account, mentionInfo]
  have hnodup := nodup_resolvedAccounts instructions payer alts
  obtain ⟨hlt, hget⟩ := List.getElem?_eq_some_iff.1 hpub
  have hidx := hnodup.idxOf_getElem i hlt
  rw [hget] at hidx
  rw [hidx]
  exact hi

/-! ## Looked-up accounts -/

/-- The table that will hold the key: none for signers and invoked programs. -/
def tableRef (key : PublicKey) : Option AltRef :=
  if signs (mentions instructions payer) key ||
      decide (key ∈ instructions.map (·.programId)) then none
  else findAlt alts key

/-- The looked-up accounts that are written to (or not), in order of first
mention. -/
def lookedUpKeys (writable : Bool) : List PublicKey :=
  (mentionedKeys (mentions instructions payer)).filter fun key =>
    writes (mentions instructions payer) key = writable &&
      (tableRef instructions payer alts key).isSome

theorem account_alt (key : PublicKey) :
    (account (mentions instructions payer) (instructions.map (·.programId))
      alts key).alt = tableRef instructions payer alts key := by
  exact resolveAlt_alt _ alts (mentionInfo (mentions instructions payer) key)

private theorem tableRef_signs {key : PublicKey}
    (h : (tableRef instructions payer alts key).isSome) :
    signs (mentions instructions payer) key = false := by
  unfold tableRef at h
  split at h
  · simp at h
  · rename_i hnot
    simp only [Bool.or_eq_true, not_or, Bool.not_eq_true] at hnot
    exact hnot.1

/-- The looked-up accounts of a compiled transaction. -/
theorem compileAccounts_alt :
    (compileAccounts instructions payer alts).altWritable =
        (lookedUpKeys instructions payer alts true).map
          (account (mentions instructions payer) (instructions.map (·.programId))
            alts) ∧
      (compileAccounts instructions payer alts).altReadonly =
        (lookedUpKeys instructions payer alts false).map
          (account (mentions instructions payer) (instructions.map (·.programId))
            alts) := by
  have hvalues := collectAccounts_values instructions payer
  have hacc : ∀ keys : List PublicKey,
      (keys.map (mentionInfo (mentions instructions payer))).map
          (resolveAlt (instructions.map (·.programId)) alts) =
        keys.map (account (mentions instructions payer)
          (instructions.map (·.programId)) alts) := fun keys => by
    rw [List.map_map]; rfl
  simp only [compileAccounts, hvalues, hacc, List.filter_map, List.filter_filter,
    lookedUpKeys]
  constructor
  all_goals
    congr 1
    refine List.filter_congr fun key _ => ?_
    simp only [Function.comp, account_alt]
    cases hsome : (tableRef instructions payer alts key).isSome with
    | false => simp
    | true =>
        have hsigns := tableRef_signs instructions payer alts hsome
        simp [account, mentionInfo, hsigns]

end Compiled

/-! ## The lookup section -/

/-- A position in a table, and whether the account there is written to. -/
abbrev TaggedRef := Bool × AltRef

def indexesOf (writable : Bool) (refs : List TaggedRef) (table : PublicKey) :
    List Nat :=
  (refs.filter fun r => r.1 = writable && r.2.key = table).map (·.2.altIndex)

/-- The lookup of one table: its positions in the order the accounts come. -/
def tableLookup (refs : List TaggedRef) (table : PublicKey) : TableLookup :=
  { accountKey := table
    writableIndexes := indexesOf true refs table
    readonlyIndexes := indexesOf false refs table }

def pushRef (perAlt : OrderedMap PublicKey TableLookup) (r : TaggedRef) :
    OrderedMap PublicKey TableLookup :=
  perAlt.set r.2.key
    ((if r.1 then pushWritable else pushReadonly) r.2.altIndex
      ((perAlt.get? r.2.key).getD { accountKey := r.2.key }))

theorem get?_foldl_pushRef (refs : List TaggedRef) (table : PublicKey) :
    (refs.foldl pushRef .empty).get? table =
      if table ∈ refs.map (·.2.key) then some (tableLookup refs table) else none := by
  induction refs using List.reverseRecOn generalizing table with
  | nil => simp
  | append_singleton refs r ih =>
      rw [List.foldl_append, List.foldl_cons, List.foldl_nil, pushRef,
        OrderedMap.get?_set]
      by_cases htable : table = r.2.key
      · subst htable
        have hget : ((refs.foldl pushRef .empty).get? r.2.key).getD
            { accountKey := r.2.key } = tableLookup refs r.2.key := by
          rw [ih]
          split
          · rfl
          · rename_i hnew
            have hnone : ∀ writable, indexesOf writable refs r.2.key = [] := by
              intro writable
              rw [indexesOf, List.map_eq_nil_iff, List.filter_eq_nil_iff]
              intro r' hr' h
              simp only [Bool.and_eq_true, decide_eq_true_eq] at h
              exact hnew (List.mem_map.2 ⟨r', hr', h.2⟩)
            simp [tableLookup, hnone]
        rw [hget]
        cases hw : r.1 <;>
          simp [tableLookup, indexesOf, pushWritable, pushReadonly, hw]
      · have hne : ¬ r.2.key = table := fun h => htable h.symm
        have hsame : tableLookup (refs ++ [r]) table = tableLookup refs table := by
          simp [tableLookup, indexesOf, hne]
        have hmem : table ∈ (refs ++ [r]).map (·.2.key) ↔
            table ∈ refs.map (·.2.key) := by
          rw [List.map_append, List.mem_append]
          simp [htable]
        simp only [if_neg htable, ih, hsame, hmem]

theorem foldl_pushRef_values (refs : List TaggedRef) :
    (refs.foldl pushRef .empty).values =
      (firstSeen (refs.map (·.2.key))).map (tableLookup refs) := by
  have hkeys := keys_foldl_set (·.2.key) pushRef
    (fun m r => by rw [pushRef, OrderedMap.keys_set, addSeen]) refs
  rw [OrderedMap.values_eq_map (f := tableLookup refs), hkeys]
  intro table htable
  rw [hkeys, mem_firstSeen] at htable
  rw [get?_foldl_pushRef, if_pos htable]

/-- The positions of accounts, as the lookup section sees them. -/
def taggedRefs (writable : Bool) (accs : List AccountInfo) : List TaggedRef :=
  accs.filterMap fun acc => acc.alt.map fun ref => (writable, ref)

private theorem foldl_updateLookup (writable : Bool) (accs : List AccountInfo)
    (perAlt : OrderedMap PublicKey TableLookup) :
    accs.foldl (updateLookup (if writable then pushWritable else pushReadonly)) perAlt =
      (taggedRefs writable accs).foldl pushRef perAlt := by
  induction accs generalizing perAlt with
  | nil => rfl
  | cons acc accs ih =>
      rw [List.foldl_cons, ih]
      cases halt : acc.alt with
      | none => simp [taggedRefs, updateLookup, halt]
      | some ref => simp [taggedRefs, updateLookup, halt, pushRef]

/-- The lookup section: one entry for each table, in order of first use, with
the positions of its written and of its read-only accounts. -/
theorem buildAddressTableLookups_eq (altWritable altReadonly : List AccountInfo) :
    buildAddressTableLookups altWritable altReadonly =
      (firstSeen ((taggedRefs true altWritable ++ taggedRefs false altReadonly).map
        (·.2.key))).map
        (tableLookup (taggedRefs true altWritable ++ taggedRefs false altReadonly)) := by
  rw [← foldl_pushRef_values, buildAddressTableLookups, List.foldl_append]
  have hw := foldl_updateLookup true altWritable .empty
  have hr := foldl_updateLookup false altReadonly
    ((taggedRefs true altWritable).foldl pushRef .empty)
  simp only [if_true, Bool.false_eq_true, if_false] at hw hr
  rw [hw, hr]

end Ap3xSolana.Tx.CompileAccounts
