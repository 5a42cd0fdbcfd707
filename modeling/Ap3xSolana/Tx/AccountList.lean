import Ap3xSolana.Tx.RoundTrip

/-!
# The account list of a message

What a reader of the wire format relies on in the list that `compileAccounts` builds: the
order of the classes, which accounts are looked up, and where the indices point.
-/

namespace Ap3xSolana.Tx.AccountList

open Ap3xSolana.Core Ap3xSolana.Lib Ap3xSolana.Lib.Grouping
open Ap3xSolana.Tx.TransactionAssembler Ap3xSolana.Tx.CompileAccounts Ap3xSolana.Tx.RoundTrip

/-! ## The payer -/

/-- Whatever the order of the others, sorting brings the payer to the front. -/
theorem head?_insertionSort_payer (payer : PublicKey) (accs : List AccountInfo)
    (h : payer ∈ accs.map (·.pubkey)) :
    ((accs.insertionSort fun a b => comparePayer payer a b ≤ 0).head?).map (·.pubkey) =
      some payer := by
  induction accs with
  | nil => cases h
  | cons a accs ih =>
      rw [List.insertionSort_cons]
      by_cases ha : a.pubkey = payer
      · cases hsorted : accs.insertionSort fun a b => comparePayer payer a b ≤ 0 with
        | nil =>
            show some a.pubkey = some payer
            rw [ha]
        | cons b sorted =>
            have hle : comparePayer payer a b ≤ 0 := by
              rw [comparePayer, if_pos ha]
              decide
            rw [List.orderedInsert, if_pos hle]
            show some a.pubkey = some payer
            rw [ha]
      · have hrest : payer ∈ accs.map (·.pubkey) := by
          rcases List.mem_cons.1 h with h | h
          · exact absurd h.symm ha
          · exact h
        have hhead := ih hrest
        cases hsorted : accs.insertionSort fun a b => comparePayer payer a b ≤ 0 with
        | nil =>
            rw [hsorted] at hhead
            cases hhead
        | cons b sorted =>
            rw [hsorted] at hhead
            have hb : b.pubkey = payer := Option.some.inj hhead
            have hgt : ¬ comparePayer payer a b ≤ 0 := by
              rw [comparePayer, if_neg ha, if_pos hb]
              decide
            rw [List.orderedInsert, if_neg hgt]
            exact hhead

section Compiled

variable (instructions : List Instruction) (payer : PublicKey) (alts : List KeyedAlt)

theorem payer_first :
    ((compileAccounts instructions payer alts).staticAccounts.map (·.pubkey)).head? =
      some payer := by
  have hvalues := collectAccounts_values instructions payer
  have hpayer : payer ∈ mentionedKeys (mentions instructions payer) := by
    rw [mentionedKeys, mem_firstSeen]
    exact List.mem_map.2 ⟨_, List.mem_cons_self, rfl⟩
  have hmem : payer ∈ ((((collectAccounts instructions payer).values.map
      (resolveAlt (instructions.map (·.programId)) alts)).filter
        fun a => a.isSigner && a.isWritable).map (·.pubkey)) := by
    rw [hvalues, List.map_map]
    apply List.mem_map.2
    refine ⟨account (mentions instructions payer) (instructions.map (·.programId)) alts payer,
      List.mem_filter.2 ⟨List.mem_map_of_mem hpayer, ?_⟩, by simp [account, mentionInfo]⟩
    simp [account, mentionInfo, signs, writes, mentions]
  have hhead := head?_insertionSort_payer payer _ hmem
  rw [← List.head?_map] at hhead
  show ((_ ++ _ ++ _ ++ _ : List AccountInfo).map _).head? = _
  rw [List.append_assoc, List.append_assoc, List.map_append, List.head?_append, hhead]
  rfl

/-! ## Mentions -/

theorem mem_mentions {key : PublicKey} :
    key ∈ (mentions instructions payer).map (·.pubkey) ↔
      key = payer ∨ ∃ ix ∈ instructions, key = ix.programId ∨ ∃ m ∈ ix.keys, m.pubkey = key := by
  simp only [mentions, List.map_cons, List.mem_cons, List.mem_map, List.mem_flatMap]
  constructor
  · rintro (h | ⟨m, ⟨ix, hix, h | h⟩, hkey⟩)
    · exact .inl h
    · rw [h] at hkey
      exact .inr ⟨ix, hix, .inl hkey.symm⟩
    · exact .inr ⟨ix, hix, .inr ⟨m, h, hkey⟩⟩
  · rintro (h | ⟨ix, hix, h | ⟨m, hm, hkey⟩⟩)
    · exact .inl h
    · exact .inr ⟨_, ⟨ix, hix, .inl rfl⟩, h.symm⟩
    · exact .inr ⟨m, ⟨ix, hix, .inr hm⟩, hkey⟩

/-- A flag is the disjunction over all mentions; a program's own mention sets none. -/
theorem any_mentions {key : PublicKey} {flag : AccountMeta → Bool}
    (hpayer : flag { pubkey := payer, isSigner := true, isWritable := true } = true)
    (hprogram : ∀ program, flag { pubkey := program, isSigner := false, isWritable := false } =
      false) :
    (mentions instructions payer).any (fun m => m.pubkey = key && flag m) = true ↔
      key = payer ∨ ∃ ix ∈ instructions, ∃ m ∈ ix.keys, m.pubkey = key ∧ flag m = true := by
  simp only [mentions, List.any_cons, Bool.or_eq_true, Bool.and_eq_true, decide_eq_true_eq,
    hpayer, and_true, List.any_eq_true, List.mem_flatMap, List.mem_cons]
  constructor
  · rintro (h | ⟨m, ⟨ix, hix, h | h⟩, hkey, hflag⟩)
    · exact .inl h.symm
    · rw [h, hprogram] at hflag
      cases hflag
    · exact .inr ⟨ix, hix, m, h, hkey, hflag⟩
  · rintro (h | ⟨ix, hix, m, hm, hkey, hflag⟩)
    · exact .inl h.symm
    · exact .inr ⟨m, ⟨ix, hix, .inr hm⟩, hkey, hflag⟩

/-! ## Lookups -/

theorem findAlt_isSome {key : PublicKey} :
    (findAlt alts key).isSome ↔ ∃ t ∈ alts, key ∈ t.alt.addresses := by
  rw [findAlt, List.findSome?_isSome_iff]
  constructor
  · rintro ⟨t, ht, h⟩
    rw [Option.isSome_map, List.findIdx?_isSome, List.any_eq_true] at h
    obtain ⟨key', hkey', heq⟩ := h
    rw [decide_eq_true_eq] at heq
    exact ⟨t, ht, heq ▸ hkey'⟩
  · rintro ⟨t, ht, h⟩
    refine ⟨t, ht, ?_⟩
    rw [Option.isSome_map, List.findIdx?_isSome, List.any_eq_true]
    exact ⟨key, h, decide_eq_true rfl⟩

/-- Every account of the list is the resolved account of its key. -/
theorem eq_account {a : AccountInfo}
    (ha : a ∈ resolvedAccounts (compileAccounts instructions payer alts)) :
    a = account (mentions instructions payer) (instructions.map (·.programId)) alts a.pubkey := by
  rw [(resolvedAccounts_perm instructions payer alts).mem_iff] at ha
  obtain ⟨key, -, rfl⟩ := List.mem_map.1 ha
  rw [account, resolveAlt_pubkey]
  rfl

theorem alt_eq {a : AccountInfo}
    (ha : a ∈ resolvedAccounts (compileAccounts instructions payer alts)) :
    a.alt = tableRef instructions payer alts a.pubkey := by
  rw [← account_alt, ← eq_account instructions payer alts ha]

theorem isSigner_eq {a : AccountInfo}
    (ha : a ∈ resolvedAccounts (compileAccounts instructions payer alts)) :
    a.isSigner = signs (mentions instructions payer) a.pubkey := by
  conv_lhs => rw [eq_account instructions payer alts ha]
  rw [account, resolveAlt_isSigner]
  rfl

theorem isWritable_eq {a : AccountInfo}
    (ha : a ∈ resolvedAccounts (compileAccounts instructions payer alts)) :
    a.isWritable = writes (mentions instructions payer) a.pubkey := by
  conv_lhs => rw [eq_account instructions payer alts ha]
  rw [account, resolveAlt_isWritable]
  rfl

theorem alt_isSome_of_lookedUp {a : AccountInfo}
    (ha : a ∈ (compileAccounts instructions payer alts).altWritable ++
      (compileAccounts instructions payer alts).altReadonly) : a.alt.isSome = true := by
  rcases List.mem_append.1 ha with ha | ha
  · exact (List.mem_filter.1 ha).2
  · exact (List.mem_filter.1 ha).2

/-- A static account that does not sign was found in no table. -/
theorem alt_of_static {a : AccountInfo}
    (ha : a ∈ (compileAccounts instructions payer alts).staticAccounts) :
    a.isSigner = true ∨ a.alt = none := by
  simp only [compileAccounts, List.mem_append, List.mem_filter, List.mem_insertionSort,
    Bool.and_eq_true, Bool.not_eq_true', Option.isSome_eq_false_iff, Option.isNone_iff_eq_none]
    at ha
  rcases ha with ((h | h) | h) | h
  · exact .inl h.2.1
  · exact .inl h.2.1
  · exact .inr h.2
  · exact .inr h.2

end Compiled

/-! ## The list -/

/-- The shape of a compiled account list. -/
structure Layout (instructions : List Instruction) (payer : PublicKey) (alts : List KeyedAlt)
    (c : CompiledAccounts) : Prop where
  /-- The classes in their order, and the counts of the header. -/
  classes : ∃ writableSigners readonlySigners writableStatic readonlyStatic,
    c.staticAccounts = writableSigners ++ readonlySigners ++ writableStatic ++ readonlyStatic ∧
      c.numRequiredSignatures = writableSigners.length + readonlySigners.length ∧
      c.numReadonlySigned = readonlySigners.length ∧
      c.numReadonlyUnsigned = readonlyStatic.length ∧
      (∀ a ∈ writableSigners, a.isSigner = true ∧ a.isWritable = true) ∧
      (∀ a ∈ readonlySigners, a.isSigner = true ∧ a.isWritable = false) ∧
      (∀ a ∈ writableStatic, a.isSigner = false ∧ a.isWritable = true) ∧
      (∀ a ∈ readonlyStatic, a.isSigner = false ∧ a.isWritable = false) ∧
      (∀ a ∈ c.altWritable, a.isSigner = false ∧ a.isWritable = true) ∧
      ∀ a ∈ c.altReadonly, a.isSigner = false ∧ a.isWritable = false
  payerFirst : (c.staticAccounts.map (·.pubkey)).head? = some payer
  distinct : ((resolvedAccounts c).map (·.pubkey)).Nodup
  mentioned : ∀ key, key ∈ (resolvedAccounts c).map (·.pubkey) ↔
    key = payer ∨ ∃ ix ∈ instructions, key = ix.programId ∨ ∃ m ∈ ix.keys, m.pubkey = key
  signers : ∀ a ∈ resolvedAccounts c, a.isSigner = true ↔
    a.pubkey = payer ∨
      ∃ ix ∈ instructions, ∃ m ∈ ix.keys, m.pubkey = a.pubkey ∧ m.isSigner = true
  writers : ∀ a ∈ resolvedAccounts c, a.isWritable = true ↔
    a.pubkey = payer ∨
      ∃ ix ∈ instructions, ∃ m ∈ ix.keys, m.pubkey = a.pubkey ∧ m.isWritable = true
  /-- A looked-up account stands in its table where the reference says. -/
  lookedUp : ∀ a ∈ c.altWritable ++ c.altReadonly,
    a.isSigner = false ∧ (∀ ix ∈ instructions, ix.programId ≠ a.pubkey) ∧
      ∃ ref, a.alt = some ref ∧
        ∃ t ∈ alts, t.key = ref.key ∧ t.alt.addresses[ref.altIndex]? = some a.pubkey
  /-- What stays static signs, is invoked or is in no table. -/
  static : ∀ a ∈ c.staticAccounts,
    a.isSigner = true ∨ (∃ ix ∈ instructions, ix.programId = a.pubkey) ∨
      ∀ t ∈ alts, a.pubkey ∉ t.alt.addresses
  indexes : ∀ key i, c.indexByBase58.get? key = some i ↔
    ((resolvedAccounts c).map (·.pubkey))[i]? = some key

/-- In a list without repetition the position of an element is the only one. -/
theorem idxOf_eq_iff {keys : List PublicKey} (hnodup : keys.Nodup) {key : PublicKey} {i : Nat} :
    (if key ∈ keys then some (keys.idxOf key) else none) = some i ↔ keys[i]? = some key := by
  constructor
  · intro h
    by_cases hmem : key ∈ keys
    · rw [if_pos hmem] at h
      cases h
      exact List.getElem?_idxOf hmem
    · rw [if_neg hmem] at h
      cases h
  · intro h
    obtain ⟨hlt, hget⟩ := List.getElem?_eq_some_iff.1 h
    have hmem : key ∈ keys := List.mem_of_getElem? h
    rw [if_pos hmem, ← hget, hnodup.idxOf_getElem i hlt]

theorem compileAccounts_layout (instructions : List Instruction) (payer : PublicKey)
    (alts : List KeyedAlt) :
    Layout instructions payer alts (compileAccounts instructions payer alts) := by
  have hnodup := nodup_resolvedAccounts instructions payer alts
  constructor
  case classes => exact compileAccounts_classes instructions payer alts
  case payerFirst => exact payer_first instructions payer alts
  case distinct => exact hnodup
  case mentioned =>
    intro key
    rw [← mem_mentions]
    constructor
    · intro hkey
      obtain ⟨a, ha, rfl⟩ := List.mem_map.1 hkey
      rw [(resolvedAccounts_perm instructions payer alts).mem_iff] at ha
      obtain ⟨key', hkey', rfl⟩ := List.mem_map.1 ha
      rw [account, resolveAlt_pubkey]
      exact mem_firstSeen.1 hkey'
    · intro hkey
      apply List.mem_map.2
      exact ⟨_, account_mem instructions payer alts hkey, by simp [account, mentionInfo]⟩
  case signers =>
    intro a ha
    rw [isSigner_eq instructions payer alts ha]
    exact any_mentions instructions payer rfl fun _ => rfl
  case writers =>
    intro a ha
    rw [isWritable_eq instructions payer alts ha]
    exact any_mentions instructions payer rfl fun _ => rfl
  case lookedUp =>
    intro a ha
    have hmem : a ∈ resolvedAccounts (compileAccounts instructions payer alts) := by
      rw [resolvedAccounts, List.append_assoc]
      exact List.mem_append_right _ ha
    have hsome := alt_isSome_of_lookedUp instructions payer alts ha
    rw [Option.isSome_iff_exists] at hsome
    obtain ⟨ref, href⟩ := hsome
    have htable := href
    rw [alt_eq instructions payer alts hmem, tableRef] at htable
    split at htable
    · cases htable
    · rename_i hnot
      rw [Bool.or_eq_true, not_or, Bool.not_eq_true, decide_eq_true_eq] at hnot
      refine ⟨(isSigner_eq instructions payer alts hmem).trans hnot.1, ?_, ref, href,
        findAlt_some htable⟩
      intro ix hix heq
      exact hnot.2 (List.mem_map.2 ⟨ix, hix, heq⟩)
  case static =>
    intro a ha
    have hmem : a ∈ resolvedAccounts (compileAccounts instructions payer alts) := by
      rw [resolvedAccounts, List.append_assoc]
      exact List.mem_append_left _ ha
    rcases alt_of_static instructions payer alts ha with hsigner | hnone
    · exact .inl hsigner
    · rw [alt_eq instructions payer alts hmem, tableRef] at hnone
      split at hnone
      · rename_i hkept
        rw [Bool.or_eq_true, decide_eq_true_eq, List.mem_map] at hkept
        rcases hkept with hsigner | hinvoked
        · exact .inl ((isSigner_eq instructions payer alts hmem).trans hsigner)
        · exact .inr (.inl hinvoked)
      · refine .inr (.inr fun t ht hin => ?_)
        have hsome := (findAlt_isSome alts).2 ⟨t, ht, hin⟩
        rw [hnone] at hsome
        cases hsome
  case indexes =>
    intro key i
    rw [index_get?]
    exact idxOf_eq_iff hnodup

end Ap3xSolana.Tx.AccountList
