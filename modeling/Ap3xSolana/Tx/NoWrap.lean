import Ap3xSolana.Tx.MessageNumbers

/-!
# When no byte of a message wraps

The three counts, the indices and the table positions of a compiled message in terms of the
options it was compiled from, and from that the exact condition for the message to say what
was meant.
-/

namespace Ap3xSolana.Tx.NoWrap

open Ap3xSolana.Core Ap3xSolana.Lib Ap3xSolana.Lib.Grouping Ap3xSolana.Lib.Throwing
open Ap3xSolana.Tx.TransactionAssembler Ap3xSolana.Tx.CompileAccounts Ap3xSolana.Tx.RoundTrip
open Ap3xSolana.Tx.MessageNumbers Ap3xSolana.Tx.Assemble

section Compiled

variable (instructions : List Instruction) (payer : PublicKey) (alts : List KeyedAlt)

/-- The keys that some mention asks to sign. -/
def signingKeys : List PublicKey :=
  (mentionedKeys (mentions instructions payer)).filter (signs (mentions instructions payer))

/-- The keys that no table resolves. -/
def staticKeys : List PublicKey :=
  (mentionedKeys (mentions instructions payer)).filter fun key =>
    (tableRef instructions payer alts key).isNone

/-! ## Counts -/

theorem length_resolvedAccounts :
    (resolvedAccounts (compileAccounts instructions payer alts)).length =
      (mentionedKeys (mentions instructions payer)).length := by
  rw [(resolvedAccounts_perm instructions payer alts).length_eq, List.length_map]

theorem numRequiredSignatures_eq :
    (compileAccounts instructions payer alts).numRequiredSignatures =
      (signingKeys instructions payer).length := by
  have hperm := (resolvedAccounts_perm instructions payer alts).countP_eq (·.isSigner)
  rw [List.countP_map] at hperm
  have hsigns : ((·.isSigner) ∘ account (mentions instructions payer)
      (instructions.map (·.programId)) alts) = signs (mentions instructions payer) := by
    funext key
    rw [Function.comp, account, resolveAlt_isSigner]
    rfl
  have hcount : (mentionedKeys (mentions instructions payer)).countP
      (signs (mentions instructions payer)) = (signingKeys instructions payer).length :=
    List.countP_eq_length_filter
  rw [hsigns, hcount] at hperm
  obtain ⟨ws, rs, w, r, hstatic, hreq, -, -, hws, hrs, hw, hr, haw, har⟩ :=
    compileAccounts_classes instructions payer alts
  have hall : ∀ accs : List AccountInfo, (∀ a ∈ accs, a.isSigner = true) →
      accs.countP (·.isSigner) = accs.length := fun accs h => List.countP_eq_length.2 h
  have hnone : ∀ accs : List AccountInfo, (∀ a ∈ accs, a.isSigner = false) →
      accs.countP (·.isSigner) = 0 := by
    intro accs h
    rw [List.countP_eq_zero]
    intro a ha
    rw [h a ha]
    decide
  rw [resolvedAccounts, hstatic] at hperm
  simp only [List.countP_append, hall ws fun a ha => (hws a ha).1,
    hall rs fun a ha => (hrs a ha).1, hnone w fun a ha => (hw a ha).1,
    hnone r fun a ha => (hr a ha).1, hnone _ fun a ha => (haw a ha).1,
    hnone _ fun a ha => (har a ha).1] at hperm
  rw [hreq, ← hperm]
  omega

theorem length_staticAccounts :
    (compileAccounts instructions payer alts).staticAccounts.length =
      (staticKeys instructions payer alts).length := by
  have hkeys := congrArg List.length (resolvedKeys_eq instructions payer alts)
  rw [List.length_map, length_resolvedAccounts] at hkeys
  simp only [List.length_append, List.length_map] at hkeys
  have hsplit := List.length_eq_length_filter_add
    (l := mentionedKeys (mentions instructions payer))
    fun key => (tableRef instructions payer alts key).isNone
  have hlooked : ((mentionedKeys (mentions instructions payer)).filter fun key =>
        !(tableRef instructions payer alts key).isNone).length =
      (lookedUpKeys instructions payer alts true).length +
        (lookedUpKeys instructions payer alts false).length := by
    unfold lookedUpKeys
    generalize mentionedKeys (mentions instructions payer) = keys
    induction keys with
    | nil => rfl
    | cons key keys ih =>
        simp only [List.filter_cons]
        cases tableRef instructions payer alts key <;>
          cases writes (mentions instructions payer) key <;>
          simp_all <;> omega
  unfold staticKeys
  omega

/-! ## Indices -/

theorem index_eq {key : PublicKey} {i : Nat}
    (h : (compileAccounts instructions payer alts).indexByBase58.get? key = some i) :
    i = indexOf instructions payer alts key := by
  rw [index_get?] at h
  split at h
  · cases h
    rfl
  · cases h

/-- Every index fits a byte exactly if there are at most 256 accounts: the last account of
a longer list is not the payer, so some instruction names it. -/
theorem indexes_fit_iff :
    (∀ ix ∈ instructions, indexOf instructions payer alts ix.programId < 256 ∧
      ∀ m ∈ ix.keys, indexOf instructions payer alts m.pubkey < 256) ↔
    (mentionedKeys (mentions instructions payer)).length ≤ 256 := by
  have hlen := length_resolvedAccounts instructions payer alts
  constructor
  · intro h
    by_contra hmany
    have hlt : 256 < ((resolvedAccounts (compileAccounts instructions payer alts)).map
        (·.pubkey)).length := by
      rw [List.length_map, hlen]
      omega
    have hnodup := nodup_resolvedAccounts instructions payer alts
    have hidx := hnodup.idxOf_getElem 256 hlt
    have hmem := List.getElem_mem hlt
    rw [(AccountList.compileAccounts_layout instructions payer alts).mentioned] at hmem
    rcases hmem with hpayer | ⟨ix, hix, hprogram | ⟨m, hm, hkey⟩⟩
    · -- the payer stands at the front
      have hfirst := (AccountList.compileAccounts_layout instructions payer alts).payerFirst
      have hzero : ((resolvedAccounts (compileAccounts instructions payer alts)).map
          (·.pubkey))[0]? = some payer := by
        rw [← List.head?_eq_getElem?, resolvedAccounts, List.append_assoc, List.map_append,
          List.head?_append, hfirst]
        rfl
      obtain ⟨hpos, hget⟩ := List.getElem?_eq_some_iff.1 hzero
      have hzeroIdx := hnodup.idxOf_getElem 0 hpos
      rw [hget] at hzeroIdx
      rw [hpayer, hzeroIdx] at hidx
      omega
    · have hsmall := (h ix hix).1
      rw [indexOf, ← hprogram, hidx] at hsmall
      omega
    · have hsmall := (h ix hix).2 m hm
      rw [indexOf, hkey, hidx] at hsmall
      omega
  · intro hfew ix hix
    have hprogram := indexOf_lt instructions payer alts (mentioned_program instructions payer hix)
    refine ⟨by omega, fun m hm => ?_⟩
    have hkey := indexOf_lt instructions payer alts (mentioned_key instructions payer hix hm)
    omega

/-! ## Table positions -/

theorem lookups_fit_iff :
    (∀ lk ∈ buildAddressTableLookups (compileAccounts instructions payer alts).altWritable
        (compileAccounts instructions payer alts).altReadonly,
      FitBytes lk.writableIndexes ∧ FitBytes lk.readonlyIndexes) ↔
    ∀ key ∈ mentionedKeys (mentions instructions payer), ∀ ref,
      tableRef instructions payer alts key = some ref → ref.altIndex < 256 := by
  rw [lookups_eq]
  constructor
  · intro h key hkey ref href
    have hlooked : key ∈ lookedUpKeys instructions payer alts
        (writes (mentions instructions payer) key) := by
      apply List.mem_filter.2
      simp [hkey, href]
    have hfit := h _ (List.mem_map_of_mem (tableOf_mem instructions payer alts hlooked))
    have hin : key ∈ keysIn instructions payer alts (writes (mentions instructions payer) key)
        (tableOf instructions payer alts key) :=
      List.mem_filter.2 ⟨hlooked, decide_eq_true rfl⟩
    have hrefOf : refOf instructions payer alts key = ref := by
      rw [refOf, href, Option.getD_some]
    rw [← hrefOf]
    cases hw : writes (mentions instructions payer) key with
    | true =>
        rw [hw] at hin
        exact hfit.1 _ (List.mem_map_of_mem hin)
    | false =>
        rw [hw] at hin
        exact hfit.2 _ (List.mem_map_of_mem hin)
  · intro h lk hlk
    obtain ⟨table, -, rfl⟩ := List.mem_map.1 hlk
    have hfit : ∀ writable, FitBytes ((keysIn instructions payer alts writable table).map
        fun key => (refOf instructions payer alts key).altIndex) := by
      intro writable i hi
      obtain ⟨key, hkey, rfl⟩ := List.mem_map.1 hi
      have hlooked := (List.mem_filter.1 hkey).1
      exact h key (List.mem_filter.1 hlooked).1 _
        (tableRef_of_lookedUp instructions payer alts hlooked)
    exact ⟨hfit true, hfit false⟩

/-! ## The whole message -/

theorem fitBytes_instruction (ix : Instruction) {out : List Nat}
    (h : instructionNumbers (compileAccounts instructions payer alts).indexByBase58 ix =
      .ok out) :
    FitBytes out ↔ indexOf instructions payer alts ix.programId < 256 ∧
      ∀ m ∈ ix.keys, indexOf instructions payer alts m.pubkey < 256 := by
  have hget : ∀ {what where_ key i}, accountIndex
      (compileAccounts instructions payer alts).indexByBase58 what where_ key = .ok i →
      i = indexOf instructions payer alts key := by
    intro what where_ key i hi
    unfold accountIndex at hi
    split at hi
    · rename_i j hj
      cases hi
      exact index_eq instructions payer alts hj
    · cases hi
  simp only [instructionNumbers, bind_eq_ok, pure_eq_ok] at h
  obtain ⟨program, hprogram, indices, hindices, accounts, haccounts, data, hdata, rfl⟩ := h
  have hmap : indices = ix.keys.map fun m => indexOf instructions payer alts m.pubkey := by
    rw [mapM_eq_ok] at hindices
    clear haccounts
    generalize ix.keys = keys at hindices
    induction hindices with
    | nil => rfl
    | cons hi _ ih => rw [List.map_cons, ih, hget hi]
  rw [fitBytes_append, fitBytes_append, fitBytes_array haccounts, fitBytes_array hdata,
    and_iff_left (fitBytes_bytes ix.data), hget hprogram, hmap]
  simp [FitBytes]

theorem fitBytes_lookup (lk : TableLookup) {out : List Nat} (h : lookupNumbers lk = .ok out) :
    FitBytes out ↔ FitBytes lk.writableIndexes ∧ FitBytes lk.readonlyIndexes := by
  simp only [lookupNumbers, bind_eq_ok, pure_eq_ok] at h
  obtain ⟨writable, hwritable, readonly, hreadonly, rfl⟩ := h
  rw [fitBytes_append, fitBytes_append, fitBytes_array hwritable, fitBytes_array hreadonly,
    and_iff_right (fitBytes_bytes lk.accountKey.bytes)]

/-- At most 256 accounts, at most 255 signers, and every looked-up account among the first
256 addresses of its table. -/
structure Fits : Prop where
  accounts : (mentionedKeys (mentions instructions payer)).length ≤ 256
  signers : (signingKeys instructions payer).length ≤ 255
  positions : ∀ key ∈ mentionedKeys (mentions instructions payer), ∀ ref,
    tableRef instructions payer alts key = some ref → ref.altIndex < 256

theorem fitBytes_message_iff {blockhash : List UInt8} {out : List Nat}
    (h : messageNumbers (compileAccounts instructions payer alts) instructions blockhash =
      .ok out) :
    FitBytes out ↔ Fits instructions payer alts := by
  simp only [messageNumbers, bind_eq_ok, pure_eq_ok] at h
  obtain ⟨keyCount, hkeyCount, ixCount, hixCount, ixs, hixs, lookupCount, hlookupCount,
    lookupParts, hlookups, rfl⟩ := h
  have hcounts : FitBytes [(compileAccounts instructions payer alts).numRequiredSignatures,
        (compileAccounts instructions payer alts).numReadonlySigned,
        (compileAccounts instructions payer alts).numReadonlyUnsigned] ↔
      (compileAccounts instructions payer alts).numRequiredSignatures < 256 ∧
      (compileAccounts instructions payer alts).numReadonlySigned < 256 ∧
      (compileAccounts instructions payer alts).numReadonlyUnsigned < 256 := by
    simp [FitBytes]
  have hixsFit := (fitBytes_mapM
    (fun ix _ out hout => fitBytes_instruction instructions payer alts ix hout) hixs).trans
      (indexes_fit_iff instructions payer alts)
  have hlookupsFit := (fitBytes_mapM (fun lk _ out hout => fitBytes_lookup lk hout)
    hlookups).trans (lookups_fit_iff instructions payer alts)
  have hversion : FitBytes [0x80] := by
    intro i hi
    rw [List.mem_singleton.1 hi]
    decide
  simp only [fitBytes_append, hcounts, hixsFit, hlookupsFit, fitBytes_bytes,
    fitBytes_compact hkeyCount, fitBytes_compact hixCount, fitBytes_compact hlookupCount,
    hversion, true_and, and_true]
  rw [numRequiredSignatures_eq]
  have hlen := length_resolvedAccounts instructions payer alts
  constructor
  · rintro ⟨⟨⟨hrequired, -⟩, haccounts⟩, hpositions⟩
    exact ⟨haccounts, by omega, hpositions⟩
  · rintro ⟨haccounts, hsigners, hpositions⟩
    obtain ⟨hsigned, -, hunsigned⟩ := numReadonlyUnsigned_lt instructions payer alts
      (by omega)
    rw [numRequiredSignatures_eq] at hsigned
    exact ⟨⟨⟨by omega, by omega, hunsigned⟩, haccounts⟩, hpositions⟩

/-! ## When the call throws -/

theorem compactU16_ok_iff {n : Nat} : (∃ enc, compactU16 n = .ok enc) ↔ n ≤ 65535 := by
  unfold compactU16 CompactU16.encode
  by_cases hn : n > CompactU16.maxValue
  · have hgt : ¬ n ≤ 65535 := Nat.not_le.2 hn
    rw [if_pos hn]
    simp only [hgt, iff_false]
    rintro ⟨enc, h⟩
    cases h
  · have hle : n ≤ 65535 := Nat.le_of_not_lt hn
    rw [if_neg hn]
    simp only [hle, iff_true]
    by_cases hsmall : n ≤ 0x7f
    · rw [if_pos hsmall]
      exact ⟨_, rfl⟩
    · rw [if_neg hsmall]
      exact ⟨_, rfl⟩

theorem compactArrayU8_ok_iff {items : List Nat} :
    (∃ enc, compactArrayU8 items = .ok enc) ↔ items.length ≤ 65535 := by
  rw [← compactU16_ok_iff]
  constructor
  · rintro ⟨enc, h⟩
    obtain ⟨size, hsize, -⟩ := bind_eq_ok.1 h
    exact ⟨size, hsize⟩
  · rintro ⟨size, hsize⟩
    exact ⟨_, bind_eq_ok.2 ⟨size, hsize, rfl⟩⟩

theorem accountIndex_ok {key : PublicKey} (what where_ : String)
    (hkey : key ∈ (mentions instructions payer).map (·.pubkey)) :
    ∃ i, accountIndex (compileAccounts instructions payer alts).indexByBase58 what where_ key =
      .ok i := by
  have hmem : key ∈ (resolvedAccounts (compileAccounts instructions payer alts)).map
      (·.pubkey) :=
    List.mem_map.2 ⟨_, account_mem instructions payer alts hkey, by simp [account, mentionInfo]⟩
  unfold accountIndex
  rw [index_get?, if_pos hmem]
  exact ⟨_, rfl⟩

theorem serializeInstruction_ok_iff {ix : Instruction} (hix : ix ∈ instructions) :
    (∃ enc, serializeInstruction (compileAccounts instructions payer alts).indexByBase58 ix =
      .ok enc) ↔ ix.keys.length ≤ 65535 ∧ ix.data.length ≤ 65535 := by
  have hlen : ∀ indices, (ix.keys.mapM fun m => accountIndex
      (compileAccounts instructions payer alts).indexByBase58 "account" "resolved account list"
        m.pubkey) = .ok indices → indices.length = ix.keys.length := by
    intro indices h
    exact (mapM_eq_ok.1 h).length_eq.symm
  constructor
  · rintro ⟨enc, h⟩
    simp only [serializeInstruction, bind_eq_ok] at h
    obtain ⟨-, -, indices, hindices, accounts, haccounts, data, hdata, -⟩ := h
    have hkeys := compactArrayU8_ok_iff.1 ⟨accounts, haccounts⟩
    have hbytes := compactArrayU8_ok_iff.1 ⟨data, hdata⟩
    rw [hlen indices hindices] at hkeys
    rw [List.length_map] at hbytes
    exact ⟨hkeys, hbytes⟩
  · rintro ⟨hkeys, hbytes⟩
    obtain ⟨program, hprogram⟩ := accountIndex_ok instructions payer alts "program id"
      "account list" (mentioned_program instructions payer hix)
    obtain ⟨indices, hindices⟩ := mapM_ok_iff.2 fun m hm => accountIndex_ok instructions payer alts
      "account" "resolved account list" (mentioned_key instructions payer hix (m := m) hm)
    obtain ⟨accounts, haccounts⟩ := compactArrayU8_ok_iff.2
      ((hlen indices hindices).trans_le hkeys)
    obtain ⟨data, hdata⟩ := compactArrayU8_ok_iff.2
      ((List.length_map UInt8.toNat).trans_le hbytes)
    simp only [serializeInstruction, bind_eq_ok]
    exact ⟨_, program, hprogram, indices, hindices, accounts, haccounts, data, hdata, rfl⟩

theorem serializeLookup_ok_iff {lk : TableLookup} :
    (∃ enc, serializeLookup lk = .ok enc) ↔
      lk.writableIndexes.length ≤ 65535 ∧ lk.readonlyIndexes.length ≤ 65535 := by
  rw [← compactArrayU8_ok_iff, ← compactArrayU8_ok_iff]
  constructor
  · rintro ⟨enc, h⟩
    simp only [serializeLookup, bind_eq_ok] at h
    obtain ⟨writable, hwritable, readonly, hreadonly, -⟩ := h
    exact ⟨⟨writable, hwritable⟩, readonly, hreadonly⟩
  · rintro ⟨⟨writable, hwritable⟩, readonly, hreadonly⟩
    simp only [serializeLookup, bind_eq_ok]
    exact ⟨_, writable, hwritable, readonly, hreadonly, rfl⟩

/-- The lengths that go into the message as compact-u16 prefixes. -/
def prefixedLengths : List Nat :=
  [(staticKeys instructions payer alts).length, instructions.length,
    (tableOrder instructions payer alts).length] ++
    (instructions.flatMap fun ix => [ix.keys.length, ix.data.length]) ++
    (tableOrder instructions payer alts).flatMap fun table =>
      [(keysIn instructions payer alts true table).length,
        (keysIn instructions payer alts false table).length]

theorem serializeMessage_ok_iff (blockhash : List UInt8) :
    (∃ msg, serializeMessage (compileAccounts instructions payer alts) instructions blockhash =
      .ok msg) ↔ ∀ n ∈ prefixedLengths instructions payer alts, n ≤ 65535 := by
  have hlengths : (∀ n ∈ prefixedLengths instructions payer alts, n ≤ 65535) ↔
      ((staticKeys instructions payer alts).length ≤ 65535 ∧ instructions.length ≤ 65535 ∧
        (tableOrder instructions payer alts).length ≤ 65535) ∧
      (∀ ix ∈ instructions, ix.keys.length ≤ 65535 ∧ ix.data.length ≤ 65535) ∧
      ∀ table ∈ tableOrder instructions payer alts,
        (keysIn instructions payer alts true table).length ≤ 65535 ∧
          (keysIn instructions payer alts false table).length ≤ 65535 := by
    simp only [prefixedLengths, List.forall_mem_append, List.forall_mem_cons, List.not_mem_nil,
      false_implies, implies_true, List.forall_mem_flatMap, and_true, and_assoc]
  have hixs : (∃ ixs, instructions.mapM (serializeInstruction
        (compileAccounts instructions payer alts).indexByBase58) = .ok ixs) ↔
      ∀ ix ∈ instructions, ix.keys.length ≤ 65535 ∧ ix.data.length ≤ 65535 :=
    mapM_ok_iff.trans (forall₂_congr fun _ hix =>
      serializeInstruction_ok_iff instructions payer alts hix)
  have htables : (∃ parts, (buildAddressTableLookups
        (compileAccounts instructions payer alts).altWritable
        (compileAccounts instructions payer alts).altReadonly).mapM serializeLookup = .ok parts) ↔
      ∀ table ∈ tableOrder instructions payer alts,
        (keysIn instructions payer alts true table).length ≤ 65535 ∧
          (keysIn instructions payer alts false table).length ≤ 65535 := by
    rw [mapM_ok_iff, lookups_eq]
    simp only [List.forall_mem_map, serializeLookup_ok_iff, List.length_map]
  have hcount : (buildAddressTableLookups (compileAccounts instructions payer alts).altWritable
      (compileAccounts instructions payer alts).altReadonly).length =
      (tableOrder instructions payer alts).length := by
    rw [lookups_eq, List.length_map]
  rw [hlengths, ← hixs, ← htables, ← length_staticAccounts, ← hcount, ← compactU16_ok_iff,
    ← compactU16_ok_iff, ← compactU16_ok_iff]
  constructor
  · rintro ⟨msg, h⟩
    simp only [serializeMessage, bind_eq_ok] at h
    obtain ⟨keyCount, hkeyCount, ixCount, hixCount, ixs, hixs, lookupCount, hlookupCount, parts,
      hparts, -⟩ := h
    exact ⟨⟨⟨_, hkeyCount⟩, ⟨_, hixCount⟩, _, hlookupCount⟩, ⟨_, hixs⟩, _, hparts⟩
  · rintro ⟨⟨⟨keyCount, hkeyCount⟩, ⟨ixCount, hixCount⟩, lookupCount, hlookupCount⟩,
      ⟨ixs, hixs⟩, parts, hparts⟩
    simp only [serializeMessage, bind_eq_ok]
    exact ⟨_, keyCount, hkeyCount, ixCount, hixCount, ixs, hixs, lookupCount, hlookupCount, parts,
      hparts, rfl⟩

end Compiled

/-! ## The call -/

/-- The blockhash is not the base58 text of 32 bytes, or a list is too long for its
prefix. -/
def Rejected (options : CompileOptions) : Prop :=
  (∀ blockhash, Base58.decode options.recentBlockhash = .ok blockhash →
    blockhash.length ≠ 32) ∨
  ∃ n ∈ prefixedLengths options.instructions options.payer (options.alts.map normaliseAlt),
    65535 < n

theorem decodeBlockhash_ok_iff {s : String} {blockhash : List UInt8} :
    decodeBlockhash s = .ok blockhash ↔
      Base58.decode s = .ok blockhash ∧ blockhash.length = 32 := by
  unfold decodeBlockhash
  cases Base58.decode s with
  | error e => simp
  | ok bytes =>
      by_cases hlen : bytes.length = 32
      · simp only [hlen, if_true, Except.ok.injEq]
        constructor
        · rintro rfl
          exact ⟨rfl, hlen⟩
        · exact fun h => h.1
      · simp only [hlen, if_false, Except.ok.injEq]
        constructor
        · intro h
          cases h
        · rintro ⟨rfl, h⟩
          exact absurd h hlen

theorem not_rejected_iff {options : CompileOptions} :
    ¬ Rejected options ↔ ∃ c, compile options = .ok c := by
  have hmessage := serializeMessage_ok_iff options.instructions options.payer
    (options.alts.map normaliseAlt)
  constructor
  · intro h
    rw [Rejected, not_or, not_forall] at h
    obtain ⟨⟨blockhash, hblockhash⟩, hlengths⟩ := h
    rw [Classical.not_imp, not_not] at hblockhash
    obtain ⟨msg, hmsg⟩ := (hmessage blockhash).2 fun n hn => by
      by_contra hlarge
      exact hlengths ⟨n, hn, Nat.lt_of_not_le hlarge⟩
    simp only [compile, bind_eq_ok]
    exact ⟨_, blockhash, decodeBlockhash_ok_iff.2 hblockhash, msg, hmsg, rfl⟩
  · rintro ⟨c, h⟩ hrejected
    simp only [compile, bind_eq_ok] at h
    obtain ⟨blockhash, hblockhash, msg, hmsg, -⟩ := h
    rw [decodeBlockhash_ok_iff] at hblockhash
    rcases hrejected with hbad | ⟨n, hn, hlarge⟩
    · exact hbad blockhash hblockhash.1 hblockhash.2
    · exact absurd ((hmessage blockhash).1 ⟨msg, hmsg⟩ n hn) (Nat.not_le.2 hlarge)

/-- Every signature has a slot that its prefix can count: the signers are static. -/
theorem compileUnsigned_ok_iff (options : CompileOptions) :
    (∃ compiled, compileUnsigned options = .ok compiled) ↔ ¬ Rejected options := by
  rw [not_rejected_iff]
  constructor
  · rintro ⟨compiled, h⟩
    obtain ⟨c, hc, -⟩ := bind_eq_ok.1 h
    exact ⟨c, hc⟩
  · rintro ⟨c, hc⟩
    have hcompiled := hc
    simp only [compile, bind_eq_ok, pure_eq_ok] at hcompiled
    obtain ⟨blockhash, -, msg, hmsg, rfl⟩ := hcompiled
    have hstatic := (serializeMessage_ok_iff options.instructions options.payer
      (options.alts.map normaliseAlt) blockhash).1 ⟨msg, hmsg⟩
      (staticKeys options.instructions options.payer (options.alts.map normaliseAlt)).length
      (by simp [prefixedLengths])
    rw [← length_staticAccounts] at hstatic
    have hsigners : (((compileAccounts options.instructions options.payer
        (options.alts.map normaliseAlt)).staticAccounts.take
          (compileAccounts options.instructions options.payer
            (options.alts.map normaliseAlt)).numRequiredSignatures).map (·.pubkey)).length ≤
        65535 := by
      rw [List.length_map, List.length_take]
      omega
    rw [← List.length_map (fun _ => List.replicate 64 (0 : UInt8))] at hsigners
    obtain ⟨size, hsize⟩ := compactU16_ok_iff.2 hsigners
    simp only [compileUnsigned, wire, bind_eq_ok, hc]
    exact ⟨_, _, rfl, _, ⟨size, hsize, rfl⟩, rfl⟩

/-- The bytes say what was meant: they are the numbers of the message, none of them
narrowed to something else. -/
def SaysTheNumbers (options : CompileOptions) (messageBytes : List UInt8) : Prop :=
  ∃ blockhash numbers, Base58.decode options.recentBlockhash = .ok blockhash ∧
    messageNumbers (compileAccounts options.instructions options.payer
      (options.alts.map normaliseAlt)) options.instructions blockhash = .ok numbers ∧
    messageBytes.map UInt8.toNat = numbers

/-- `Fits`, of the options. -/
def FitsOptions (options : CompileOptions) : Prop :=
  Fits options.instructions options.payer (options.alts.map normaliseAlt)

theorem says_iff {options : CompileOptions} {c : Compiled} (h : compile options = .ok c) :
    SaysTheNumbers options c.messageBytes ↔ FitsOptions options := by
  simp only [compile, bind_eq_ok, pure_eq_ok] at h
  obtain ⟨blockhash, hblockhash, msg, hmsg, rfl⟩ := h
  rw [decodeBlockhash_ok_iff] at hblockhash
  rw [narrows_message] at hmsg
  cases hnumbers : messageNumbers (compileAccounts options.instructions options.payer
      (options.alts.map normaliseAlt)) options.instructions blockhash with
  | error e =>
      rw [hnumbers] at hmsg
      cases hmsg
  | ok numbers =>
      rw [hnumbers] at hmsg
      cases hmsg
      rw [FitsOptions, ← fitBytes_message_iff _ _ _ hnumbers, ← narrow_exact_iff]
      constructor
      · rintro ⟨blockhash', numbers', hblockhash', hnumbers', heq⟩
        rw [hblockhash.1] at hblockhash'
        cases hblockhash'
        rw [hnumbers] at hnumbers'
        cases hnumbers'
        exact heq
      · intro heq
        exact ⟨blockhash, numbers, hblockhash.1, hnumbers, heq⟩

/-- `assemble` gets to its first signer only with a compiled message. -/
theorem compile_of_prepare {options : AssemblerOptions} {p : Prepared}
    (h : prepare options = .ok p) :
    ∃ c, compile options.toCompileOptions = .ok c ∧ p.messageBytes = c.messageBytes ∧
      p.accountKeys = c.accountKeys ∧
      p.required = (c.compiled.staticAccounts.take c.compiled.numRequiredSignatures).map
        (·.pubkey) := by
  unfold prepare at h
  split at h
  · cases h
  · simp only [bind_eq_ok] at h
    obtain ⟨c, hc, h⟩ := h
    split at h
    · cases h
    · cases h
      exact ⟨c, hc, rfl, rfl, rfl⟩

/-- A message says what was meant, or the call throws, exactly when the options are
rejected or fit; and what `assemble` signs says it exactly when they fit. -/
theorem never_wraps_iff (options : CompileOptions) (signed : AssemblerOptions)
    (sign : PublicKey → List UInt8 → Except Thrown (List UInt8)) :
    ((∀ compiled, compileUnsigned options = .ok compiled →
        SaysTheNumbers options compiled.messageBytes) ↔
      Rejected options ∨ FitsOptions options) ∧
    ∀ r : AssemblerResult, assemble signed sign = .ok r →
      (SaysTheNumbers signed.toCompileOptions r.messageBytes ↔
        FitsOptions signed.toCompileOptions) := by
  constructor
  · have hok := compileUnsigned_ok_iff options
    constructor
    · intro h
      by_cases hrejected : Rejected options
      · exact .inl hrejected
      · obtain ⟨compiled, hcompiled⟩ := hok.2 hrejected
        have hsays := h compiled hcompiled
        simp only [compileUnsigned, bind_eq_ok, pure_eq_ok] at hcompiled
        obtain ⟨c, hc, unsigned, -, rfl⟩ := hcompiled
        exact .inr ((says_iff hc).1 hsays)
    · rintro h compiled hcompiled
      have hnot : ¬ Rejected options := hok.1 ⟨compiled, hcompiled⟩
      simp only [compileUnsigned, bind_eq_ok, pure_eq_ok] at hcompiled
      obtain ⟨c, hc, unsigned, -, rfl⟩ := hcompiled
      exact (says_iff hc).2 (h.resolve_left hnot)
  · intro r h
    simp only [assemble, bind_eq_ok, pure_eq_ok] at h
    obtain ⟨p, hp, signatures, -, signed, -, rfl⟩ := h
    obtain ⟨c, hc, hmessage, -⟩ := compile_of_prepare hp
    show SaysTheNumbers _ p.messageBytes ↔ _
    rw [hmessage]
    exact says_iff hc

/-- An instruction on an account that stands at position 256 of a table. -/
def longTable : CompileOptions where
  instructions :=
    [{ programId := .ofByte 2
       keys := [{ pubkey := .ofByte 3, isSigner := false, isWritable := false }]
       data := [] }]
  payer := .ofByte 1
  recentBlockhash := "11111111111111111111111111111111"
  alts :=
    [.keyed { key := .ofByte 4
              alt := { addresses := List.replicate 256 (.ofByte 5) ++ [.ofByte 3] } }]

/-- The message that comes back looks up position 0. -/
theorem longTable_wraps :
    (∃ compiled, compileUnsigned longTable = .ok compiled ∧
      compiled.messageBytes.drop 107 = (PublicKey.ofByte 4).bytes ++ [0, 1, 0]) ∧
    ¬ ∀ options compiled, compileUnsigned options = .ok compiled →
      SaysTheNumbers options compiled.messageBytes := by
  have hrun : ∃ compiled, compileUnsigned longTable = .ok compiled ∧
      compiled.messageBytes.drop 107 = (PublicKey.ofByte 4).bytes ++ [0, 1, 0] := by
    decide +kernel
  refine ⟨hrun, fun hall => ?_⟩
  obtain ⟨compiled, hcompiled, -⟩ := hrun
  have hsays := hall longTable compiled hcompiled
  simp only [compileUnsigned, bind_eq_ok, pure_eq_ok] at hcompiled
  obtain ⟨c, hc, unsigned, -, rfl⟩ := hcompiled
  have hfits := (says_iff hc).1 hsays
  have hposition : 256 < 256 := hfits.positions (.ofByte 3) (by decide +kernel)
    { key := .ofByte 4, altIndex := 256 } (by decide +kernel)
  omega

end Ap3xSolana.Tx.NoWrap
