import Ap3xSolana.Tx.CompileAccounts
import Ap3xSolana.Tx.ReadBack

/-!
# Compile, then decompile

`compileAccounts` hands out the indices of looked-up accounts in order of first
mention, but the message groups them by table and the runtime, like
`decompileMessage`, numbers them table by table.  The round trip gives the
instructions back exactly when the two orders agree
(`decompile_compileUnsigned_iff`).
-/

namespace Ap3xSolana.Tx.RoundTrip

open Ap3xSolana.Core Ap3xSolana.Lib Ap3xSolana.Lib.Cursor Ap3xSolana.Lib.Throwing
open Ap3xSolana.Lib.Grouping
open Ap3xSolana.Tx.TransactionAssembler Ap3xSolana.Tx.TransactionV1
open Ap3xSolana.Tx.TransactionCodec Ap3xSolana.Tx.CompileAccounts Ap3xSolana.Tx.ReadBack

/-! ## Reading a serialized message -/

/-- The layout a reader takes from the message of compiled accounts. -/
def layoutOf (c : CompiledAccounts) (nWritable : Nat) : MessageLayout :=
  { required := c.numRequiredSignatures
    readonlySigned := c.numReadonlySigned
    readonlyUnsigned := c.numReadonlyUnsigned
    nKeys := c.staticAccounts.length
    nWritable := nWritable }

theorem readHeader_at {bytes rest : List UInt8} {off a b c : Nat} (ha : a < 256)
    (hb : b < 256) (hc : c < 256)
    (h : At bytes off ([UInt8.ofNat a, UInt8.ofNat b, UInt8.ofNat c] ++ rest)) :
    readHeader bytes off = .ok (a, b, c) := by
  have hgetA := h.get
  have hgetB := h.tail.get
  have hgetC := h.tail.tail.get
  simp [readHeader, hgetA, hgetB, hgetC, Nat.mod_eq_of_lt, ha, hb, hc]

section Message

variable {c : CompiledAccounts} {instructions : List Instruction}
  {blockhash msg : List UInt8} {index : PublicKey → Nat}
  {lookupTables : OrderedMap PublicKey (List PublicKey)}
  {writableOf readonlyOf : TableLookup → List PublicKey}

/-- A reader sees the compiled accounts, with the looked-up ones in table order,
and the instructions in terms of their indices. -/
theorem decompileMessage_serializeMessage
    (hser : serializeMessage c instructions blockhash = .ok msg)
    (hblockhash : blockhash.length = 32)
    (hrequired : c.numRequiredSignatures ≤ c.staticAccounts.length)
    (hreqByte : c.numRequiredSignatures < 256)
    (hsignedByte : c.numReadonlySigned < 256)
    (hunsignedByte : c.numReadonlyUnsigned < 256)
    (hindex : ∀ key i, c.indexByBase58.get? key = some i → i = index key)
    (hprogram : ∀ ix ∈ instructions, index ix.programId < c.staticAccounts.length)
    (hbyte : ∀ ix ∈ instructions, index ix.programId < 256)
    (hbytes : ∀ ix ∈ instructions, ∀ m ∈ ix.keys, index m.pubkey < 256)
    (hres : ∀ lk ∈ buildAddressTableLookups c.altWritable c.altReadonly,
      Resolves lookupTables lk (writableOf lk) (readonlyOf lk)) :
    decompileMessage msg lookupTables none = (do
      let lookups := buildAddressTableLookups c.altWritable c.altReadonly
      let accountKeys := c.staticAccounts.map (·.pubkey)
      let instructions ← resolveInstructions
        (layoutOf c (lookups.flatMap writableOf).length)
        (accountKeys ++ lookups.flatMap writableOf ++ lookups.flatMap readonlyOf)
        accountKeys 0 (instructions.map (rawInstruction index))
      return { instructions := instructions
               accountKeys := accountKeys
               signers := accountKeys.take c.numRequiredSignatures
               recentBlockhash := Base58.encode blockhash }) := by
  simp only [serializeMessage, bind_eq_ok, pure_eq_ok] at hser
  obtain ⟨keyCount, hkeyCount, ixCount, hixCount, ixs, hixs, lookupCount, hlookupCount,
    lookupBytes, hlookups, hmsg⟩ := hser
  have hstart := At.start msg
  conv at hstart => arg 3; rw [← hmsg]
  have hkeyBytes : c.staticAccounts.map (·.pubkey.bytes) =
      (c.staticAccounts.map (·.pubkey)).map (·.bytes) := by rw [List.map_map]; rfl
  rw [hkeyBytes] at hstart
  simp only [List.append_assoc] at hstart
  have hversion := readVersion_v0 hstart
  have hfirst := hstart.get
  have hheader : At msg 1 _ := hstart.next
  have hread := readHeader_at hreqByte hsignedByte hunsignedByte hheader
  have hcount : At msg 4 _ := hheader.next
  have hreadCount := readCompact_at hkeyCount hcount
  have hkeys := hcount.next
  have hreadKeys := readKeys_at hkeys
  have hbh := hkeys.next
  rw [length_flatten_keys] at hbh
  simp only [List.length_map] at hreadKeys hbh
  have hslice := hbh.slice
  have hix := hbh.next
  rw [hblockhash] at hslice hix
  have hreadIx := readCompact_at hixCount hix
  obtain ⟨hreadIxs, hlookup⟩ := readInstructions_at hindex
    hprogram hbyte hbytes hixs 0 _ hix.next
  have hreadLookup := readCompact_at hlookupCount hlookup
  have hlast := hlookup.next
  rw [← List.append_nil lookupBytes.flatten] at hlast
  obtain ⟨hreadLookups, hend⟩ := readLookups_at hres hlookups {} _ hlast
  have hfit : ¬ (c.numRequiredSignatures > c.staticAccounts.length ∨
      4 + keyCount.length + c.staticAccounts.length * 32 > msg.length) := by
    have := hbh.1
    omega
  have hfit' : ¬ 4 + keyCount.length + c.staticAccounts.length * 32 + 32 > msg.length :=
    Nat.not_lt.2 hix.1
  have hdone := hend.length
  simp only [List.length_nil, Nat.add_zero] at hdone
  have hnot : ¬ msg[0]? = some (0x81 : UInt8) := by
    rw [hfirst]
    decide
  simp only [decompileMessage, hnot, if_false, hversion, if_true, hread, hreadCount,
    hfit, hreadKeys, hfit', hslice, hreadIx, hreadIxs, readLookupSection, hreadLookup,
    hreadLookups, hdone, bind, Except.bind, pure, Except.pure, ne_eq,
    not_true_eq_false, List.nil_append, layoutOf]

end Message

/-! ## Resolving the indices -/

/-- Instructions read back over an account list in which `index key` holds
`at_ key`. -/
theorem resolveInstructions_eq {m : MessageLayout} {resolved accountKeys : List PublicKey}
    {index : PublicKey → Nat} {at_ : PublicKey → PublicKey}
    {instructions : List Instruction}
    (hprogram : ∀ ix ∈ instructions,
      accountKeys[index ix.programId]? = some ix.programId)
    (hkeys : ∀ ix ∈ instructions, ∀ a ∈ ix.keys,
      resolved[index a.pubkey]? = some (at_ a.pubkey)) :
    ∀ n, resolveInstructions m resolved accountKeys n
        (instructions.map (rawInstruction index)) =
      .ok (instructions.map fun ix =>
        { ix with keys := ix.keys.map fun a =>
            { pubkey := at_ a.pubkey
              isSigner := index a.pubkey < m.required
              isWritable := m.isWritable (index a.pubkey) } }) := by
  induction instructions with
  | nil => exact fun _ => rfl
  | cons ix instructions ih =>
      intro n
      have hrest := ih (fun ix' h => hprogram ix' (by simp [h]))
        (fun ix' h => hkeys ix' (by simp [h])) (n + 1)
      have hmap : (ix.keys.map fun a => index a.pubkey).mapM
          (resolveKey m resolved n) = .ok (ix.keys.map fun a =>
            { pubkey := at_ a.pubkey
              isSigner := index a.pubkey < m.required
              isWritable := m.isWritable (index a.pubkey) }) := by
        rw [mapM_eq_ok, List.forall₂_map_left_iff, List.forall₂_map_right_iff]
        refine List.forall₂_same.2 fun a ha => ?_
        simp [resolveKey, hkeys ix (by simp) a ha]
      simp only [List.map_cons, resolveInstructions, resolveInstruction, rawInstruction,
        keyOf, hmap, hprogram ix (by simp), bind, Except.bind, pure, Except.pure]
      rw [hrest]

/-- The lookup tables of a transaction, by key. -/
def tablesByKey (alts : List KeyedAlt) : OrderedMap PublicKey (List PublicKey) :=
  alts.foldl (fun tables a => tables.set a.key a.alt.addresses) .empty

theorem tablesByKey_get? {alts : List KeyedAlt} (hnodup : (alts.map (·.key)).Nodup)
    {a : KeyedAlt} (ha : a ∈ alts) :
    (tablesByKey alts).get? a.key = some a.alt.addresses := by
  induction alts using List.reverseRecOn with
  | nil => simp at ha
  | append_singleton alts b ih =>
      rw [List.map_append, List.nodup_append] at hnodup
      rw [tablesByKey, List.foldl_append, List.foldl_cons, List.foldl_nil,
        OrderedMap.get?_set]
      rcases List.mem_append.1 ha with h | h
      · have hne : a.key ≠ b.key :=
          hnodup.2.2 a.key (List.mem_map_of_mem h) b.key (by simp)
        rw [if_neg hne]
        exact ih hnodup.1 h
      · obtain rfl := List.mem_singleton.1 h
        rw [if_pos rfl]

/-- Where a key was found, there it is. -/
theorem findAlt_some {alts : List KeyedAlt} {key : PublicKey} {ref : AltRef}
    (h : findAlt alts key = some ref) :
    ∃ a ∈ alts, a.key = ref.key ∧ a.alt.addresses[ref.altIndex]? = some key := by
  obtain ⟨a, ha, hidx⟩ := List.exists_of_findSome?_eq_some h
  rw [Option.map_eq_some_iff] at hidx
  obtain ⟨i, hi, rfl⟩ := hidx
  obtain ⟨hlt, heq, -⟩ := List.findIdx?_eq_some_iff_getElem.1 hi
  refine ⟨a, ha, rfl, ?_⟩
  rw [List.getElem?_eq_getElem hlt]
  simpa using heq

/-! ## Table order -/

section Tables

variable (instructions : List Instruction) (payer : PublicKey) (alts : List KeyedAlt)

/-- Position of a looked-up key. -/
def refOf (key : PublicKey) : AltRef :=
  (tableRef instructions payer alts key).getD { key := zeroKey, altIndex := 0 }

/-- The table a looked-up key is looked up in. -/
def tableOf (key : PublicKey) : PublicKey := (refOf instructions payer alts key).key

/-- The tables in order of first use: by the written accounts in order of first
mention, then by the read-only ones. -/
def tableOrder : List PublicKey :=
  firstSeen ((lookedUpKeys instructions payer alts true ++
    lookedUpKeys instructions payer alts false).map
      (tableOf instructions payer alts))

/-- The looked-up accounts come in table order: no written account is mentioned
before one of an earlier table, and no read-only account is. -/
def InTableOrder : Prop :=
  ∀ writable, (lookedUpKeys instructions payer alts writable).Pairwise fun x y =>
    rank (tableOf instructions payer alts) (tableOrder instructions payer alts) x ≤
      rank (tableOf instructions payer alts) (tableOrder instructions payer alts) y

instance : Decidable (InTableOrder instructions payer alts) :=
  inferInstanceAs (Decidable (∀ _ : Bool, List.Pairwise _ _))

/-- The looked-up accounts as the message lists them, table by table. -/
def groupedKeys (writable : Bool) : List PublicKey :=
  group (tableOf instructions payer alts) (tableOrder instructions payer alts)
    (lookedUpKeys instructions payer alts writable)

theorem tableRef_of_lookedUp {writable : Bool} {key : PublicKey}
    (h : key ∈ lookedUpKeys instructions payer alts writable) :
    tableRef instructions payer alts key =
      some (refOf instructions payer alts key) := by
  have hsome := (List.mem_filter.1 h).2
  simp only [Bool.and_eq_true] at hsome
  rw [refOf]
  cases href : tableRef instructions payer alts key with
  | none => simp [href] at hsome
  | some ref => rfl

theorem tableOf_mem {writable : Bool} {key : PublicKey}
    (h : key ∈ lookedUpKeys instructions payer alts writable) :
    tableOf instructions payer alts key ∈ tableOrder instructions payer alts := by
  rw [tableOrder, mem_firstSeen]
  refine List.mem_map_of_mem (List.mem_append.2 ?_)
  cases writable with
  | true => exact Or.inl h
  | false => exact Or.inr h

theorem inTableOrder_iff :
    InTableOrder instructions payer alts ↔
      ∀ writable, groupedKeys instructions payer alts writable =
        lookedUpKeys instructions payer alts writable :=
  forall_congr' fun _ =>
    (group_eq_self_iff _ (nodup_firstSeen _)
      fun _ h => tableOf_mem instructions payer alts h).symm

theorem length_groupedKeys (writable : Bool) :
    (groupedKeys instructions payer alts writable).length =
      (lookedUpKeys instructions payer alts writable).length :=
  (group_perm _ (nodup_firstSeen _) _
    fun _ h => tableOf_mem instructions payer alts h).length_eq

/-- The looked-up keys of one table. -/
def keysIn (writable : Bool) (table : PublicKey) : List PublicKey :=
  (lookedUpKeys instructions payer alts writable).filter
    (tableOf instructions payer alts · = table)

theorem taggedRefs_alt (writable tag : Bool) :
    taggedRefs tag ((lookedUpKeys instructions payer alts writable).map
        (account (mentions instructions payer) (instructions.map (·.programId)) alts)) =
      (lookedUpKeys instructions payer alts writable).map fun key =>
        (tag, refOf instructions payer alts key) := by
  rw [taggedRefs, List.filterMap_map, List.filterMap_eq_map_iff_forall_eq_some]
  intro key hkey
  have href := tableRef_of_lookedUp instructions payer alts hkey
  simp [Function.comp, account_alt, href]

/-- The lookup section of a compiled transaction. -/
theorem lookups_eq :
    buildAddressTableLookups (compileAccounts instructions payer alts).altWritable
        (compileAccounts instructions payer alts).altReadonly =
      (tableOrder instructions payer alts).map fun table =>
        { accountKey := table
          writableIndexes := (keysIn instructions payer alts true table).map fun key =>
            (refOf instructions payer alts key).altIndex
          readonlyIndexes := (keysIn instructions payer alts false table).map fun key =>
            (refOf instructions payer alts key).altIndex } := by
  obtain ⟨hw, hr⟩ := compileAccounts_alt instructions payer alts
  rw [buildAddressTableLookups_eq, hw, hr, taggedRefs_alt, taggedRefs_alt]
  have horder : ((lookedUpKeys instructions payer alts true).map
        (fun key => (true, refOf instructions payer alts key)) ++
      (lookedUpKeys instructions payer alts false).map
        (fun key => (false, refOf instructions payer alts key))).map
          (fun r : TaggedRef => r.2.key) =
      (lookedUpKeys instructions payer alts true ++
        lookedUpKeys instructions payer alts false).map
          (tableOf instructions payer alts) := by
    simp only [List.map_append, List.map_map]
    rfl
  rw [horder]
  refine List.map_congr_left fun table _ => ?_
  simp [tableLookup, indexesOf, keysIn, tableOf, List.filter_map, Function.comp_def]
  exact ⟨rfl, rfl⟩

theorem flatMap_keysIn (writable : Bool) :
    ((buildAddressTableLookups (compileAccounts instructions payer alts).altWritable
        (compileAccounts instructions payer alts).altReadonly).flatMap fun lk =>
          keysIn instructions payer alts writable lk.accountKey) =
      groupedKeys instructions payer alts writable := by
  rw [lookups_eq, List.flatMap_map]
  rfl

/-- With distinct tables of at most 256 addresses every lookup resolves to the
keys it was made from. -/
theorem lookups_resolve (hnodup : (alts.map (·.key)).Nodup)
    (hsize : ∀ a ∈ alts, a.alt.addresses.length ≤ 256) {lk : TableLookup}
    (hlk : lk ∈ buildAddressTableLookups
      (compileAccounts instructions payer alts).altWritable
      (compileAccounts instructions payer alts).altReadonly) :
    Resolves (tablesByKey alts) lk (keysIn instructions payer alts true lk.accountKey)
      (keysIn instructions payer alts false lk.accountKey) := by
  rw [lookups_eq] at hlk
  obtain ⟨table, htable, rfl⟩ := List.mem_map.1 hlk
  -- every key of the table sits at its position there
  have hat : ∀ writable, ∀ key ∈ lookedUpKeys instructions payer alts writable,
      ∃ a ∈ alts, a.key = tableOf instructions payer alts key ∧
        a.alt.addresses[(refOf instructions payer alts key).altIndex]? = some key := by
    intro writable key hkey
    have href := tableRef_of_lookedUp instructions payer alts hkey
    have hfind : findAlt alts key = some (refOf instructions payer alts key) := by
      unfold tableRef at href
      split at href
      · cases href
      · exact href
    exact findAlt_some hfind
  have hbyte : ∀ writable, ∀ key ∈ keysIn instructions payer alts writable table,
      (refOf instructions payer alts key).altIndex < 256 := by
    intro writable key hkey
    obtain ⟨a, ha, -, hget⟩ := hat writable key (List.mem_filter.1 hkey).1
    have hlt := (List.getElem?_eq_some_iff.1 hget).1
    have := hsize a ha
    omega
  -- the table itself is one of the tables given
  obtain ⟨a₀, ha₀, hkey₀⟩ : ∃ a ∈ alts, a.key = table := by
    rw [tableOrder, mem_firstSeen] at htable
    obtain ⟨key, hkey, rfl⟩ := List.mem_map.1 htable
    rcases List.mem_append.1 hkey with h | h
    · obtain ⟨a, ha, hak, -⟩ := hat true key h
      exact ⟨a, ha, hak⟩
    · obtain ⟨a, ha, hak, -⟩ := hat false key h
      exact ⟨a, ha, hak⟩
  have hfound : ∀ writable,
      ((keysIn instructions payer alts writable table).map fun key =>
          (refOf instructions payer alts key).altIndex).map
          (a₀.alt.addresses[·]?) =
        (keysIn instructions payer alts writable table).map some := by
    intro writable
    rw [List.map_map]
    refine List.map_congr_left fun key hkey => ?_
    rw [keysIn, List.mem_filter, decide_eq_true_eq] at hkey
    obtain ⟨a, ha, hak, hget⟩ := hat writable key hkey.1
    have hsame : a = a₀ := by
      refine List.inj_on_of_nodup_map hnodup ha ha₀ ?_
      rw [hak, hkey.2, hkey₀]
    rw [← hsame]
    exact hget
  refine ⟨?_, ?_, a₀.alt.addresses, ?_, hfound true, hfound false⟩
  · intro i hi
    obtain ⟨key, hkey, rfl⟩ := List.mem_map.1 hi
    exact hbyte true key hkey
  · intro i hi
    obtain ⟨key, hkey, rfl⟩ := List.mem_map.1 hi
    exact hbyte false key hkey
  · rw [← hkey₀]
    exact tablesByKey_get? hnodup ha₀

end Tables

/-! ## Permissions by position -/

theorem isWritable_iff (m : MessageLayout) (i : Nat) :
    m.isWritable i = true ↔
      (i < m.required ∧ i < m.required - m.readonlySigned) ∨
      (m.required ≤ i ∧ i < m.nKeys ∧ i < m.nKeys - m.readonlyUnsigned) ∨
      (m.required ≤ i ∧ m.nKeys ≤ i ∧ i < m.nKeys + m.nWritable) := by
  unfold MessageLayout.isWritable
  split_ifs
  all_goals
    rw [decide_eq_true_iff]
    omega

/-- The header counts give every account its permissions back. -/
theorem permissions_at (instructions : List Instruction) (payer : PublicKey)
    (alts : List KeyedAlt) {i : Nat} {a : AccountInfo}
    (h : (resolvedAccounts (compileAccounts instructions payer alts))[i]? = some a) :
    (a.isSigner = true ↔
        i < (compileAccounts instructions payer alts).numRequiredSignatures) ∧
      (a.isWritable = true ↔ (layoutOf (compileAccounts instructions payer alts)
        (compileAccounts instructions payer alts).altWritable.length).isWritable i) := by
  obtain ⟨ws, rs, w, r, hstatic, hreq, hsigned, hunsigned, hws, hrs, hw, hr, haw, har⟩ :=
    compileAccounts_classes instructions payer alts
  rw [resolvedAccounts, hstatic] at h
  rw [isWritable_iff]
  simp only [layoutOf, hreq, hsigned, hunsigned, hstatic]
  generalize (compileAccounts instructions payer alts).altWritable = aw at *
  generalize (compileAccounts instructions payer alts).altReadonly = ar at *
  simp only [List.getElem?_append, List.length_append] at h ⊢
  -- one case for each class the index may fall in
  repeat' split at h
  all_goals have hmem := List.mem_of_getElem? h
  · simp only [hws a hmem, true_iff]
    omega
  · simp only [hrs a hmem, true_iff, Bool.false_eq_true, false_iff]
    omega
  · simp only [hw a hmem, true_iff, Bool.false_eq_true, false_iff]
    omega
  · simp only [hr a hmem, Bool.false_eq_true, false_iff]
    omega
  · simp only [haw a hmem, true_iff, Bool.false_eq_true, false_iff]
    omega
  · simp only [har a hmem, Bool.false_eq_true, false_iff]
    omega

/-! ## The round trip -/

/-- An instruction with the permissions each account has over all mentions. -/
def escalate (ms : List AccountMeta) (ix : Instruction) : Instruction :=
  { ix with keys := ix.keys.map fun m =>
      { pubkey := m.pubkey
        isSigner := signs ms m.pubkey
        isWritable := writes ms m.pubkey } }

/-- Reading the compiled message with the transaction's own tables gives back the
instructions (with escalated permissions), the blockhash and the signers. -/
def RoundTrips (options : CompileOptions) (compiled : CompiledTransaction) : Prop :=
  ∃ d, decompileMessage compiled.messageBytes
      (tablesByKey (options.alts.map normaliseAlt)) none = .ok d ∧
    d.instructions = options.instructions.map
      (escalate (mentions options.instructions options.payer)) ∧
    d.recentBlockhash = options.recentBlockhash ∧
    d.signers = compiled.signers

instance (options : CompileOptions) (compiled : CompiledTransaction) :
    Decidable (RoundTrips options compiled) :=
  inferInstanceAs (Decidable (∃ d, decompileMessage _ _ none = .ok d ∧ _ ∧ _ ∧ _))

/-- The parts of a successful `compileUnsigned`. -/
theorem compileUnsigned_eq {options : CompileOptions} {compiled : CompiledTransaction}
    (h : compileUnsigned options = .ok compiled) :
    ∃ blockhash,
      Base58.decode options.recentBlockhash = .ok blockhash ∧ blockhash.length = 32 ∧
      serializeMessage (compileAccounts options.instructions options.payer
          (options.alts.map normaliseAlt)) options.instructions blockhash =
        .ok compiled.messageBytes ∧
      compiled.signers = ((compileAccounts options.instructions options.payer
          (options.alts.map normaliseAlt)).staticAccounts.take
          (compileAccounts options.instructions options.payer
            (options.alts.map normaliseAlt)).numRequiredSignatures).map (·.pubkey) ∧
      compiled.accountKeys = (resolvedAccounts (compileAccounts options.instructions
        options.payer (options.alts.map normaliseAlt))).map (·.pubkey) := by
  simp only [compileUnsigned, compile, bind_eq_ok, pure_eq_ok] at h
  obtain ⟨c, ⟨blockhash, hblockhash, message, hmessage, rfl⟩, wireBytes, -, rfl⟩ := h
  have hdecode : Base58.decode options.recentBlockhash = .ok blockhash ∧
      blockhash.length = 32 := by
    unfold decodeBlockhash at hblockhash
    split at hblockhash
    · cases hblockhash
    · rename_i bytes hbytes
      split at hblockhash
      · rename_i hlen
        cases hblockhash
        exact ⟨hbytes, hlen⟩
      · cases hblockhash
  exact ⟨blockhash, hdecode.1, hdecode.2, hmessage, rfl, by simp [resolvedAccounts]⟩

section Compiled

variable (instructions : List Instruction) (payer : PublicKey) (alts : List KeyedAlt)

/-- The account index of a key. -/
def indexOf (key : PublicKey) : Nat :=
  ((resolvedAccounts (compileAccounts instructions payer alts)).map (·.pubkey)).idxOf key

/-- The account list a reader resolves indices with. -/
def readKeysOf : List PublicKey :=
  (compileAccounts instructions payer alts).staticAccounts.map (·.pubkey) ++
    groupedKeys instructions payer alts true ++ groupedKeys instructions payer alts false

theorem resolvedKeys_eq :
    (resolvedAccounts (compileAccounts instructions payer alts)).map (·.pubkey) =
      (compileAccounts instructions payer alts).staticAccounts.map (·.pubkey) ++
        lookedUpKeys instructions payer alts true ++
        lookedUpKeys instructions payer alts false := by
  obtain ⟨hw, hr⟩ := compileAccounts_alt instructions payer alts
  have hid : ∀ keys : List PublicKey, (keys.map (account (mentions instructions payer)
      (instructions.map (·.programId)) alts)).map (·.pubkey) = keys := by
    intro keys
    simp [account, mentionInfo, Function.comp_def]
  rw [resolvedAccounts, hw, hr, List.map_append, List.map_append, hid, hid]

theorem length_readKeysOf :
    (readKeysOf instructions payer alts).length =
      (resolvedAccounts (compileAccounts instructions payer alts)).length := by
  have hkeys := congrArg List.length (resolvedKeys_eq instructions payer alts)
  simp only [List.length_map, List.length_append] at hkeys
  simp only [readKeysOf, List.length_append, List.length_map, length_groupedKeys, hkeys]

/-- A reader resolves every index correctly exactly in table order. -/
theorem readKeysOf_eq_iff :
    readKeysOf instructions payer alts =
        (resolvedAccounts (compileAccounts instructions payer alts)).map (·.pubkey) ↔
      InTableOrder instructions payer alts := by
  rw [resolvedKeys_eq, readKeysOf, inTableOrder_iff, List.append_assoc,
    List.append_assoc, List.append_cancel_left_eq]
  constructor
  · intro h writable
    obtain ⟨hw, hr⟩ := List.append_inj h (length_groupedKeys instructions payer alts true)
    cases writable with
    | true => exact hw
    | false => exact hr
  · intro h
    rw [h true, h false]

theorem mentioned_program {ix : Instruction} (hix : ix ∈ instructions) :
    ix.programId ∈ (mentions instructions payer).map (·.pubkey) := by
  refine List.mem_map.2 ⟨_, List.mem_cons_of_mem _ (List.mem_flatMap.2
    ⟨ix, hix, List.mem_cons_self⟩), rfl⟩

theorem mentioned_key {ix : Instruction} (hix : ix ∈ instructions) {m : AccountMeta}
    (hm : m ∈ ix.keys) : m.pubkey ∈ (mentions instructions payer).map (·.pubkey) :=
  List.mem_map.2 ⟨m, List.mem_cons_of_mem _ (List.mem_flatMap.2
    ⟨ix, hix, List.mem_cons_of_mem _ hm⟩), rfl⟩

theorem indexOf_lt {key : PublicKey}
    (hkey : key ∈ (mentions instructions payer).map (·.pubkey)) :
    indexOf instructions payer alts key <
      (resolvedAccounts (compileAccounts instructions payer alts)).length := by
  have h := resolvedAccounts_getElem? instructions payer alts hkey
  exact (List.getElem?_eq_some_iff.1 h).1

/-- Looked-up accounts are neither the payer nor an invoked program; some
instruction lists them. -/
theorem exists_meta_of_lookedUp {writable : Bool} {key : PublicKey}
    (h : key ∈ lookedUpKeys instructions payer alts writable) :
    ∃ ix ∈ instructions, ∃ m ∈ ix.keys, m.pubkey = key := by
  have href := tableRef_of_lookedUp instructions payer alts h
  have hstatic : signs (mentions instructions payer) key = false ∧
      key ∉ instructions.map (·.programId) := by
    unfold tableRef at href
    split at href
    · cases href
    · rename_i hnot
      simpa using hnot
  have hmem := (List.mem_filter.1 h).1
  rw [mentionedKeys, mem_firstSeen] at hmem
  obtain ⟨m, hm, rfl⟩ := List.mem_map.1 hmem
  rcases List.mem_cons.1 hm with rfl | hm
  · simp [signs, mentions] at hstatic
  · obtain ⟨ix, hix, hm⟩ := List.mem_flatMap.1 hm
    rcases List.mem_cons.1 hm with rfl | hm
    · exact absurd (List.mem_map_of_mem hix) hstatic.2
    · exact ⟨ix, hix, m, hm, rfl⟩

/-- An invoked program is a static account. -/
theorem indexOf_program_lt {ix : Instruction} (hix : ix ∈ instructions) :
    indexOf instructions payer alts ix.programId <
        (compileAccounts instructions payer alts).staticAccounts.length ∧
      ((compileAccounts instructions payer alts).staticAccounts.map (·.pubkey))[
        indexOf instructions payer alts ix.programId]? = some ix.programId := by
  have hmentioned := mentioned_program instructions payer hix
  have hstatic : ix.programId ∈
      (compileAccounts instructions payer alts).staticAccounts.map (·.pubkey) := by
    have hmem := account_mem instructions payer alts hmentioned
    have hkey : ix.programId ∈ (resolvedAccounts
        (compileAccounts instructions payer alts)).map (·.pubkey) :=
      List.mem_map.2 ⟨_, hmem, by simp [account, mentionInfo]⟩
    have hnone : ∀ writable,
        ix.programId ∉ lookedUpKeys instructions payer alts writable := by
      intro writable hin
      have href := tableRef_of_lookedUp instructions payer alts hin
      have hinvoked : ix.programId ∈ instructions.map (·.programId) :=
        List.mem_map_of_mem hix
      simp [tableRef, hinvoked] at href
    rw [resolvedKeys_eq, List.mem_append, List.mem_append] at hkey
    rcases hkey with (h | h) | h
    · exact h
    · exact absurd h (hnone true)
    · exact absurd h (hnone false)
  have hidx : indexOf instructions payer alts ix.programId =
      ((compileAccounts instructions payer alts).staticAccounts.map (·.pubkey)).idxOf
        ix.programId := by
    rw [indexOf, resolvedKeys_eq, List.append_assoc, List.idxOf_append_of_mem hstatic]
  rw [hidx]
  have hlt := List.idxOf_lt_length_iff.2 hstatic
  refine ⟨by simpa using hlt, ?_⟩
  rw [List.getElem?_eq_getElem hlt, List.getElem_idxOf]

/-- Every listed account resolves to itself exactly in table order. -/
theorem resolves_iff :
    (∀ ix ∈ instructions, ∀ m ∈ ix.keys,
      (readKeysOf instructions payer alts)[indexOf instructions payer alts m.pubkey]? =
        some m.pubkey) ↔
    InTableOrder instructions payer alts := by
  rw [← readKeysOf_eq_iff]
  have hnodup := nodup_resolvedAccounts instructions payer alts
  constructor
  · intro h
    refine List.ext_getElem? fun i => ?_
    have hkeys := resolvedKeys_eq instructions payer alts
    by_cases hi : i < (compileAccounts instructions payer alts).staticAccounts.length
    · rw [hkeys, readKeysOf, List.append_assoc, List.append_assoc,
        List.getElem?_append_left (by simpa using hi),
        List.getElem?_append_left (by simpa using hi)]
    · cases hget : ((resolvedAccounts (compileAccounts instructions payer alts)).map
          (·.pubkey))[i]? with
      | none =>
          rw [List.getElem?_eq_none_iff, List.length_map] at hget
          rw [List.getElem?_eq_none_iff, length_readKeysOf]
          exact hget
      | some key =>
          -- past the static accounts only looked-up keys are left
          have hlooked : ∃ writable, key ∈ lookedUpKeys instructions payer alts writable := by
            have htail := hget
            rw [hkeys, List.append_assoc, List.getElem?_append_right (by simpa using hi)]
              at htail
            rcases List.mem_append.1 (List.mem_of_getElem? htail) with hin | hin
            · exact ⟨true, hin⟩
            · exact ⟨false, hin⟩
          obtain ⟨writable, hin⟩ := hlooked
          obtain ⟨ix, hix, m, hm, rfl⟩ :=
            exists_meta_of_lookedUp instructions payer alts hin
          have hres := h ix hix m hm
          obtain ⟨hlt, hat⟩ := List.getElem?_eq_some_iff.1 hget
          have hidx := hnodup.idxOf_getElem i hlt
          rw [hat] at hidx
          rw [indexOf, hidx] at hres
          exact hres
  · intro h ix hix m hm
    have hmem := resolvedAccounts_getElem? instructions payer alts
      (mentioned_key instructions payer hix hm)
    rw [h, List.getElem?_map, indexOf, hmem]
    simp [account, mentionInfo]

/-- The account a reader finds for a listed key. -/
def readKeyOf (key : PublicKey) : PublicKey :=
  ((readKeysOf instructions payer alts)[indexOf instructions payer alts key]?).getD key

theorem readKeysOf_getElem? {key : PublicKey}
    (hkey : key ∈ (mentions instructions payer).map (·.pubkey)) :
    (readKeysOf instructions payer alts)[indexOf instructions payer alts key]? =
      some (readKeyOf instructions payer alts key) := by
  have hlt := indexOf_lt instructions payer alts hkey
  rw [← length_readKeysOf] at hlt
  rw [readKeyOf, List.getElem?_eq_getElem hlt, Option.getD_some]

/-- The payer is among the required signers. -/
theorem numRequiredSignatures_pos :
    0 < (compileAccounts instructions payer alts).numRequiredSignatures ∧
      (compileAccounts instructions payer alts).numRequiredSignatures ≤
        (compileAccounts instructions payer alts).staticAccounts.length := by
  obtain ⟨ws, rs, w, r, hstatic, hreq, -, -, -, -, hw, hr, haw, har⟩ :=
    compileAccounts_classes instructions payer alts
  have hpayer := account_mem instructions payer alts
    (List.mem_map.2 ⟨_, List.mem_cons_self, rfl⟩)
  have hsigns : (account (mentions instructions payer) (instructions.map (·.programId))
      alts payer).isSigner = true := by
    simp [account, mentionInfo, signs, mentions]
  have hone : 0 < ws.length + rs.length := by
    by_contra hzero
    have hws0 : ws = [] := List.length_eq_zero_iff.1 (by omega)
    have hrs0 : rs = [] := List.length_eq_zero_iff.1 (by omega)
    rw [resolvedAccounts, hstatic, hws0, hrs0] at hpayer
    simp only [List.nil_append, List.mem_append] at hpayer
    rcases hpayer with ((h | h) | h) | h
    · simp [(hw _ h).1] at hsigns
    · simp [(hr _ h).1] at hsigns
    · simp [(haw _ h).1] at hsigns
    · simp [(har _ h).1] at hsigns
  rw [hreq, hstatic]
  simp only [List.length_append]
  omega

/-- The payer signs, so the header counts of at most 256 accounts fit a byte. -/
theorem numReadonlyUnsigned_lt
    (hcount : (resolvedAccounts (compileAccounts instructions payer alts)).length ≤ 256) :
    (compileAccounts instructions payer alts).numReadonlySigned ≤
        (compileAccounts instructions payer alts).numRequiredSignatures ∧
      (compileAccounts instructions payer alts).numRequiredSignatures ≤
        (compileAccounts instructions payer alts).staticAccounts.length ∧
      (compileAccounts instructions payer alts).numReadonlyUnsigned < 256 := by
  obtain ⟨ws, rs, w, r, hstatic, hreq, hsigned, hunsigned, -⟩ :=
    compileAccounts_classes instructions payer alts
  obtain ⟨hone, hle⟩ := numRequiredSignatures_pos instructions payer alts
  rw [resolvedAccounts, hstatic] at hcount
  simp only [List.length_append] at hcount
  exact ⟨by omega, hle, by omega⟩

/-- What reading a compiled message gives: everything but possibly the keys of
looked-up accounts comes back. -/
theorem decompileMessage_compiled {blockhash msg : List UInt8}
    (hser : serializeMessage (compileAccounts instructions payer alts) instructions
      blockhash = .ok msg)
    (hblockhash : blockhash.length = 32)
    (hnodup : (alts.map (·.key)).Nodup)
    (hsize : ∀ a ∈ alts, a.alt.addresses.length ≤ 256)
    (hcount : (resolvedAccounts (compileAccounts instructions payer alts)).length ≤ 256)
    (hsigners : (compileAccounts instructions payer alts).numRequiredSignatures ≤ 127) :
    decompileMessage msg (tablesByKey alts) none =
      .ok { instructions := instructions.map fun ix =>
              { ix with keys := ix.keys.map fun m =>
                { pubkey := readKeyOf instructions payer alts m.pubkey
                  isSigner := signs (mentions instructions payer) m.pubkey
                  isWritable := writes (mentions instructions payer) m.pubkey } }
            accountKeys :=
              (compileAccounts instructions payer alts).staticAccounts.map (·.pubkey)
            signers := ((compileAccounts instructions payer alts).staticAccounts.map
              (·.pubkey)).take
                (compileAccounts instructions payer alts).numRequiredSignatures
            recentBlockhash := Base58.encode blockhash } := by
  obtain ⟨hsigned, hreq, hunsigned⟩ := numReadonlyUnsigned_lt instructions payer alts hcount
  have hindex : ∀ key i,
      (compileAccounts instructions payer alts).indexByBase58.get? key = some i →
        i = indexOf instructions payer alts key := by
    intro key i hi
    rw [index_get?] at hi
    split at hi
    · exact (Option.some.inj hi).symm
    · cases hi
  have hbyte : ∀ key ∈ (mentions instructions payer).map (·.pubkey),
      indexOf instructions payer alts key < 256 := fun key hkey =>
    Nat.lt_of_lt_of_le (indexOf_lt instructions payer alts hkey) hcount
  rw [decompileMessage_serializeMessage hser hblockhash hreq (by omega) (by omega)
    hunsigned hindex (fun ix hix => (indexOf_program_lt instructions payer alts hix).1)
    (fun ix hix => hbyte _ (mentioned_program instructions payer hix))
    (fun ix hix m hm => hbyte _ (mentioned_key instructions payer hix hm))
    (fun lk hlk => lookups_resolve instructions payer alts hnodup hsize hlk)]
  simp only [flatMap_keysIn]
  have hfold : (compileAccounts instructions payer alts).staticAccounts.map (·.pubkey) ++
      groupedKeys instructions payer alts true ++
      groupedKeys instructions payer alts false = readKeysOf instructions payer alts := rfl
  rw [hfold, resolveInstructions_eq
    (fun ix hix => (indexOf_program_lt instructions payer alts hix).2)
    (fun ix hix m hm =>
      readKeysOf_getElem? instructions payer alts (mentioned_key instructions payer hix hm))]
  have hwritable : (groupedKeys instructions payer alts true).length =
      (compileAccounts instructions payer alts).altWritable.length := by
    rw [length_groupedKeys, (compileAccounts_alt instructions payer alts).1,
      List.length_map]
  simp only [bind, Except.bind, pure, Except.pure, Except.ok.injEq,
    DecompiledMessage.mk.injEq, true_and, and_true, hwritable]
  refine List.map_congr_left fun ix hix => ?_
  congr 1
  refine List.map_congr_left fun m hm => ?_
  obtain ⟨hsig, hwrit⟩ := permissions_at instructions payer alts
    (resolvedAccounts_getElem? instructions payer alts
      (mentioned_key instructions payer hix hm))
  simp only [account, resolveAlt_isSigner, resolveAlt_isWritable, mentionInfo] at hsig hwrit
  rw [AccountMeta.mk.injEq]
  exact ⟨rfl, Bool.eq_iff_iff.2 (decide_eq_true_iff.trans hsig.symm), Bool.eq_iff_iff.2 hwrit.symm⟩

end Compiled

/-- Compiling and decompiling gives the transaction back exactly when its
looked-up accounts come in table order. -/
theorem decompile_compileUnsigned_iff (options : CompileOptions)
    (compiled : CompiledTransaction)
    (hnodup : ((options.alts.map normaliseAlt).map (·.key)).Nodup)
    (hsize : ∀ a ∈ options.alts.map normaliseAlt, a.alt.addresses.length ≤ 256)
    (hc : compileUnsigned options = .ok compiled)
    (hkeys : compiled.accountKeys.length ≤ 256)
    (hsigners : compiled.signers.length ≤ 127) :
    RoundTrips options compiled ↔
      InTableOrder options.instructions options.payer
        (options.alts.map normaliseAlt) := by
  obtain ⟨blockhash, hdecode, hlen, hser, hsig, hacc⟩ := compileUnsigned_eq hc
  have hcount := hkeys
  rw [hacc, List.length_map] at hcount
  have hreq := (numReadonlyUnsigned_lt _ _ _ hcount).2.1
  rw [hsig, List.length_map, List.length_take, Nat.min_eq_left hreq] at hsigners
  have hread := decompileMessage_compiled _ _ _ hser hlen hnodup hsize hcount hsigners
  rw [← resolves_iff]
  constructor
  · rintro ⟨d, hd, hixs, -, -⟩ ix hix m hm
    rw [hread] at hd
    cases hd
    have hixEq := List.map_inj_left.1 hixs ix hix
    have hkeysEq := congrArg Instruction.keys hixEq
    have hmEq := congrArg AccountMeta.pubkey (List.map_inj_left.1 hkeysEq m hm)
    rw [readKeysOf_getElem? _ _ _ (mentioned_key _ _ hix hm)]
    exact congrArg some hmEq
  · intro hres
    refine ⟨_, hread, List.map_congr_left fun ix hix => ?_,
      Base58.encode_decode hdecode, ?_⟩
    · have hkeysEq : ∀ m ∈ ix.keys, readKeyOf options.instructions options.payer
          (options.alts.map normaliseAlt) m.pubkey = m.pubkey := fun m hm => by
        have h := hres ix hix m hm
        rw [readKeysOf_getElem? _ _ _ (mentioned_key _ _ hix hm)] at h
        exact Option.some.inj h
      simp only [escalate, Instruction.mk.injEq, true_and, and_true]
      exact List.map_congr_left fun m hm => by rw [hkeysEq m hm]
    · rw [hsig, List.map_take]

/-- A key of 32 equal bytes. -/
def keyOf (b : UInt8) : PublicKey := .ofByte b

/-- One instruction of program 9 that writes `accounts`, with the tables 40 (of the
accounts 41 to 43) and 50 (of 51 and 52) at hand. -/
def twoTables (accounts : List UInt8) : CompileOptions :=
  { instructions :=
      [{ programId := keyOf 9
         keys := { pubkey := keyOf 1, isSigner := true, isWritable := true } ::
           accounts.map fun b =>
             { pubkey := keyOf b, isSigner := false, isWritable := true }
         data := [7] }]
    payer := keyOf 1
    recentBlockhash := Base58.encode (List.replicate 32 5)
    alts := [.keyed { key := keyOf 40, alt := { addresses := [keyOf 41, keyOf 42, keyOf 43] } },
      .keyed { key := keyOf 50, alt := { addresses := [keyOf 51, keyOf 52] } }] }

theorem decompile_compileUnsigned_twoTables :
    ∃ compiled, compileUnsigned (twoTables [41, 42, 51]) = .ok compiled ∧
      RoundTrips (twoTables [41, 42, 51]) compiled := by
  obtain ⟨compiled, hc, hkeys, hsigners⟩ :
      ∃ compiled, compileUnsigned (twoTables [41, 42, 51]) = .ok compiled ∧
        compiled.accountKeys.length ≤ 256 ∧ compiled.signers.length ≤ 127 := by
    decide +kernel
  exact ⟨compiled, hc, (decompile_compileUnsigned_iff (twoTables [41, 42, 51]) compiled
    (by decide +kernel) (by decide +kernel) hc hkeys hsigners).2 (by decide +kernel)⟩

/-- With an account of the second table between two of the first, the last two
accounts come back swapped. -/
theorem decompile_interleavedTables_swaps :
    (((twoTables [41, 51, 42]).alts.map normaliseAlt).map (·.key)).Nodup ∧
    (∀ a ∈ (twoTables [41, 51, 42]).alts.map normaliseAlt, a.alt.addresses.length ≤ 256) ∧
    ∃ compiled, compileUnsigned (twoTables [41, 51, 42]) = .ok compiled ∧
      compiled.accountKeys.length ≤ 256 ∧ compiled.signers.length ≤ 127 ∧
      (∃ d, decompileMessage compiled.messageBytes
          (tablesByKey ((twoTables [41, 51, 42]).alts.map normaliseAlt)) none = .ok d ∧
        d.instructions.map (fun ix => ix.keys.map (·.pubkey)) =
          [[keyOf 1, keyOf 41, keyOf 42, keyOf 51]]) ∧
      ¬ RoundTrips (twoTables [41, 51, 42]) compiled := by
  decide +kernel

end Ap3xSolana.Tx.RoundTrip
