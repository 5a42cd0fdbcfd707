import Ap3xSolana.Lib.Throwing
import Ap3xSolana.Tx.TransactionCodec

/-!
# Reading what the assembler wrote

One lemma for each section of a v0 message: where the bytes of a section start
at the reader's offset, the reader returns what the assembler wrote and stops
right after it.
-/

namespace Ap3xSolana.Tx.ReadBack

open Ap3xSolana.Core Ap3xSolana.Lib Ap3xSolana.Lib.Cursor Ap3xSolana.Lib.Throwing
open Ap3xSolana.Tx.TransactionAssembler Ap3xSolana.Tx.TransactionV1
open Ap3xSolana.Tx.TransactionCodec

theorem readVersion_v0 {bytes rest : List UInt8} (h : At bytes 0 (0x80 :: rest)) :
    readVersion bytes = .ok true := by
  have hget := h.get
  simp [readVersion, byteAt, List.getD_eq_getElem?_getD, hget]

theorem encode_of_compactU16 {n : Nat} {enc : List UInt8} (h : compactU16 n = .ok enc) :
    CompactU16.encode n = .ok enc := by
  unfold compactU16 at h
  split at h
  · rename_i bytes hbytes
    rw [hbytes]
    cases h
    rfl
  · cases h

theorem readCompact_at {n off : Nat} {enc bytes rest : List UInt8}
    (henc : compactU16 n = .ok enc) (h : At bytes off (enc ++ rest)) :
    readCompact bytes off = .ok (n, off + enc.length) := by
  have hencode := encode_of_compactU16 henc
  obtain ⟨pre, hbytes, hpre⟩ := h.split
  have hdec := CompactU16.decode_encode hencode pre rest
  rw [List.append_assoc, ← hbytes, hpre] at hdec
  simp [readCompact, hdec]

theorem readKey_at {key : PublicKey} {bytes rest : List UInt8} {off : Nat}
    (h : At bytes off (key.bytes ++ rest)) : readKey bytes off = .ok key := by
  have hslice := h.slice
  rw [key.size] at hslice
  simp [readKey, hslice]

theorem readKeys_at {keys : List PublicKey} {bytes rest : List UInt8} {off : Nat}
    (h : At bytes off ((keys.map (·.bytes)).flatten ++ rest)) :
    readKeys bytes off keys.length = .ok keys := by
  induction keys generalizing off with
  | nil => rfl
  | cons key keys ih =>
      rw [List.map_cons, List.flatten_cons, List.append_assoc] at h
      have hnext := h.next
      rw [key.size] at hnext
      simp [readKeys, readKey_at h, ih hnext, bind, Except.bind, pure, Except.pure]

theorem length_flatten_keys (keys : List PublicKey) :
    (keys.map (·.bytes)).flatten.length = keys.length * 32 := by
  induction keys with
  | nil => rfl
  | cons key keys ih =>
      rw [List.map_cons, List.flatten_cons, List.length_append, ih, key.size,
        List.length_cons]
      omega

theorem compactArrayU8_eq {items : List Nat} {enc : List UInt8}
    (h : compactArrayU8 items = .ok enc) :
    ∃ size, compactU16 items.length = .ok size ∧
      enc = size ++ items.map UInt8.ofNat := by
  obtain ⟨size, hsize, henc⟩ := bind_eq_ok.1 h
  exact ⟨size, hsize, (pure_eq_ok.1 henc).symm⟩

theorem map_toNat_ofNat {items : List Nat} (h : ∀ i ∈ items, i < 256) :
    (items.map UInt8.ofNat).map UInt8.toNat = items := by
  rw [List.map_map]
  conv_rhs => rw [← List.map_id items]
  refine List.map_congr_left fun i hi => ?_
  simp only [Function.comp, UInt8.toNat_ofNat', id]
  exact Nat.mod_eq_of_lt (h i hi)

theorem map_ofNat_toNat (bytes : List UInt8) :
    (bytes.map UInt8.toNat).map UInt8.ofNat = bytes := by
  rw [List.map_map]
  conv_rhs => rw [← List.map_id bytes]
  exact List.map_congr_left fun b _ => UInt8.ofNat_toNat

/-- A compact array of bytes: its prefix, its items and where it ends. -/
theorem compactArrayU8_at {items : List Nat} {enc bytes rest : List UInt8} {off : Nat}
    (henc : compactArrayU8 items = .ok enc) (h : At bytes off (enc ++ rest)) :
    ∃ start, readCompact bytes off = .ok (items.length, start) ∧
      start + items.length = off + enc.length ∧
      start + items.length ≤ bytes.length ∧
      slice bytes start (start + items.length) = items.map UInt8.ofNat ∧
      At bytes (start + items.length) rest := by
  obtain ⟨size, hsize, rfl⟩ := compactArrayU8_eq henc
  rw [List.append_assoc] at h
  have hitems := h.next
  have hslice := hitems.slice
  have hrest := hitems.next
  rw [List.length_map] at hslice hrest
  exact ⟨off + size.length, readCompact_at hsize h,
    by rw [List.length_append, List.length_map]; omega, hrest.1, hslice, hrest⟩

/-! ## Instructions -/

/-- What an instruction looks like in a message that numbers accounts by
`index`. -/
def rawInstruction (index : PublicKey → Nat) (ix : Instruction) : RawInstruction :=
  { program := index ix.programId
    accounts := ix.keys.map fun m => index m.pubkey
    data := ix.data }

theorem serializeInstruction_eq {indexByBase58 : OrderedMap PublicKey Nat}
    {index : PublicKey → Nat} {ix : Instruction} {enc : List UInt8}
    (hindex : ∀ key i, indexByBase58.get? key = some i → i = index key)
    (h : serializeInstruction indexByBase58 ix = .ok enc) :
    ∃ accounts data,
      compactArrayU8 (rawInstruction index ix).accounts = .ok accounts ∧
      compactArrayU8 (ix.data.map UInt8.toNat) = .ok data ∧
      enc = [UInt8.ofNat (index ix.programId)] ++ accounts ++ data := by
  have hget : ∀ {what where_ key i},
      accountIndex indexByBase58 what where_ key = .ok i → i = index key := by
    intro what where_ key i hi
    unfold accountIndex at hi
    split at hi
    · rename_i j hj
      cases hi
      exact hindex key _ hj
    · cases hi
  simp only [serializeInstruction, bind_eq_ok, pure_eq_ok] at h
  obtain ⟨program, hprogram, indices, hindices, accounts, haccounts, data, hdata,
    henc⟩ := h
  refine ⟨accounts, data, ?_, hdata, ?_⟩
  · have hmap : ix.keys.map (fun m => index m.pubkey) = indices := by
      rw [mapM_eq_ok] at hindices
      clear haccounts
      generalize ix.keys = keys at hindices
      induction hindices with
      | nil => rfl
      | cons hi _ ih => rw [List.map_cons, ih, hget hi]
    rwa [rawInstruction, hmap]
  · rw [← henc, hget hprogram]

theorem readInstruction_at {indexByBase58 : OrderedMap PublicKey Nat}
    {index : PublicKey → Nat} {ix : Instruction} {enc bytes rest : List UInt8}
    {nKeys off : Nat} (n : Nat)
    (hindex : ∀ key i, indexByBase58.get? key = some i → i = index key)
    (hprogram : index ix.programId < nKeys) (hbyte : index ix.programId < 256)
    (hbytes : ∀ m ∈ ix.keys, index m.pubkey < 256)
    (henc : serializeInstruction indexByBase58 ix = .ok enc)
    (h : At bytes off (enc ++ rest)) :
    readInstruction bytes nKeys n off =
        .ok (rawInstruction index ix, off + enc.length) ∧
      At bytes (off + enc.length) rest := by
  obtain ⟨accounts, data, haccounts, hdata, rfl⟩ := serializeInstruction_eq hindex henc
  have hend := h.next
  simp only [List.append_assoc, List.singleton_append] at h
  have hget := h.get
  have hnext := At.tail h
  obtain ⟨start, hread, hlen, hle, hslice, hrest⟩ := compactArrayU8_at haccounts hnext
  obtain ⟨start', hread', hlen', hle', hslice', -⟩ := compactArrayU8_at hdata hrest
  refine ⟨?_, hend⟩
  have hnat : (UInt8.ofNat (index ix.programId)).toNat = index ix.programId := by
    rw [UInt8.toNat_ofNat']
    exact Nat.mod_eq_of_lt hbyte
  have hall : ∀ i ∈ (rawInstruction index ix).accounts, i < 256 := by
    intro i hi
    obtain ⟨m, hm, rfl⟩ := List.mem_map.1 hi
    exact hbytes m hm
  have hacc := map_toNat_ofNat hall
  have hdataBytes := map_ofNat_toNat ix.data
  rw [List.length_map] at hread' hlen' hle' hslice'
  have hlast : start' + ix.data.length =
      off + ([UInt8.ofNat (index ix.programId)] ++ accounts ++ data).length := by
    simp only [List.length_append, List.length_singleton] at *
    omega
  simp only [readInstruction, hget, hnat, Nat.not_le.2 hprogram, if_false, hread,
    hread', hslice, hslice', Nat.not_lt.2 hle, Nat.not_lt.2 hle', hacc, hdataBytes,
    bind, Except.bind, pure, Except.pure]
  rw [hlast]
  rfl

theorem readInstructions_at {indexByBase58 : OrderedMap PublicKey Nat}
    {index : PublicKey → Nat} {instructions : List Instruction}
    {encs : List (List UInt8)} {bytes rest : List UInt8} {nKeys : Nat}
    (hindex : ∀ key i, indexByBase58.get? key = some i → i = index key)
    (hprogram : ∀ ix ∈ instructions, index ix.programId < nKeys)
    (hbyte : ∀ ix ∈ instructions, index ix.programId < 256)
    (hbytes : ∀ ix ∈ instructions, ∀ m ∈ ix.keys, index m.pubkey < 256)
    (henc : instructions.mapM (serializeInstruction indexByBase58) = .ok encs) :
    ∀ n off, At bytes off (encs.flatten ++ rest) →
      readInstructions bytes nKeys instructions.length n off =
          .ok (instructions.map (rawInstruction index), off + encs.flatten.length) ∧
        At bytes (off + encs.flatten.length) rest := by
  rw [mapM_eq_ok] at henc
  induction henc with
  | nil => exact fun n off h => ⟨rfl, h⟩
  | @cons ix enc instructions encs hix _ ih =>
      intro n off h
      rw [List.flatten_cons, List.append_assoc] at h
      obtain ⟨hread, hnext⟩ := readInstruction_at n hindex (hprogram ix (by simp))
        (hbyte ix (by simp)) (hbytes ix (by simp)) hix h
      obtain ⟨hreads, hend⟩ := ih (fun ix' h' => hprogram ix' (by simp [h']))
        (fun ix' h' => hbyte ix' (by simp [h']))
        (fun ix' h' => hbytes ix' (by simp [h'])) (n + 1) _ hnext
      rw [List.flatten_cons, List.length_append, ← Nat.add_assoc]
      refine ⟨?_, hend⟩
      simp only [List.length_cons, readInstructions, hread, hreads, bind, Except.bind,
        pure, Except.pure, List.map_cons]

/-! ## Lookup tables -/

theorem readIndexes_at {items : List Nat} {addresses found : List PublicKey}
    {enc bytes rest : List UInt8} {off : Nat} (table : PublicKey)
    (hbyte : ∀ i ∈ items, i < 256)
    (hfound : items.map (addresses[·]?) = found.map some)
    (henc : compactArrayU8 items = .ok enc) (h : At bytes off (enc ++ rest)) :
    readIndexes bytes table (some addresses) off =
        .ok (found, 0, off + enc.length) ∧
      At bytes (off + enc.length) rest := by
  obtain ⟨start, hread, hlen, hle, hslice, hrest⟩ := compactArrayU8_at henc h
  rw [hlen] at hrest
  refine ⟨?_, hrest⟩
  have hmap : (items.map UInt8.ofNat).mapM (lookupAddress table addresses) =
      .ok found := by
    rw [mapM_eq_ok]
    clear hread hlen hle hslice henc h
    induction items generalizing found with
    | nil =>
        cases found with
        | nil => exact .nil
        | cons _ _ => simp at hfound
    | cons i items ih =>
        cases found with
        | nil => simp at hfound
        | cons key found =>
            rw [List.map_cons, List.map_cons, List.cons.injEq] at hfound
            have hnat : (UInt8.ofNat i).toNat = i := by
              rw [UInt8.toNat_ofNat']
              exact Nat.mod_eq_of_lt (hbyte i (by simp))
            exact .cons (by simp [lookupAddress, hnat, hfound.1])
              (ih (fun i' h' => hbyte i' (by simp [h'])) hfound.2)
  simp only [readIndexes, hread, Nat.not_lt.2 hle, if_false, hslice, bind, Except.bind,
    pure, Except.pure, hmap]
  rw [hlen]

/-- The looked-up addresses of one table entry. -/
structure Resolves (lookupTables : OrderedMap PublicKey (List PublicKey))
    (lk : TableLookup) (writable readonly : List PublicKey) : Prop where
  writableByte : ∀ i ∈ lk.writableIndexes, i < 256
  readonlyByte : ∀ i ∈ lk.readonlyIndexes, i < 256
  found : ∃ addresses, lookupTables.get? lk.accountKey = some addresses ∧
    lk.writableIndexes.map (addresses[·]?) = writable.map some ∧
    lk.readonlyIndexes.map (addresses[·]?) = readonly.map some

theorem readLookup_at {lookupTables : OrderedMap PublicKey (List PublicKey)}
    {lk : TableLookup} {writable readonly : List PublicKey}
    {enc bytes rest : List UInt8} {off : Nat} (acc : LookedUp)
    (hres : Resolves lookupTables lk writable readonly)
    (henc : serializeLookup lk = .ok enc) (h : At bytes off (enc ++ rest)) :
    readLookup bytes lookupTables none acc off =
        .ok ({ acc with
          writable := acc.writable ++ writable
          readonly := acc.readonly ++ readonly }, off + enc.length) ∧
      At bytes (off + enc.length) rest := by
  obtain ⟨addresses, htable, hw, hr⟩ := hres.found
  simp only [serializeLookup, bind_eq_ok, pure_eq_ok] at henc
  obtain ⟨encW, hencW, encR, hencR, rfl⟩ := henc
  have hend := h.next
  rw [List.append_assoc, List.append_assoc] at h
  have hkey := readKey_at h
  have hlen := h.length
  have hnext := h.next
  rw [lk.accountKey.size] at hnext
  obtain ⟨hreadW, hnextW⟩ := readIndexes_at lk.accountKey hres.writableByte hw hencW hnext
  obtain ⟨hreadR, -⟩ := readIndexes_at lk.accountKey hres.readonlyByte hr hencR hnextW
  refine ⟨?_, hend⟩
  have hfits : ¬ off + 32 > bytes.length := by
    rw [List.length_append, lk.accountKey.size] at hlen
    omega
  have hlast : off + 32 + encW.length + encR.length =
      off + (lk.accountKey.bytes ++ encW ++ encR).length := by
    rw [List.length_append, List.length_append, lk.accountKey.size]
    omega
  simp only [readLookup, hfits, if_false, hkey, htable, hreadW, hreadR, hlast,
    Option.isSome_none, Bool.false_eq_true, Option.isNone_none, Option.isNone_some,
    and_false, bind, Except.bind, pure, Except.pure, Nat.add_zero]

theorem readLookups_at {lookupTables : OrderedMap PublicKey (List PublicKey)}
    {writableOf readonlyOf : TableLookup → List PublicKey} {lookups : List TableLookup}
    {encs : List (List UInt8)} {bytes rest : List UInt8}
    (hres : ∀ lk ∈ lookups, Resolves lookupTables lk (writableOf lk) (readonlyOf lk))
    (henc : lookups.mapM serializeLookup = .ok encs) :
    ∀ acc off, At bytes off (encs.flatten ++ rest) →
      readLookups bytes lookupTables none lookups.length acc off =
          .ok ({ acc with
            writable := acc.writable ++ lookups.flatMap writableOf
            readonly := acc.readonly ++ lookups.flatMap readonlyOf },
            off + encs.flatten.length) ∧
        At bytes (off + encs.flatten.length) rest := by
  rw [mapM_eq_ok] at henc
  induction henc with
  | nil => exact fun acc off h => ⟨by simp [readLookups], h⟩
  | @cons lk enc lookups encs hlk _ ih =>
      intro acc off h
      rw [List.flatten_cons, List.append_assoc] at h
      obtain ⟨hread, hnext⟩ := readLookup_at acc (hres lk (by simp)) hlk h
      obtain ⟨hreads, hend⟩ := ih (fun lk' h' => hres lk' (by simp [h']))
        { acc with
          writable := acc.writable ++ writableOf lk
          readonly := acc.readonly ++ readonlyOf lk } _ hnext
      rw [List.flatten_cons, List.length_append, ← Nat.add_assoc]
      refine ⟨?_, hend⟩
      simp only [List.length_cons, readLookups, hread, hreads, bind, Except.bind,
        List.flatMap_cons, List.append_assoc]

end Ap3xSolana.Tx.ReadBack
