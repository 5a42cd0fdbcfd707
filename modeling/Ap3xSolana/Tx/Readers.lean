import Ap3xSolana.Lib.Throwing
import Ap3xSolana.Tx.MessageForm

/-!
# The readers are total

One postcondition for each reader: whatever it throws is `tx.malformed`, and what it
returns is what the bytes it consumed spell.  Together: a reader accepts nothing but
messages, from the first byte to the last, whose accounts are all there.
-/

namespace Ap3xSolana.Tx.Readers

open Ap3xSolana.Core Ap3xSolana.Lib Ap3xSolana.Lib.Cursor Ap3xSolana.Lib.Throwing
open Ap3xSolana.Tx.TransactionAssembler Ap3xSolana.Tx.TransactionV1
open Ap3xSolana.Tx.TransactionCodec Ap3xSolana.Tx.MessageForm

/-- `TransactionError` `tx.malformed`, with its detail. -/
def IsMalformed (e : Thrown) : Prop :=
  ∃ detail, e = .transaction
    { code := .malformed, message := s!"transaction: {detail}",
      info := { detail := some detail } }

theorem malformed_ensures {α : Type} {Q : α → Prop} (detail : String) :
    Ensures IsMalformed Q (malformed detail) := ⟨detail, rfl⟩

/-! ## Fields -/

theorem lenPrefix_of_decode {bytes : List UInt8} {off : Nat}
    {d : CompactU16.CompactU16Decoded} (h : CompactU16.decode bytes off = .ok d) :
    ∃ enc, Part bytes off enc (off + d.length) ∧ LenPrefix d.value enc := by
  have hle := CompactU16.decode_length_le h
  refine ⟨slice bytes off (off + d.length), Part.slice (Nat.le_add_right ..) hle, ?_⟩
  have hlen : (slice bytes off (off + d.length)).length = d.length := by
    rw [length_slice hle, Nat.add_sub_cancel_left]
  unfold LenPrefix
  rw [hlen]
  refine CompactU16.decode_local h fun i hi => ?_
  rw [Nat.zero_add, slice, Nat.add_sub_cancel_left, List.getElem?_take_of_lt hi,
    List.getElem?_drop]

theorem readCompact_ensures (bytes : List UInt8) (off : Nat) :
    Ensures IsMalformed
      (fun r => ∃ enc, Part bytes off enc r.2 ∧ LenPrefix r.1 enc)
      (readCompact bytes off) := by
  unfold readCompact
  split
  · rename_i d hd
    exact lenPrefix_of_decode hd
  · exact malformed_ensures _

/-- A length prefix and as many bytes after it, which the caller has checked. -/
theorem counted_part {bytes enc : List UInt8} {off start n : Nat}
    (hsize : Part bytes off enc start) (hlen : LenPrefix n enc)
    (hle : start + n ≤ bytes.length) :
    Counted (slice bytes start (start + n)) (enc ++ slice bytes start (start + n)) ∧
      Part bytes off (enc ++ slice bytes start (start + n)) (start + n) := by
  refine ⟨⟨enc, ?_, rfl⟩, hsize.append (Part.slice (Nat.le_add_right ..) hle)⟩
  rwa [length_slice hle, Nat.add_sub_cancel_left]

theorem readKey_ensures {bytes : List UInt8} {off : Nat} (hle : off + 32 ≤ bytes.length) :
    Ensures IsMalformed (fun key => Part bytes off key.bytes (off + 32))
      (readKey bytes off) := by
  have hlen : (slice bytes off (off + 32)).length = 32 := by
    rw [length_slice hle, Nat.add_sub_cancel_left]
  unfold readKey PublicKey.fromBytes
  rw [dif_pos hlen]
  exact Part.slice (Nat.le_add_right ..) hle

theorem readKeys_ensures {bytes : List UInt8} (count : Nat) :
    ∀ off, off + count * 32 ≤ bytes.length →
      Ensures IsMalformed
        (fun keys => keys.length = count ∧ Part bytes off (keyBytes keys) (off + count * 32))
        (readKeys bytes off count) := by
  induction count with
  | zero =>
      intro off hle
      exact ⟨rfl, Part.nil (by omega)⟩
  | succ count ih =>
      intro off hle
      refine (readKey_ensures (by omega)).bind fun key hkey => ?_
      refine (ih (off + 32) (by omega)).bind fun keys hkeys => ?_
      refine ⟨by rw [List.length_cons, hkeys.1], ?_⟩
      have hend : off + 32 + count * 32 = off + (count + 1) * 32 := by omega
      exact hend ▸ hkey.append hkeys.2

theorem keyOf_ensures {keys : List PublicKey} {i : Nat} (hlt : i < keys.length) :
    Ensures IsMalformed (fun key => keys[i]? = some key) (keyOf keys i) := by
  unfold keyOf
  rw [List.getElem?_eq_getElem hlt]
  exact rfl

theorem byteOf_ensures {bytes : List UInt8} {i : Nat} (hlt : i < bytes.length) :
    Ensures IsMalformed (fun n => ∃ byte, bytes[i]? = some byte ∧ n = byte.toNat)
      (byteOf bytes i) := by
  unfold byteOf
  rw [List.getElem?_eq_getElem hlt]
  exact ⟨_, rfl, rfl⟩

/-! ## Instructions -/

theorem readInstruction_ensures (bytes : List UInt8) (nKeys n off : Nat) :
    Ensures IsMalformed
      (fun r => r.1.program < nKeys ∧
        ∃ enc, SpellsInstruction r.1 enc ∧ Part bytes off enc r.2)
      (readInstruction bytes nKeys n off) := by
  unfold readInstruction
  split
  · exact malformed_ensures _
  rename_i program hprogram
  refine Ensures.check (malformed_ensures _) fun hlt => ?_
  refine (readCompact_ensures bytes (off + 1)).bind ?_
  rintro ⟨nAcc, start⟩ ⟨accSize, hacc, haccLen⟩
  refine Ensures.check (malformed_ensures _) fun haccLe => ?_
  obtain ⟨haccounts, haccPart⟩ := counted_part hacc haccLen (Nat.not_lt.1 haccLe)
  refine (readCompact_ensures bytes (start + nAcc)).bind ?_
  rintro ⟨len, start'⟩ ⟨dataSize, hdata, hdataLen⟩
  refine Ensures.check (malformed_ensures _) fun hdataLe => ?_
  obtain ⟨hcounted, hdataPart⟩ := counted_part hdata hdataLen (Nat.not_lt.1 hdataLe)
  refine ⟨Nat.not_le.1 hlt, _, ⟨program, _, _, _, rfl, rfl, haccounts, hcounted, rfl⟩, ?_⟩
  exact ((Part.single hprogram).append haccPart).append hdataPart

theorem readInstructions_ensures (bytes : List UInt8) (nKeys count : Nat) :
    ∀ n off, off ≤ bytes.length → Ensures IsMalformed
      (fun r => r.1.length = count ∧ (∀ ix ∈ r.1, ix.program < nKeys) ∧
        ∃ encs, List.Forall₂ SpellsInstruction r.1 encs ∧
          Part bytes off encs.flatten r.2)
      (readInstructions bytes nKeys count n off) := by
  induction count with
  | zero =>
      intro n off hle
      exact ⟨rfl, List.forall_mem_nil _, [], .nil, Part.nil hle⟩
  | succ count ih =>
      intro n off hle
      refine (readInstruction_ensures bytes nKeys n off).bind ?_
      rintro ⟨ix, off'⟩ ⟨hprogram, enc, henc, hpart⟩
      refine (ih (n + 1) off' hpart.le).bind ?_
      rintro ⟨ixs, off''⟩ ⟨hlen, hprograms, encs, hencs, hparts⟩
      refine ⟨by rw [List.length_cons, hlen], ?_, enc :: encs, .cons henc hencs, ?_⟩
      · exact List.forall_mem_cons.2 ⟨hprogram, hprograms⟩
      · exact hpart.append hparts

/-! ## Lookups -/

theorem lookupAddress_ensures (table : PublicKey) (addresses : List PublicKey) (i : UInt8) :
    Ensures IsMalformed (fun key => addresses[i.toNat]? = some key)
      (lookupAddress table addresses i) := by
  unfold lookupAddress
  split
  · exact malformed_ensures _
  · assumption

/-- One index list and the addresses it stands for. -/
def SaysIndexes (addresses : Option (List PublicKey)) (items : List UInt8)
    (found : List PublicKey) (count : Nat) : Prop :=
  match addresses with
  | none => found = [] ∧ count = items.length
  | some addresses => items.map (fun i => addresses[i.toNat]?) = found.map some ∧ count = 0

theorem readIndexes_ensures (bytes : List UInt8) (table : PublicKey)
    (addresses : Option (List PublicKey)) (off : Nat) :
    Ensures IsMalformed
      (fun r => ∃ items enc, Counted items enc ∧ Part bytes off enc r.2.2 ∧
        SaysIndexes addresses items r.1 r.2.1)
      (readIndexes bytes table addresses off) := by
  unfold readIndexes
  refine (readCompact_ensures bytes off).bind ?_
  rintro ⟨n, start⟩ ⟨size, hsize, hlen⟩
  refine Ensures.check (malformed_ensures _) fun hle => ?_
  obtain ⟨hcounted, hpart⟩ := counted_part hsize hlen (Nat.not_lt.1 hle)
  cases addresses with
  | none =>
      refine ⟨_, _, hcounted, hpart, rfl, ?_⟩
      rw [length_slice (Nat.not_lt.1 hle), Nat.add_sub_cancel_left]
  | some addresses =>
      refine (Ensures.mapM fun i _ => lookupAddress_ensures table addresses i).bind ?_
      intro found hfound
      refine ⟨_, _, hcounted, hpart, ?_, rfl⟩
      rw [← List.forall₂_eq_eq_eq, List.forall₂_map_left_iff, List.forall₂_map_right_iff]
      exact hfound

/-- What a lookup adds to what was looked up before. -/
def Adds (lookupTables : OrderedMap PublicKey (List PublicKey))
    (loaded : Option LoadedAddresses) (lks : List LookupEntry) (acc acc' : LookedUp) :
    Prop :=
  match loaded with
  | none => ∃ found, List.Forall₂ (Frame.Found lookupTables) lks found ∧
      acc'.writable = acc.writable ++ (found.map (·.1)).flatten ∧
      acc'.readonly = acc.readonly ++ (found.map (·.2)).flatten
  | some _ => acc'.writable = acc.writable ∧ acc'.readonly = acc.readonly ∧
      acc'.writableCount = acc.writableCount + (lks.map (·.writable.length)).sum ∧
      acc'.readonlyCount = acc.readonlyCount + (lks.map (·.readonly.length)).sum

theorem readLookup_ensures (bytes : List UInt8)
    (lookupTables : OrderedMap PublicKey (List PublicKey))
    (loaded : Option LoadedAddresses) (acc : LookedUp) (off : Nat) :
    Ensures IsMalformed
      (fun r => ∃ lk enc, SpellsLookup lk enc ∧ Part bytes off enc r.2 ∧
        Adds lookupTables loaded [lk] acc r.1)
      (readLookup bytes lookupTables loaded acc off) := by
  unfold readLookup
  refine Ensures.check (malformed_ensures _) fun hle => ?_
  refine (readKey_ensures (Nat.not_lt.1 hle)).bind fun table htable => ?_
  refine Ensures.check (malformed_ensures _) fun hgiven => ?_
  refine (readIndexes_ensures bytes table _ (off + 32)).bind ?_
  rintro ⟨writable, nWritable, off'⟩ ⟨items, enc, hcounted, hpart, hmeans⟩
  refine (readIndexes_ensures bytes table _ off').bind ?_
  rintro ⟨readonly, nReadonly, off''⟩ ⟨items', enc', hcounted', hpart', hmeans'⟩
  refine ⟨{ table := table, writable := items, readonly := items' },
    table.bytes ++ enc ++ enc', ⟨enc, enc', hcounted, hcounted', rfl⟩,
    (htable.append hpart).append hpart', ?_⟩
  cases loaded with
  | some l =>
      obtain ⟨rfl, rfl⟩ := hmeans
      obtain ⟨rfl, rfl⟩ := hmeans'
      simp [Adds]
  | none =>
      cases hget : lookupTables.get? table with
      | none => simp [hget] at hgiven
      | some addresses =>
          simp only [Option.isSome_none, Bool.false_eq_true, if_false, hget] at hmeans hmeans'
          refine ⟨[(writable, readonly)], .cons ⟨addresses, hget, hmeans.1, hmeans'.1⟩ .nil, ?_⟩
          simp

theorem Adds.trans {lookupTables : OrderedMap PublicKey (List PublicKey)}
    {loaded : Option LoadedAddresses} {lks lks' : List LookupEntry} {a b c : LookedUp}
    (h : Adds lookupTables loaded lks a b) (h' : Adds lookupTables loaded lks' b c) :
    Adds lookupTables loaded (lks ++ lks') a c := by
  cases loaded with
  | none =>
      obtain ⟨found, hfound, hw, hr⟩ := h
      obtain ⟨found', hfound', hw', hr'⟩ := h'
      refine ⟨found ++ found', List.rel_append hfound hfound', ?_, ?_⟩
      · rw [hw', hw, List.map_append, List.flatten_append, List.append_assoc]
      · rw [hr', hr, List.map_append, List.flatten_append, List.append_assoc]
  | some l =>
      obtain ⟨hw, hr, hnw, hnr⟩ := h
      obtain ⟨hw', hr', hnw', hnr'⟩ := h'
      refine ⟨hw'.trans hw, hr'.trans hr, ?_, ?_⟩
      · rw [hnw', hnw, List.map_append, List.sum_append, Nat.add_assoc]
      · rw [hnr', hnr, List.map_append, List.sum_append, Nat.add_assoc]

theorem Adds.refl (lookupTables : OrderedMap PublicKey (List PublicKey))
    (loaded : Option LoadedAddresses) (acc : LookedUp) :
    Adds lookupTables loaded [] acc acc := by
  cases loaded with
  | none => exact ⟨[], .nil, by simp, by simp⟩
  | some l => exact ⟨rfl, rfl, rfl, rfl⟩

theorem readLookups_ensures (bytes : List UInt8)
    (lookupTables : OrderedMap PublicKey (List PublicKey))
    (loaded : Option LoadedAddresses) (count : Nat) :
    ∀ acc off, off ≤ bytes.length → Ensures IsMalformed
      (fun r => ∃ lks encs, lks.length = count ∧ List.Forall₂ SpellsLookup lks encs ∧
        Part bytes off encs.flatten r.2 ∧ Adds lookupTables loaded lks acc r.1)
      (readLookups bytes lookupTables loaded count acc off) := by
  induction count with
  | zero =>
      intro acc off hle
      exact ⟨[], [], rfl, .nil, Part.nil hle, Adds.refl lookupTables loaded acc⟩
  | succ count ih =>
      intro acc off hle
      refine (readLookup_ensures bytes lookupTables loaded acc off).bind ?_
      rintro ⟨acc', off'⟩ ⟨lk, enc, hlk, hpart, hadds⟩
      refine (ih acc' off' hpart.le).mono ?_
      rintro ⟨acc'', off''⟩ ⟨lks, encs, hlen, hlks, hparts, hadds'⟩
      exact ⟨lk :: lks, enc :: encs, by rw [List.length_cons, hlen], .cons hlk hlks,
        hpart.append hparts, hadds.trans hadds'⟩

/-! ## Resolving -/

theorem resolveKey_ensures (m : MessageLayout) (resolved : List PublicKey) (n i : Nat) :
    Ensures IsMalformed
      (fun a => resolved[i]? = some a.pubkey ∧ a.isSigner = decide (i < m.required) ∧
        a.isWritable = m.isWritable i)
      (resolveKey m resolved n i) := by
  unfold resolveKey
  split
  · exact malformed_ensures _
  · exact ⟨by assumption, rfl, rfl⟩

theorem resolveInstructions_ensures (m : MessageLayout) (resolved accountKeys : List PublicKey)
    (raws : List RawInstruction) :
    ∀ n, (∀ r ∈ raws, r.program < accountKeys.length) → Ensures IsMalformed
      (List.Forall₂ (fun r ix => accountKeys[r.program]? = some ix.programId ∧
        ix.data = r.data ∧ List.Forall₂ (fun i a => resolved[i]? = some a.pubkey ∧
          a.isSigner = decide (i < m.required) ∧ a.isWritable = m.isWritable i)
          r.accounts ix.keys) raws)
      (resolveInstructions m resolved accountKeys n raws) := by
  induction raws with
  | nil => exact fun _ _ => .nil
  | cons r raws ih =>
      intro n hprograms
      obtain ⟨hprogram, hrest⟩ := List.forall_mem_cons.1 hprograms
      unfold resolveInstructions
      refine Ensures.bind (Q := fun ix => accountKeys[r.program]? = some ix.programId ∧
        ix.data = r.data ∧ _) ?_ fun ix hix =>
          (ih (n + 1) hrest).bind fun ixs hixs => .cons hix hixs
      refine (keyOf_ensures hprogram).bind fun programId hprogramId => ?_
      refine (Ensures.mapM fun i _ => resolveKey_ensures m resolved n i).bind ?_
      intro keys hkeys
      exact ⟨hprogramId, rfl, hkeys⟩

/-! ## Legacy and v0 messages -/

theorem byteAt_zero {bytes : List UInt8} {n : UInt8} (h : byteAt bytes 0 = n.toNat)
    (hn : n ≠ 0) : bytes[0]? = some n := by
  unfold byteAt at h
  rw [UInt8.toNat_inj] at h
  cases bytes with
  | nil => exact absurd h.symm hn
  | cons b bytes => exact congrArg some h

theorem readVersion_ensures (bytes : List UInt8) :
    Ensures IsMalformed
      (fun versioned =>
        if versioned = true then bytes[0]? = some 0x80 else byteAt bytes 0 < 128)
      (readVersion bytes) := by
  unfold readVersion
  have hlt : byteAt bytes 0 < 256 := UInt8.toNat_lt _
  dsimp only
  split
  · rename_i hlow
    exact (CompactU16.and_high hlt).1 hlow
  · rename_i hhigh
    rw [CompactU16.and_high hlt] at hhigh
    split
    · exact malformed_ensures _
    · rename_i hversion
      rw [CompactU16.and_low, ne_eq, not_not] at hversion
      have hbyte : byteAt bytes 0 = UInt8.toNat 0x80 := by
        show byteAt bytes 0 = 128
        omega
      exact byteAt_zero hbyte (by decide)

theorem readHeader_ensures (bytes : List UInt8) (off : Nat) :
    Ensures IsMalformed
      (fun r => ∃ required readonlySigned readonlyUnsigned : UInt8,
        r = (required.toNat, readonlySigned.toNat, readonlyUnsigned.toNat) ∧
          bytes[off]? = some required ∧
          Part bytes off [required, readonlySigned, readonlyUnsigned] (off + 3))
      (readHeader bytes off) := by
  unfold readHeader
  split
  · rename_i a b c ha hb hc
    exact ⟨a, b, c, rfl, ha, ((Part.single ha).append (Part.single hb)).append (Part.single hc)⟩
  · exact malformed_ensures _

/-- The bytes of the lookup section. -/
def SpellsSection (versioned : Bool) (lks : List LookupEntry) (enc : List UInt8) : Prop :=
  if versioned = true then CountedAll SpellsLookup lks enc else lks = [] ∧ enc = []

/-- The end of `readLookupSection`. -/
def addLoaded (loaded : Option LoadedAddresses) (r : LookedUp × Nat) :
    Except Thrown (LookedUp × Nat) :=
  match loaded with
  | none => .ok r
  | some l =>
      if l.writable.length ≠ r.1.writableCount ∨ l.readonly.length ≠ r.1.readonlyCount then
        malformed "loaded addresses do not match the message lookups"
      else .ok ({ r.1 with
        writable := r.1.writable ++ l.writable
        readonly := r.1.readonly ++ l.readonly }, r.2)

theorem readLookupSection_eq (bytes : List UInt8)
    (lookupTables : OrderedMap PublicKey (List PublicKey))
    (loaded : Option LoadedAddresses) (versioned : Bool) (off : Nat) :
    readLookupSection bytes lookupTables loaded versioned off =
      (if versioned = true then
        readCompact bytes off >>= fun r =>
          readLookups bytes lookupTables loaded r.1 {} r.2
      else .ok ({}, off)) >>= addLoaded loaded := by
  unfold readLookupSection
  cases versioned with
  | false => cases loaded <;> rfl
  | true =>
      simp only [if_true, bind_assoc]
      refine congrArg (readCompact bytes off >>= ·) (funext fun r => ?_)
      refine congrArg (readLookups bytes lookupTables loaded r.1 {} r.2 >>= ·) ?_
      funext r
      cases loaded <;> rfl

theorem addLoaded_ensures {lookupTables : OrderedMap PublicKey (List PublicKey)}
    {loaded : Option LoadedAddresses} {lks : List LookupEntry} {r : LookedUp × Nat}
    (h : Adds lookupTables loaded lks {} r.1) :
    Ensures IsMalformed
      (fun r' => r'.2 = r.2 ∧
        Frame.LooksUp lookupTables loaded lks r'.1.writable r'.1.readonly)
      (addLoaded loaded r) := by
  unfold addLoaded
  cases loaded with
  | none =>
      obtain ⟨found, hfound, hw, hr⟩ := h
      exact ⟨rfl, found, hfound, hw, hr⟩
  | some l =>
      obtain ⟨hw, hr, hnw, hnr⟩ := h
      rw [Nat.zero_add] at hnw hnr
      dsimp only
      split
      · exact malformed_ensures _
      · rename_i hmatch
        refine ⟨rfl, ?_, ?_, by omega, by omega⟩
        · show r.1.writable ++ l.writable = l.writable
          rw [hw]
          rfl
        · show r.1.readonly ++ l.readonly = l.readonly
          rw [hr]
          rfl

theorem readLookupSection_ensures (bytes : List UInt8)
    (lookupTables : OrderedMap PublicKey (List PublicKey))
    (loaded : Option LoadedAddresses) (versioned : Bool) (off : Nat)
    (hle : off ≤ bytes.length) :
    Ensures IsMalformed
      (fun r => ∃ lks enc, SpellsSection versioned lks enc ∧ Part bytes off enc r.2 ∧
        Frame.LooksUp lookupTables loaded lks r.1.writable r.1.readonly)
      (readLookupSection bytes lookupTables loaded versioned off) := by
  rw [readLookupSection_eq]
  refine Ensures.bind (Q := fun (r : LookedUp × Nat) => ∃ lks enc,
    SpellsSection versioned lks enc ∧ Part bytes off enc r.2 ∧
      Adds lookupTables loaded lks {} r.1) ?_ ?_
  · cases versioned with
    | false =>
        exact ⟨[], [], ⟨rfl, rfl⟩, Part.nil hle, Adds.refl lookupTables loaded {}⟩
    | true =>
        refine (readCompact_ensures bytes off).bind ?_
        rintro ⟨nLookups, off'⟩ ⟨size, hsize, hlen⟩
        refine (readLookups_ensures bytes lookupTables loaded nLookups {} off' hsize.le).mono ?_
        rintro ⟨acc, off''⟩ ⟨lks, encs, rfl, hlks, hpart, hadds⟩
        exact ⟨lks, size ++ encs.flatten, ⟨size, encs, hlen, hlks, rfl⟩,
          hsize.append hpart, hadds⟩
  · rintro r ⟨lks, enc, hspells, hpart, hadds⟩
    refine (addLoaded_ensures hadds).mono ?_
    rintro r' ⟨hend, hlooks⟩
    exact ⟨lks, enc, hspells, hend ▸ hpart, hlooks⟩

/-! ## v1 messages -/

theorem requireBytes_ensures (bytes : List UInt8) (offset count : Nat) :
    Ensures IsMalformed (fun _ => offset + count ≤ bytes.length)
      (requireBytes bytes offset count) := by
  unfold requireBytes
  split
  · exact malformed_ensures _
  · rename_i hle
    exact Nat.not_lt.1 hle

theorem getUint32_ensures {bytes : List UInt8} {offset : Nat}
    (hle : offset + 4 ≤ bytes.length) :
    Ensures IsMalformed (fun _ => True) (getUint32 bytes offset) := by
  unfold getUint32
  rw [if_neg (Nat.not_lt.2 hle)]
  trivial

theorem readConfigValues_ensures (bytes : List UInt8) (mask : Nat) (bits : List Nat) :
    ∀ offset, offset ≤ bytes.length → Ensures IsMalformed
      (fun r => ∃ config, Part bytes offset config r.2)
      (readConfigValues bytes mask bits offset) := by
  induction bits with
  | nil => exact fun offset hle => ⟨[], Part.nil hle⟩
  | cons bit bits ih =>
      intro offset hle
      unfold readConfigValues
      split
      · exact ih offset hle
      · refine (requireBytes_ensures bytes offset 4).bind fun _ hfits => ?_
        refine (getUint32_ensures hfits).bind fun value _ => ?_
        refine (ih (offset + 4) hfits).bind ?_
        rintro ⟨values, offset'⟩ ⟨config, hpart⟩
        exact ⟨_, (Part.slice (Nat.le_add_right ..) hfits).append hpart⟩

/-- The header at `offset`, as its four bytes. -/
def SpellsV1Header (header : V1InstructionHeader) (enc : List UInt8) : Prop :=
  ∃ program nAccounts low high, header.program = UInt8.toNat program ∧
    header.accounts = UInt8.toNat nAccounts ∧
    header.data = UInt8.toNat low + UInt8.toNat high * 2 ^ 8 ∧
    enc = [program, nAccounts, low, high]

def readV1Header (bytes : List UInt8) (offset index : Nat) :
    Except Thrown V1InstructionHeader := do
  let program ← byteOf bytes (offset + index * 4)
  let accounts ← byteOf bytes (offset + index * 4 + 1)
  let data ← getUint16 bytes (offset + index * 4 + 2)
  return { program := program, accounts := accounts, data := data }

theorem readV1Header_ensures {bytes : List UInt8} {offset index : Nat}
    (hle : offset + (index + 1) * 4 ≤ bytes.length) :
    Ensures IsMalformed
      (fun header => ∃ enc, SpellsV1Header header enc ∧
        Part bytes (offset + index * 4) enc (offset + (index + 1) * 4))
      (readV1Header bytes offset index) := by
  refine (byteOf_ensures (by omega)).bind ?_
  rintro _ ⟨program, hprogram, rfl⟩
  refine (byteOf_ensures (by omega)).bind ?_
  rintro _ ⟨accounts, haccounts, rfl⟩
  have hbyte : ∀ i, i < bytes.length → ∃ b, bytes[i]? = some b ∧ byteAt bytes i = b.toNat := by
    intro i hi
    refine ⟨bytes[i], List.getElem?_eq_getElem hi, ?_⟩
    rw [byteAt, List.getD_eq_getElem _ _ hi]
  obtain ⟨low, hlow, hlowByte⟩ := hbyte (offset + index * 4 + 2) (by omega)
  obtain ⟨high, hhigh, hhighByte⟩ := hbyte (offset + index * 4 + 2 + 1) (by omega)
  unfold getUint16
  rw [if_neg (by omega), hlowByte, hhighByte]
  refine ⟨_, ⟨program, accounts, low, high, rfl, rfl, rfl, rfl⟩, ?_⟩
  have hend : offset + index * 4 + 2 + 1 + 1 = offset + (index + 1) * 4 := by omega
  exact hend ▸ (((Part.single hprogram).append (Part.single haccounts)).append
    (Part.single hlow)).append (Part.single hhigh)

theorem readV1Headers_ensures {bytes : List UInt8} {offset count : Nat}
    (hle : offset + count * 4 ≤ bytes.length) :
    Ensures IsMalformed
      (fun headers => headers.length = count ∧ ∃ encs,
        List.Forall₂ SpellsV1Header headers encs ∧
          Part bytes offset encs.flatten (offset + count * 4))
      ((List.range count).mapM (readV1Header bytes offset)) := by
  refine (Ensures.mapM fun index hindex => readV1Header_ensures ?_).mono fun headers h => ?_
  · have hlt := List.mem_range.1 hindex
    omega
  · refine ⟨h.length_eq.symm.trans List.length_range, ?_⟩
    rw [List.range_eq_range'] at h
    obtain ⟨encs, hencs, hpart⟩ := Part.records count 0 headers (by omega) h
    rw [Nat.zero_mul, Nat.add_zero, Nat.zero_add] at hpart
    exact ⟨encs, hencs, hpart⟩

/-- The instruction as it is resolved over the account list of a v1 message. -/
def SaysV1 (h : V1Header) (accountKeys : List PublicKey) (r : RawInstruction)
    (ix : Instruction) : Prop :=
  accountKeys[r.program]? = some ix.programId ∧ ix.data = r.data ∧
    List.Forall₂ (fun i a => accountKeys[i]? = some a.pubkey ∧
      a.isSigner = decide (i < h.required) ∧ a.isWritable = h.isWritable i)
      r.accounts ix.keys

theorem readV1Instruction_ensures {bytes : List UInt8} {h : V1Header}
    {accountKeys : List PublicKey} {header : V1InstructionHeader} {enc : List UInt8}
    (hkeys : accountKeys.length = h.addressCount) (henc : SpellsV1Header header enc)
    (offset : Nat) :
    Ensures IsMalformed
      (fun r => ∃ raw payload, SpellsV1Instruction raw (enc, payload) ∧
        SaysV1 h accountKeys raw r.1 ∧ Part bytes offset payload r.2)
      (readV1Instruction bytes h accountKeys header offset) := by
  obtain ⟨program, nAccounts, low, high, hprogramByte, haccByte, hdataByte, rfl⟩ := henc
  unfold readV1Instruction
  refine Ensures.check (malformed_ensures _) fun hprogram => ?_
  refine (requireBytes_ensures bytes offset _).bind fun _ hfits => ?_
  refine (Ensures.mapM (R := fun byte a => accountKeys[UInt8.toNat byte]? = some a.pubkey ∧
    a.isSigner = decide (byte.toNat < h.required) ∧
    a.isWritable = h.isWritable byte.toNat) fun byte _ => ?_).bind fun keys hmap => ?_
  · refine Ensures.check (malformed_ensures _) fun hindex => ?_
    refine (keyOf_ensures (by omega)).bind fun pubkey hpubkey => ?_
    exact ⟨hpubkey, rfl, rfl⟩
  · refine (keyOf_ensures (by omega)).bind fun programId hprogramId => ?_
    have hacc : offset + header.accounts ≤ bytes.length := by omega
    have hdata : offset + header.accounts + header.data ≤ bytes.length := by omega
    have haccLen := length_slice (a := offset) hacc
    have hdataLen := length_slice (a := offset + header.accounts) hdata
    rw [Nat.add_sub_cancel_left] at haccLen hdataLen
    refine ⟨{ program := header.program
              accounts := (slice bytes offset (offset + header.accounts)).map UInt8.toNat
              data := slice bytes (offset + header.accounts)
                (offset + header.accounts + header.data) }, _,
      ⟨program, nAccounts, low, high, _, hprogramByte, rfl, haccLen.trans haccByte,
        hdataLen.trans hdataByte, rfl⟩, ⟨hprogramId, rfl, ?_⟩, ?_⟩
    · exact List.forall₂_map_left_iff.2 hmap
    · exact (Part.slice (Nat.le_add_right ..) hacc).append
        (Part.slice (Nat.le_add_right ..) hdata)

theorem readV1Instructions_ensures {bytes : List UInt8} {h : V1Header}
    {accountKeys : List PublicKey} {headers : List V1InstructionHeader}
    {encs : List (List UInt8)} (hkeys : accountKeys.length = h.addressCount)
    (hencs : List.Forall₂ SpellsV1Header headers encs) :
    ∀ offset, offset ≤ bytes.length → Ensures IsMalformed
      (fun r => ∃ raws parts, parts.map Prod.fst = encs ∧
        List.Forall₂ SpellsV1Instruction raws parts ∧
        List.Forall₂ (SaysV1 h accountKeys) raws r.1 ∧
        Part bytes offset (parts.map Prod.snd).flatten r.2)
      (readV1Instructions bytes h accountKeys headers offset) := by
  induction hencs with
  | nil => exact fun offset hle => ⟨[], [], rfl, .nil, .nil, Part.nil hle⟩
  | cons henc _ ih =>
      intro offset hle
      refine (readV1Instruction_ensures hkeys henc offset).bind ?_
      rintro ⟨ix, offset'⟩ ⟨raw, payload, hspells, hmeans, hpart⟩
      refine (ih offset' hpart.le).bind ?_
      rintro ⟨ixs, offset''⟩ ⟨raws, parts, rfl, hall, hmeansAll, hparts⟩
      exact ⟨raw :: raws, (_, payload) :: parts, rfl, .cons hspells hall,
        .cons hmeans hmeansAll, hpart.append hparts⟩

/-- An accepted message: what its bytes say, and what it stands for. -/
def Accepts (bytes : List UInt8) (lookupTables : OrderedMap PublicKey (List PublicKey))
    (loaded : Option LoadedAddresses) (d : DecompiledMessage) : Prop :=
  ∃ (f : Frame) (writable readonly : List PublicKey), f.Spells bytes ∧
    Frame.LooksUp lookupTables loaded f.lookups writable readonly ∧
    f.Describes writable readonly d

/-- The header flags of a v1 message are those of any message without lookups. -/
theorem SaysV1.says {f : Frame} {h : V1Header} {r : RawInstruction} {ix : Instruction}
    (hkeys : f.keys.length = h.addressCount) (hrequired : f.required.toNat = h.required)
    (hsigned : f.readonlySigned.toNat = h.readonlySigned)
    (hunsigned : f.readonlyUnsigned.toNat = h.readonlyUnsigned)
    (hmeans : SaysV1 h f.keys r ix) : f.SaysInstruction [] [] r ix := by
  obtain ⟨hprogram, hdata, haccounts⟩ := hmeans
  refine ⟨hprogram, hdata, haccounts.imp fun i a ha => ?_⟩
  obtain ⟨hpubkey, hsigner, hwritable⟩ := ha
  have hlt := (List.getElem?_eq_some_iff.1 hpubkey).1
  rw [hkeys] at hlt
  refine ⟨by rw [List.append_nil, List.append_nil, hpubkey], by rw [hsigner, hrequired], ?_⟩
  rw [hwritable]
  simp only [V1Header.isWritable, MessageLayout.isWritable, Frame.layout, hlt, hrequired,
    hsigned, hunsigned, hkeys, if_true]

theorem parseV1Message_ensures (bytes : List UInt8) :
    Ensures IsMalformed
      (fun d => ∃ f : Frame, f.version = .v1 ∧ f.Spells bytes ∧ f.lookups = [] ∧
        f.Describes [] [] d)
      (parseV1Message bytes) := by
  unfold parseV1Message
  refine Ensures.check (malformed_ensures _) fun hsize => ?_
  rw [not_or, not_not] at hsize
  obtain ⟨hlen, hfirst⟩ := hsize
  refine (byteOf_ensures (by omega)).bind ?_
  rintro _ ⟨required, hrequired, rfl⟩
  refine (byteOf_ensures (by omega)).bind ?_
  rintro _ ⟨readonlySigned, hsigned, rfl⟩
  refine (byteOf_ensures (by omega)).bind ?_
  rintro _ ⟨readonlyUnsigned, hunsigned, rfl⟩
  refine (byteOf_ensures (by omega)).bind ?_
  rintro _ ⟨instructionCount, hix, rfl⟩
  refine (byteOf_ensures (by omega)).bind ?_
  rintro _ ⟨addressCount, haddr, rfl⟩
  refine Ensures.check (malformed_ensures _) fun hcounts => ?_
  refine (getUint32_ensures (by omega)).bind fun mask _ => ?_
  refine Ensures.check (malformed_ensures _) fun _ => ?_
  refine (requireBytes_ensures bytes 42 _).bind fun _ hkeysFit => ?_
  refine (readKeys_ensures addressCount.toNat 42 hkeysFit).bind ?_
  rintro accountKeys ⟨hkeysLen, hkeys⟩
  refine Ensures.check (malformed_ensures _) fun _ => ?_
  refine (readConfigValues_ensures bytes mask [0, 1, 2, 3, 4] _ hkeysFit).bind ?_
  rintro ⟨values, offset⟩ ⟨config, hconfig⟩
  refine Ensures.check (malformed_ensures _) fun _ => ?_
  refine (requireBytes_ensures bytes offset _).bind fun _ hheadersFit => ?_
  refine (readV1Headers_ensures hheadersFit).bind ?_
  rintro headers ⟨hheadersLen, encs, hencs, hheaders⟩
  refine (readV1Instructions_ensures hkeysLen hencs _ hheaders.le).bind ?_
  rintro ⟨instructions, offset'⟩ ⟨raws, parts, rfl, hspells, hmeans, hpayloads⟩
  refine Ensures.check (malformed_ensures _) fun hend => ?_
  have hoffset : offset' = bytes.length := by
    by_contra hne
    exact hend (.inl hne)
  let f : Frame :=
    { version := .v1, required := required, readonlySigned := readonlySigned,
      readonlyUnsigned := readonlyUnsigned, keys := accountKeys,
      blockhash := slice bytes 8 40, instructions := raws, lookups := [] }
  have hixLen : instructionCount.toNat = raws.length := by
    rw [← hheadersLen, hencs.length_eq, List.length_map, hspells.length_eq]
  have hmask : Part bytes 4 (slice bytes 4 8) 8 := Part.slice (by omega) (by omega)
  have hblockhash : Part bytes 8 (slice bytes 8 40) 40 := Part.slice (by omega) (by omega)
  have hcountsPart : Part bytes 1 f.counts 4 :=
    ((Part.single hrequired).append (Part.single hsigned)).append (Part.single hunsigned)
  have hsizes : Part bytes 40 [instructionCount, addressCount] 42 :=
    (Part.single hix).append (Part.single haddr)
  have hfixed := ((((Part.single hfirst).append hcountsPart).append hmask).append
    hblockhash).append hsizes
  have hall := (((hfixed.append hkeys).append hconfig).append hheaders).append hpayloads
  rw [hoffset] at hall
  refine ⟨f, rfl, ⟨length_slice (by omega), rfl, slice bytes 4 8, instructionCount,
    addressCount, config, parts, length_slice (by omega), hixLen, hkeysLen.symm, hspells,
    hall.whole⟩, rfl, rfl, ?_, rfl, rfl, ?_⟩
  · show required.toNat ≤ accountKeys.length
    omega
  · exact hmeans.imp fun r ix h => SaysV1.says (f := f) hkeysLen rfl rfl rfl h

/-! ## Whole messages and transactions -/

theorem decompileMessage_ensures (bytes : List UInt8)
    (lookupTables : OrderedMap PublicKey (List PublicKey))
    (loaded : Option LoadedAddresses) :
    Ensures IsMalformed (Accepts bytes lookupTables loaded)
      (decompileMessage bytes lookupTables loaded) := by
  unfold decompileMessage
  split
  · refine Ensures.check (malformed_ensures _) fun hloaded => ?_
    refine (parseV1Message_ensures bytes).mono ?_
    rintro d ⟨f, -, hspells, hlookups, hdescribes⟩
    refine ⟨f, [], [], hspells, ?_, hdescribes⟩
    rw [hlookups]
    cases loaded with
    | none => exact ⟨[], .nil, rfl, rfl⟩
    | some l =>
        simp only [Option.any_some, Bool.or_eq_true, decide_eq_true_eq, not_or, not_not] at hloaded
        exact ⟨(List.length_eq_zero_iff.1 hloaded.1).symm,
          (List.length_eq_zero_iff.1 hloaded.2).symm, hloaded.1, hloaded.2⟩
  · refine (readVersion_ensures bytes).bind fun versioned hversion => ?_
    refine (readHeader_ensures bytes _).bind ?_
    rintro _ ⟨required, readonlySigned, readonlyUnsigned, rfl, hrequired, hcounts⟩
    refine (readCompact_ensures bytes _).bind ?_
    rintro ⟨nKeys, keysAt⟩ ⟨keySize, hkeySize, hkeyPrefix⟩
    refine Ensures.check (malformed_ensures _) fun hkeysFit => ?_
    rw [not_or, Nat.not_lt, Nat.not_lt] at hkeysFit
    refine (readKeys_ensures nKeys keysAt hkeysFit.2).bind ?_
    rintro accountKeys ⟨rfl, hkeys⟩
    refine Ensures.check (malformed_ensures _) fun hblockhashFits => ?_
    refine (readCompact_ensures bytes _).bind ?_
    rintro ⟨nIx, ixsAt⟩ ⟨ixSize, hixSize, hixPrefix⟩
    refine (readInstructions_ensures bytes accountKeys.length nIx 0 ixsAt hixSize.le).bind ?_
    rintro ⟨raws, lookupsAt⟩ ⟨rfl, hprograms, encs, hencs, hixs⟩
    refine (readLookupSection_ensures bytes lookupTables loaded versioned lookupsAt
      hixs.le).bind ?_
    rintro ⟨lookedUp, off⟩ ⟨lks, enc, hsection, hlookups, hlooksUp⟩
    refine Ensures.check (malformed_ensures _) fun hend => ?_
    refine (resolveInstructions_ensures _ _ accountKeys raws 0 hprograms).bind ?_
    intro instructions hinstructions
    let f : Frame :=
      { version := if versioned = true then .v0 else .legacy
        required := required, readonlySigned := readonlySigned,
        readonlyUnsigned := readonlyUnsigned, keys := accountKeys,
        blockhash := slice bytes (keysAt + accountKeys.length * 32)
          (keysAt + accountKeys.length * 32 + 32)
        instructions := raws, lookups := lks }
    have hblockhash : Part bytes _ f.blockhash _ :=
      Part.slice (Nat.le_add_right ..) (Nat.not_lt.1 hblockhashFits)
    have hblockhashLen : f.blockhash.length = 32 := by
      rw [length_slice (Nat.not_lt.1 hblockhashFits), Nat.add_sub_cancel_left]
    have hbody := (((hcounts.append hkeySize).append hkeys).append hblockhash).append
      (hixSize.append hixs)
    have hspellsBody : f.SpellsBody _ :=
      ⟨keySize, ixSize ++ encs.flatten, hkeyPrefix, ⟨ixSize, encs, hixPrefix, hencs, rfl⟩, rfl⟩
    obtain rfl : off = bytes.length := not_not.1 hend
    refine ⟨f, lookedUp.writable, lookedUp.readonly, ⟨hblockhashLen, ?_⟩, hlooksUp, rfl,
      hkeysFit.1, rfl, rfl, hinstructions⟩
    cases versioned with
    | true =>
        exact ⟨_, enc, hspellsBody, hsection,
          ((Part.single hversion).append hbody |>.append hlookups).whole⟩
    | false =>
        obtain ⟨rfl, rfl⟩ := hsection
        have hall := (hbody.append hlookups).whole
        rw [List.append_nil] at hall
        refine ⟨?_, rfl, hall ▸ hspellsBody⟩
        have hfirst : bytes[0]? = some required := hrequired
        have hlow : byteAt bytes 0 < 128 := hversion
        rwa [byteAt, List.getD_eq_getElem?_getD, hfirst] at hlow

theorem messageSigners_ensures (bytes : List UInt8) :
    Ensures IsMalformed (fun _ => True) (messageSigners bytes) := by
  unfold messageSigners
  split
  · exact (parseV1Message_ensures bytes).bind fun _ _ => trivial
  · refine (readVersion_ensures bytes).bind fun versioned _ => ?_
    dsimp only
    split
    · exact malformed_ensures _
    · refine (readCompact_ensures bytes _).bind ?_
      rintro ⟨nKeys, off⟩ -
      refine Ensures.check (malformed_ensures _) fun hfits => ?_
      exact (readKeys_ensures _ off (by omega)).mono fun _ _ => trivial

/-- Signatures and message, in the order in which they stand. -/
def Partitions (bytes : List UInt8) (d : DecodedTransaction) : Prop :=
  (∀ sig ∈ d.signatures, sig.length = 64) ∧
    if bytes[0]? = some 0x81 then bytes = d.messageBytes ++ d.signatures.flatten
    else ∃ count, LenPrefix d.signatures.length count ∧
      bytes = count ++ d.signatures.flatten ++ d.messageBytes

theorem signaturesAt_part {bytes : List UInt8} {start count : Nat}
    (hle : start + count * 64 ≤ bytes.length) :
    (signaturesAt bytes start count).length = count ∧
      (∀ sig ∈ signaturesAt bytes start count, sig.length = 64) ∧
      Part bytes start (signaturesAt bytes start count).flatten (start + count * 64) := by
  have hpart : ∀ i, i < count → Part bytes (start + i * 64)
      (slice bytes (start + i * 64) (start + (i + 1) * 64)) (start + (i + 1) * 64) :=
    fun i hi => Part.slice (by omega) (by omega)
  refine ⟨by rw [signaturesAt, List.length_map, List.length_range], ?_, ?_⟩
  · intro sig hsig
    obtain ⟨i, hi, rfl⟩ := List.mem_map.1 hsig
    rw [List.mem_range] at hi
    rw [length_slice (by omega)]
    omega
  · have hrecords : List.Forall₂ (fun i sig => ∃ enc, sig = enc ∧
        Part bytes (start + i * 64) enc (start + (i + 1) * 64)) (List.range' 0 count)
        (signaturesAt bytes start count) := by
      rw [signaturesAt, List.range_eq_range', List.forall₂_map_right_iff]
      refine List.forall₂_same.2 fun i hi => ⟨_, rfl, hpart i ?_⟩
      rw [List.mem_range'_1] at hi
      omega
    obtain ⟨encs, hencs, hflat⟩ := Part.records count 0 _ (by omega) hrecords
    rw [List.forall₂_eq_eq_eq] at hencs
    rw [hencs]
    simpa using hflat

theorem decodeTransaction_ensures (bytes : List UInt8) :
    Ensures IsMalformed (Partitions bytes) (decodeTransaction bytes) := by
  unfold decodeTransaction
  split
  · rename_i hfirst
    refine Ensures.check (malformed_ensures _) fun hsize => ?_
    refine (byteOf_ensures (by omega)).bind ?_
    rintro _ ⟨required, -, rfl⟩
    refine Ensures.check (malformed_ensures _) fun hend => ?_
    refine (parseV1Message_ensures _).bind fun _ _ => ?_
    generalize hmessageEnd : (bytes.length - required.toNat * 64 : Int).toNat = messageEnd
    have hwhole : messageEnd + required.toNat * 64 = bytes.length := by omega
    obtain ⟨-, hlen, hsigs⟩ := signaturesAt_part hwhole.le
    rw [hwhole] at hsigs
    refine ⟨hlen, ?_⟩
    rw [if_pos hfirst]
    exact ((Part.slice (Nat.zero_le _) (by omega)).append hsigs).whole
  · rename_i hfirst
    refine (readCompact_ensures bytes 0).bind ?_
    rintro ⟨count, size⟩ ⟨enc, henc, hpfx⟩
    refine Ensures.check (malformed_ensures _) fun hend => ?_
    have hle : size + count * 64 ≤ bytes.length := by omega
    obtain ⟨hcount, hlen, hsigs⟩ := signaturesAt_part hle
    refine ⟨hlen, ?_⟩
    rw [if_neg hfirst]
    refine ⟨enc, hcount.symm ▸ hpfx, ?_⟩
    obtain ⟨rest, hat, hstop⟩ := henc.append hsigs
    have hdrop := hat.next.2
    rw [← hstop] at hdrop
    show bytes = enc ++ _ ++ bytes.drop (size + count * 64)
    rw [hdrop]
    exact hat.2

/-! ## Accounts -/

/-- An address of a lookup table, or one that was loaded. -/
def LookedUpIn (lookupTables : OrderedMap PublicKey (List PublicKey))
    (loaded : Option LoadedAddresses) (key : PublicKey) : Prop :=
  match loaded with
  | none => ∃ table addresses, lookupTables.get? table = some addresses ∧ key ∈ addresses
  | some l => key ∈ l.writable ∨ key ∈ l.readonly

/-- Every account of every instruction is a key of the message or was looked up. -/
def AccountsReal (lookupTables : OrderedMap PublicKey (List PublicKey))
    (loaded : Option LoadedAddresses) (d : DecompiledMessage) : Prop :=
  ∀ ix ∈ d.instructions, ix.programId ∈ d.accountKeys ∧
    ∀ a ∈ ix.keys, a.pubkey ∈ d.accountKeys ∨ LookedUpIn lookupTables loaded a.pubkey

theorem mem_of_map_getElem? {addresses found : List PublicKey} {items : List UInt8}
    (h : items.map (fun i => addresses[i.toNat]?) = found.map some) {key : PublicKey}
    (hkey : key ∈ found) : key ∈ addresses := by
  have hmem : some key ∈ items.map fun i => addresses[i.toNat]? := by
    rw [h]
    exact List.mem_map_of_mem hkey
  obtain ⟨i, -, hi⟩ := List.mem_map.1 hmem
  exact List.mem_of_getElem? hi

theorem found_mem {lookupTables : OrderedMap PublicKey (List PublicKey)}
    {lks : List LookupEntry} {found : List (List PublicKey × List PublicKey)}
    (h : List.Forall₂ (Frame.Found lookupTables) lks found)
    {p : List PublicKey × List PublicKey} (hp : p ∈ found) {key : PublicKey}
    (hkey : key ∈ p.1 ∨ key ∈ p.2) : LookedUpIn lookupTables none key := by
  obtain ⟨lk, -, addresses, hget, hwritable, hreadonly⟩ := forall₂_of_mem h hp
  refine ⟨lk.table, addresses, hget, ?_⟩
  rcases hkey with hkey | hkey
  · exact mem_of_map_getElem? hwritable hkey
  · exact mem_of_map_getElem? hreadonly hkey

theorem lookedUpIn {lookupTables : OrderedMap PublicKey (List PublicKey)}
    {loaded : Option LoadedAddresses} {lks : List LookupEntry}
    {writable readonly : List PublicKey}
    (h : Frame.LooksUp lookupTables loaded lks writable readonly) {key : PublicKey}
    (hkey : key ∈ writable ∨ key ∈ readonly) : LookedUpIn lookupTables loaded key := by
  cases loaded with
  | some l =>
      obtain ⟨rfl, rfl, -, -⟩ := h
      exact hkey
  | none =>
      obtain ⟨found, hfound, rfl, rfl⟩ := h
      rcases hkey with hkey | hkey
      · obtain ⟨keys, hkeys, hmem⟩ := List.mem_flatten.1 hkey
        obtain ⟨p, hp, rfl⟩ := List.mem_map.1 hkeys
        exact found_mem hfound hp (.inl hmem)
      · obtain ⟨keys, hkeys, hmem⟩ := List.mem_flatten.1 hkey
        obtain ⟨p, hp, rfl⟩ := List.mem_map.1 hkeys
        exact found_mem hfound hp (.inr hmem)

theorem accepts_real {bytes : List UInt8}
    {lookupTables : OrderedMap PublicKey (List PublicKey)}
    {loaded : Option LoadedAddresses} {d : DecompiledMessage}
    (h : Accepts bytes lookupTables loaded d) : AccountsReal lookupTables loaded d := by
  obtain ⟨f, writable, readonly, -, hlooks, hdescribes⟩ := h
  intro ix hix
  obtain ⟨r, -, hprogram, -, haccounts⟩ := forall₂_of_mem hdescribes.instructions hix
  rw [hdescribes.accountKeys]
  refine ⟨List.mem_of_getElem? hprogram, fun a ha => ?_⟩
  obtain ⟨i, -, hpubkey, -⟩ := forall₂_of_mem haccounts ha
  have hmem := List.mem_of_getElem? hpubkey
  rw [List.mem_append, List.mem_append, or_assoc] at hmem
  exact hmem.imp_right (lookedUpIn hlooks)

/-- Every reader, on every input: what it throws is `tx.malformed`; what it accepts it
has read from end to end, and every account it names is there. -/
theorem readers_total (bytes : List UInt8)
    (lookupTables : OrderedMap PublicKey (List PublicKey))
    (loaded : Option LoadedAddresses) :
    Ensures IsMalformed (Partitions bytes) (decodeTransaction bytes) ∧
      Ensures IsMalformed (fun _ => True) (messageSigners bytes) ∧
      Ensures IsMalformed
        (fun d => Accepts bytes lookupTables loaded d ∧ AccountsReal lookupTables loaded d)
        (decompileMessage bytes lookupTables loaded) ∧
      Ensures IsMalformed
        (fun d => (∃ f : Frame, f.version = .v1 ∧ f.Spells bytes ∧ f.Describes [] [] d) ∧
          ∀ ix ∈ d.instructions, ix.programId ∈ d.accountKeys ∧
            ∀ a ∈ ix.keys, a.pubkey ∈ d.accountKeys)
        (parseV1Message bytes) := by
  refine ⟨decodeTransaction_ensures bytes, messageSigners_ensures bytes,
    (decompileMessage_ensures bytes lookupTables loaded).mono fun d h => ⟨h, accepts_real h⟩,
    (parseV1Message_ensures bytes).mono ?_⟩
  rintro d ⟨f, hversion, hspells, hlookups, hdescribes⟩
  refine ⟨⟨f, hversion, hspells, hdescribes⟩, fun ix hix => ?_⟩
  have hlooks : Frame.LooksUp .empty none f.lookups [] [] := by
    rw [hlookups]
    exact ⟨[], .nil, rfl, rfl⟩
  obtain ⟨hprogram, haccounts⟩ := accepts_real ⟨f, [], [], hspells, hlooks, hdescribes⟩ ix hix
  refine ⟨hprogram, fun a ha => (haccounts a ha).resolve_right ?_⟩
  rintro ⟨table, addresses, hget, -⟩
  cases hget

end Ap3xSolana.Tx.Readers
