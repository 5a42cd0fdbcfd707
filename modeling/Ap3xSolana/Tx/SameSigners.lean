import Ap3xSolana.Tx.ReadBack
import Ap3xSolana.Tx.Readers

/-!
# Two readers, one list of signers

`messageSigners` parses the header of a message on its own.  On every message that
`decompileMessage` accepts both find the same signers, because both read the frame
that the message spells.
-/

namespace Ap3xSolana.Tx.SameSigners

open Ap3xSolana.Core Ap3xSolana.Lib Ap3xSolana.Lib.Cursor Ap3xSolana.Lib.Throwing
open Ap3xSolana.Tx.TransactionAssembler Ap3xSolana.Tx.TransactionV1
open Ap3xSolana.Tx.TransactionCodec Ap3xSolana.Tx.MessageForm Ap3xSolana.Tx.Readers

/-! ## Reading a frame -/

theorem readCompact_prefix {n off : Nat} {enc bytes rest : List UInt8}
    (henc : LenPrefix n enc) (h : At bytes off (enc ++ rest)) :
    readCompact bytes off = .ok (n, off + enc.length) := by
  have hdecode : CompactU16.decode bytes off = .ok { value := n, length := enc.length } := by
    refine CompactU16.decode_local henc fun i hi => ?_
    have hslice := h.slice
    rw [Nat.zero_add, ← hslice, slice, Nat.add_sub_cancel_left, List.getElem?_take_of_lt hi,
      List.getElem?_drop]
  rw [readCompact, hdecode]

theorem readVersion_of_lt {bytes : List UInt8} (h : byteAt bytes 0 < 128) :
    readVersion bytes = .ok false := by
  have hlow : byteAt bytes 0 &&& 0x80 = 0 := (CompactU16.and_high (by omega)).2 h
  unfold readVersion
  dsimp only
  rw [if_pos hlow]

theorem keyBytes_take (keys : List PublicKey) (n : Nat) :
    keyBytes keys = keyBytes (keys.take n) ++ keyBytes (keys.drop n) := by
  unfold keyBytes
  rw [← List.flatten_append, ← List.map_append, List.take_append_drop]

/-- What `messageSigners` does once the version is known. -/
theorem messageSigners_at {bytes nKeys rest : List UInt8} {versioned : Bool}
    {required readonlySigned readonlyUnsigned : UInt8} {keys : List PublicKey}
    (hfirst : bytes[0]? ≠ some 0x81) (hversion : readVersion bytes = .ok versioned)
    (hnKeys : LenPrefix keys.length nKeys) (hrequired : required.toNat ≤ keys.length)
    (h : At bytes (if versioned = true then 1 else 0)
      ([required, readonlySigned, readonlyUnsigned] ++ (nKeys ++ (keyBytes keys ++ rest)))) :
    messageSigners bytes = .ok (keys.take required.toNat) := by
  have hget := At.get h
  have hcount : readCompact bytes ((if versioned = true then 1 else 0) + 3) = _ :=
    readCompact_prefix hnKeys h.next
  have hkeysAt : At bytes ((if versioned = true then 1 else 0) + 3 + nKeys.length)
    (keyBytes keys ++ rest) := h.next.next
  have hlen := hkeysAt.length
  rw [keyBytes_take keys required.toNat, List.append_assoc] at hkeysAt
  have hread := ReadBack.readKeys_at hkeysAt
  rw [List.length_take_of_le hrequired] at hread
  have hkeyBytes : (keyBytes keys).length = keys.length * 32 :=
    ReadBack.length_flatten_keys keys
  rw [List.length_append, hkeyBytes] at hlen
  unfold messageSigners
  rw [if_neg hfirst, hversion]
  simp only [bind, Except.bind, hget, hcount]
  rw [if_neg]
  · exact hread
  · show ¬ (required.toNat > keys.length ∨
      (if versioned = true then 1 else 0) + 3 + nKeys.length + keys.length * 32 > bytes.length)
    omega

theorem messageSigners_of_spells {f : Frame} {bytes : List UInt8}
    (hfirst : bytes[0]? ≠ some 0x81) (hspells : f.Spells bytes)
    (hrequired : f.required.toNat ≤ f.keys.length) :
    messageSigners bytes = .ok (f.keys.take f.required.toNat) := by
  obtain ⟨-, hspells⟩ := hspells
  cases hversion : f.version with
  | legacy =>
      rw [hversion] at hspells
      obtain ⟨hlow, -, nKeys, ixs, hnKeys, -, hbytes⟩ := hspells
      have hat := At.start bytes
      conv at hat => arg 3; rw [hbytes]
      simp only [List.append_assoc] at hat
      refine messageSigners_at hfirst (readVersion_of_lt ?_) hnKeys hrequired hat
      rw [byteAt, List.getD_eq_getElem?_getD, hat.get]
      exact hlow
  | v0 =>
      rw [hversion] at hspells
      obtain ⟨body, lookups, ⟨nKeys, ixs, hnKeys, -, rfl⟩, -, hbytes⟩ := hspells
      have hat := At.start bytes
      conv at hat => arg 3; rw [hbytes]
      simp only [List.append_assoc] at hat
      exact messageSigners_at hfirst (ReadBack.readVersion_v0 hat) hnKeys hrequired hat.next
  | v1 =>
      rw [hversion] at hspells
      obtain ⟨-, mask, nIx, nKeys, config, parts, -, -, -, -, rfl⟩ := hspells
      exact absurd rfl hfirst

/-! ## Agreement -/

/-- A signer flag is set for accounts among the required signers only. -/
theorem isSigner_mem {f : Frame} {writable readonly : List PublicKey} {i : Nat}
    {a : AccountMeta} (h : f.SaysAccount writable readonly i a)
    (hrequired : f.required.toNat ≤ f.keys.length) (hsigner : a.isSigner = true) :
    a.pubkey ∈ f.keys.take f.required.toNat := by
  obtain ⟨hpubkey, hflag, -⟩ := h
  rw [hflag, decide_eq_true_eq] at hsigner
  rw [List.append_assoc, List.getElem?_append_left (hsigner.trans_le hrequired)] at hpubkey
  rw [List.mem_iff_getElem?]
  exact ⟨i, (List.getElem?_take_of_lt hsigner).trans hpubkey⟩

/-- Both readers find the same signers in every message that decompiles; flags name
required signers only, and never an account that was looked up. -/
theorem readers_agree (bytes : List UInt8)
    (lookupTables : OrderedMap PublicKey (List PublicKey))
    (loaded : Option LoadedAddresses) (d : DecompiledMessage)
    (h : decompileMessage bytes lookupTables loaded = .ok d) :
    messageSigners bytes = .ok d.signers ∧
      (∀ ix ∈ d.instructions, ∀ a ∈ ix.keys, a.isSigner = true → a.pubkey ∈ d.signers) ∧
      ∃ (f : Frame) (writable readonly : List PublicKey), f.Spells bytes ∧
        f.keys = d.accountKeys ∧
        Frame.LooksUp lookupTables loaded f.lookups writable readonly ∧
        List.Forall₂ (fun r ix => List.Forall₂ (fun i a =>
          (d.accountKeys ++ (writable ++ readonly))[i]? = some a.pubkey ∧
            (d.accountKeys.length ≤ i → a.isSigner = false)) r.accounts ix.keys)
          f.instructions d.instructions := by
  have haccepts := (decompileMessage_ensures bytes lookupTables loaded).of_eq h
  obtain ⟨f, writable, readonly, hspells, hlooks, hdescribes⟩ := haccepts
  refine ⟨?_, ?_, f, writable, readonly, hspells, hdescribes.accountKeys.symm, hlooks, ?_⟩
  · by_cases hfirst : bytes[0]? = some 0x81
    · unfold decompileMessage at h
      rw [if_pos hfirst] at h
      unfold messageSigners
      rw [if_pos hfirst]
      dsimp only at h
      split at h
      · cases h
      · rw [h]
        rfl
    · rw [hdescribes.signers]
      exact messageSigners_of_spells hfirst hspells hdescribes.required
  · intro ix hix a ha hsigner
    obtain ⟨r, -, -, -, haccounts⟩ := forall₂_of_mem hdescribes.instructions hix
    obtain ⟨i, -, hsays⟩ := forall₂_of_mem haccounts ha
    rw [hdescribes.signers]
    exact isSigner_mem hsays hdescribes.required hsigner
  · refine hdescribes.instructions.imp fun r ix hsays => ?_
    refine hsays.2.2.imp fun i a ha => ?_
    rw [hdescribes.accountKeys, ← List.append_assoc]
    refine ⟨ha.1, fun hge => ?_⟩
    rw [ha.2.1, decide_eq_false_iff_not]
    have := hdescribes.required
    omega

def keyOfByte (b : UInt8) : PublicKey := .ofByte b

/-- One signer, one program, and an instruction on the signer and on an account of the
table. -/
def lookupMessage : List UInt8 :=
  [0x80, 1, 0, 1, 2] ++ (keyOfByte 7).bytes ++ (keyOfByte 9).bytes ++ List.replicate 32 1 ++
    [1, 1, 2, 0, 2, 1, 5] ++ [1] ++ (keyOfByte 3).bytes ++ [1, 0, 0]

def lookupMessageTables : OrderedMap PublicKey (List PublicKey) :=
  OrderedMap.empty.set (keyOfByte 3) [keyOfByte 4]

theorem readers_agree_lookupMessage :
    messageSigners lookupMessage = .ok [keyOfByte 7] ∧
      ∃ d, decompileMessage lookupMessage lookupMessageTables = .ok d ∧
        ∀ ix ∈ d.instructions, ∀ a ∈ ix.keys, a.isSigner = true →
          a.pubkey ∈ [keyOfByte 7] := by
  obtain ⟨d, hd, hsigners⟩ : ∃ d,
      decompileMessage lookupMessage lookupMessageTables = .ok d ∧
        d.signers = [keyOfByte 7] := by
    decide +kernel
  have h := readers_agree lookupMessage lookupMessageTables none d hd
  rw [hsigners] at h
  exact ⟨h.1, d, hd, h.2.1⟩

end Ap3xSolana.Tx.SameSigners
