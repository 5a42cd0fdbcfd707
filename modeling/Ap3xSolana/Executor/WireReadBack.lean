import Ap3xSolana.Executor.Executor
import Ap3xSolana.Tx.TransactionAssembler
import Ap3xSolana.Tx.RoundTrip
import Ap3xSolana.Tx.SameSigners

/-!
# Wire transactions read back

The writer puts a compact-u16 count before the signatures.  `decodeTransaction` takes
a first byte `0x81` for a v1 message and `transactionSignature` skips one byte, so both
need the count to be one byte, which it is for up to 127 signers.
-/

namespace Ap3xSolana.Executor.WireReadBack

open Ap3xSolana.Core Ap3xSolana.Lib Ap3xSolana.Lib.Cursor Ap3xSolana.Lib.Throwing
open Ap3xSolana.Tx Ap3xSolana.Tx.Assemble Ap3xSolana.Tx.TransactionAssembler
open Ap3xSolana.Tx.TransactionCodec Ap3xSolana.Tx.MessageForm Ap3xSolana.Tx.CompileAccounts

/-- Every reader finds in `wire` what was written. -/
structure ReadsBack (wire message : List UInt8) (signers : List PublicKey)
    (signatures : List (List UInt8)) : Prop where
  decoded : decodeTransaction wire =
    .ok { signatures := signatures, messageBytes := message }
  slots : signatures.length = signers.length
  sizes : ∀ sig ∈ signatures, sig.length = 64
  signers : messageSigners message = .ok signers
  first : ∃ sig, signatures.head? = some sig ∧
    transactionSignature wire = .ok (Base58.encode sig)

/-! ## The count -/

theorem lenPrefix_of_compactU16 {n : Nat} {enc : List UInt8}
    (h : compactU16 n = .ok enc) : LenPrefix n enc := by
  have hdecode := CompactU16.decode_encode (ReadBack.encode_of_compactU16 h) [] []
  rwa [List.append_nil, List.nil_append] at hdecode

/-- Up to 127 the count is one byte. -/
theorem compactU16_small {n : Nat} (hn : n ≤ 127) : compactU16 n = .ok [UInt8.ofNat n] := by
  unfold compactU16 CompactU16.encode
  rw [if_neg (by unfold CompactU16.maxValue; omega), if_pos hn]

/-- The signatures that were put before a message are read back, and so is the
message. -/
theorem decodeTransaction_wire {signatures : List (List UInt8)} {message w : List UInt8}
    (hcount : signatures.length ≤ 127) (hsizes : ∀ sig ∈ signatures, sig.length = 64)
    (hmessage : message ≠ []) (hw : wire signatures message = .ok w) :
    w = [UInt8.ofNat signatures.length] ++ signatures.flatten ++ message ∧
      decodeTransaction w = .ok { signatures := signatures, messageBytes := message } := by
  have hpfx := compactU16_small hcount
  simp only [wire, hpfx, bind_eq_ok, pure_eq_ok] at hw
  obtain ⟨_, henc, rfl⟩ := hw
  obtain rfl := Except.ok.inj henc
  refine ⟨rfl, ?_⟩
  have hat := At.start ([UInt8.ofNat signatures.length] ++ signatures.flatten ++ message)
  conv at hat => arg 3; rw [List.append_assoc]
  have hread := ReadBack.readCompact_at hpfx hat
  have hsigs := hat.next
  have hslices := At.slices hsizes hsigs
  have hlen : signatures.flatten.length = signatures.length * 64 := by
    rw [List.length_flatten, List.map_congr_left hsizes]
    simp
  have hrest := hsigs.next
  have hend := hrest.length
  have hpos : 0 < message.length := List.length_pos_iff.2 hmessage
  rw [hlen] at hrest hend
  have hfirst : ([UInt8.ofNat signatures.length] ++ signatures.flatten ++ message)[0]? ≠
      some 0x81 := by
    rw [hat.get]
    intro heq
    have hbyte := congrArg UInt8.toNat (Option.some.inj heq)
    rw [UInt8.toNat_ofNat', Nat.mod_eq_of_lt (by omega)] at hbyte
    have : (0x81 : UInt8).toNat = 129 := rfl
    omega
  generalize hw : [UInt8.ofNat signatures.length] ++ signatures.flatten ++ message = w at *
  unfold decodeTransaction
  rw [if_neg hfirst, hread]
  simp only [bind, Except.bind, List.length_singleton, Nat.zero_add] at hslices hrest hend ⊢
  rw [if_neg (by omega), signaturesAt, hslices, hrest.2]
  rfl

theorem transactionSignature_wire {sig : List UInt8} {signatures : List (List UInt8)}
    {message : List UInt8} (hcount : (sig :: signatures).length ≤ 127)
    (hsize : sig.length = 64) :
    transactionSignature ([UInt8.ofNat (sig :: signatures).length] ++
        (sig :: signatures).flatten ++ message) = .ok (Base58.encode sig) := by
  have hcons : [UInt8.ofNat (sig :: signatures).length] ++ (sig :: signatures).flatten ++
      message = UInt8.ofNat (sig :: signatures).length ::
        (sig ++ (signatures.flatten ++ message)) := by
    rw [List.flatten_cons, List.append_assoc, List.append_assoc]
    rfl
  have hzero : UInt8.ofNat (sig :: signatures).length ≠ 0 := by
    intro heq
    have hbyte := congrArg UInt8.toNat heq
    rw [UInt8.toNat_ofNat', Nat.mod_eq_of_lt (by omega), List.length_cons] at hbyte
    have : (0 : UInt8).toNat = 0 := rfl
    omega
  rw [hcons, transactionSignature, if_neg, List.drop_one, List.tail_cons, ← hsize,
    List.take_left]
  rw [List.length_cons, List.length_append, hsize]
  rintro (hshort | hfirst)
  · omega
  · exact hzero (Option.some.inj hfirst)

/-- A wire transaction reads back if its message names as many signers. -/
theorem readsBack_wire {signers : List PublicKey} {signatures : List (List UInt8)}
    {message w : List UInt8} (hcount : signers.length ≤ 127) (hsome : signers ≠ [])
    (hslots : signatures.length = signers.length)
    (hsizes : ∀ sig ∈ signatures, sig.length = 64) (hmessage : message ≠ [])
    (hsigners : messageSigners message = .ok signers)
    (hw : wire signatures message = .ok w) : ReadsBack w message signers signatures := by
  obtain ⟨rfl, hdecode⟩ := decodeTransaction_wire (hslots ▸ hcount) hsizes hmessage hw
  refine ⟨hdecode, hslots, hsizes, hsigners, ?_⟩
  cases signatures with
  | nil => exact absurd (List.length_eq_zero_iff.1 hslots.symm) hsome
  | cons sig signatures =>
      exact ⟨sig, rfl, transactionSignature_wire (hslots ▸ hcount) (hsizes sig (by simp))⟩

/-! ## Compiled messages -/

/-- The signers of a message, as it was written. -/
theorem messageSigners_serializeMessage {c : CompiledAccounts}
    {instructions : List Instruction} {blockhash message : List UInt8}
    (hser : serializeMessage c instructions blockhash = .ok message)
    (hrequired : c.numRequiredSignatures ≤ c.staticAccounts.length)
    (hbyte : c.numRequiredSignatures < 256) :
    message ≠ [] ∧ messageSigners message =
      .ok ((c.staticAccounts.take c.numRequiredSignatures).map (·.pubkey)) := by
  simp only [serializeMessage, bind_eq_ok, pure_eq_ok] at hser
  obtain ⟨keyCount, hkeyCount, ixCount, -, ixs, -, lookupCount, -, lookupBytes, -, hmsg⟩ := hser
  have hkeyBytes : (c.staticAccounts.map (·.pubkey.bytes)).flatten =
      keyBytes (c.staticAccounts.map (·.pubkey)) := by
    rw [keyBytes, List.map_map]
    rfl
  have hstart := At.start message
  conv at hstart => arg 3; rw [← hmsg]
  rw [hkeyBytes] at hstart
  simp only [List.append_assoc] at hstart
  have hnat : (UInt8.ofNat c.numRequiredSignatures).toNat = c.numRequiredSignatures := by
    rw [UInt8.toNat_ofNat', Nat.mod_eq_of_lt hbyte]
  have hfirst : message[0]? = some 0x80 := hstart.get
  refine ⟨fun hnil => ?_, ?_⟩
  · rw [hnil] at hfirst
    cases hfirst
  · have hheader : At message (if true = true then 1 else 0) _ := hstart.next
    have hcount : LenPrefix (c.staticAccounts.map (·.pubkey)).length keyCount := by
      rw [List.length_map]
      exact lenPrefix_of_compactU16 hkeyCount
    have hsigners := SameSigners.messageSigners_at (by rw [hfirst]; decide)
      (ReadBack.readVersion_v0 hstart) hcount
      (by rw [hnat, List.length_map]; exact hrequired) hheader
    rw [hsigners, hnat, List.map_take]

/-- The required signers of a compiled message. -/
def signersOf (c : Compiled) : List PublicKey :=
  (c.compiled.staticAccounts.take c.compiled.numRequiredSignatures).map (·.pubkey)

theorem compile_signers {options : CompileOptions} {c : Compiled}
    (h : compile options = .ok c) (hcount : (signersOf c).length ≤ 127) :
    signersOf c ≠ [] ∧ c.messageBytes ≠ [] ∧
      messageSigners c.messageBytes = .ok (signersOf c) := by
  simp only [compile, bind_eq_ok, pure_eq_ok] at h
  obtain ⟨blockhash, -, message, hser, rfl⟩ := h
  obtain ⟨hpos, hle⟩ := RoundTrip.numRequiredSignatures_pos options.instructions
    options.payer (options.alts.map normaliseAlt)
  rw [signersOf, List.length_map, List.length_take_of_le hle] at hcount
  obtain ⟨hmessage, hsigners⟩ := messageSigners_serializeMessage hser hle (by omega)
  refine ⟨fun hnil => ?_, hmessage, hsigners⟩
  have hlen := congrArg List.length hnil
  rw [signersOf, List.length_map, List.length_take_of_le hle, List.length_nil] at hlen
  omega

/-! ## Both writers -/

theorem compileUnsigned_readsBack {options : CompileOptions} {c : CompiledTransaction}
    (h : compileUnsigned options = .ok c) (hcount : c.signers.length ≤ 127) :
    ReadsBack c.unsignedTransaction c.messageBytes c.signers
      (c.signers.map fun _ => List.replicate 64 0) := by
  simp only [compileUnsigned, bind_eq_ok, pure_eq_ok] at h
  obtain ⟨compiled, hcompile, w, hw, rfl⟩ := h
  obtain ⟨hsome, hmessage, hsigners⟩ := compile_signers hcompile hcount
  refine readsBack_wire hcount hsome (List.length_map _) ?_ hmessage hsigners hw
  intro sig hsig
  obtain ⟨key, -, rfl⟩ := List.mem_map.1 hsig
  exact List.length_replicate

theorem prepare_signers {options : AssemblerOptions} {p : Prepared}
    (h : prepare options = .ok p) (hcount : p.required.length ≤ 127) :
    p.required ≠ [] ∧ p.messageBytes ≠ [] ∧
      messageSigners p.messageBytes = .ok p.required := by
  unfold prepare at h
  dsimp only at h
  split at h
  · cases h
  · obtain ⟨c, hcompile, hrest⟩ := bind_eq_ok.1 h
    split at hrest
    · cases hrest
    · cases hrest
      exact compile_signers hcompile hcount

theorem assemble_readsBack {options : AssemblerOptions}
    {sign : PublicKey → List UInt8 → Except Thrown (List UInt8)} {p : Prepared}
    {r : AssemblerResult} (hp : prepare options = .ok p) (h : assemble options sign = .ok r)
    (hcount : p.required.length ≤ 127) :
    r.messageBytes = p.messageBytes ∧
      ∃ signatures,
        List.Forall₂ (fun key sig => sign key p.messageBytes = .ok sig) p.required
          signatures ∧
        ReadsBack r.signedTransaction p.messageBytes p.required signatures := by
  simp only [assemble, hp, bind_eq_ok, pure_eq_ok, Except.ok.injEq, exists_eq_left',
    mapM_eq_ok] at h
  obtain ⟨signatures, hsign, w, hw, rfl⟩ := h
  obtain ⟨hsome, hmessage, hsigners⟩ := prepare_signers hp hcount
  have hslots := hsign.length_eq.symm
  refine ⟨rfl, signatures, hsign.imp ?_, ?_⟩
  · rintro key sig ⟨_, hsig, ⟨⟩, -, rfl⟩
    exact hsig
  · refine readsBack_wire hcount hsome hslots (fun sig hsig => ?_) hmessage hsigners hw
    obtain ⟨key, -, _, -, ⟨⟩, hcheck, rfl⟩ := forall₂_of_mem hsign hsig
    exact checkSignature_ok hcheck

/-- Whatever `compileUnsigned` and `assemble` write for at most 127 signers reads back:
the message, a signature for each signer, and the signers in signature order. -/
theorem wire_reads_back (options : AssemblerOptions)
    (sign : PublicKey → List UInt8 → Except Thrown (List UInt8)) :
    (∀ c, compileUnsigned options.toCompileOptions = .ok c → c.signers.length ≤ 127 →
      ReadsBack c.unsignedTransaction c.messageBytes c.signers
        (c.signers.map fun _ => List.replicate 64 0)) ∧
    ∀ p r, prepare options = .ok p → assemble options sign = .ok r →
      p.required.length ≤ 127 → r.messageBytes = p.messageBytes ∧
        ∃ signatures,
          List.Forall₂ (fun key sig => sign key p.messageBytes = .ok sig) p.required
            signatures ∧
          ReadsBack r.signedTransaction p.messageBytes p.required signatures :=
  ⟨fun _ h hcount => compileUnsigned_readsBack h hcount,
    fun _ _ hp h hcount => assemble_readsBack hp h hcount⟩

def twoSigners : AssemblerOptions :=
  { payer := SameSigners.keyOfByte 7
    recentBlockhash := Base58.encode (List.replicate 32 1)
    signers := [SameSigners.keyOfByte 7, SameSigners.keyOfByte 8]
    instructions :=
      [{ programId := SameSigners.keyOfByte 9
         keys := [{ pubkey := SameSigners.keyOfByte 8, isSigner := true, isWritable := false }]
         data := [5] }] }

/-- Each signature is made of the first byte of its signer's address. -/
def signWithFirst (key : PublicKey) (_ : List UInt8) : Except Thrown (List UInt8) :=
  .ok (List.replicate 64 (key.bytes.headD 0))

theorem wire_reads_back_twoSigners :
    (∃ c, compileUnsigned twoSigners.toCompileOptions = .ok c ∧
      ReadsBack c.unsignedTransaction c.messageBytes
        [SameSigners.keyOfByte 7, SameSigners.keyOfByte 8]
        [List.replicate 64 0, List.replicate 64 0]) ∧
      ∃ p r, prepare twoSigners = .ok p ∧ assemble twoSigners signWithFirst = .ok r ∧
        ∃ signatures, ReadsBack r.signedTransaction p.messageBytes
          [SameSigners.keyOfByte 7, SameSigners.keyOfByte 8] signatures := by
  obtain ⟨c, hc, hsigners⟩ : ∃ c, compileUnsigned twoSigners.toCompileOptions = .ok c ∧
      c.signers = [SameSigners.keyOfByte 7, SameSigners.keyOfByte 8] := by
    decide +kernel
  obtain ⟨p, hp, hrequired⟩ : ∃ p, prepare twoSigners = .ok p ∧
      p.required = [SameSigners.keyOfByte 7, SameSigners.keyOfByte 8] := by
    decide +kernel
  obtain ⟨r, hr, -⟩ : ∃ r, assemble twoSigners signWithFirst = .ok r ∧
      r.accountKeys.length = 3 := by
    decide +kernel
  obtain ⟨hunsigned, hassemble⟩ := wire_reads_back twoSigners signWithFirst
  have hreads := hunsigned c hc (by rw [hsigners]; decide)
  obtain ⟨-, signatures, -, hreads'⟩ := hassemble p r hp hr (by rw [hrequired]; decide)
  rw [hsigners] at hreads
  rw [hrequired] at hreads'
  exact ⟨⟨c, hc, hreads⟩, p, r, hp, hr, signatures, hreads'⟩

end Ap3xSolana.Executor.WireReadBack
