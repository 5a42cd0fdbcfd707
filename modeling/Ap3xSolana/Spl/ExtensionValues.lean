import Ap3xSolana.Spl.AccountLayout

/-!
# The values of the extensions

The payloads of the three extensions that have a decoder, and what becomes of a list of
entries: the extensions of a mint are the values of the last entries of their types, and
every other entry is handed on.  A mint or an account with a region behind it is decoded to
that, or not at all (`decode_inverts_layout`).
-/

namespace Ap3xSolana.Spl

open Ap3xSolana.Core Ap3xSolana.Core.Borsh
open Ap3xSolana.Lib Ap3xSolana.Lib.Cursor Ap3xSolana.Lib.LittleEndian Ap3xSolana.Lib.Reading
open Ap3xSolana.Lib.Throwing

/-! ## Payloads -/

def zeroBytes : List UInt8 := List.replicate 32 0

/-- A key, or zeros for none. -/
inductive AuthorityLayout : Option PublicKey → List UInt8 → Prop
  | none : AuthorityLayout none zeroBytes
  | some {key : PublicKey} (h : key.bytes ≠ zeroBytes) : AuthorityLayout (some key) key.bytes

inductive CloseAuthorityLayout (v : MintCloseAuthorityExt) : List UInt8 → Prop
  | mk {authority : List UInt8} (h : AuthorityLayout v.closeAuthority authority)
      (rest : List UInt8) : CloseAuthorityLayout v (authority ++ rest)

inductive TransferFeeLayout (v : TransferFee) : List UInt8 → Prop
  | mk (hepoch : v.epoch < 256 ^ 8) (hmaximum : v.maximumFee < 256 ^ 8)
      (hpoints : v.transferFeeBasisPoints < 256 ^ 2) :
      TransferFeeLayout v (toBytes 8 v.epoch ++ (toBytes 8 v.maximumFee ++
        toBytes 2 v.transferFeeBasisPoints))

inductive TransferFeeConfigLayout (v : TransferFeeConfigExt) : List UInt8 → Prop
  | mk {config withdraw older newer : List UInt8}
      (hconfig : AuthorityLayout v.transferFeeConfigAuthority config)
      (hwithdraw : AuthorityLayout v.withdrawWithheldAuthority withdraw)
      (hwithheld : v.withheldAmount < 256 ^ 8)
      (holder : TransferFeeLayout v.olderTransferFee older)
      (hnewer : TransferFeeLayout v.newerTransferFee newer) (rest : List UInt8) :
      TransferFeeConfigLayout v (config ++ (withdraw ++ (toBytes 8 v.withheldAmount ++
        (older ++ newer))) ++ rest)

inductive DefaultStateLayout (v : DefaultAccountStateExt) : List UInt8 → Prop
  | mk (rest : List UInt8) : DefaultStateLayout v (UInt8.ofNat v.state.byte :: rest)

theorem AuthorityLayout.length {key : Option PublicKey} {part : List UInt8}
    (h : AuthorityLayout key part) : part.length = 32 := by
  cases h with
  | none => rfl
  | @some key _ => exact key.size

theorem isZeroPubkey_iff {part : List UInt8} (h : part.length = 32) :
    isZeroPubkey part = true ↔ part = zeroBytes := by
  rw [isZeroPubkey, List.take_of_length_le (Nat.le_of_eq h), List.all_eq_true, zeroBytes,
    List.eq_replicate_iff]
  simp only [decide_eq_true_eq]
  exact ⟨fun hall => ⟨h, hall⟩, fun hall => hall.2⟩

theorem AuthorityLayout.decoded {key : Option PublicKey} {part : List UInt8}
    (h : AuthorityLayout key part) : authorityFromBytes part = .ok key := by
  cases h with
  | none => rfl
  | @some key h =>
      have hzero : ¬ isZeroPubkey key.bytes = true := fun hall =>
        h ((isZeroPubkey_iff key.size).1 hall)
      rw [authorityFromBytes, if_neg hzero, keyFromBytes_bytes]
      rfl

theorem exists_authority {part : List UInt8} (h : part.length = 32) :
    ∃ key, AuthorityLayout key part := by
  by_cases hzero : part = zeroBytes
  · rw [hzero]
    exact ⟨none, .none⟩
  · exact ⟨some ⟨part, h⟩, .some hzero⟩

theorem CloseAuthorityLayout.decoded {v : MintCloseAuthorityExt} {data : List UInt8}
    (h : CloseAuthorityLayout v data) : decodeMintCloseAuthority data = .ok v := by
  cases h with
  | @mk authority h rest =>
      have hlen : ¬ (authority ++ rest).length < 32 := by
        rw [List.length_append, h.length]
        omega
      have hslice : slice (authority ++ rest) 0 32 = authority := by
        rw [slice, List.drop_zero, ← h.length, Nat.sub_zero, List.take_left]
      rw [decodeMintCloseAuthority, if_neg hlen, hslice, h.decoded]
      rfl

theorem exists_closeAuthority {data : List UInt8} (h : 32 ≤ data.length) :
    ∃ v, CloseAuthorityLayout v data := by
  obtain ⟨key, hkey⟩ := exists_authority (List.length_take_of_le h)
  have hlayout := CloseAuthorityLayout.mk (v := ⟨key⟩) hkey (data.drop 32)
  rw [List.take_append_drop] at hlayout
  exact ⟨_, hlayout⟩

theorem TransferFeeLayout.length {v : TransferFee} {part : List UInt8}
    (h : TransferFeeLayout v part) : part.length = 18 := by
  cases h with
  | mk => simp only [List.length_append, length_toBytes]

theorem TransferFeeLayout.reads {v : TransferFee} {part : List UInt8}
    (h : TransferFeeLayout v part) : Reads readTransferFee part v := by
  cases h with
  | mk hepoch hmaximum hpoints =>
      apply (reads_unsigned "u64" hepoch).bind
      apply (reads_unsigned "u64" hmaximum).bind
      exact (reads_unsigned "u16" hpoints).map

theorem exists_split {n m : Nat} {part : List UInt8} (h : part.length = n + m) :
    ∃ a b, part = a ++ b ∧ a.length = n ∧ b.length = m := by
  refine ⟨part.take n, part.drop n, (List.take_append_drop n part).symm, ?_, ?_⟩
  · exact List.length_take_of_le (by omega)
  · rw [List.length_drop]
    omega

/-- Bytes of the right number are those of a number in range. -/
theorem exists_number {size : Nat} {part : List UInt8} (h : part.length = size) :
    ∃ n, n < 256 ^ size ∧ part = toBytes size n := by
  rw [← h]
  exact ⟨ofBytes part, ofBytes_lt part, (toBytes_ofBytes part).symm⟩

theorem exists_transferFee {part : List UInt8} (h : part.length = 8 + (8 + 2)) :
    ∃ v, TransferFeeLayout v part := by
  obtain ⟨epochBytes, part, rfl, hepochBytes, h⟩ := exists_split h
  obtain ⟨maximumBytes, pointBytes, rfl, hmaximumBytes, hpointBytes⟩ := exists_split h
  obtain ⟨epoch, hepoch, rfl⟩ := exists_number hepochBytes
  obtain ⟨maximum, hmaximum, rfl⟩ := exists_number hmaximumBytes
  obtain ⟨points, hpoints, rfl⟩ := exists_number hpointBytes
  exact ⟨⟨epoch, maximum, points⟩, .mk hepoch hmaximum hpoints⟩

theorem TransferFeeConfigLayout.decoded {v : TransferFeeConfigExt} {data : List UInt8}
    (h : TransferFeeConfigLayout v data) : decodeTransferFeeConfig data = .ok v := by
  cases h with
  | @mk config withdraw older newer hconfig hwithdraw hwithheld holder hnewer rest =>
      have hreads : Reads readTransferFeeConfig
          (config ++ (withdraw ++ (toBytes 8 v.withheldAmount ++ (older ++ newer))))
          (config, withdraw, v.withheldAmount, v.olderTransferFee, v.newerTransferFee) := by
        apply (reads_bytes hconfig.length).bind
        apply (reads_bytes hwithdraw.length).bind
        apply (reads_unsigned "u64" hwithheld).bind
        exact holder.reads.bind hnewer.reads.map
      have hrun := hreads.run []
      rw [List.append_nil] at hrun
      have hsize : (config ++ (withdraw ++ (toBytes 8 v.withheldAmount ++
          (older ++ newer)))).length = 108 := by
        simp only [List.length_append, hconfig.length, hwithdraw.length, length_toBytes,
          holder.length, hnewer.length]
      generalize config ++ (withdraw ++ (toBytes 8 v.withheldAmount ++ (older ++ newer))) = part
        at hrun hsize ⊢
      have hlen : ¬ (part ++ rest).length < 108 := by
        rw [List.length_append, hsize]
        omega
      have hslice : slice (part ++ rest) 0 108 = part := by
        rw [slice, List.drop_zero, ← hsize, Nat.sub_zero, List.take_left]
      rw [decodeTransferFeeConfig, if_neg hlen, hslice, hrun]
      show (authorityFromBytes config >>= fun _ => _) = _
      rw [hconfig.decoded]
      show (authorityFromBytes withdraw >>= fun _ => _) = _
      rw [hwithdraw.decoded]
      rfl

theorem exists_transferFeeConfig {data : List UInt8} (h : 108 ≤ data.length) :
    ∃ v, TransferFeeConfigLayout v data := by
  obtain ⟨part, rest, rfl, hpart, -⟩ := exists_split (Nat.add_sub_of_le h).symm
  have hsizes : part.length = 32 + (32 + (8 + ((8 + (8 + 2)) + (8 + (8 + 2))))) := hpart
  obtain ⟨config, part, rfl, hconfig, hsizes⟩ := exists_split hsizes
  obtain ⟨withdraw, part, rfl, hwithdraw, hsizes⟩ := exists_split hsizes
  obtain ⟨withheldBytes, part, rfl, hwithheldBytes, hsizes⟩ := exists_split hsizes
  obtain ⟨older, newer, rfl, holder, hnewer⟩ := exists_split hsizes
  obtain ⟨configKey, hconfigKey⟩ := exists_authority hconfig
  obtain ⟨withdrawKey, hwithdrawKey⟩ := exists_authority hwithdraw
  obtain ⟨withheld, hwithheld, rfl⟩ := exists_number hwithheldBytes
  obtain ⟨olderFee, holderFee⟩ := exists_transferFee holder
  obtain ⟨newerFee, hnewerFee⟩ := exists_transferFee hnewer
  exact ⟨⟨configKey, withdrawKey, withheld, olderFee, newerFee⟩,
    .mk hconfigKey hwithdrawKey hwithheld holderFee hnewerFee rest⟩

theorem DefaultStateLayout.decoded {v : DefaultAccountStateExt} {data : List UInt8}
    (h : DefaultStateLayout v data) : decodeDefaultAccountState data = .ok v := by
  cases h with
  | mk rest =>
      cases v with
      | mk state => cases state <;> rfl

/-! ## Malformed entries -/

/-- What makes the decoder of a known extension throw. -/
def Malformed (e : TlvEntry) : Prop :=
  (e.type = ExtensionType.mintCloseAuthority ∧ e.data.length < 32) ∨
    (e.type = ExtensionType.transferFeeConfig ∧ e.data.length < 108) ∨
    (e.type = ExtensionType.defaultAccountState ∧ ∀ b ∈ e.data.head?, 2 < b.toNat)

theorem exists_defaultState {data : List UInt8} (h : ¬ ∀ b ∈ data.head?, 2 < b.toNat) :
    ∃ v, DefaultStateLayout v data := by
  cases data with
  | nil => exact absurd (fun b hb => nomatch hb) h
  | cons b rest =>
      have hb : b.toNat ≤ 2 := by
        by_contra hlt
        apply h
        intro c hc
        cases hc
        omega
      have hstate : ∃ state : TokenAccountState, UInt8.ofNat state.byte = b := by
        have hcases : b.toNat = 0 ∨ b.toNat = 1 ∨ b.toNat = 2 := by omega
        rcases hcases with h | h | h
        · exact ⟨.uninitialized, UInt8.toNat_inj.1 h.symm⟩
        · exact ⟨.initialized, UInt8.toNat_inj.1 h.symm⟩
        · exact ⟨.frozen, UInt8.toNat_inj.1 h.symm⟩
      obtain ⟨state, rfl⟩ := hstate
      exact ⟨⟨state⟩, .mk rest⟩

theorem decodeDefaultAccountState_error {data : List UInt8}
    (h : ∀ b ∈ data.head?, 2 < b.toNat) : ∃ e, decodeDefaultAccountState data = .error e := by
  cases data with
  | nil => exact ⟨_, rfl⟩
  | cons b rest =>
      have hb : 2 < b.toNat := h b rfl
      refine ⟨.defaultStateInvalid b.toNat, ?_⟩
      show (stateOfByte .defaultStateInvalid b.toNat >>= fun _ => _) = _
      rw [stateOfByte, if_neg (by omega), if_neg (by omega), if_neg (by omega)]
      rfl

/-! ## Collecting -/

def isKnown (e : TlvEntry) : Bool :=
  e.type = ExtensionType.mintCloseAuthority || e.type = ExtensionType.transferFeeConfig ||
    e.type = ExtensionType.defaultAccountState

/-- The value of the last entry of a type, if there is one. -/
def LastValue {β : Type} (type : Nat) (Layout : β → List UInt8 → Prop) (es : List TlvEntry)
    (value : Option β) : Prop :=
  match (es.filter fun e => e.type = type).getLast? with
  | none => value = none
  | some e => ∃ v, value = some v ∧ Layout v e.data

theorem LastValue.other {β : Type} {type : Nat} {Layout : β → List UInt8 → Prop}
    {es : List TlvEntry} {value : Option β} (h : LastValue type Layout es value) {e : TlvEntry}
    (he : e.type ≠ type) : LastValue type Layout (es ++ [e]) value := by
  have hnone : [e].filter (fun e => decide (e.type = type)) = [] :=
    List.filter_cons_of_neg (by rw [decide_eq_true_eq]; exact he)
  rw [LastValue, List.filter_append, hnone, List.append_nil]
  exact h

theorem LastValue.last {β : Type} {type : Nat} {Layout : β → List UInt8 → Prop}
    (es : List TlvEntry) {v : β} {e : TlvEntry} (he : e.type = type) (hv : Layout v e.data) :
    LastValue type Layout (es ++ [e]) (some v) := by
  have hone : [e].filter (fun e => decide (e.type = type)) = [e] :=
    List.filter_cons_of_pos (decide_eq_true he)
  rw [LastValue, List.filter_append, hone, List.getLast?_concat]
  exact ⟨v, rfl, hv⟩

/-- What a mint's entries come to. -/
structure Collects (es : List TlvEntry) (out : Collected) : Prop where
  mintCloseAuthority : LastValue ExtensionType.mintCloseAuthority CloseAuthorityLayout es
    out.mintExtensions.mintCloseAuthority
  transferFeeConfig : LastValue ExtensionType.transferFeeConfig TransferFeeConfigLayout es
    out.mintExtensions.transferFeeConfig
  defaultAccountState : LastValue ExtensionType.defaultAccountState DefaultStateLayout es
    out.mintExtensions.defaultAccountState
  unknownExtensions : out.unknownExtensions = es.filter fun e => !isKnown e

theorem filter_known {es : List TlvEntry} {e : TlvEntry} (h : isKnown e = true) :
    ((es ++ [e]).filter fun e => !isKnown e) = es.filter fun e => !isKnown e := by
  rw [List.filter_append, List.filter_cons_of_neg (by rw [h]; decide), List.filter_nil,
    List.append_nil]

theorem collects_entry {es : List TlvEntry} {out : Collected} (h : Collects es out)
    {e : TlvEntry} (he : e.Valid) (hok : ¬ Malformed e) :
    ∃ out', Collected.entry .mint out e = .ok out' ∧ Collects (es ++ [e]) out' := by
  obtain ⟨hclose, hfee, hstate, hunknown⟩ := h
  rw [Malformed, not_or, not_or, not_and, not_and, not_and] at hok
  have hzero : ¬ e.type = ExtensionType.uninitialized := he.nonzero
  by_cases hthree : e.type = ExtensionType.mintCloseAuthority
  · obtain ⟨v, hv⟩ := exists_closeAuthority (Nat.le_of_not_lt (hok.1 hthree))
    have hknown : isKnown e = true := by
      rw [isKnown, hthree]
      rfl
    refine ⟨{ out with mintExtensions := { out.mintExtensions with mintCloseAuthority := some v } },
      ?_, .last es hthree hv, hfee.other (by rw [hthree]; decide),
      hstate.other (by rw [hthree]; decide), hunknown.trans (filter_known hknown).symm⟩
    rw [Collected.entry, if_neg hzero]
    show (if e.type = ExtensionType.mintCloseAuthority then _ else _) = _
    rw [if_pos hthree, hv.decoded]
    rfl
  by_cases hone : e.type = ExtensionType.transferFeeConfig
  · obtain ⟨v, hv⟩ := exists_transferFeeConfig (Nat.le_of_not_lt (hok.2.1 hone))
    have hknown : isKnown e = true := by
      rw [isKnown, hone]
      rfl
    refine ⟨{ out with mintExtensions := { out.mintExtensions with transferFeeConfig := some v } },
      ?_, hclose.other hthree, .last es hone hv, hstate.other (by rw [hone]; decide),
      hunknown.trans (filter_known hknown).symm⟩
    rw [Collected.entry, if_neg hzero]
    show (if e.type = ExtensionType.mintCloseAuthority then _ else _) = _
    rw [if_neg hthree, if_pos hone, hv.decoded]
    rfl
  by_cases hsix : e.type = ExtensionType.defaultAccountState
  · obtain ⟨v, hv⟩ := exists_defaultState (hok.2.2 hsix)
    have hknown : isKnown e = true := by
      rw [isKnown, hsix]
      rfl
    refine ⟨{ out with
        mintExtensions := { out.mintExtensions with defaultAccountState := some v } },
      ?_, hclose.other hthree, hfee.other hone, .last es hsix hv,
      hunknown.trans (filter_known hknown).symm⟩
    rw [Collected.entry, if_neg hzero]
    show (if e.type = ExtensionType.mintCloseAuthority then _ else _) = _
    rw [if_neg hthree, if_neg hone, if_pos hsix, hv.decoded]
    rfl
  · have hunknown' : isKnown e = false := by
      rw [isKnown, decide_eq_false hthree, decide_eq_false hone, decide_eq_false hsix]
      rfl
    refine ⟨out.unknown e, ?_, hclose.other hthree, hfee.other hone, hstate.other hsix, ?_⟩
    · rw [Collected.entry, if_neg hzero]
      show (if e.type = ExtensionType.mintCloseAuthority then _ else _) = _
      rw [if_neg hthree, if_neg hone, if_neg hsix]
    · show out.unknownExtensions ++ [e] = _
      rw [List.filter_append, List.filter_cons_of_pos (by rw [hunknown']; rfl), List.filter_nil,
        hunknown]

theorem entry_malformed (out : Collected) {e : TlvEntry} (h : Malformed e) :
    ∃ err, Collected.entry .mint out e = .error err := by
  rw [Collected.entry]
  rcases h with ⟨htype, hlen⟩ | ⟨htype, hlen⟩ | ⟨htype, hbyte⟩
  · rw [htype]
    refine ⟨.closeAuthorityTooShort e.data.length, ?_⟩
    show (decodeMintCloseAuthority e.data >>= fun _ => _) = _
    rw [decodeMintCloseAuthority, if_pos hlen]
    rfl
  · rw [htype]
    refine ⟨.transferFeeTooShort e.data.length, ?_⟩
    show (decodeTransferFeeConfig e.data >>= fun _ => _) = _
    rw [decodeTransferFeeConfig, if_pos hlen]
    rfl
  · rw [htype]
    obtain ⟨err, herr⟩ := decodeDefaultAccountState_error hbyte
    refine ⟨err, ?_⟩
    show (decodeDefaultAccountState e.data >>= fun _ => _) = _
    rw [herr]
    rfl

theorem foldlM_concat (kind : AccountKind) (es : List TlvEntry) (e : TlvEntry) :
    (es ++ [e]).foldlM (Collected.entry kind) {} =
      es.foldlM (Collected.entry kind) {} >>= fun out => Collected.entry kind out e := by
  rw [List.foldlM_append]
  simp only [List.foldlM_cons, List.foldlM_nil, bind_pure]

/-- One malformed entry, and there is no result. -/
theorem collects_foldlM {es : List TlvEntry} (hes : ∀ e ∈ es, e.Valid) :
    ((¬ ∃ e ∈ es, Malformed e) →
      ∃ out, es.foldlM (Collected.entry .mint) {} = .ok out ∧ Collects es out) ∧
    ((∃ e ∈ es, Malformed e) → ∃ err, es.foldlM (Collected.entry .mint) {} = .error err) := by
  induction es using List.reverseRecOn with
  | nil => exact ⟨fun _ => ⟨{}, rfl, rfl, rfl, rfl, rfl⟩, fun ⟨e, he, _⟩ => nomatch he⟩
  | append_singleton es e ih =>
      have hsnoc : ∀ {x}, x ∈ es → x ∈ es ++ [e] := fun hx => List.mem_append_left _ hx
      have hlast : e ∈ es ++ [e] := List.mem_append_right _ (List.mem_singleton.2 rfl)
      have hinit := ih fun x hx => hes x (hsnoc hx)
      rw [foldlM_concat]
      by_cases hbad : ∃ x ∈ es, Malformed x
      · obtain ⟨err, herr⟩ := hinit.2 hbad
        refine ⟨fun hnone => ?_, fun _ => ⟨err, by rw [herr]; rfl⟩⟩
        obtain ⟨x, hx, hmal⟩ := hbad
        exact absurd ⟨x, hsnoc hx, hmal⟩ hnone
      · obtain ⟨out, hout, hcollects⟩ := hinit.1 hbad
        rw [hout]
        constructor
        · intro hnone
          exact collects_entry hcollects (hes e hlast) fun hmal => hnone ⟨e, hlast, hmal⟩
        · rintro ⟨x, hx, hmal⟩
          rcases List.mem_append.1 hx with hx | hx
          · exact absurd ⟨x, hx, hmal⟩ hbad
          · rw [List.mem_singleton.1 hx] at hmal
            exact entry_malformed out hmal

theorem foldlM_account {es : List TlvEntry} (hes : ∀ e ∈ es, e.Valid) :
    es.foldlM (Collected.entry .account) {} = .ok { unknownExtensions := es } := by
  induction es using List.reverseRecOn with
  | nil => rfl
  | append_singleton es e ih =>
      have he := hes e (List.mem_append_right _ (List.mem_singleton.2 rfl))
      rw [foldlM_concat, ih fun x hx => hes x (List.mem_append_left _ hx)]
      exact if_neg he.nonzero

/-! ## Accounts with extensions -/

theorem decodeExtensions_region {front region : List UInt8} {accountType : UInt8}
    (hfront : front.length = accountTypeOffset) (htype : accountType ≠ 0) (kind : AccountKind) :
    decodeExtensions (front ++ accountType :: region) kind =
      readTlvEntries region >>= fun es => es.foldlM (Collected.entry kind) {} := by
  have hlen : ¬ (front ++ accountType :: region).length ≤ accountTypeOffset := by
    rw [List.length_append, hfront, List.length_cons]
    omega
  have hget : (front ++ accountType :: region).getD accountTypeOffset 0 = accountType := by
    rw [List.getD_eq_getElem?_getD, ← hfront, List.getElem?_append_right (Nat.le_refl _),
      Nat.sub_self]
    rfl
  have hdrop : (front ++ accountType :: region).drop tlvStartOffset = region := by
    have hstart : tlvStartOffset = front.length + 1 := by
      rw [hfront]
      rfl
    rw [hstart, List.drop_append]
    simp
  have hzero : ¬ accountType.toNat = accountTypeUninitialized := fun h =>
    htype (UInt8.toNat_inj.1 h)
  rw [decodeExtensions, if_neg hlen, hget, if_neg hzero, hdrop]

/-- A mint of Token-2022 with a region behind it. -/
def extendedMint (base padding : List UInt8) (accountType : UInt8) (region : List UInt8) :
    AccountInfo where
  data := base ++ (padding ++ accountType :: region)
  owner := some token2022ProgramId

/-- An account of Token-2022 with a region behind it. -/
def extendedAccount (base : List UInt8) (accountType : UInt8) (region : List UInt8) :
    AccountInfo where
  data := base ++ accountType :: region
  owner := some token2022ProgramId

theorem detect_token2022 (data : List UInt8) :
    detectTokenProgram ⟨data, some token2022ProgramId⟩ = .token2022 := by
  show (if token2022ProgramId = token2022ProgramId then TokenProgramKind.token2022 else .splV1) = _
  exact if_pos rfl

def MintBase.extended (b : MintBase) (out : Collected) : TokenMint :=
  { b with
    tokenProgram := .token2022
    extensions := some out.mintExtensions
    unknownExtensions := some out.unknownExtensions }

def TokenAccountBase.extended (b : TokenAccountBase) (entries : List TlvEntry) : TokenAccount :=
  { b with
    tokenProgram := .token2022
    extensions := some {}
    unknownExtensions := some entries }

theorem decodeMint_extended {b : MintBase} {base padding : List UInt8} {accountType : UInt8}
    (hb : MintLayout b base) (hpadding : padding.length = 83) (htype : accountType ≠ 0)
    (region : List UInt8) :
    decodeMint (extendedMint base padding accountType region) =
      (readTlvEntries region >>= fun es => es.foldlM (Collected.entry .mint) {}).map
        b.extended := by
  have hfront : (base ++ padding).length = accountTypeOffset := by
    rw [List.length_append, hb.length, hpadding]
    rfl
  have hdecode := decodeMint_base hb (padding ++ accountType :: region) (some token2022ProgramId)
  rw [detect_token2022, ← List.append_assoc, decodeExtensions_region hfront htype,
    List.append_assoc] at hdecode
  exact hdecode

theorem decodeTokenAccount_extended {b : TokenAccountBase} {base : List UInt8}
    {accountType : UInt8} (hb : TokenAccountLayout b base) (htype : accountType ≠ 0)
    (region : List UInt8) :
    decodeTokenAccount (extendedAccount base accountType region) =
      (readTlvEntries region >>= fun es => es.foldlM (Collected.entry .account) {}).map
        fun out => b.extended out.unknownExtensions := by
  have hdecode := decodeTokenAccount_base hb (accountType :: region) (some token2022ProgramId)
  rw [detect_token2022, decodeExtensions_region hb.length htype] at hdecode
  exact hdecode

/-- No result where an entry runs past the end or a known one is malformed; the collected
entries elsewhere. -/
theorem decodeMint_region {b : MintBase} {base padding region : List UInt8} {accountType : UInt8}
    {es : List TlvEntry} {stop : TlvEnd} (hb : MintLayout b base) (hpadding : padding.length = 83)
    (htype : accountType ≠ 0) (h : TlvRegion region es stop) :
    ((∃ err, decodeMint (extendedMint base padding accountType region) = .error err) ↔
      stop = .overrun ∨ ∃ e ∈ es, Malformed e) ∧
    ∀ m, decodeMint (extendedMint base padding accountType region) = .ok m →
      ∃ out, Collects es out ∧ m = b.extended out := by
  rw [decodeMint_extended hb hpadding htype]
  obtain ⟨hstopped, hoverrun⟩ := readTlvEntries_region h
  obtain ⟨hgood, hbad⟩ := collects_foldlM h.valid
  cases stop with
  | overrun =>
      obtain ⟨err, herr⟩ := hoverrun rfl
      rw [herr]
      exact ⟨iff_of_true ⟨err, rfl⟩ (.inl rfl), fun _ hok => by cases hok⟩
  | stopped =>
      rw [hstopped rfl]
      by_cases hmal : ∃ e ∈ es, Malformed e
      · obtain ⟨err, herr⟩ := hbad hmal
        have hrun : (Except.ok es >>= fun es => es.foldlM (Collected.entry .mint) {}) =
          .error err := herr
        rw [hrun]
        exact ⟨iff_of_true ⟨err, rfl⟩ (.inr hmal), fun _ hok => by cases hok⟩
      · obtain ⟨out, hout, hcollects⟩ := hgood hmal
        have hrun : (Except.ok es >>= fun es => es.foldlM (Collected.entry .mint) {}) =
          .ok out := hout
        rw [hrun]
        refine ⟨iff_of_false (fun ⟨_, h⟩ => by cases h) fun hor => hor.elim nofun hmal, ?_⟩
        exact fun m hm => ⟨out, hcollects, (Except.ok.inj hm).symm⟩

theorem decodeTokenAccount_region {b : TokenAccountBase} {base region : List UInt8}
    {accountType : UInt8} {es : List TlvEntry} {stop : TlvEnd} (hb : TokenAccountLayout b base)
    (htype : accountType ≠ 0) (h : TlvRegion region es stop) :
    ((∃ err, decodeTokenAccount (extendedAccount base accountType region) = .error err) ↔
      stop = .overrun) ∧
    ∀ a, decodeTokenAccount (extendedAccount base accountType region) = .ok a →
      a = b.extended es := by
  rw [decodeTokenAccount_extended hb htype]
  obtain ⟨hstopped, hoverrun⟩ := readTlvEntries_region h
  cases stop with
  | overrun =>
      obtain ⟨err, herr⟩ := hoverrun rfl
      rw [herr]
      exact ⟨iff_of_true ⟨err, rfl⟩ rfl, fun _ hok => by cases hok⟩
  | stopped =>
      have hrun : (Except.ok es >>= fun es => es.foldlM (Collected.entry .account) {}) =
        .ok { unknownExtensions := es } := foldlM_account h.valid
      rw [hstopped rfl, hrun]
      exact ⟨iff_of_false (fun ⟨_, h⟩ => by cases h) nofun, fun a ha => (Except.ok.inj ha).symm⟩

/-! ## The values as a whole -/

/-- The value of every entry of a type; two entries of one type have to agree. -/
def OnlyValue {β : Type} (type : Nat) (Layout : β → List UInt8 → Prop) (es : List TlvEntry)
    (value : Option β) : Prop :=
  (∀ e ∈ es, e.type = type → ∃ v, value = some v ∧ Layout v e.data) ∧
    ((∀ e ∈ es, e.type ≠ type) → value = none)

structure Carries (es : List TlvEntry) (ext : TokenMintExtensions) : Prop where
  mintCloseAuthority : OnlyValue ExtensionType.mintCloseAuthority CloseAuthorityLayout es
    ext.mintCloseAuthority
  transferFeeConfig : OnlyValue ExtensionType.transferFeeConfig TransferFeeConfigLayout es
    ext.transferFeeConfig
  defaultAccountState : OnlyValue ExtensionType.defaultAccountState DefaultStateLayout es
    ext.defaultAccountState

theorem OnlyValue.unique {β : Type} {type : Nat} {Layout : β → List UInt8 → Prop}
    {decode : List UInt8 → Except SplError β}
    (hdecode : ∀ v data, Layout v data → decode data = .ok v) {es : List TlvEntry}
    {value last : Option β} (h : OnlyValue type Layout es value)
    (hlast : LastValue type Layout es last) : last = value := by
  unfold LastValue at hlast
  cases hget : (es.filter fun e => decide (e.type = type)).getLast? with
  | none =>
      rw [hget] at hlast
      rw [List.getLast?_eq_none_iff, List.filter_eq_nil_iff] at hget
      rw [h.2 fun e he heq => hget e he (decide_eq_true heq)]
      exact hlast
  | some e =>
      rw [hget] at hlast
      obtain ⟨v, rfl, hv⟩ := hlast
      obtain ⟨he, htype⟩ := List.mem_filter.1 (List.mem_of_getLast? hget)
      obtain ⟨w, rfl, hw⟩ := h.1 e he (of_decide_eq_true htype)
      have heq := hdecode v e.data hv
      rw [hdecode w e.data hw] at heq
      rw [Except.ok.inj heq]

/-- A payload with a value is not malformed. -/
theorem Carries.wellFormed {es : List TlvEntry} {ext : TokenMintExtensions}
    (h : Carries es ext) : ¬ ∃ e ∈ es, Malformed e := by
  rintro ⟨e, he, ⟨htype, hlen⟩ | ⟨htype, hlen⟩ | ⟨htype, hbyte⟩⟩
  · obtain ⟨v, -, hv⟩ := h.mintCloseAuthority.1 e he htype
    have hok := hv.decoded
    rw [decodeMintCloseAuthority, if_pos hlen] at hok
    cases hok
  · obtain ⟨v, -, hv⟩ := h.transferFeeConfig.1 e he htype
    have hok := hv.decoded
    rw [decodeTransferFeeConfig, if_pos hlen] at hok
    cases hok
  · obtain ⟨v, -, hv⟩ := h.defaultAccountState.1 e he htype
    obtain ⟨err, herr⟩ := decodeDefaultAccountState_error hbyte
    rw [hv.decoded] at herr
    cases herr

theorem Carries.eq {es : List TlvEntry} {ext : TokenMintExtensions} (h : Carries es ext)
    {out : Collected} (hout : Collects es out) :
    out = { mintExtensions := ext, unknownExtensions := es.filter fun e => !isKnown e } := by
  have hclose := h.mintCloseAuthority.unique (fun _ _ h => h.decoded) hout.mintCloseAuthority
  have hfee := h.transferFeeConfig.unique (fun _ _ h => h.decoded) hout.transferFeeConfig
  have hstate := h.defaultAccountState.unique (fun _ _ h => h.decoded) hout.defaultAccountState
  obtain ⟨⟨close, fee, state⟩, unknown⟩ := out
  obtain ⟨close', fee', state'⟩ := ext
  cases hclose
  cases hfee
  cases hstate
  have hunknown : unknown = es.filter fun e => !isKnown e := hout.unknownExtensions
  rw [hunknown]

/-- Entries and a suffix are decoded to their values; any region can be taken apart, and is
decoded to what it is made of unless an entry runs past the end or a known one is malformed.
Of several entries of one known type the last one counts. -/
theorem decode_inverts_layout :
    (∀ (b : MintBase) base padding accountType es ext suffix, MintLayout b base →
      padding.length = 83 → accountType ≠ 0 → (∀ e ∈ es, e.Valid) → Carries es ext →
      (suffix = [] ∨ ∃ rest, suffix = 0 :: 0 :: rest) →
      decodeMint (extendedMint base padding accountType (es.flatMap TlvEntry.bytes ++ suffix)) =
        .ok { b with
          tokenProgram := .token2022
          extensions := some ext
          unknownExtensions := some (es.filter fun e => !isKnown e) }) ∧
    (∀ (b : TokenAccountBase) base accountType es suffix, TokenAccountLayout b base →
      accountType ≠ 0 → (∀ e ∈ es, e.Valid) →
      (suffix = [] ∨ ∃ rest, suffix = 0 :: 0 :: rest) →
      decodeTokenAccount
          (extendedAccount base accountType (es.flatMap TlvEntry.bytes ++ suffix)) =
        .ok { b with
          tokenProgram := .token2022
          extensions := some {}
          unknownExtensions := some es }) ∧
    (∀ region, ∃ es stop, TlvRegion region es stop) ∧
    ∀ region es stop, TlvRegion region es stop →
      (∀ (b : MintBase) base padding accountType, MintLayout b base → padding.length = 83 →
        accountType ≠ 0 →
        ((∃ err, decodeMint (extendedMint base padding accountType region) = .error err) ↔
          stop = .overrun ∨ ∃ e ∈ es, Malformed e) ∧
        ∀ m, decodeMint (extendedMint base padding accountType region) = .ok m →
          ∃ out, Collects es out ∧ m = { b with
            tokenProgram := .token2022
            extensions := some out.mintExtensions
            unknownExtensions := some out.unknownExtensions }) ∧
      ∀ (b : TokenAccountBase) base accountType, TokenAccountLayout b base → accountType ≠ 0 →
        ((∃ err, decodeTokenAccount (extendedAccount base accountType region) = .error err) ↔
          stop = .overrun) ∧
        ∀ a, decodeTokenAccount (extendedAccount base accountType region) = .ok a →
          a = { b with
            tokenProgram := .token2022
            extensions := some {}
            unknownExtensions := some es } := by
  refine ⟨?_, ?_, exists_region, ?_⟩
  · intro b base padding accountType es ext suffix hb hpadding htype hes hext hsuffix
    have hregion := region_flatMap hes hsuffix
    obtain ⟨herror, hok⟩ := decodeMint_region hb hpadding htype hregion
    cases hdecode : decodeMint
        (extendedMint base padding accountType (es.flatMap TlvEntry.bytes ++ suffix)) with
    | error err => exact absurd (herror.1 ⟨err, hdecode⟩) fun hor => hor.elim nofun hext.wellFormed
    | ok m =>
        obtain ⟨out, hout, rfl⟩ := hok m hdecode
        rw [hext.eq hout]
        rfl
  · intro b base accountType es suffix hb htype hes hsuffix
    have hregion := region_flatMap hes hsuffix
    obtain ⟨herror, hok⟩ := decodeTokenAccount_region hb htype hregion
    cases hdecode : decodeTokenAccount
        (extendedAccount base accountType (es.flatMap TlvEntry.bytes ++ suffix)) with
    | error err => exact absurd (herror.1 ⟨err, hdecode⟩) nofun
    | ok a =>
        rw [hok a hdecode]
        rfl
  · intro region es stop hregion
    constructor
    · exact fun b base padding accountType hb hpadding htype =>
        decodeMint_region hb hpadding htype hregion
    · exact fun b base accountType hb htype => decodeTokenAccount_region hb htype hregion

/-- A mint without authorities. -/
def bareMint : MintBase where
  mintAuthority := none
  supply := 1000
  decimals := 6
  isInitialized := true
  freezeAuthority := none

def bareBase : List UInt8 :=
  (toBytes 4 0 ++ zeroBytes) ++ (toBytes 8 1000 ++ (toBytes 1 6 ++
    ([1] ++ (toBytes 4 0 ++ zeroBytes))))

theorem bareBase_layout : MintLayout bareMint bareBase :=
  .mk (.none (List.length_replicate (n := 32) (a := 0))) (by decide : 1000 < 256 ^ 8)
    (by decide : 6 < 256 ^ 1) (.none (List.length_replicate (n := 32) (a := 0)))

/-- A default state and a metadata pointer. -/
def frozenEntries : List TlvEntry := [⟨6, [2]⟩, ⟨18, [7, 7]⟩]

theorem decode_inverts_layout_frozen :
    decodeMint (extendedMint bareBase (List.replicate 83 0) 1
      (frozenEntries.flatMap TlvEntry.bytes ++ [])) =
      .ok { bareMint with
        tokenProgram := .token2022
        extensions := some { defaultAccountState := some ⟨.frozen⟩ }
        unknownExtensions := some [⟨18, [7, 7]⟩] } := by
  have hvalid : ∀ e ∈ frozenEntries, e.Valid := by
    intro e he
    rcases List.mem_cons.1 he with rfl | he
    · exact ⟨by decide, by decide, by decide⟩
    · rw [List.mem_singleton.1 he]
      exact ⟨by decide, by decide, by decide⟩
  have hcarries : Carries frozenEntries { defaultAccountState := some ⟨.frozen⟩ } := by
    have hnone : ∀ e ∈ frozenEntries, e.type ≠ ExtensionType.mintCloseAuthority ∧
        e.type ≠ ExtensionType.transferFeeConfig := by decide
    refine ⟨⟨fun e he h => absurd h (hnone e he).1, fun _ => rfl⟩,
      ⟨fun e he h => absurd h (hnone e he).2, fun _ => rfl⟩, ?_, fun h => ?_⟩
    · intro e he htype
      rcases List.mem_cons.1 he with rfl | he
      · exact ⟨⟨.frozen⟩, rfl, .mk []⟩
      · rw [List.mem_singleton.1 he] at htype
        exact absurd htype (by decide)
    · exact absurd rfl (h ⟨6, [2]⟩ List.mem_cons_self)
  exact decode_inverts_layout.1 bareMint bareBase (List.replicate 83 0) 1 frozenEntries _ []
    bareBase_layout List.length_replicate (by decide) hvalid hcarries (.inl rfl)

/-- The value of an entry is among the results. -/
def Kept (e : TlvEntry) (m : TokenMint) : Prop :=
  (∃ unknown, m.unknownExtensions = some unknown ∧ e ∈ unknown) ∨
    ∃ ext, m.extensions = some ext ∧
      ((e.type = ExtensionType.mintCloseAuthority ∧
          ∃ v, ext.mintCloseAuthority = some v ∧ CloseAuthorityLayout v e.data) ∨
        (e.type = ExtensionType.transferFeeConfig ∧
          ∃ v, ext.transferFeeConfig = some v ∧ TransferFeeConfigLayout v e.data) ∨
        (e.type = ExtensionType.defaultAccountState ∧
          ∃ v, ext.defaultAccountState = some v ∧ DefaultStateLayout v e.data))

/-- Two default states. -/
def twoStates : List TlvEntry := [⟨6, [1]⟩, ⟨6, [2]⟩]

/-- The first of two entries of a known type is lost. -/
theorem earlier_state_is_lost :
    decodeMint (extendedMint bareBase (List.replicate 83 0) 1
      (twoStates.flatMap TlvEntry.bytes)) =
      .ok { bareMint with
        tokenProgram := .token2022
        extensions := some { defaultAccountState := some ⟨.frozen⟩ }
        unknownExtensions := some [] } ∧
    ¬ ∀ (b : MintBase) base padding accountType region es stop, MintLayout b base →
      padding.length = 83 → accountType ≠ 0 → TlvRegion region es stop →
      ∀ m, decodeMint (extendedMint base padding accountType region) = .ok m →
        ∀ e ∈ es, Kept e m := by
  have hvalid : ∀ e ∈ twoStates, e.Valid := by
    intro e he
    rcases List.mem_cons.1 he with rfl | he
    · exact ⟨by decide, by decide, by decide⟩
    · rw [List.mem_singleton.1 he]
      exact ⟨by decide, by decide, by decide⟩
  have hregion := region_flatMap hvalid (.inl rfl)
  rw [List.append_nil] at hregion
  have hdecode : decodeMint (extendedMint bareBase (List.replicate 83 0) 1
      (twoStates.flatMap TlvEntry.bytes)) =
      .ok { bareMint with
        tokenProgram := .token2022
        extensions := some { defaultAccountState := some ⟨.frozen⟩ }
        unknownExtensions := some [] } := by
    rw [decodeMint_extended bareBase_layout List.length_replicate (by decide)]
    rfl
  refine ⟨hdecode, fun hall => ?_⟩
  have hkept := hall bareMint bareBase (List.replicate 83 0) 1 _ _ _ bareBase_layout
    List.length_replicate (by decide) hregion _ hdecode ⟨6, [1]⟩ List.mem_cons_self
  rcases hkept with ⟨unknown, hunknown, hmem⟩ | ⟨ext, hext, hvalue⟩
  · cases hunknown
    cases hmem
  · cases hext
    rcases hvalue with ⟨htype, -⟩ | ⟨htype, -⟩ | ⟨-, v, hv, hlayout⟩
    · exact absurd htype (by decide)
    · exact absurd htype (by decide)
    · cases hv
      have hstate := hlayout.decoded
      exact absurd hstate (by decide)

end Ap3xSolana.Spl
