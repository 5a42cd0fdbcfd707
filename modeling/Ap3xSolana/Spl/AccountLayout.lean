import Ap3xSolana.Core.BorshRoundTrip
import Ap3xSolana.Lib.Throwing
import Ap3xSolana.Spl.TokenAccount

/-!
# The layout of SPL accounts

What bytes stand for a mint or a token account.  The slot of an absent field may hold
anything, so the layout is a relation; reading a base layout gives the fields back
(`decodeTokenAccount_base`, `decodeMint_base`).

`TlvRegion bytes es stop` takes the extension region behind it apart: its entries, and
whether the list came to an end or an entry runs past the end of the bytes.  Every region
can be taken apart (`exists_region`), and `readTlvEntries` gives the entries or throws
accordingly.
-/

namespace Ap3xSolana.Spl

open Ap3xSolana.Core Ap3xSolana.Core.Borsh
open Ap3xSolana.Lib Ap3xSolana.Lib.Cursor Ap3xSolana.Lib.LittleEndian Ap3xSolana.Lib.Reading
open Ap3xSolana.Lib.Throwing

/-! ## Reads -/

theorem reads_borsh {α : Type} {r : BorshReader α} {part : List UInt8} {a : α}
    (h : Reads r part a) : Reads (borsh r) part a := by
  intro buf off rest hat
  show (r ⟨buf, off⟩).mapError _ = _
  rw [h buf off rest hat]
  rfl

/-- A step that reads nothing and succeeds. -/
theorem reads_lift {α : Type} {x : Except SplError α} {a : α} (h : x = .ok a) :
    Reads (lift x) [] a := by
  intro buf off rest _
  rw [h]
  rfl

theorem reads_unsigned {size n : Nat} (what : String) (h : n < 256 ^ size) :
    Reads (borsh (do let bytes ← readRaw size what; return ofBytes bytes))
      (toBytes size n) n :=
  reads_borsh (recovers_nat what h).reads

theorem reads_bytes {n : Nat} {part : List UInt8} (h : part.length = n) :
    Reads (borsh (readBytes n)) part part :=
  reads_borsh (recovers_readRaw _ h).reads

theorem reads_bool (b : Bool) : Reads (borsh readBool) [if b then 1 else 0] b :=
  reads_borsh (recovers_readBool b).reads

theorem keyFromBytes_bytes (key : PublicKey) : keyFromBytes key.bytes = .ok key := by
  rw [keyFromBytes, PublicKey.fromBytes_bytes]
  rfl

/-! ## Optional fields -/

/-- Tag 0 and a slot of any content, or tag 1 and the value. -/
inductive COptionLayout {α : Type} (enc : α → List UInt8) (size : Nat) :
    Option α → List UInt8 → Prop
  | none {slot : List UInt8} (h : slot.length = size) :
      COptionLayout enc size none (toBytes 4 0 ++ slot)
  | some (a : α) : COptionLayout enc size (some a) (toBytes 4 1 ++ enc a)

abbrev PubkeyLayout := COptionLayout PublicKey.bytes 32

abbrev U64Layout := COptionLayout (toBytes 8) 8

theorem PubkeyLayout.length {key : Option PublicKey} {part : List UInt8}
    (h : PubkeyLayout key part) : part.length = 36 := by
  cases h with
  | none h => rw [List.length_append, length_toBytes, h]
  | some key => rw [List.length_append, length_toBytes, key.size]

theorem U64Layout.length {n : Option Nat} {part : List UInt8} (h : U64Layout n part) :
    part.length = 12 := by
  cases h with
  | none h => rw [List.length_append, length_toBytes, h]
  | some n => rw [List.length_append, length_toBytes, length_toBytes]

theorem PubkeyLayout.reads {key : Option PublicKey} {part : List UInt8} (field : String)
    (h : PubkeyLayout key part) : Reads (readCOptionPubkey field) part key := by
  cases h with
  | @none slot h =>
      have hslot := (reads_bytes h).map (f := fun _ => (none : Option PublicKey))
      exact (reads_unsigned "u32" (by decide)).bind hslot
  | some key =>
      apply (reads_unsigned "u32" (by decide)).bind
      rw [← List.append_nil key.bytes]
      apply (reads_bytes key.size).bind
      exact (reads_lift (keyFromBytes_bytes key)).map (f := Option.some)

theorem U64Layout.reads {n : Option Nat} {part : List UInt8} (field : String)
    (h : U64Layout n part) (hn : ∀ k, n = some k → k < 256 ^ 8) :
    Reads (readCOptionU64 field) part n := by
  cases h with
  | @none slot h =>
      have hslot : Reads (borsh readU64) slot (ofBytes slot) :=
        reads_borsh ((recovers_readRaw "u64" h).map ofBytes).reads
      exact (reads_unsigned "u32" (by decide)).bind
        (hslot.map (f := fun _ => (none : Option Nat)))
  | some n =>
      have hvalue := (reads_unsigned "u64" (hn n rfl)).map (f := Option.some)
      exact (reads_unsigned "u32" (by decide)).bind hvalue

/-! ## Base layouts -/

inductive MintLayout (b : MintBase) : List UInt8 → Prop
  | mk {authority freeze : List UInt8} (hauthority : PubkeyLayout b.mintAuthority authority)
      (hsupply : b.supply < 256 ^ 8) (hdecimals : b.decimals < 256 ^ 1)
      (hfreeze : PubkeyLayout b.freezeAuthority freeze) :
      MintLayout b (authority ++ (toBytes 8 b.supply ++ (toBytes 1 b.decimals ++
        ([if b.isInitialized then 1 else 0] ++ freeze))))

def TokenAccountState.byte : TokenAccountState → Nat
  | .uninitialized => 0
  | .initialized => 1
  | .frozen => 2

inductive TokenAccountLayout (b : TokenAccountBase) : List UInt8 → Prop
  | mk {delegate native close : List UInt8} (hamount : b.amount < 256 ^ 8)
      (hdelegate : PubkeyLayout b.delegate delegate) (hnative : U64Layout b.isNative native)
      (hreserve : ∀ n, b.isNative = some n → n < 256 ^ 8)
      (hdelegated : b.delegatedAmount < 256 ^ 8)
      (hclose : PubkeyLayout b.closeAuthority close) :
      TokenAccountLayout b (b.mint.bytes ++ (b.owner.bytes ++ (toBytes 8 b.amount ++
        (delegate ++ (toBytes 1 b.state.byte ++ (native ++
          (toBytes 8 b.delegatedAmount ++ close)))))))

theorem MintLayout.length {b : MintBase} {part : List UInt8} (h : MintLayout b part) :
    part.length = mintAccountSize := by
  cases h with
  | mk hauthority _ _ hfreeze =>
      simp only [List.length_append, length_toBytes, hauthority.length, hfreeze.length,
        List.length_singleton]
      rfl

theorem TokenAccountLayout.length {b : TokenAccountBase} {part : List UInt8}
    (h : TokenAccountLayout b part) : part.length = tokenAccountSize := by
  cases h with
  | mk _ hdelegate hnative _ _ hclose =>
      simp only [List.length_append, length_toBytes, b.mint.size, b.owner.size,
        hdelegate.length, hnative.length, hclose.length]
      rfl

theorem MintLayout.reads {b : MintBase} {part : List UInt8} (h : MintLayout b part) :
    Reads readMintBase part b := by
  cases h with
  | mk hauthority hsupply hdecimals hfreeze =>
      apply (hauthority.reads _).bind
      apply (reads_unsigned "u64" hsupply).bind
      apply (reads_unsigned "u8" hdecimals).bind
      exact (reads_bool _).bind ((hfreeze.reads _).map)

theorem stateOfByte_byte (invalid : Nat → SplError) (s : TokenAccountState) :
    stateOfByte invalid s.byte = .ok s := by
  cases s <;> rfl

theorem TokenAccountState.byte_lt (s : TokenAccountState) : s.byte < 256 ^ 1 := by
  cases s <;> decide

theorem TokenAccountLayout.reads {b : TokenAccountBase} {part : List UInt8}
    (h : TokenAccountLayout b part) : Reads readTokenAccountBase part b := by
  cases h with
  | mk hamount hdelegate hnative hreserve hdelegated hclose =>
      apply (reads_borsh (recovers_readPubkey b.mint).reads).bind
      apply (reads_borsh (recovers_readPubkey b.owner).reads).bind
      apply (reads_unsigned "u64" hamount).bind
      apply (hdelegate.reads _).bind
      apply (reads_unsigned "u8" b.state.byte_lt).bind
      rw [← List.nil_append (_ ++ _)]
      apply (reads_lift (stateOfByte_byte _ b.state)).bind
      apply (hnative.reads _ hreserve).bind
      exact (reads_unsigned "u64" hdelegated).bind ((hclose.reads _).map)

/-- The fields before any extension. -/
theorem decodeTokenAccount_base {b : TokenAccountBase} {part : List UInt8}
    (h : TokenAccountLayout b part) (tail : List UInt8) (owner : Option PublicKey) :
    decodeTokenAccount ⟨part ++ tail, owner⟩ =
      match detectTokenProgram ⟨part ++ tail, owner⟩ with
      | .splV1 => .ok { b with tokenProgram := .splV1 }
      | .token2022 => (decodeExtensions (part ++ tail) .account).map fun decoded =>
          { b with
            tokenProgram := .token2022
            extensions := some {}
            unknownExtensions := some decoded.unknownExtensions } := by
  have hslice : slice (part ++ tail) 0 tokenAccountSize = part := by
    rw [slice, List.drop_zero, Nat.sub_zero, ← h.length, List.take_left]
  have hrun := h.reads.run []
  rw [List.append_nil] at hrun
  have hsize : ¬ (part ++ tail).length < tokenAccountSize := by
    rw [List.length_append, h.length]
    omega
  rw [decodeTokenAccount, if_neg hsize, hslice, hrun]
  show (match detectTokenProgram ⟨part ++ tail, owner⟩ with | .splV1 => _ | .token2022 => _) = _
  cases detectTokenProgram ⟨part ++ tail, owner⟩ with
  | splV1 => rfl
  | token2022 =>
      show (decodeExtensions (part ++ tail) .account >>= fun decoded => _) = _
      cases decodeExtensions (part ++ tail) .account <;> rfl

theorem decodeMint_base {b : MintBase} {part : List UInt8} (h : MintLayout b part)
    (tail : List UInt8) (owner : Option PublicKey) :
    decodeMint ⟨part ++ tail, owner⟩ =
      match detectTokenProgram ⟨part ++ tail, owner⟩ with
      | .splV1 => .ok { b with tokenProgram := .splV1 }
      | .token2022 => (decodeExtensions (part ++ tail) .mint).map fun decoded =>
          { b with
            tokenProgram := .token2022
            extensions := some decoded.mintExtensions
            unknownExtensions := some decoded.unknownExtensions } := by
  have hslice : slice (part ++ tail) 0 mintAccountSize = part := by
    rw [slice, List.drop_zero, Nat.sub_zero, ← h.length, List.take_left]
  have hrun := h.reads.run []
  rw [List.append_nil] at hrun
  have hsize : ¬ (part ++ tail).length < mintAccountSize := by
    rw [List.length_append, h.length]
    omega
  rw [decodeMint, if_neg hsize, hslice, hrun]
  show (match detectTokenProgram ⟨part ++ tail, owner⟩ with | .splV1 => _ | .token2022 => _) = _
  cases detectTokenProgram ⟨part ++ tail, owner⟩ with
  | splV1 => rfl
  | token2022 =>
      show (decodeExtensions (part ++ tail) .mint >>= fun decoded => _) = _
      cases decodeExtensions (part ++ tail) .mint <;> rfl

structure TlvEntry.Valid (e : TlvEntry) : Prop where
  nonzero : e.type ≠ 0
  type_lt : e.type < 256 ^ 2
  length_lt : e.data.length < 256 ^ 2

def TlvEntry.bytes (e : TlvEntry) : List UInt8 :=
  toBytes 2 e.type ++ (toBytes 2 e.data.length ++ e.data)

inductive TlvEnd where
  | stopped
  | overrun
  deriving DecidableEq, Repr

inductive TlvRegion : List UInt8 → List TlvEntry → TlvEnd → Prop
  /-- Too short for the header of an entry. -/
  | short {bytes : List UInt8} (h : bytes.length < 4) : TlvRegion bytes [] .stopped
  | terminator {rest : List UInt8} (h : 2 ≤ rest.length) : TlvRegion (0 :: 0 :: rest) [] .stopped
  | overrun {type length : Nat} {rest : List UInt8} (htype : type ≠ 0)
      (htype_lt : type < 256 ^ 2) (hlength_lt : length < 256 ^ 2) (h : rest.length < length) :
      TlvRegion (toBytes 2 type ++ (toBytes 2 length ++ rest)) [] .overrun
  | entry {e : TlvEntry} {rest : List UInt8} {es : List TlvEntry} {stop : TlvEnd}
      (he : e.Valid) (h : TlvRegion rest es stop) : TlvRegion (e.bytes ++ rest) (e :: es) stop

theorem TlvRegion.valid {bytes : List UInt8} {es : List TlvEntry} {stop : TlvEnd}
    (h : TlvRegion bytes es stop) : ∀ e ∈ es, e.Valid := by
  induction h with
  | entry he _ ih =>
      intro e hmem
      rcases List.mem_cons.1 hmem with rfl | hmem
      · exact he
      · exact ih e hmem
  | _ => exact fun e he => absurd he List.not_mem_nil

/-! ## Headers -/

theorem toBytes_two (a b : UInt8) : toBytes 2 (ofBytes [a, b]) = [a, b] := toBytes_ofBytes [a, b]

theorem exists_region (bytes : List UInt8) : ∃ es stop, TlvRegion bytes es stop := by
  induction hn : bytes.length using Nat.strong_induction_on generalizing bytes with
  | _ n ih =>
    match bytes, hn with
    | [], _ => exact ⟨[], .stopped, .short (by decide)⟩
    | [_], _ => exact ⟨[], .stopped, .short (by decide : 1 < 4)⟩
    | [_, _], _ => exact ⟨[], .stopped, .short (by decide : 2 < 4)⟩
    | [_, _, _], _ => exact ⟨[], .stopped, .short (by decide : 3 < 4)⟩
    | a :: b :: c :: d :: rest, hn =>
        have htype_lt : ofBytes [a, b] < 256 ^ 2 := ofBytes_lt [a, b]
        have hlength_lt : ofBytes [c, d] < 256 ^ 2 := ofBytes_lt [c, d]
        by_cases hzero : ofBytes [a, b] = 0
        · have hbytes := toBytes_two a b
          rw [hzero] at hbytes
          cases hbytes
          exact ⟨[], .stopped, .terminator (Nat.le_add_left 2 rest.length)⟩
        · by_cases hshort : rest.length < ofBytes [c, d]
          · have hregion := TlvRegion.overrun hzero htype_lt hlength_lt hshort
            rw [toBytes_two, toBytes_two] at hregion
            exact ⟨[], .overrun, hregion⟩
          · have hlen : (rest.take (ofBytes [c, d])).length = ofBytes [c, d] :=
              List.length_take_of_le (Nat.le_of_not_lt hshort)
            obtain ⟨es, stop, hrest⟩ := ih (rest.drop (ofBytes [c, d])).length
              (by rw [List.length_drop, ← hn]; simp only [List.length_cons]; omega) _ rfl
            have hvalid : TlvEntry.Valid ⟨ofBytes [a, b], rest.take (ofBytes [c, d])⟩ :=
              ⟨hzero, htype_lt, by rw [hlen]; exact hlength_lt⟩
            have hregion := TlvRegion.entry hvalid hrest
            rw [TlvEntry.bytes, hlen, toBytes_two, toBytes_two, List.append_assoc,
              List.append_assoc, List.take_append_drop] at hregion
            exact ⟨_, stop, hregion⟩

/-- The entries of a list, and behind them nothing or a zero type. -/
theorem region_flatMap {es : List TlvEntry} (hes : ∀ e ∈ es, e.Valid) {suffix : List UInt8}
    (hsuffix : suffix = [] ∨ ∃ rest, suffix = 0 :: 0 :: rest) :
    TlvRegion (es.flatMap TlvEntry.bytes ++ suffix) es .stopped := by
  induction es with
  | nil =>
      rcases hsuffix with rfl | ⟨rest, rfl⟩
      · exact .short (by decide)
      · rcases Nat.lt_or_ge rest.length 2 with hlt | hge
        · apply TlvRegion.short
          show rest.length + 1 + 1 < 4
          omega
        · exact .terminator hge
  | cons e es ih =>
      rw [List.flatMap_cons, List.append_assoc]
      exact .entry (hes e List.mem_cons_self) (ih fun e' he' => hes e' (List.mem_cons_of_mem _ he'))

/-! ## The loop -/

theorem u16At_eq {data rest : List UInt8} {off n : Nat} (h : n < 256 ^ 2)
    (hat : At data off (toBytes 2 n ++ rest)) : u16At data off = n := by
  have hbytes : toBytes 2 n = [UInt8.ofNat (n % 256), UInt8.ofNat (n / 256 % 256)] := rfl
  rw [hbytes] at hat
  have hlow : data.getD off 0 = UInt8.ofNat (n % 256) := by
    rw [List.getD_eq_getElem?_getD, hat.get, Option.getD_some]
  have hhigh : data.getD (off + 1) 0 = UInt8.ofNat (n / 256 % 256) := by
    rw [List.getD_eq_getElem?_getD, hat.tail.get, Option.getD_some]
  have hbyte : ∀ k : Nat, (UInt8.ofNat (k % 256)).toNat = k % 256 := fun k =>
    UInt8.toNat_ofNat_of_lt' (Nat.mod_lt k (by decide))
  have hlt : n % 256 < 2 ^ 8 := Nat.mod_lt n (by decide)
  rw [u16At, hlow, hhigh, hbyte, hbyte, Nat.or_comm, ← Nat.shiftLeft_add_eq_or_of_lt hlt,
    Nat.shiftLeft_eq]
  omega

/-- A turn at the header of an entry. -/
theorem tlvLoop_header (turns : Nat) (out : List TlvEntry) {data rest : List UInt8}
    {off type length : Nat} (htype : type ≠ 0) (htype_lt : type < 256 ^ 2)
    (hlength_lt : length < 256 ^ 2)
    (hat : At data off (toBytes 2 type ++ (toBytes 2 length ++ rest))) :
    tlvLoop data (turns + 1) off out =
      if rest.length < length then .error (.entryOverrun type length (off + 4) rest.length)
      else tlvLoop data turns (off + 4 + length)
        (out ++ [{ type := type, data := slice data (off + 4) (off + 4 + length) }]) := by
  have hlen := hat.length
  simp only [List.length_append, length_toBytes] at hlen
  have hnext := hat.next
  rw [length_toBytes] at hnext
  have hroom : off + 4 ≤ data.length := by omega
  have hremaining : data.length - (off + 4) = rest.length := by omega
  have hoverrun : off + 4 + length > data.length ↔ rest.length < length := by omega
  rw [tlvLoop, if_pos hroom]
  simp only [u16At_eq htype_lt hat, u16At_eq hlength_lt hnext, hremaining, hoverrun]
  exact if_neg htype

theorem tlvLoop_region {bytes : List UInt8} {es : List TlvEntry} {stop : TlvEnd}
    (h : TlvRegion bytes es stop) :
    ∀ (data : List UInt8) (off turns : Nat) (out : List TlvEntry), At data off bytes →
      bytes.length ≤ turns →
      (stop = .stopped → tlvLoop data turns off out = .ok (out ++ es)) ∧
        (stop = .overrun → ∃ e, tlvLoop data turns off out = .error e) := by
  induction h with
  | @short bytes h =>
      intro data off turns out hat _
      refine ⟨fun _ => ?_, nofun⟩
      have hlen := hat.length
      rw [List.append_nil]
      cases turns with
      | zero => rfl
      | succ turns => rw [tlvLoop, if_neg (by omega)]
  | @terminator rest h =>
      intro data off turns out hat hturns
      refine ⟨fun _ => ?_, nofun⟩
      have hlen := hat.length
      simp only [List.length_cons] at hlen hturns
      rw [List.append_nil]
      obtain ⟨turns, rfl⟩ : ∃ n, turns = n + 1 := ⟨turns - 1, by omega⟩
      have hzero : u16At data off = 0 := u16At_eq (n := 0) (by decide) hat
      have hroom : off + 4 ≤ data.length := by omega
      rw [tlvLoop, if_pos hroom]
      exact if_pos hzero
  | @overrun type length rest htype htype_lt hlength_lt h =>
      intro data off turns out hat hturns
      refine ⟨nofun, fun _ => ?_⟩
      simp only [List.length_append, length_toBytes] at hturns
      obtain ⟨turns, rfl⟩ : ∃ n, turns = n + 1 := ⟨turns - 1, by omega⟩
      rw [tlvLoop_header turns out htype htype_lt hlength_lt hat, if_pos h]
      exact ⟨_, rfl⟩
  | @entry e rest es stop he h ih =>
      intro data off turns out hat hturns
      rw [TlvEntry.bytes, List.append_assoc, List.append_assoc] at hat
      simp only [TlvEntry.bytes, List.length_append, length_toBytes] at hturns
      obtain ⟨turns, rfl⟩ : ∃ n, turns = n + 1 := ⟨turns - 1, by omega⟩
      have hdata := hat.next.next
      simp only [length_toBytes] at hdata
      have hfits : ¬ (e.data ++ rest).length < e.data.length := by
        rw [List.length_append]
        omega
      have hturn := tlvLoop_header turns out he.nonzero he.type_lt
        he.length_lt hat
      rw [if_neg hfits, hdata.slice] at hturn
      have hrest := ih data (off + 4 + e.data.length) turns (out ++ [e]) hdata.next (by omega)
      rw [hturn]
      rw [List.append_assoc] at hrest
      exact hrest

theorem readTlvEntries_region {bytes : List UInt8} {es : List TlvEntry} {stop : TlvEnd}
    (h : TlvRegion bytes es stop) :
    (stop = .stopped → readTlvEntries bytes = .ok es) ∧
      (stop = .overrun → ∃ e, readTlvEntries bytes = .error e) :=
  tlvLoop_region h bytes 0 bytes.length [] (At.start bytes) (Nat.le_refl _)

end Ap3xSolana.Spl
