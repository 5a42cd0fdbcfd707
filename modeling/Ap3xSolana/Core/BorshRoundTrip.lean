import Ap3xSolana.Core.Borsh

/-!
# Borsh round trip

What a reader makes of the bytes of a writer: the values that were written, but for a byte
order mark in front of a text, which the decoder drops.  A reader of bytes that end early
throws, wherever they end.
-/

namespace Ap3xSolana.Core.Borsh

open Ap3xSolana.Lib Ap3xSolana.Lib.Cursor Ap3xSolana.Lib.LittleEndian Ap3xSolana.Lib.Reading

/-! ## What is written -/

/-- The bytes of a value. -/
def encode : BorshType → JsValue → List UInt8
  | .u8, .number n => toBytes 1 (wrap 1 n)
  | .u16, .number n => toBytes 2 (wrap 2 n)
  | .u32, .number n => toBytes 4 (wrap 4 n)
  | .u64, .bigint n => toBytes 8 (wrap 8 n)
  | .i64, .bigint n => toBytes 8 (wrap 8 n)
  | .bool, .boolean b => toBytes 1 (wrap 1 (if b then 1 else 0))
  | .bytes _, .bytes bytes => bytes
  | .string, .string s => toBytes 4 (wrap 4 (Utf8.utf8 s).length) ++ Utf8.utf8 s
  | .vec item, .array items => toBytes 4 (wrap 4 items.length) ++ items.flatMap (encode item)
  | .option _, .null => toBytes 1 (wrap 1 0)
  | .option item, value => toBytes 1 (wrap 1 1) ++ encode item value
  | .pubkey, .publicKey key => key.bytes
  | _, _ => []

namespace Writer

theorem toBytes_ensureCapacity (w : Writer) (n : Nat) :
    (w.ensureCapacity n).toBytes = w.toBytes := by
  unfold ensureCapacity
  dsimp only
  split
  · rfl
  · show (w.buf.take w.length ++ _).take w.length = w.buf.take w.length
    rw [List.take_append_of_le_length (by rw [List.length_take_of_le w.fits]), List.take_take,
      Nat.min_self]

/-- Whether the buffer grows or not, what is written is appended. -/
theorem toBytes_put (w : Writer) (bytes : List UInt8) :
    (w.put bytes).toBytes = w.toBytes ++ bytes := by
  rw [← toBytes_ensureCapacity w bytes.length]
  show (((w.ensureCapacity bytes.length).buf.take (w.ensureCapacity bytes.length).length ++ bytes ++
    _).take _) = _
  have hlen : ((w.ensureCapacity bytes.length).buf.take (w.ensureCapacity bytes.length).length ++
      bytes).length = (w.ensureCapacity bytes.length).length + bytes.length := by
    rw [List.length_append, List.length_take_of_le (w.ensureCapacity bytes.length).fits]
  exact List.take_left' hlen

theorem toBytes_new : new.toBytes = [] := rfl

theorem toBytes_foldl {α : Type} {itemWriter : Writer → α → Writer} {enc : α → List UInt8}
    (items : List α)
    (h : ∀ item ∈ items, ∀ w, (itemWriter w item).toBytes = w.toBytes ++ enc item) :
    ∀ w : Writer, (items.foldl itemWriter w).toBytes = w.toBytes ++ items.flatMap enc := by
  induction items with
  | nil => exact fun w => (List.append_nil _).symm
  | cons item items ih =>
      intro w
      rw [List.foldl_cons, ih (fun x hx => h x (List.mem_cons_of_mem _ hx)),
        h item List.mem_cons_self, List.flatMap_cons, List.append_assoc]

end Writer

/-- Writing appends the bytes of the value. -/
theorem toBytes_writeValue (t : BorshType) :
    ∀ (w : Writer) (v : JsValue), (writeValue t w v).toBytes = w.toBytes ++ encode t v := by
  induction t with
  | vec item ih =>
      intro w v
      cases v with
      | array items =>
          show (items.foldl (writeValue item) (w.writeU32 items.length)).toBytes = _
          rw [Writer.toBytes_foldl items fun x _ w => ih w x, Writer.writeU32, Writer.toBytes_put,
            List.append_assoc]
          rfl
      | _ => exact (List.append_nil _).symm
  | option item ih =>
      intro w v
      cases v with
      | null => exact Writer.toBytes_put w _
      | _ =>
          show (writeValue item (w.writeU8 1) _).toBytes = _
          rw [ih, Writer.writeU8, Writer.toBytes_put, List.append_assoc]
          rfl
  | string =>
      intro w v
      cases v with
      | string s =>
          show ((w.writeU32 _).put _).toBytes = _
          rw [Writer.toBytes_put, Writer.writeU32, Writer.toBytes_put, List.append_assoc]
          rfl
      | _ => exact (List.append_nil _).symm
  | _ =>
      intro w v
      cases v <;> first
        | exact Writer.toBytes_put w _
        | exact (List.append_nil _).symm

/-! ## Values in range -/

def InRange (size : Nat) (n : Int) : Prop := 0 ≤ n ∧ n < (256 ^ size : Nat)

/-- The value is one of the type: integers and lengths in range. -/
def HasType : BorshType → JsValue → Prop
  | .u8, .number n => InRange 1 n
  | .u16, .number n => InRange 2 n
  | .u32, .number n => InRange 4 n
  | .u64, .bigint n => InRange 8 n
  | .i64, .bigint n => -(256 ^ 8 : Nat) ≤ 2 * n ∧ 2 * n < (256 ^ 8 : Nat)
  | .bool, .boolean _ => True
  | .bytes n, .bytes bytes => bytes.length = n
  | .string, .string s => (Utf8.utf8 s).length < 256 ^ 4
  | .vec item, .array items => items.length < 256 ^ 4 ∧ ∀ x ∈ items, HasType item x
  | .option _, .null => True
  | .option item, value => HasType item value
  | .pubkey, .publicKey _ => True
  | _, _ => False

/-- No text of the value starts with a byte order mark. -/
def MarkFree : BorshType → JsValue → Prop
  | .string, .string s => s.toList.head? ≠ some Utf8.byteOrderMark
  | .vec item, .array items => ∀ x ∈ items, MarkFree item x
  | .option _, .null => True
  | .option item, value => MarkFree item value
  | _, _ => True

/-- The value that comes back: its texts without the mark. -/
def readBack : BorshType → JsValue → JsValue
  | .string, .string s => .string (String.ofList (Utf8.dropMark s.toList))
  | .vec item, .array items => .array (items.map (readBack item))
  | .option _, .null => .null
  | .option item, value => readBack item value
  | _, value => value

theorem readBack_eq_iff (t : BorshType) :
    ∀ v, HasType t v → (readBack t v = v ↔ MarkFree t v) := by
  induction t with
  | string =>
      intro v hv
      cases v with
      | string s =>
          show JsValue.string _ = JsValue.string s ↔ _
          rw [JsValue.string.injEq]
          exact Utf8.dropMark_eq_iff s
      | _ => exact hv.elim
  | vec item ih =>
      intro v hv
      cases v with
      | array items =>
          show JsValue.array (items.map (readBack item)) = JsValue.array items ↔
            ∀ x ∈ items, MarkFree item x
          have hid : items.map (readBack item) = items ↔ ∀ x ∈ items, readBack item x = x := by
            conv_lhs => rhs; rw [← List.map_id items]
            exact List.map_inj_left
          rw [JsValue.array.injEq, hid]
          exact forall₂_congr fun x hx => ih x (hv.2 x hx)
      | _ => exact hv.elim
  | option item ih =>
      intro v hv
      cases v with
      | null => exact iff_of_true rfl trivial
      | _ => exact ih _ hv
  | _ =>
      intro v _
      cases v <;> exact iff_of_true rfl trivial

/-! ## Reading back -/

def IsEndOfBuffer (e : BorshError) : Prop :=
  ∃ what needed offset remaining, e = .endOfBuffer what needed offset remaining ∧
    remaining < needed

/-- What a reader makes of the bytes of a value, all of them or fewer. -/
structure Recovers {α : Type} (r : BorshReader α) (part : List UInt8) (a : α) : Prop where
  reads : Reads r part a
  starves : Starves IsEndOfBuffer r part

theorem Recovers.map {α β : Type} {r : BorshReader α} {part : List UInt8} {a : α}
    (h : Recovers r part a) (f : α → β) :
    Recovers (r >>= fun a => pure (f a)) part (f a) where
  reads := h.reads.map
  starves := Starves.map h.reads h.starves

theorem Recovers.bind {α β : Type} {r : BorshReader α} {f : α → BorshReader β}
    {part part' : List UInt8} {a : α} {b : β} (h : Recovers r part a)
    (h' : Recovers (f a) part' b) : Recovers (r >>= f) (part ++ part') b where
  reads := h.reads.bind h'.reads
  starves := Starves.bind h.reads h.starves h'.starves

theorem Recovers.times {α : Type} {r : BorshReader α} {enc : α → List UInt8} {back : α → α}
    {items : List α} (h : ∀ x ∈ items, Recovers r (enc x) (back x)) :
    Recovers (Reading.times r items.length) (items.flatMap enc) (items.map back) := by
  have hreads : List.Forall₂ (Reads r) (items.map enc) (items.map back) := by
    rw [List.forall₂_map_left_iff, List.forall₂_map_right_iff, List.forall₂_same]
    exact fun x hx => (h x hx).reads
  have hlen : items.length = (items.map back).length := (List.length_map back).symm
  rw [hlen, List.flatMap_def]
  constructor
  · exact Reads.times hreads
  · apply Starves.times hreads
    intro part hpart
    obtain ⟨x, hx, rfl⟩ := List.mem_map.1 hpart
    exact (h x hx).starves

/-- A seen part that is not everything is shorter. -/
theorem remaining_lt {buf seen part : List UInt8} {off : Nat} (hpfx : seen <+: part)
    (hne : seen ≠ part) (hat : At buf off seen) : buf.length - off < part.length := by
  have hle := hpfx.length_le
  have hlen := hat.length
  have hneq : seen.length ≠ part.length := fun h => hne (hpfx.eq_of_length h)
  omega

theorem recovers_readRaw {n : Nat} (what : String) {part : List UInt8} (h : part.length = n) :
    Recovers (readRaw n what) part part := by
  constructor
  · intro buf off rest hat
    have hlen := hat.length
    rw [List.length_append] at hlen
    have hslice := hat.slice
    rw [h] at hslice
    show (if buf.length - off < n then _ else _) = _
    rw [if_neg (by omega), hslice, h]
  · intro buf off seen hpfx hne hat
    have hshort := remaining_lt hpfx hne hat
    rw [h] at hshort
    refine ⟨.endOfBuffer what n off (buf.length - off), ?_, what, n, off, _, rfl, hshort⟩
    show (if buf.length - off < n then _ else _) = _
    rw [if_pos hshort]
    rfl

theorem recovers_nat {size n : Nat} (what : String) (h : n < 256 ^ size) :
    Recovers (do let bytes ← readRaw size what; return ofBytes bytes) (toBytes size n) n := by
  have hread := (recovers_readRaw what (length_toBytes size n)).map ofBytes
  rwa [ofBytes_toBytes h] at hread

theorem recovers_unsigned {size : Nat} {n : Int} (what : String) (h : InRange size n) :
    Recovers (do let bytes ← readRaw size what; return ofBytes bytes)
      (toBytes size (wrap size n)) n.toNat := by
  have hread := recovers_nat what (wrap_lt size n)
  rwa [wrap_of_nonneg h.1 h.2] at hread ⊢

theorem recovers_number {size : Nat} {n : Int} (what : String) (h : InRange size n) :
    Recovers ((do let bytes ← readRaw size what; return ofBytes bytes : BorshReader Nat) >>=
      fun k => pure (JsValue.number k)) (toBytes size (wrap size n)) (.number n) := by
  have hread := (recovers_unsigned what h).map fun k : Nat => JsValue.number k
  rwa [Int.toNat_of_nonneg h.1] at hread

theorem recovers_readU32 {n : Nat} (h : n < 256 ^ 4) :
    Recovers readU32 (toBytes 4 (wrap 4 n)) n :=
  recovers_unsigned "u32" ⟨Int.natCast_nonneg n, Int.ofNat_lt.2 h⟩

theorem recovers_readFlag (what : String) (invalid : Nat → Nat → BorshError) (b : Bool) :
    Recovers (readFlag what invalid) (toBytes 1 (wrap 1 (if b then 1 else 0))) b := by
  have hbyte : toBytes 1 (wrap 1 (if b then 1 else 0)) = [if b then 1 else 0] := by
    cases b <;> decide
  rw [hbyte]
  constructor
  · intro buf off rest hat
    have hlen := hat.length
    have hget := hat.get
    have hgetD : buf.getD off 0 = if b then 1 else 0 := by
      rw [List.getD_eq_getElem?_getD, hget, Option.getD_some]
    have hroom : ¬ buf.length - off < 1 := by
      rw [List.length_append, List.length_singleton] at hlen
      omega
    show (if buf.length - off < 1 then _ else _) = _
    rw [if_neg hroom, hgetD]
    cases b <;> rfl
  · intro buf off seen hpfx hne hat
    have hshort := remaining_lt hpfx hne hat
    rw [List.length_singleton] at hshort
    refine ⟨.endOfBuffer what 1 off (buf.length - off), ?_, what, 1, off, _, rfl, hshort⟩
    show (if buf.length - off < 1 then _ else _) = _
    rw [if_pos hshort]
    rfl

theorem recovers_readBool (b : Bool) : Recovers readBool [if b then 1 else 0] b := by
  have hread := recovers_readFlag "bool" .invalidBool b
  have hbyte : toBytes 1 (wrap 1 (if b then 1 else 0)) = [if b then 1 else 0] := by
    cases b <;> decide
  rwa [hbyte] at hread

theorem recovers_readPubkey (key : PublicKey) : Recovers readPubkey key.bytes key := by
  have hread : Recovers readPubkey (key.bytes ++ []) key := by
    apply Recovers.bind (recovers_readRaw _ key.size)
    rw [PublicKey.fromBytes_bytes]
    exact ⟨Reads.pure key, Starves.nil _⟩
  rwa [List.append_nil] at hread

theorem recovers_readString {s : String} (h : (Utf8.utf8 s).length < 256 ^ 4) :
    Recovers readString (toBytes 4 (wrap 4 (Utf8.utf8 s).length) ++ Utf8.utf8 s)
      (String.ofList (Utf8.dropMark s.toList)) := by
  apply Recovers.bind (recovers_readU32 h)
  rw [← List.append_nil (Utf8.utf8 s)]
  apply Recovers.bind (recovers_readRaw _ (by rw [List.append_nil]))
  rw [Utf8.decodeFatal_utf8]
  exact ⟨Reads.pure _, Starves.nil _⟩

/-- By the type: what is written is read back, and what is cut off is missed. -/
theorem recovers_readValue (t : BorshType) :
    ∀ v, HasType t v → Recovers (readValue t) (encode t v) (readBack t v) := by
  induction t with
  | u8 =>
      intro v hv
      cases v with
      | number n => exact recovers_number "u8" hv
      | _ => exact hv.elim
  | u16 =>
      intro v hv
      cases v with
      | number n => exact recovers_number "u16" hv
      | _ => exact hv.elim
  | u32 =>
      intro v hv
      cases v with
      | number n => exact recovers_number "u32" hv
      | _ => exact hv.elim
  | u64 =>
      intro v hv
      cases v with
      | bigint n =>
          have hread := (recovers_unsigned "u64" hv).map fun k : Nat => JsValue.bigint k
          rw [Int.toNat_of_nonneg hv.1] at hread
          exact hread
      | _ => exact hv.elim
  | i64 =>
      intro v hv
      cases v with
      | bigint n =>
          have hvalue : signed 8 (ofBytes (toBytes 8 (wrap 8 n))) = n := by
            rw [ofBytes_toBytes (wrap_lt 8 n), signed_wrap hv.1 hv.2]
          have hread := ((recovers_readRaw "i64" (length_toBytes 8 (wrap 8 n))).map
            fun bytes => signed 8 (ofBytes bytes)).map JsValue.bigint
          rw [hvalue] at hread
          exact hread
      | _ => exact hv.elim
  | bool =>
      intro v hv
      cases v with
      | boolean b => exact (recovers_readFlag "bool" .invalidBool b).map JsValue.boolean
      | _ => exact hv.elim
  | bytes n =>
      intro v hv
      cases v with
      | bytes bytes => exact (recovers_readRaw _ hv).map JsValue.bytes
      | _ => exact hv.elim
  | string =>
      intro v hv
      cases v with
      | string s => exact (recovers_readString hv).map JsValue.string
      | _ => exact hv.elim
  | vec item ih =>
      intro v hv
      cases v with
      | array items =>
          have hitems : Recovers (times (readValue item) items.length)
              (items.flatMap (encode item)) (items.map (readBack item)) :=
            Recovers.times fun x hx => ih x (hv.2 x hx)
          exact (Recovers.bind (recovers_readU32 hv.1) hitems).map JsValue.array
      | _ => exact hv.elim
  | option item ih =>
      intro v hv
      cases v with
      | null =>
          have hflag := recovers_readFlag "option discriminant" .invalidOption false
          have hread : Recovers (readOption (readValue item)) (_ ++ []) .null :=
            Recovers.bind hflag ⟨Reads.pure JsValue.null, Starves.nil _⟩
          rwa [List.append_nil] at hread
      | _ =>
          have hflag := recovers_readFlag "option discriminant" .invalidOption true
          exact Recovers.bind hflag (ih _ hv)
  | pubkey =>
      intro v hv
      cases v with
      | publicKey key => exact (recovers_readPubkey key).map JsValue.publicKey
      | _ => exact hv.elim

/-! ## Sequences -/

theorem recovers_readAll {items : List (BorshType × JsValue)}
    (htyped : ∀ x ∈ items, HasType x.1 x.2) :
    Recovers (readAll (items.map Prod.fst)) (items.flatMap fun x => encode x.1 x.2)
      (items.map fun x => readBack x.1 x.2) := by
  induction items with
  | nil => exact ⟨Reads.pure [], Starves.nil _⟩
  | cons x items ih =>
      have hrest := ih fun y hy => htyped y (List.mem_cons_of_mem _ hy)
      exact Recovers.bind (recovers_readValue x.1 x.2 (htyped x List.mem_cons_self))
        (hrest.map (readBack x.1 x.2 :: ·))

/-- The bytes that a new writer has after the values. -/
def written (items : List (BorshType × JsValue)) : List UInt8 := (writeAll .new items).toBytes

theorem written_eq (items : List (BorshType × JsValue)) :
    written items = items.flatMap fun x => encode x.1 x.2 := by
  show (items.foldl _ Writer.new).toBytes = _
  have happend : ∀ x ∈ items, ∀ w, (writeValue x.1 w x.2).toBytes =
      w.toBytes ++ (fun x : BorshType × JsValue => encode x.1 x.2) x :=
    fun x _ w => toBytes_writeValue x.1 w x.2
  rw [Writer.toBytes_foldl items happend, Writer.toBytes_new, List.nil_append]

/-- Reading gives the values that were written, and nothing is left. -/
def ReadsBack (items : List (BorshType × JsValue)) : Prop :=
  ∃ c, readAll (items.map Prod.fst) ⟨written items, 0⟩ = .ok (items.map Prod.snd, c) ∧
    remaining c = 0

/-- The values come back exactly if no text starts with a byte order mark; and bytes that
are cut off anywhere are refused for want of bytes. -/
theorem borsh_round_trip_iff (items : List (BorshType × JsValue))
    (htyped : ∀ x ∈ items, HasType x.1 x.2) :
    (ReadsBack items ↔ ∀ x ∈ items, MarkFree x.1 x.2) ∧
    ∀ seen, seen <+: written items → seen ≠ written items →
      ∃ e, readAll (items.map Prod.fst) ⟨seen, 0⟩ = .error e ∧ IsEndOfBuffer e := by
  have hrecovers := recovers_readAll htyped
  rw [← written_eq] at hrecovers
  constructor
  · have hrun := hrecovers.reads.run []
    rw [List.append_nil] at hrun
    have hback : (items.map fun x => readBack x.1 x.2) = items.map Prod.snd ↔
        ∀ x ∈ items, MarkFree x.1 x.2 := by
      rw [List.map_inj_left]
      exact forall₂_congr fun x hx => readBack_eq_iff x.1 x.2 (htyped x hx)
    rw [← hback]
    constructor
    · rintro ⟨c, hc, -⟩
      rw [hrun] at hc
      exact congrArg Prod.fst (Except.ok.inj hc)
    · intro hsame
      rw [hsame] at hrun
      exact ⟨_, hrun, Nat.sub_self _⟩
  · intro seen hpfx hne
    exact hrecovers.starves seen 0 seen hpfx hne (At.start seen)

/-- A byte, and a list with a gap in it. -/
def gappedList : List (BorshType × JsValue) :=
  [(.u8, .number 5), (.vec (.option .u16), .array [.null, .number 7])]

theorem hasType_gappedList : ∀ x ∈ gappedList, HasType x.1 x.2 := by
  intro x hx
  rcases List.mem_cons.1 hx with rfl | hx
  · exact ⟨by decide, by decide⟩
  · rw [List.mem_singleton.1 hx]
    refine ⟨by decide, fun y hy => ?_⟩
    rcases List.mem_cons.1 hy with rfl | hy
    · trivial
    · rw [List.mem_singleton.1 hy]
      exact ⟨by decide, by decide⟩

theorem borsh_round_trip_gappedList :
    ReadsBack gappedList ∧ ∃ e, readAll [.u8, .vec (.option .u16)] ⟨[5, 2, 0], 0⟩ = .error e ∧
      IsEndOfBuffer e := by
  have hbytes : written gappedList = [5, 2, 0, 0, 0, 0, 1, 7, 0] := by
    rw [written_eq]
    decide +kernel
  have h := borsh_round_trip_iff gappedList hasType_gappedList
  rw [hbytes] at h
  refine ⟨h.1.2 fun x hx => ?_, h.2 [5, 2, 0] (by decide) (by decide)⟩
  rcases List.mem_cons.1 hx with rfl | hx
  · trivial
  · rw [List.mem_singleton.1 hx]
    intro y hy
    rcases List.mem_cons.1 hy with rfl | hy
    · trivial
    · rw [List.mem_singleton.1 hy]
      trivial

/-- A text with a byte order mark comes back without it. -/
theorem mark_is_lost :
    (∃ c, readAll [.string] ⟨written [(.string, .string "\uFEFFa")], 0⟩ =
      .ok ([.string "a"], c)) ∧
    ¬ ∀ items, (∀ x ∈ items, HasType x.1 x.2) → ReadsBack items := by
  have htyped : ∀ x ∈ [(BorshType.string, JsValue.string "\uFEFFa")], HasType x.1 x.2 := by
    intro x hx
    rw [List.mem_singleton.1 hx]
    show (Utf8.utf8 "\uFEFFa").length < 256 ^ 4
    decide +kernel
  have hrun := (recovers_readAll htyped).reads.run []
  rw [← written_eq, List.append_nil] at hrun
  refine ⟨⟨_, hrun⟩, fun hall => ?_⟩
  obtain ⟨c, hc, -⟩ := hall _ htyped
  rw [hrun] at hc
  have hvalues := congrArg Prod.fst (Except.ok.inj hc)
  have htext : "a" = "\uFEFFa" := JsValue.string.inj (List.cons.inj hvalues).1
  revert htext
  decide

end Ap3xSolana.Core.Borsh
