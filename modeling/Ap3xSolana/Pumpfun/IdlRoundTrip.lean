import Ap3xSolana.Lib.Throwing
import Ap3xSolana.Pumpfun.IdlCodec
import Mathlib.Order.Filter.AtTopBot.Basic

/-!
# IDL values round trip

`Typed` says which values an IDL type has.  The encoder writes each of them as bytes that
the decoder reads back, and it reads no further, for every type that the two support.
-/

namespace Ap3xSolana.Pumpfun

open Core Lib Lib.Reading Filter

/-! ## The values of a type -/

/-- What a value can be a value of. -/
inductive Shape where
  | type (t : IdlType)
  | fields (fs : Option IdlFields)

/-- The range of an integer of `size` bytes. -/
def InRange (size : Nat) (signed : Bool) (z : Int) : Prop :=
  if signed then -(256 ^ size : Nat) ≤ 2 * z ∧ 2 * z < (256 ^ size : Nat)
  else 0 ≤ z ∧ z < (256 ^ size : Nat)

/-- An array holds fewer than this many elements, in the language and in the format. -/
def arrayLimit : Nat := 2 ^ 32

/-- The values as the decoder represents them: an integer of more than four bytes is a
`bigint`, an object has the fields of its type and no others, an enum value without fields
is its name. -/
inductive Typed (types : String → Option IdlTypeDef) : Shape → IdlValue → Prop
  | int {name size signed z} : intSizes name = some (size, signed) → InRange size signed z →
      Typed types (.type (.name name)) (intValue size z)
  | bool (b : Bool) : Typed types (.type (.name "bool")) (.bool b)
  | pubkey (key : PublicKey) : Typed types (.type (.name "pubkey")) (.pubkey key)
  | string {s} : s.toList.head? ≠ some Utf8.byteOrderMark → (Utf8.utf8 s).length < arrayLimit →
      Typed types (.type (.name "string")) (.string s)
  | bytes {bs} : bs.length < arrayLimit → Typed types (.type (.name "bytes")) (.bytes bs)
  | vec {inner vs} : vs.length < arrayLimit → (∀ v ∈ vs, Typed types (.type inner) v) →
      Typed types (.type (.vec inner)) (.array vs)
  | none (inner : IdlType) : Typed types (.type (.option inner)) .null
  | some {inner v} : Typed types (.type inner) v → Typed types (.type (.option inner)) v
  | array {inner vs} : (∀ v ∈ vs, Typed types (.type inner) v) →
      Typed types (.type (.array inner vs.length)) (.array vs)
  | struct {name fields v} : types name = .some (.struct fields) →
      Typed types (.fields fields) v → Typed types (.type (.defined name)) v
  | unitVariant {name variants variant} : types name = .some (.enum variants) →
      variants.length ≤ 256 → variants.find? (·.name = variant.name) = .some variant →
      variant.fields = .none → Typed types (.type (.defined name)) (.string variant.name)
  | variant {name variants variant fields v} : types name = .some (.enum variants) →
      variants.length ≤ 256 → variants.find? (·.name = variant.name) = .some variant →
      variant.fields = .some fields → Typed types (.fields (.some fields)) v →
      Typed types (.type (.defined name)) (variantObject variant.name v)
  | noFields {fields} : fields = .none ∨ fields = .some (.named []) ∨ fields = .some (.tuple []) →
      Typed types (.fields fields) emptyObject
  | named {f fs property} :
      (∀ g ∈ f :: fs, Typed types (.type g.type) (property (camelCase g.name))) →
      (∀ key, key ∉ (f :: fs).map (fun g => camelCase g.name) → property key = .undefined) →
      Typed types (.fields (.some (.named (f :: fs)))) (.object property)
  | tuple {t ts v vs} : ts.length = vs.length →
      (∀ p ∈ (t :: ts).zip (v :: vs), Typed types (.type p.1) p.2) →
      Typed types (.fields (.some (.tuple (t :: ts)))) (.array (v :: vs))

/-! ## Integers -/

theorem le_eq (v : Int) (size : Nat) :
    le v size = LittleEndian.toBytes size (LittleEndian.wrap size v) := by
  have hpow : (2 : Int) ^ (size * 8) = (256 ^ size : Nat) := by
    rw [Nat.mul_comm, pow_mul]
    norm_num
  have hpos : (0 : Int) < (256 ^ size : Nat) := Int.natCast_pos.2 (LittleEndian.pow_pos size)
  show LittleEndian.toBytes size
    (((v.tmod (2 ^ (size * 8))) + 2 ^ (size * 8)).tmod (2 ^ (size * 8))).toNat = _
  rw [hpow, LittleEndian.wrap]
  generalize hm : ((256 ^ size : Nat) : Int) = m at *
  have hge : -m < v.tmod m := Int.lt_tmod_of_pos v hpos
  have hmod : (v.tmod m + m) % m = v % m := by
    rw [Int.add_emod_right, Int.tmod_eq_emod]
    split
    · rw [Int.natCast_zero, Int.sub_zero, Int.emod_emod_of_dvd v (dvd_refl m)]
    · rw [Int.natAbs_of_nonneg (Int.le_of_lt hpos), Int.sub_emod_right,
        Int.emod_emod_of_dvd v (dvd_refl m)]
  rw [Int.tmod_eq_emod_of_nonneg (show 0 ≤ v.tmod m + m by omega), hmod]

theorem length_le (v : Int) (size : Nat) : (le v size).length = size := by
  rw [le_eq, LittleEndian.length_toBytes]

theorem uintLE_le (v : Int) (size : Nat) : uintLE (le v size) = LittleEndian.wrap size v := by
  rw [uintLE, le_eq, LittleEndian.ofBytes_toBytes (LittleEndian.wrap_lt size v)]

theorem uintLE_le_length {n : Nat} (h : n < arrayLimit) : uintLE (le n 4) = n := by
  rw [uintLE_le, LittleEndian.wrap_of_nonneg (Int.natCast_nonneg n) (Int.ofNat_lt.2 h),
    Int.toNat_natCast]

theorem intLE_le {v : Int} {size : Nat} (hsize : 0 < size) :
    intLE (le v size) = LittleEndian.signed size (LittleEndian.wrap size v) := by
  have hpow : 2 ^ (size * 8) = 256 ^ size := by
    rw [Nat.mul_comm, Nat.pow_mul]
  have hhalf : 2 ^ (size * 8) = 2 * 2 ^ (size * 8 - 1) := by
    rw [← Nat.pow_succ']
    congr 1
    omega
  have hcast : (2 : Int) ^ (size * 8) = (256 ^ size : Nat) := by
    rw [← hpow]
    norm_num
  show (if 2 ^ ((le v size).length * 8 - 1) ≤ uintLE (le v size)
    then (uintLE (le v size) : Int) - 2 ^ ((le v size).length * 8)
    else (uintLE (le v size) : Int)) = _
  rw [length_le, uintLE_le, hcast, LittleEndian.signed]
  refine if_congr ?_ rfl rfl
  omega

theorem intSizes_pos {name : String} {size : Nat} {signed : Bool}
    (h : intSizes name = some (size, signed)) : 0 < size := by
  unfold intSizes at h
  split at h <;> cases h <;> decide

/-- The two tables agree. -/
theorem int_eq (name : String) : int name = (intSizes name).map Prod.fst := by
  unfold int intSizes
  split <;> rfl

theorem asInt_intValue (size : Nat) (z : Int) : (intValue size z).asInt = .ok z := by
  unfold intValue
  split <;> rfl

/-! ## Names -/

theorem reads_take {bytes : List UInt8} {n : Nat} (h : bytes.length = n) :
    Reads (take n) bytes bytes := Reads.take IdlError.eof h

theorem reads_takeByte (b : UInt8) : Reads takeByte [b] b := by
  have hread : Reads (take 1) [b] [b] := reads_take rfl
  exact hread.map (f := fun bytes => bytes.headD 0)

theorem reads_takeLength {n : Nat} (h : n < arrayLimit) : Reads takeLength (le n 4) n := by
  have hread := (reads_take (length_le n 4)).map (f := uintLE)
  rwa [uintLE_le_length h] at hread

theorem reads_takeSized {bytes : List UInt8} (h : bytes.length < arrayLimit) :
    Reads takeSized (le bytes.length 4 ++ bytes) bytes :=
  (reads_takeLength h).bind (reads_take rfl)

/-- The encoder gives `bytes`, and the decoder reads them back. -/
def Codes (encode : Except IdlError (List UInt8)) (decode : Decoder IdlValue) (v : IdlValue)
    (bytes : List UInt8) : Prop :=
  encode = .ok bytes ∧ Reads decode bytes v

theorem codes_int {name : String} {size : Nat} {signed : Bool} {z : Int}
    (hname : intSizes name = some (size, signed)) (hz : InRange size signed z) :
    Codes (encodeName name (intValue size z)) (decodeName name) (intValue size z) (le z size) := by
  have hread : (if signed then intLE (le z size) else (uintLE (le z size) : Int)) = z := by
    unfold InRange at hz
    cases signed with
    | true => exact (intLE_le (intSizes_pos hname)).trans (LittleEndian.signed_wrap hz.1 hz.2)
    | false =>
        show (uintLE (le z size) : Int) = z
        rw [uintLE_le]
        exact LittleEndian.cast_wrap_eq_iff.2 hz
  constructor
  · unfold encodeName
    rw [int_eq, hname]
    show (intValue size z).asInt.bind (fun n => Except.ok (le n size)) = _
    rw [asInt_intValue]
    rfl
  · have hdecode := (reads_take (length_le z size)).map
      (f := fun bytes => intValue size (if signed then intLE bytes else uintLE bytes))
    rw [hread] at hdecode
    unfold decodeName
    rw [hname]
    exact hdecode

theorem codes_bool (b : Bool) :
    Codes (encodeName "bool" (.bool b)) (decodeName "bool") (.bool b) [if b then 1 else 0] := by
  refine ⟨rfl, ?_⟩
  have hread := (reads_takeByte (if b then 1 else 0)).map (f := fun b => IdlValue.bool (b != 0))
  cases b with
  | true => exact hread
  | false => exact hread

theorem codes_pubkey (key : PublicKey) :
    Codes (encodeName "pubkey" (.pubkey key)) (decodeName "pubkey") (.pubkey key) key.bytes := by
  refine ⟨rfl, ?_⟩
  have hkey : Reads (decodePubkey key.bytes) [] (.pubkey key) := by
    unfold decodePubkey
    rw [PublicKey.fromBytes_bytes]
    exact Reads.pure _
  have hread := Reads.bind (reads_take key.size) hkey
  rwa [List.append_nil] at hread

theorem codes_string {s : String} (hmark : s.toList.head? ≠ some Utf8.byteOrderMark)
    (hlen : (Utf8.utf8 s).length < arrayLimit) :
    Codes (encodeName "string" (.string s)) (decodeName "string") (.string s)
      (le (Utf8.utf8 s).length 4 ++ Utf8.utf8 s) := by
  refine ⟨rfl, ?_⟩
  have hread := (reads_takeSized hlen).map (f := fun bytes => IdlValue.string (Utf8.decode bytes))
  rwa [Utf8.decode_utf8 hmark] at hread

theorem codes_bytes {bs : List UInt8} (hlen : bs.length < arrayLimit) :
    Codes (encodeName "bytes" (.bytes bs)) (decodeName "bytes") (.bytes bs)
      (le bs.length 4 ++ bs) :=
  ⟨rfl, (reads_takeSized hlen).map (f := IdlValue.bytes)⟩

/-! ## Lists of values -/

variable {encode : IdlType → IdlValue → Except IdlError (List UInt8)}
  {decode : IdlType → Decoder IdlValue}

/-- The elements of a `vec` or an array. -/
theorem codes_items {t : IdlType} {vs : List IdlValue} {parts : List (List UInt8)}
    (h : List.Forall₂ (fun v part => Codes (encode t v) (decode t) v part) vs parts) :
    vs.mapM (encode t) = .ok parts ∧ Reads (times (decode t) vs.length) parts.flatten vs := by
  constructor
  · exact Throwing.mapM_eq_ok.2 (h.imp fun v part hv => hv.1)
  · exact Reads.times (h.flip.imp fun part v hv => hv.2)

/-- What the decoder's object holds when it has read `fields`. -/
def filled (property out : String → IdlValue) (fields : List IdlField) : String → IdlValue :=
  fields.foldl (fun out f => Function.update out (camelCase f.name) (property (camelCase f.name)))
    out

theorem filled_apply (property : String → IdlValue) (fields : List IdlField) (key : String) :
    ∀ out, filled property out fields key =
      if key ∈ fields.map (fun f => camelCase f.name) then property key else out key := by
  induction fields with
  | nil => exact fun out => rfl
  | cons f fields ih =>
      intro out
      show filled property (Function.update out (camelCase f.name) _) fields key = _
      rw [ih, List.map_cons]
      by_cases hkey : key = camelCase f.name
      · rw [hkey, Function.update_self, ite_self, if_pos List.mem_cons_self]
      · rw [Function.update_of_ne hkey]
        refine if_congr ?_ rfl rfl
        rw [List.mem_cons, or_iff_right hkey]

theorem reads_decodeNamed {property : String → IdlValue} {fields : List IdlField}
    {parts : List (List UInt8)}
    (h : List.Forall₂ (fun f part => Reads (decode f.type) part (property (camelCase f.name)))
      fields parts) :
    ∀ out, Reads (decodeNamed decode fields out) parts.flatten (filled property out fields) := by
  induction h with
  | nil => exact fun out => Reads.pure out
  | cons hf _ ih => exact fun out => hf.bind (ih _)

theorem reads_decodeTuple {ts : List IdlType} :
    ∀ {vs : List IdlValue} {parts : List (List UInt8)}, ts.length = vs.length →
    List.Forall₂ (fun p part => Reads (decode p.1) part p.2) (ts.zip vs) parts →
    Reads (decodeTuple decode ts) parts.flatten vs := by
  induction ts with
  | nil =>
      intro vs parts hlen h
      cases List.eq_nil_of_length_eq_zero hlen.symm
      cases h
      exact Reads.pure []
  | cons t ts ih =>
      intro vs parts hlen h
      cases vs with
      | nil => cases hlen
      | cons v vs =>
          cases h with
          | cons hv hvs => exact hv.bind (ih (Nat.succ.inj hlen) hvs).map

/-- The encoder finds the elements of a tuple by their position. -/
theorem encode_positions {arr : List IdlValue} {ts : List IdlType} :
    ∀ {k : Nat} {vs : List IdlValue} {parts : List (List UInt8)}, Cursor.At arr k vs →
    ts.length = vs.length →
    List.Forall₂ (fun p part => encode p.1 p.2 = .ok part) (ts.zip vs) parts →
    List.Forall₂ (fun p part => encode p.1 (arr.getD p.2 .undefined) = .ok part)
      (ts.zipIdx k) parts := by
  induction ts with
  | nil =>
      intro k vs parts _ _ h
      cases h
      exact .nil
  | cons t ts ih =>
      intro k vs parts hat hlen h
      cases vs with
      | nil => cases hlen
      | cons v vs =>
          cases h with
          | cons hv hvs =>
              rw [List.zipIdx_cons]
              apply List.Forall₂.cons
              · show encode t (arr.getD k .undefined) = _
                rw [List.getD_eq_getElem?_getD, hat.get]
                exact hv
              · exact ih hat.tail (Nat.succ.inj hlen) hvs

theorem codes_named {f : IdlField} {fs : List IdlField} {property : String → IdlValue}
    {parts : List (List UInt8)}
    (hout : ∀ key, key ∉ (f :: fs).map (fun g => camelCase g.name) → property key = .undefined)
    (h : List.Forall₂ (fun g part => Codes (encode g.type (property (camelCase g.name)))
      (decode g.type) (property (camelCase g.name)) part) (f :: fs) parts) :
    Codes (encodeFieldList encode (some (.named (f :: fs))) (.object property))
      (decodeFieldList decode (some (.named (f :: fs)))) (.object property) parts.flatten := by
  have hfilled : filled property (fun _ => .undefined) (f :: fs) = property := by
    funext key
    rw [filled_apply]
    by_cases hkey : key ∈ (f :: fs).map (fun g => camelCase g.name)
    · rw [if_pos hkey]
    · rw [if_neg hkey, hout key hkey]
  have hencode : (f :: fs).mapM (fun g => encode g.type (property (camelCase g.name))) =
      .ok parts := Throwing.mapM_eq_ok.2 (h.imp fun g part hg => hg.1)
  constructor
  · show ((f :: fs).mapM fun g => encode g.type (property (camelCase g.name))).bind _ = _
    rw [hencode]
    rfl
  · have hread := (reads_decodeNamed (h.imp fun g part hg => hg.2) fun _ => .undefined).map
      (f := IdlValue.object)
    rwa [hfilled] at hread

theorem codes_tuple {t : IdlType} {ts : List IdlType} {v : IdlValue} {vs : List IdlValue}
    {parts : List (List UInt8)} (hlen : ts.length = vs.length)
    (h : List.Forall₂ (fun p part => Codes (encode p.1 p.2) (decode p.1) p.2 part)
      ((t :: ts).zip (v :: vs)) parts) :
    Codes (encodeFieldList encode (some (.tuple (t :: ts))) (.array (v :: vs)))
      (decodeFieldList decode (some (.tuple (t :: ts)))) (.array (v :: vs)) parts.flatten := by
  have hlen' : (t :: ts).length = (v :: vs).length := congrArg (· + 1) hlen
  have hencode : (t :: ts).zipIdx.mapM (fun p => encode p.1 ((v :: vs).getD p.2 .undefined)) =
      .ok parts :=
    Throwing.mapM_eq_ok.2
      (encode_positions (Cursor.At.start _) hlen' (h.imp fun p part hp => hp.1))
  constructor
  · show ((t :: ts).zipIdx.mapM fun p => encode p.1 ((v :: vs).getD p.2 .undefined)).bind _ = _
    rw [hencode]
    rfl
  · exact (reads_decodeTuple hlen' (h.imp fun p part hp => hp.2)).map (f := IdlValue.array)

/-! ## Data up to a clean end -/

theorem done_of_at {buf rest : List UInt8} {off : Nat} (h : Cursor.At buf off rest) :
    done ⟨buf, off⟩ = .ok (decide (rest = []), ⟨buf, off⟩) := by
  have hlen := h.length
  have hiff : buf.length ≤ off ↔ rest = [] := by
    rw [← List.length_eq_zero_iff]
    omega
  show Except.ok (decide (buf.length ≤ off), _) = _
  rw [decide_eq_decide.2 hiff]

/-- `fields` are read one by one, each behind a check that there is more. -/
theorem decodePrefix_append {property : String → IdlValue} {fields rest : List IdlField}
    {parts : List (List UInt8)}
    (h : List.Forall₂ (fun f part => Reads (decode f.type) part (property (camelCase f.name)) ∧
      part ≠ []) fields parts) :
    ∀ {buf tail : List UInt8} {off : Nat} {out : String → IdlValue},
    Cursor.At buf off (parts.flatten ++ tail) →
    decodePrefix decode (fields ++ rest) out ⟨buf, off⟩ =
      decodePrefix decode rest (filled property out fields) ⟨buf, off + parts.flatten.length⟩ := by
  induction h with
  | nil => exact fun _ => rfl
  | @cons f part fields parts hf _ ih =>
      intro buf tail off out hat
      rw [List.flatten_cons, List.append_assoc] at hat
      have hne : part ++ (parts.flatten ++ tail) ≠ [] :=
        fun h => hf.2 (List.append_eq_nil_iff.1 h).1
      have hrest := @ih _ _ _ (Function.update out (camelCase f.name)
        (property (camelCase f.name))) hat.next
      rw [List.cons_append, decodePrefix, bind_apply, done_of_at hat, decide_eq_false hne]
      show (decode f.type >>= fun v => decodePrefix decode (fields ++ rest)
        (Function.update out (camelCase f.name) v)) ⟨buf, off⟩ = _
      rw [bind_apply, hf.1 buf off _ hat, List.flatten_cons, List.length_append,
        ← Nat.add_assoc]
      exact hrest

/-- Where the data end behind the first `fields`, these are read and no others. -/
theorem decodePrefix_eq {property : String → IdlValue} {fields rest : List IdlField}
    {parts : List (List UInt8)}
    (h : List.Forall₂ (fun f part => Reads (decode f.type) part (property (camelCase f.name)) ∧
      part ≠ []) fields parts) {buf : List UInt8} {off : Nat} {out : String → IdlValue}
    (hat : Cursor.At buf off parts.flatten) :
    decodePrefix decode (fields ++ rest) out ⟨buf, off⟩ =
      .ok ((filled property out fields, decide (rest = [])),
        ⟨buf, off + parts.flatten.length⟩) := by
  have hat' : Cursor.At buf off (parts.flatten ++ []) := by rwa [List.append_nil]
  rw [decodePrefix_append h hat']
  cases rest with
  | nil => rfl
  | cons f rest =>
      rw [decodePrefix, bind_apply, done_of_at hat'.next]
      rfl

/-! ## Variants -/

theorem getElem?_findIdx {p : IdlVariant → Bool} {variants : List IdlVariant}
    {variant : IdlVariant} (h : variants.find? p = some variant) :
    variants[variants.findIdx p]? = some variant := by
  induction variants with
  | nil => cases h
  | cons w variants ih =>
      rw [List.find?_cons] at h
      rw [List.findIdx_cons]
      cases hw : p w with
      | true =>
          rw [hw] at h
          exact h
      | false =>
          rw [hw] at h
          exact ih h

/-- The byte that names a variant. -/
theorem variant_byte {p : IdlVariant → Bool} {variants : List IdlVariant} {variant : IdlVariant}
    (hmax : variants.length ≤ 256) (h : variants.find? p = some variant) :
    variants[(UInt8.ofNat (variants.findIdx p)).toNat]? = some variant := by
  have hget := getElem?_findIdx h
  have hlt : variants.findIdx p < variants.length := (List.getElem?_eq_some_iff.1 hget).1
  rw [UInt8.toNat_ofNat_of_lt' (Nat.lt_of_lt_of_le hlt hmax), hget]

theorem codes_enum {name : String} {variants : List IdlVariant} {variant : IdlVariant}
    {v : IdlValue} {idx : Nat} {bytes : List UInt8} (hmax : variants.length ≤ 256)
    (hname : v.variantName = .ok variant.name)
    (hfind : variants.find? (·.name = variant.name) = some variant)
    (hidx : findVariant variants variant.name = idx)
    (hencode : encodeVariant encode idx variant v = .ok (UInt8.ofNat idx :: bytes))
    (hdecode : Reads (decodeVariant decode variant) bytes v) :
    Codes (encodeDefined encode name (.enum variants) v) (decodeDefined decode (.enum variants)) v
      (UInt8.ofNat idx :: bytes) := by
  have hget : variants[findVariant variants variant.name]? = some variant := getElem?_findIdx hfind
  have hbyte : variants[(UInt8.ofNat (findVariant variants variant.name)).toNat]? = some variant :=
    variant_byte hmax hfind
  rw [hidx] at hget hbyte
  constructor
  · show v.variantName.bind (encodeEnum encode name variants v) = _
    rw [hname]
    show encodeEnum encode name variants v variant.name = _
    unfold encodeEnum
    rw [hidx, hget]
    exact hencode
  · apply Reads.bind (reads_takeByte (UInt8.ofNat idx))
    rw [hbyte]
    exact hdecode

theorem codes_unitVariant {name : String} {variants : List IdlVariant} {variant : IdlVariant}
    (hmax : variants.length ≤ 256)
    (hfind : variants.find? (·.name = variant.name) = some variant)
    (hfields : variant.fields = none) :
    Codes (encodeDefined encode name (.enum variants) (.string variant.name))
      (decodeDefined decode (.enum variants)) (.string variant.name)
      [UInt8.ofNat (findVariant variants variant.name)] := by
  apply codes_enum hmax rfl hfind rfl
  · unfold encodeVariant
    rw [hfields]
    rfl
  · unfold decodeVariant
    rw [hfields]
    exact Reads.pure _

theorem codes_variant {name : String} {variants : List IdlVariant} {variant : IdlVariant}
    {fields : IdlFields} {v : IdlValue} {bytes : List UInt8} (hmax : variants.length ≤ 256)
    (hfind : variants.find? (·.name = variant.name) = some variant)
    (hfields : variant.fields = some fields)
    (h : Codes (encodeFieldList encode (some fields) v) (decodeFieldList decode (some fields)) v
      bytes) :
    Codes (encodeDefined encode name (.enum variants) (variantObject variant.name v))
      (decodeDefined decode (.enum variants)) (variantObject variant.name v)
      (UInt8.ofNat (findVariant variants variant.name) :: bytes) := by
  apply codes_enum hmax rfl hfind rfl
  · unfold encodeVariant
    rw [hfields]
    show (encodeFieldList encode (some fields) v).bind _ = _
    rw [h.1]
    rfl
  · unfold decodeVariant
    rw [hfields]
    exact h.2.map (f := variantObject variant.name)

/-! ## Deep enough a stack -/

theorem eventually_of_succ {P : Nat → Prop} (h : ∀ᶠ n in atTop, P (n + 1)) :
    ∀ᶠ n in atTop, P n := by
  obtain ⟨k, hk⟩ := eventually_atTop.1 h
  refine eventually_atTop.2 ⟨k + 1, fun n hn => ?_⟩
  cases n with
  | zero => omega
  | succ n => exact hk n (by omega)

theorem exists_forall₂ {α β : Type} {P : Nat → α → β → Prop} {as : List α}
    (h : ∀ a ∈ as, ∃ b, ∀ᶠ n in atTop, P n a b) :
    ∃ bs, ∀ᶠ n in atTop, List.Forall₂ (P n) as bs := by
  induction as with
  | nil => exact ⟨[], Eventually.of_forall fun n => .nil⟩
  | cons a as ih =>
      obtain ⟨b, hb⟩ := h a List.mem_cons_self
      obtain ⟨bs, hbs⟩ := ih fun a' ha' => h a' (List.mem_cons_of_mem a ha')
      exact ⟨b :: bs, hb.and hbs |>.mono fun n hn => .cons hn.1 hn.2⟩

variable {types : String → Option IdlTypeDef}

/-- With `fuel` calls on the stack, `bytes` are a value's code. -/
def CodesAt (types : String → Option IdlTypeDef) (fuel : Nat) (v : IdlValue)
    (bytes : List UInt8) : Shape → Prop
  | .type t => Codes (encodeIdlValue types fuel t v) (decodeValue types fuel t) v bytes
  | .fields fs => Codes (encodeFieldList (encodeIdlValue types fuel) fs v)
      (decodeFieldList (decodeValue types fuel) fs) v bytes

theorem Typed.ne_undefined {shape : Shape} {v : IdlValue} (h : Typed types shape v) :
    v ≠ .undefined := by
  induction h with
  | int =>
      unfold intValue
      split <;> exact nofun
  | some _ ih => exact ih
  | struct _ _ ih => exact ih
  | _ => exact nofun

theorem eventually_name {type : String} {v : IdlValue} {bytes : List UInt8}
    (h : Codes (encodeName type v) (decodeName type) v bytes) :
    ∃ bytes, ∀ᶠ fuel in atTop, CodesAt types fuel v bytes (.type (.name type)) :=
  ⟨bytes, eventually_of_succ (Eventually.of_forall fun _ => h)⟩

/-- One level of the call stack is spent on the type's own name. -/
theorem eventually_defined {name : String} {d : IdlTypeDef} {v : IdlValue} {bytes : List UInt8}
    (hdef : types name = some d)
    (h : ∀ᶠ fuel in atTop, Codes (encodeDefined (encodeIdlValue types fuel) name d v)
      (decodeDefined (decodeValue types fuel) d) v bytes) :
    ∀ᶠ fuel in atTop, CodesAt types fuel v bytes (.type (.defined name)) := by
  refine eventually_of_succ (h.mono fun fuel hfuel => ?_)
  show Codes (encodeIdlValue types (fuel + 1) (.defined name) v)
    (decodeValue types (fuel + 1) (.defined name)) v bytes
  unfold encodeIdlValue decodeValue
  rw [hdef]
  exact hfuel

theorem encode_some {fuel : Nat} {inner : IdlType} {v : IdlValue} (hnull : v ≠ .null)
    (hundefined : v ≠ .undefined) : encodeIdlValue types (fuel + 1) (.option inner) v =
      (encodeIdlValue types fuel inner v).bind fun bytes => .ok (1 :: bytes) := by
  cases v with
  | null => exact absurd rfl hnull
  | undefined => exact absurd rfl hundefined
  | _ => rfl

theorem reads_some {r : Decoder IdlValue} {v : IdlValue} {bytes : List UInt8}
    (h : Reads r bytes v) :
    Reads (takeByte >>= fun tag => if tag = 0 then pure .null else r) (1 :: bytes) v := by
  apply Reads.bind (reads_takeByte 1)
  rw [if_neg (by decide)]
  exact h

theorem reads_none (r : Decoder IdlValue) :
    Reads (takeByte >>= fun tag => if tag = 0 then pure .null else r) [0] .null := by
  apply Reads.bind (reads_takeByte 0)
  rw [if_pos rfl]
  exact Reads.pure _

theorem Typed.exists_codes {shape : Shape} {v : IdlValue} (h : Typed types shape v) :
    ∃ bytes, ∀ᶠ fuel in atTop, CodesAt types fuel v bytes shape := by
  induction h with
  | int hname hz => exact eventually_name (codes_int hname hz)
  | bool b => exact eventually_name (codes_bool b)
  | pubkey key => exact eventually_name (codes_pubkey key)
  | string hmark hlen => exact eventually_name (codes_string hmark hlen)
  | bytes hlen => exact eventually_name (codes_bytes hlen)
  | @vec inner vs hlen _ ih =>
      obtain ⟨parts, hparts⟩ := exists_forall₂ ih
      refine ⟨le vs.length 4 ++ parts.flatten, eventually_of_succ (hparts.mono fun fuel h => ?_)⟩
      have hitems := codes_items h
      constructor
      · show (vs.mapM (encodeIdlValue types fuel inner)).bind _ = _
        rw [hitems.1]
        rfl
      · exact (reads_takeLength hlen).bind (hitems.2.map (f := IdlValue.array))
  | none inner =>
      exact ⟨[0], eventually_of_succ (Eventually.of_forall fun _ => ⟨rfl, reads_none _⟩)⟩
  | @some inner v hv ih =>
      obtain ⟨bytes, hbytes⟩ := ih
      by_cases hnull : v = .null
      · subst hnull
        exact ⟨[0], eventually_of_succ (Eventually.of_forall fun _ => ⟨rfl, reads_none _⟩)⟩
      · refine ⟨1 :: bytes, eventually_of_succ (hbytes.mono fun fuel h => ?_)⟩
        constructor
        · rw [encode_some hnull hv.ne_undefined, h.1]
          rfl
        · exact reads_some h.2
  | @array inner vs _ ih =>
      obtain ⟨parts, hparts⟩ := exists_forall₂ ih
      refine ⟨parts.flatten, eventually_of_succ (hparts.mono fun fuel h => ?_)⟩
      have hitems := codes_items h
      constructor
      · show (vs.mapM (encodeIdlValue types fuel inner)).bind _ = _
        rw [hitems.1]
        rfl
      · exact hitems.2.map (f := IdlValue.array)
  | struct hdef _ ih =>
      obtain ⟨bytes, hbytes⟩ := ih
      exact ⟨bytes, eventually_defined hdef hbytes⟩
  | unitVariant hdef hmax hfind hfields =>
      exact ⟨_, eventually_defined hdef
        (Eventually.of_forall fun _ => codes_unitVariant hmax hfind hfields)⟩
  | variant hdef hmax hfind hfields _ ih =>
      obtain ⟨bytes, hbytes⟩ := ih
      exact ⟨_, eventually_defined hdef
        (hbytes.mono fun fuel h => codes_variant hmax hfind hfields h)⟩
  | noFields hfields =>
      refine ⟨[], Eventually.of_forall fun fuel => ?_⟩
      rcases hfields with rfl | rfl | rfl <;> exact ⟨rfl, Reads.pure _⟩
  | named _ hout ih =>
      obtain ⟨parts, hparts⟩ := exists_forall₂ ih
      exact ⟨parts.flatten, hparts.mono fun fuel h => codes_named hout h⟩
  | tuple hlen _ ih =>
      obtain ⟨parts, hparts⟩ := exists_forall₂ ih
      exact ⟨parts.flatten, hparts.mono fun fuel h => codes_tuple hlen h⟩

/-! ## The round trip -/

/-- On a call stack that is deep enough, a value of the type is encoded, and whatever
follows its bytes, decoding gives the value and stops behind them. -/
theorem decodeValue_encodeIdlValue {t : IdlType} {v : IdlValue} (h : Typed types (.type t) v) :
    ∃ bytes depth, ∀ fuel, depth ≤ fuel →
      encodeIdlValue types fuel t v = .ok bytes ∧
      ∀ suffix, decodeValue types fuel t ⟨bytes ++ suffix, 0⟩ =
        .ok (v, ⟨bytes ++ suffix, bytes.length⟩) := by
  obtain ⟨bytes, hbytes⟩ := h.exists_codes
  obtain ⟨depth, hdepth⟩ := eventually_atTop.1 hbytes
  refine ⟨bytes, depth, fun fuel hfuel => ?_⟩
  have hcodes := hdepth fuel hfuel
  exact ⟨hcodes.1, hcodes.2.run⟩

def noneVariant : IdlVariant := ⟨"None", none⟩

def sellVariant : IdlVariant := ⟨"Sell", some (.named [⟨"min_sol_output", .name "i64"⟩])⟩

/-- A side of a trade: one variant without fields, one with a named field. -/
def sideType : IdlTypeDef := .enum [noneVariant, sellVariant]

def sellFields : String → IdlValue := fun key =>
  if key = "minSolOutput" then intValue 8 (-5) else .undefined

theorem typed_i64 (types : String → Option IdlTypeDef) {z : Int} (h : InRange 8 true z) :
    Typed types (.type (.name "i64")) (intValue 8 z) :=
  .int (show intSizes "i64" = some (8, true) from rfl) h

theorem sellFields_typed (types : String → Option IdlTypeDef) :
    Typed types (.fields sellVariant.fields) (.object sellFields) := by
  apply Typed.named
  · intro g hg
    rw [List.mem_singleton] at hg
    subst hg
    exact typed_i64 types ⟨by decide, by decide⟩
  · intro key hkey
    have hne : key ≠ "minSolOutput" := fun h => hkey (by subst h; decide)
    exact if_neg hne

/-- Both variants in a vector, each with its own layout. -/
theorem decodeValue_encodeIdlValue_sides :
    ∃ bytes depth, ∀ fuel, depth ≤ fuel →
      encodeIdlValue (fun _ => some sideType) fuel (.vec (.defined "Side"))
        (.array [.string "None", variantObject "Sell" (.object sellFields)]) = .ok bytes ∧
      ∀ suffix, decodeValue (fun _ => some sideType) fuel (.vec (.defined "Side"))
        ⟨bytes ++ suffix, 0⟩ =
        .ok (.array [.string "None", variantObject "Sell" (.object sellFields)],
          ⟨bytes ++ suffix, bytes.length⟩) := by
  apply decodeValue_encodeIdlValue
  apply Typed.vec (by decide)
  intro v hv
  rcases List.mem_pair.1 hv with rfl | rfl
  · have hfind : [noneVariant, sellVariant].find? (·.name = noneVariant.name) =
        some noneVariant := rfl
    exact .unitVariant rfl (by decide) hfind rfl
  · have hfind : [noneVariant, sellVariant].find? (·.name = sellVariant.name) =
        some sellVariant := rfl
    exact .variant rfl (by decide) hfind rfl (sellFields_typed _)

end Ap3xSolana.Pumpfun
