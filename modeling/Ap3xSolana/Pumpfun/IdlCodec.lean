import Mathlib.Logic.Function.Basic
import Ap3xSolana.Core.PublicKey
import Ap3xSolana.Lib.Radix
import Ap3xSolana.Lib.Reading
import Ap3xSolana.Lib.Utf8

/-!
# The IDL codec

The borsh decoder and encoder that an Anchor IDL drives.  Both walk the type; a type that
names itself is walked as deep as the call stack allows, which is the `fuel` here.
-/

namespace Ap3xSolana.Pumpfun

open Core Lib Lib.Reading

/-! ## Types -/

inductive IdlType where
  | name (type : String)
  | vec (inner : IdlType)
  | option (inner : IdlType)
  | array (inner : IdlType) (n : Nat)
  | defined (name : String)
  deriving DecidableEq, Repr

structure IdlField where
  name : String
  type : IdlType
  deriving DecidableEq, Repr

/-- `IdlField[] | IdlType[]`. -/
inductive IdlFields where
  | named (fields : List IdlField)
  | tuple (types : List IdlType)
  deriving DecidableEq, Repr

structure IdlVariant where
  name : String
  fields : Option IdlFields
  deriving DecidableEq, Repr

inductive IdlTypeDef where
  | struct (fields : Option IdlFields)
  | enum (variants : List IdlVariant)
  deriving DecidableEq, Repr

/-! ## Values -/

/-- What the decoder builds and the encoder reads.  A property that an object does not have
reads `undefined`. -/
inductive IdlValue where
  | number (n : Int)
  | bigint (n : Int)
  | bool (b : Bool)
  | pubkey (key : PublicKey)
  | string (s : String)
  | bytes (bs : List UInt8)
  | null
  | undefined
  | array (vs : List IdlValue)
  | object (property : String → IdlValue)

inductive IdlError where
  | eof
  | unsupported (type : String)
  | notInSchema (name : String)
  | variantOutOfRange (idx : Nat)
  | noVariant (enum name : String)
  | publicKey (e : PublicKey.PublicKeyError)
  /-- The value is not what the encoder casts it to. -/
  | illTyped
  /-- The call stack is exhausted. -/
  | tooDeep
  deriving DecidableEq, Repr

def IdlError.message : IdlError → String
  | .eof => "eof"
  | .unsupported type => s!"unsupported idl type {type}"
  | .notInSchema name => s!"idl type {name} not in schema"
  | .variantOutOfRange idx => s!"enum variant {idx} out of range"
  | .noVariant enum name => s!"enum {enum} has no variant {name}"
  | .publicKey e => e.message
  | .illTyped => "TypeError"
  | .tooDeep => "Maximum call stack size exceeded"

/-- `{}`. -/
def emptyObject : IdlValue := .object fun _ => .undefined

/-- `{ variant, fields }`. -/
def variantObject (variant : String) (fields : IdlValue) : IdlValue :=
  .object fun key =>
    if key = "variant" then .string variant
    else if key = "fields" then fields
    else .undefined

namespace IdlValue

def asInt : IdlValue → Except IdlError Int
  | .number n => .ok n
  | .bigint n => .ok n
  | _ => .error .illTyped

def asBool : IdlValue → Except IdlError Bool
  | .bool b => .ok b
  | _ => .error .illTyped

def asPubkey : IdlValue → Except IdlError PublicKey
  | .pubkey key => .ok key
  | _ => .error .illTyped

def asString : IdlValue → Except IdlError String
  | .string s => .ok s
  | _ => .error .illTyped

def asBytes : IdlValue → Except IdlError (List UInt8)
  | .bytes bs => .ok bs
  | _ => .error .illTyped

def asArray : IdlValue → Except IdlError (List IdlValue)
  | .array vs => .ok vs
  | _ => .error .illTyped

def asObject : IdlValue → Except IdlError (String → IdlValue)
  | .object property => .ok property
  | _ => .error .illTyped

/-- `typeof v === 'string' ? v : v.variant`. -/
def variantName : IdlValue → Except IdlError String
  | .string s => .ok s
  | .object property => (property "variant").asString
  | _ => .error .illTyped

/-- `v.fields`: a string has no such property. -/
def variantFields : IdlValue → IdlValue
  | .object property => property "fields"
  | _ => .undefined

end IdlValue

/-! ## Names -/

def camelChars : List Char → List Char
  | '_' :: c :: cs =>
      if c.isLower || c.isDigit then c.toUpper :: camelChars cs else '_' :: camelChars (c :: cs)
  | c :: cs => c :: camelChars cs
  | [] => []

def camelCase (s : String) : String := String.ofList (camelChars s.toList)

/-! ## Integers -/

/-- Size in bytes, and whether there is a sign. -/
def intSizes : String → Option (Nat × Bool)
  | "u8" => some (1, false)
  | "i8" => some (1, true)
  | "u16" => some (2, false)
  | "i16" => some (2, true)
  | "u32" => some (4, false)
  | "i32" => some (4, true)
  | "u64" => some (8, false)
  | "i64" => some (8, true)
  | "u128" => some (16, false)
  | "i128" => some (16, true)
  | _ => none

/-- The encoder's own table. -/
def int : String → Option Nat
  | "u8" => some 1
  | "i8" => some 1
  | "u16" => some 2
  | "i16" => some 2
  | "u32" => some 4
  | "i32" => some 4
  | "u64" => some 8
  | "i64" => some 8
  | "u128" => some 16
  | "i128" => some 16
  | _ => none

def uintLE (bytes : List UInt8) : Nat := LittleEndian.ofBytes bytes

def intLE (bytes : List UInt8) : Int :=
  let u := uintLE bytes
  let bits := bytes.length * 8
  if 2 ^ (bits - 1) ≤ u then (u : Int) - 2 ^ bits else u

def le (v : Int) (size : Nat) : List UInt8 :=
  let mod : Int := 2 ^ (size * 8)
  LittleEndian.toBytes size (((v.tmod mod) + mod).tmod mod).toNat

/-- `size <= 4 ? Number(v) : v`. -/
def intValue (size : Nat) (v : Int) : IdlValue := if size ≤ 4 then .number v else .bigint v

/-! ## Decoder -/

abbrev Cursor := Input UInt8

abbrev Decoder := Reader IdlError UInt8

/-- `c.take(n)`. -/
def take (n : Nat) : Decoder (List UInt8) := Reading.take .eof n

/-- `c.take(1)[0]`. -/
def takeByte : Decoder UInt8 := do
  let bytes ← take 1
  return bytes.headD 0

/-- `Number(uintLE(c.take(4)))`. -/
def takeLength : Decoder Nat := do
  let bytes ← take 4
  return uintLE bytes

def takeSized : Decoder (List UInt8) := do
  let n ← takeLength
  take n

def decodePubkey (bytes : List UInt8) : Decoder IdlValue :=
  match PublicKey.fromBytes bytes with
  | .ok key => return .pubkey key
  | .error e => throw (.publicKey e)

def decodeName (type : String) : Decoder IdlValue :=
  match intSizes type with
  | some (size, signed) => do
      let bytes ← take size
      return intValue size (if signed then intLE bytes else uintLE bytes)
  | none =>
      match type with
      | "bool" => do
          let b ← takeByte
          return .bool (b != 0)
      | "pubkey" => do
          let bytes ← take 32
          decodePubkey bytes
      | "string" => do
          let bytes ← takeSized
          return .string (Utf8.decode bytes)
      | "bytes" => do
          let bytes ← takeSized
          return .bytes bytes
      | _ => throw (.unsupported type)

/-- `for (const f of fields) out[camelCase(f.name)] = decodeValue(c, f.type, types)`. -/
def decodeNamed (decode : IdlType → Decoder IdlValue) :
    List IdlField → (String → IdlValue) → Decoder (String → IdlValue)
  | [], out => return out
  | f :: fields, out => do
      let v ← decode f.type
      decodeNamed decode fields (Function.update out (camelCase f.name) v)

def decodeTuple (decode : IdlType → Decoder IdlValue) : List IdlType → Decoder (List IdlValue)
  | [] => return []
  | t :: ts => do
      let v ← decode t
      let vs ← decodeTuple decode ts
      return v :: vs

def decodeFieldList (decode : IdlType → Decoder IdlValue) : Option IdlFields → Decoder IdlValue
  | none | some (.named []) | some (.tuple []) => return emptyObject
  | some (.named fields) => do
      let out ← decodeNamed decode fields fun _ => .undefined
      return .object out
  | some (.tuple ts) => do
      let vs ← decodeTuple decode ts
      return .array vs

def decodeVariant (decode : IdlType → Decoder IdlValue) (variant : IdlVariant) :
    Decoder IdlValue :=
  match variant.fields with
  | none => return .string variant.name
  | some fields => do
      let v ← decodeFieldList decode (some fields)
      return variantObject variant.name v

def decodeDefined (decode : IdlType → Decoder IdlValue) : IdlTypeDef → Decoder IdlValue
  | .struct fields => decodeFieldList decode fields
  | .enum variants => do
      let idx ← takeByte
      match variants[idx.toNat]? with
      | none => throw (.variantOutOfRange idx.toNat)
      | some variant => decodeVariant decode variant

def decodeValue (types : String → Option IdlTypeDef) : Nat → IdlType → Decoder IdlValue
  | 0, _ => throw .tooDeep
  | _ + 1, .name type => decodeName type
  | fuel + 1, .vec inner => do
      let n ← takeLength
      let vs ← times (decodeValue types fuel inner) n
      return .array vs
  | fuel + 1, .option inner => do
      let tag ← takeByte
      if tag = 0 then return .null else decodeValue types fuel inner
  | fuel + 1, .array inner n => do
      let vs ← times (decodeValue types fuel inner) n
      return .array vs
  | fuel + 1, .defined name =>
      match types name with
      | none => throw (.notInSchema name)
      | some d => decodeDefined (decodeValue types fuel) d

/-- `c.done`. -/
def done : Decoder Bool := fun c => .ok (decide (c.buf.length ≤ c.offset), c)

/-- The loop of `decodeIdlEvent` and `decodeIdlAccount`: fields are read up to a clean end of
the data, and the flag says whether that was all of them. -/
def decodePrefix (decode : IdlType → Decoder IdlValue) :
    List IdlField → (String → IdlValue) → Decoder ((String → IdlValue) × Bool)
  | [], out => return (out, true)
  | f :: fields, out => do
      if ← done then return (out, false)
      else
        let v ← decode f.type
        decodePrefix decode fields (Function.update out (camelCase f.name) v)

/-! ## Encoder -/

def encodeName (type : String) (v : IdlValue) : Except IdlError (List UInt8) :=
  match int type with
  | some size => do
      let n ← v.asInt
      return le n size
  | none =>
      match type with
      | "bool" => do
          let b ← v.asBool
          return [if b then 1 else 0]
      | "pubkey" => do
          let key ← v.asPubkey
          return key.bytes
      | "string" => do
          let s ← v.asString
          return le (Utf8.utf8 s).length 4 ++ Utf8.utf8 s
      | "bytes" => do
          let bs ← v.asBytes
          return le bs.length 4 ++ bs
      | _ => .error (.unsupported type)

def encodeFieldList (encode : IdlType → IdlValue → Except IdlError (List UInt8)) :
    Option IdlFields → IdlValue → Except IdlError (List UInt8)
  | none, _ | some (.named []), _ | some (.tuple []), _ => .ok []
  | some (.named fields), v => do
      let obj ← v.asObject
      let parts ← fields.mapM fun f => encode f.type (obj (camelCase f.name))
      return parts.flatten
  | some (.tuple ts), v => do
      let arr ← v.asArray
      let parts ← ts.zipIdx.mapM fun p => encode p.1 (arr.getD p.2 .undefined)
      return parts.flatten

def encodeVariant (encode : IdlType → IdlValue → Except IdlError (List UInt8)) (idx : Nat)
    (variant : IdlVariant) (v : IdlValue) : Except IdlError (List UInt8) :=
  match variant.fields with
  | none => return [UInt8.ofNat idx]
  | some fields => do
      let bytes ← encodeFieldList encode (some fields) v.variantFields
      return UInt8.ofNat idx :: bytes

/-- `variants.findIndex((x) => x.name === name)`; past the end where that is `-1`. -/
def findVariant (variants : List IdlVariant) (name : String) : Nat :=
  variants.findIdx (·.name = name)

def encodeEnum (encode : IdlType → IdlValue → Except IdlError (List UInt8)) (enum : String)
    (variants : List IdlVariant) (v : IdlValue) (name : String) :
    Except IdlError (List UInt8) :=
  match variants[findVariant variants name]? with
  | none => .error (.noVariant enum name)
  | some variant => encodeVariant encode (findVariant variants name) variant v

def encodeDefined (encode : IdlType → IdlValue → Except IdlError (List UInt8)) (name : String) :
    IdlTypeDef → IdlValue → Except IdlError (List UInt8)
  | .struct fields, v => encodeFieldList encode fields v
  | .enum variants, v => do
      let chosen ← v.variantName
      encodeEnum encode name variants v chosen

def encodeIdlValue (types : String → Option IdlTypeDef) :
    Nat → IdlType → IdlValue → Except IdlError (List UInt8)
  | 0, _, _ => .error .tooDeep
  | _ + 1, .name type, v => encodeName type v
  | fuel + 1, .vec inner, v => do
      let arr ← v.asArray
      let parts ← arr.mapM (encodeIdlValue types fuel inner)
      return le arr.length 4 ++ parts.flatten
  | _ + 1, .option _, .null => .ok [0]
  | _ + 1, .option _, .undefined => .ok [0]
  | fuel + 1, .option inner, v => do
      let bytes ← encodeIdlValue types fuel inner v
      return 1 :: bytes
  | fuel + 1, .array inner _, v => do
      let arr ← v.asArray
      let parts ← arr.mapM (encodeIdlValue types fuel inner)
      return parts.flatten
  | fuel + 1, .defined name, v =>
      match types name with
      | none => .error (.notInSchema name)
      | some d => encodeDefined (encodeIdlValue types fuel) name d v

end Ap3xSolana.Pumpfun
