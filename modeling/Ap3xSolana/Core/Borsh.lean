import Ap3xSolana.Core.PublicKey
import Ap3xSolana.Lib.Radix
import Ap3xSolana.Lib.Reading
import Ap3xSolana.Lib.Utf8

/-!
# Borsh

`Reader` and `Writer`, and the values that pass through them.  A value is what JavaScript
has for it: `null` is the one absent value, so that an option of an option has no more
values than the option.
-/

namespace Ap3xSolana.Core.Borsh

open Ap3xSolana.Lib Ap3xSolana.Lib.Cursor Ap3xSolana.Lib.LittleEndian Ap3xSolana.Lib.Reading

inductive BorshError where
  | endOfBuffer (what : String) (needed offset remaining : Nat)
  | invalidBool (b offset : Nat)
  | invalidOption (b offset : Nat)
  /-- The `TypeError` of the fatal decoder. -/
  | malformedUtf8
  | publicKey (e : PublicKey.PublicKeyError)
  deriving DecidableEq, Repr

/-- `b.toString(16).padStart(2, '0')`. -/
def hexByte (b : Nat) : String :=
  if b < 16 then "0" ++ String.ofList (Nat.toDigits 16 b) else String.ofList (Nat.toDigits 16 b)

def BorshError.message : BorshError → String
  | .endOfBuffer what needed offset remaining =>
      s!"borsh: unexpected end of buffer reading {what} — needed {needed} byte(s) at offset " ++
        s!"{offset} but only {remaining} remaining"
  | .invalidBool b offset =>
      s!"borsh: invalid bool discriminant 0x{hexByte b} ({b}) at offset {offset} — " ++
        "expected 0x00 or 0x01"
  | .invalidOption b offset =>
      s!"borsh: invalid option discriminant 0x{hexByte b} ({b}) at offset {offset} — " ++
        "expected 0x00 (None) or 0x01 (Some)"
  | .malformedUtf8 => "The encoded data was not valid for encoding utf-8"
  | .publicKey e => e.message

/-! ## Reader -/

abbrev BorshReader (α : Type) := Reader BorshError UInt8 α

def remaining (c : Input UInt8) : Nat := c.buf.length - c.offset

/-- `requireRemaining`, and the bytes it asked for. -/
def readRaw (n : Nat) (what : String) : BorshReader (List UInt8) := fun c =>
  if remaining c < n then .error (.endOfBuffer what n c.offset (remaining c))
  else .ok (slice c.buf c.offset (c.offset + n), { c with offset := c.offset + n })

def readU8 : BorshReader Nat := do
  let bytes ← readRaw 1 "u8"
  return ofBytes bytes

def readU16 : BorshReader Nat := do
  let bytes ← readRaw 2 "u16"
  return ofBytes bytes

def readU32 : BorshReader Nat := do
  let bytes ← readRaw 4 "u32"
  return ofBytes bytes

def readU64 : BorshReader Nat := do
  let bytes ← readRaw 8 "u64"
  return ofBytes bytes

def readI64 : BorshReader Int := do
  let bytes ← readRaw 8 "i64"
  return signed 8 (ofBytes bytes)

/-- A byte that must be 0 or 1; the cursor stays on any other. -/
def readFlag (what : String) (invalid : Nat → Nat → BorshError) : BorshReader Bool := fun c =>
  if remaining c < 1 then .error (.endOfBuffer what 1 c.offset (remaining c))
  else
    let b := (c.buf.getD c.offset 0).toNat
    if b ≠ 0 ∧ b ≠ 1 then .error (invalid b c.offset)
    else .ok (b = 1, { c with offset := c.offset + 1 })

def readBool : BorshReader Bool := readFlag "bool" .invalidBool

def readBytes (n : Nat) : BorshReader (List UInt8) := readRaw n s!"{n} raw bytes"

def readVec {α : Type} (itemReader : BorshReader α) : BorshReader (List α) := do
  let len ← readU32
  times itemReader len

def readPubkey : BorshReader PublicKey := do
  let bytes ← readBytes 32
  match PublicKey.fromBytes bytes with
  | .ok key => return key
  | .error e => throw (.publicKey e)

def readString : BorshReader String := do
  let len ← readU32
  let bytes ← readBytes len
  match Utf8.decodeFatal bytes with
  | some s => return s
  | none => throw .malformedUtf8

/-! ## Writer -/

/-- The written bytes are the first `length` of the buffer. -/
structure Writer where
  buf : List UInt8
  length : Nat
  fits : length ≤ buf.length
  allocated : 0 < buf.length

namespace Writer

def initialCapacity : Nat := 128

def new : Writer where
  buf := List.replicate initialCapacity 0
  length := 0
  fits := Nat.zero_le _
  allocated := by
    rw [List.length_replicate]
    decide

/-- `while (next < required) next *= 2`; `required` turns are always enough. -/
def growLoop (required : Nat) : Nat → Nat → Nat
  | 0, next => next
  | turns + 1, next => if next < required then growLoop required turns (next * 2) else next

theorem le_growLoop (required : Nat) (turns : Nat) :
    ∀ next, 0 < next → required ≤ next + turns →
      next ≤ growLoop required turns next ∧ required ≤ growLoop required turns next := by
  induction turns with
  | zero => exact fun next _ hle => ⟨Nat.le_refl _, hle⟩
  | succ turns ih =>
      intro next hpos hle
      rw [growLoop]
      by_cases hshort : next < required
      · rw [if_pos hshort]
        obtain ⟨hgrown, hroom⟩ := ih (next * 2) (by omega) (by omega)
        exact ⟨by omega, hroom⟩
      · rw [if_neg hshort]
        exact ⟨Nat.le_refl _, Nat.le_of_not_lt hshort⟩

def ensureCapacity (w : Writer) (n : Nat) : Writer :=
  let required := w.length + n
  if required ≤ w.buf.length then w
  else
    let next := growLoop required required w.buf.length
    { buf := w.buf.take w.length ++ List.replicate (next - w.length) 0
      length := w.length
      fits := by
        rw [List.length_append, List.length_take_of_le w.fits]
        exact Nat.le_add_right _ _
      allocated := by
        have hgrown := (le_growLoop required required w.buf.length w.allocated
          (Nat.le_add_left _ _)).1
        have hpos := w.allocated
        have hfits := w.fits
        rw [List.length_append, List.length_take_of_le w.fits, List.length_replicate]
        show 0 < w.length + (growLoop required required w.buf.length - w.length)
        omega }

@[simp] theorem length_ensureCapacity (w : Writer) (n : Nat) :
    (w.ensureCapacity n).length = w.length := by
  unfold ensureCapacity
  dsimp only
  split
  · rfl
  · rfl

theorem room (w : Writer) (n : Nat) :
    (w.ensureCapacity n).length + n ≤ (w.ensureCapacity n).buf.length := by
  rw [length_ensureCapacity]
  unfold ensureCapacity
  dsimp only
  split
  · rename_i h
    exact h
  · have hroom := (le_growLoop (w.length + n) (w.length + n) w.buf.length w.allocated
      (Nat.le_add_left _ _)).2
    rw [List.length_append, List.length_take_of_le w.fits, List.length_replicate]
    omega

/-- A store at the end of what is written; there is room for it. -/
def store (w : Writer) (bytes : List UInt8) (h : w.length + bytes.length ≤ w.buf.length) :
    Writer :=
  have hlen : (w.buf.take w.length ++ bytes ++ w.buf.drop (w.length + bytes.length)).length =
      w.buf.length := by
    rw [List.length_append, List.length_append, List.length_take_of_le w.fits, List.length_drop]
    omega
  { buf := w.buf.take w.length ++ bytes ++ w.buf.drop (w.length + bytes.length)
    length := w.length + bytes.length
    fits := by
      rw [hlen]
      exact h
    allocated := by
      rw [hlen]
      exact w.allocated }

def put (w : Writer) (bytes : List UInt8) : Writer :=
  (w.ensureCapacity bytes.length).store bytes (w.room bytes.length)

def writeU8 (w : Writer) (v : Int) : Writer := w.put (LittleEndian.toBytes 1 (wrap 1 v))

def writeU16 (w : Writer) (v : Int) : Writer := w.put (LittleEndian.toBytes 2 (wrap 2 v))

def writeU32 (w : Writer) (v : Int) : Writer := w.put (LittleEndian.toBytes 4 (wrap 4 v))

def writeU64 (w : Writer) (v : Int) : Writer := w.put (LittleEndian.toBytes 8 (wrap 8 v))

def writeI64 (w : Writer) (v : Int) : Writer := w.put (LittleEndian.toBytes 8 (wrap 8 v))

def writeBool (w : Writer) (v : Bool) : Writer := w.writeU8 (if v then 1 else 0)

def writeBytes (w : Writer) (bytes : List UInt8) : Writer := w.put bytes

def writeString (w : Writer) (s : String) : Writer :=
  let bytes := Utf8.utf8 s
  (w.writeU32 bytes.length).writeBytes bytes

def writeVec {α : Type} (w : Writer) (items : List α) (itemWriter : Writer → α → Writer) : Writer :=
  items.foldl itemWriter (w.writeU32 items.length)

def writePubkey (w : Writer) (pk : PublicKey) : Writer := w.writeBytes pk.bytes

/-- `toBytes()`. -/
def toBytes (w : Writer) : List UInt8 := w.buf.take w.length

end Writer

/-! ## Values -/

inductive JsValue where
  | number (n : Int)
  | bigint (n : Int)
  | boolean (b : Bool)
  | bytes (bytes : List UInt8)
  | string (s : String)
  | array (items : List JsValue)
  | publicKey (key : PublicKey)
  | null

inductive BorshType where
  | u8 | u16 | u32 | u64 | i64 | bool
  | bytes (n : Nat)
  | string
  | vec (item : BorshType)
  | option (item : BorshType)
  | pubkey
  deriving DecidableEq, Repr

/-- `null`, or the item behind a flag. -/
def readOption (itemReader : BorshReader JsValue) : BorshReader JsValue := do
  let some? ← readFlag "option discriminant" .invalidOption
  if some? then itemReader else return .null

def Writer.writeOption (w : Writer) (value : JsValue) (itemWriter : Writer → JsValue → Writer) :
    Writer :=
  match value with
  | .null => w.writeU8 0
  | value => itemWriter (w.writeU8 1) value

/-- The methods that match a type, nested as the type is. -/
def readValue : BorshType → BorshReader JsValue
  | .u8 => do return .number (← readU8)
  | .u16 => do return .number (← readU16)
  | .u32 => do return .number (← readU32)
  | .u64 => do return .bigint (← readU64)
  | .i64 => do return .bigint (← readI64)
  | .bool => do return .boolean (← readBool)
  | .bytes n => do return .bytes (← readBytes n)
  | .string => do return .string (← readString)
  | .vec item => do return .array (← readVec (readValue item))
  | .option item => readOption (readValue item)
  | .pubkey => do return .publicKey (← readPubkey)

/-- A value of another type is not written. -/
def writeValue : BorshType → Writer → JsValue → Writer
  | .u8, w, .number n => w.writeU8 n
  | .u16, w, .number n => w.writeU16 n
  | .u32, w, .number n => w.writeU32 n
  | .u64, w, .bigint n => w.writeU64 n
  | .i64, w, .bigint n => w.writeI64 n
  | .bool, w, .boolean b => w.writeBool b
  | .bytes _, w, .bytes bytes => w.writeBytes bytes
  | .string, w, .string s => w.writeString s
  | .vec item, w, .array items => w.writeVec items (writeValue item)
  | .option item, w, value => w.writeOption value (writeValue item)
  | .pubkey, w, .publicKey key => w.writePubkey key
  | _, w, _ => w

def readAll : List BorshType → BorshReader (List JsValue)
  | [] => return []
  | t :: ts => do
      let value ← readValue t
      let values ← readAll ts
      return value :: values

def writeAll (w : Writer) (items : List (BorshType × JsValue)) : Writer :=
  items.foldl (fun w item => writeValue item.1 w item.2) w

end Ap3xSolana.Core.Borsh
