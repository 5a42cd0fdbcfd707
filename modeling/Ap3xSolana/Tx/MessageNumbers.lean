import Ap3xSolana.Tx.AccountList
import Ap3xSolana.Tx.TransactionAssembler

/-!
# The numbers of a message

`serializeMessage` collects plain numbers and narrows them all at the end, in
`new Uint8Array(out)`.  Here the numbers come before the narrowing (`messageNumbers`), and
the call that returns is compared with them: nothing is lost if and only if the accounts
are at most 256, at most 255 of them sign, and no looked-up account stands past position
255 of its table.
-/

namespace Ap3xSolana.Tx.MessageNumbers

open Ap3xSolana.Core Ap3xSolana.Lib Ap3xSolana.Lib.Grouping Ap3xSolana.Lib.Throwing
open Ap3xSolana.Tx.TransactionAssembler Ap3xSolana.Tx.CompileAccounts Ap3xSolana.Tx.RoundTrip
open Ap3xSolana.Tx.ReadBack Ap3xSolana.Tx.AccountList

/-! ## `out` before it is narrowed -/

def compactNumbers (n : Nat) : Except Thrown (List Nat) := do
  let bytes ← compactU16 n
  return bytes.map UInt8.toNat

/-- `pushCompactArrayU8`. -/
def arrayNumbers (items : List Nat) : Except Thrown (List Nat) := do
  let size ← compactNumbers items.length
  return size ++ items

def instructionNumbers (indexByBase58 : OrderedMap PublicKey Nat) (ix : Instruction) :
    Except Thrown (List Nat) := do
  let programIdIndex ← accountIndex indexByBase58 "program id" "account list" ix.programId
  let accountIndices ← ix.keys.mapM fun m =>
    accountIndex indexByBase58 "account" "resolved account list" m.pubkey
  let accounts ← arrayNumbers accountIndices
  let data ← arrayNumbers (ix.data.map UInt8.toNat)
  return [programIdIndex] ++ accounts ++ data

def lookupNumbers (lk : TableLookup) : Except Thrown (List Nat) := do
  let writable ← arrayNumbers lk.writableIndexes
  let readonly ← arrayNumbers lk.readonlyIndexes
  return lk.accountKey.bytes.map UInt8.toNat ++ writable ++ readonly

def messageNumbers (c : CompiledAccounts) (instructions : List Instruction)
    (recentBlockhashBytes : List UInt8) : Except Thrown (List Nat) := do
  let keyCount ← compactNumbers c.staticAccounts.length
  let ixCount ← compactNumbers instructions.length
  let ixs ← instructions.mapM (instructionNumbers c.indexByBase58)
  let lookups := buildAddressTableLookups c.altWritable c.altReadonly
  let lookupCount ← compactNumbers lookups.length
  let lookupParts ← lookups.mapM lookupNumbers
  return [0x80] ++ [c.numRequiredSignatures, c.numReadonlySigned, c.numReadonlyUnsigned] ++
    (keyCount ++ ((c.staticAccounts.map (·.pubkey.bytes)).flatten).map UInt8.toNat) ++
    recentBlockhashBytes.map UInt8.toNat ++ (ixCount ++ ixs.flatten) ++
    (lookupCount ++ lookupParts.flatten)

/-! ## Narrowing -/

/-- `new Uint8Array(out)`. -/
def narrow (out : List Nat) : List UInt8 := out.map UInt8.ofNat

/-- The bytes are what is left of the numbers, and both ways throw together. -/
def Narrows (numbers : Except Thrown (List Nat)) (bytes : Except Thrown (List UInt8)) : Prop :=
  bytes = numbers.map narrow

theorem narrows_compact (n : Nat) : Narrows (compactNumbers n) (compactU16 n) := by
  show compactU16 n = (compactNumbers n).map narrow
  unfold compactNumbers
  cases compactU16 n with
  | error e => rfl
  | ok bytes =>
      show Except.ok bytes = Except.ok (narrow (bytes.map UInt8.toNat))
      rw [narrow, map_ofNat_toNat]

theorem narrow_append (xs ys : List Nat) : narrow (xs ++ ys) = narrow xs ++ narrow ys :=
  List.map_append

theorem narrow_bytes (bytes : List UInt8) : narrow (bytes.map UInt8.toNat) = bytes :=
  map_ofNat_toNat bytes

theorem narrow_flatten (xss : List (List Nat)) :
    narrow xss.flatten = (xss.map narrow).flatten := by
  unfold narrow
  rw [List.map_flatten]

theorem narrows_array (items : List Nat) : Narrows (arrayNumbers items) (compactArrayU8 items) := by
  have hsize := narrows_compact items.length
  show compactArrayU8 items = (arrayNumbers items).map narrow
  unfold compactArrayU8 arrayNumbers
  rw [hsize]
  cases compactNumbers items.length with
  | error e => rfl
  | ok size =>
      show Except.ok (narrow size ++ narrow items) = Except.ok (narrow (size ++ items))
      rw [narrow_append]

theorem narrows_mapM {α : Type} {f : α → Except Thrown (List Nat)}
    {g : α → Except Thrown (List UInt8)} (h : ∀ a, Narrows (f a) (g a)) (xs : List α) :
    xs.mapM g = (xs.mapM f).map (List.map narrow) := by
  induction xs with
  | nil => rfl
  | cons x xs ih =>
      rw [List.mapM_cons, List.mapM_cons, h x, ih]
      cases f x with
      | error e => rfl
      | ok y =>
          cases xs.mapM f with
          | error e => rfl
          | ok ys => rfl

theorem narrows_instruction (indexByBase58 : OrderedMap PublicKey Nat) (ix : Instruction) :
    Narrows (instructionNumbers indexByBase58 ix) (serializeInstruction indexByBase58 ix) := by
  show serializeInstruction indexByBase58 ix = (instructionNumbers indexByBase58 ix).map narrow
  unfold serializeInstruction instructionNumbers
  cases accountIndex indexByBase58 "program id" "account list" ix.programId with
  | error e => rfl
  | ok programIdIndex =>
      cases ix.keys.mapM fun m =>
          accountIndex indexByBase58 "account" "resolved account list" m.pubkey with
      | error e => rfl
      | ok accountIndices =>
          have haccounts : compactArrayU8 accountIndices = _ := narrows_array accountIndices
          have hdata : compactArrayU8 (ix.data.map UInt8.toNat) = _ := narrows_array _
          simp only [bind, Except.bind, pure, Except.pure, haccounts, hdata]
          cases arrayNumbers accountIndices with
          | error e => rfl
          | ok accounts =>
              cases arrayNumbers (ix.data.map UInt8.toNat) with
              | error e => rfl
              | ok data =>
                  simp only [Except.map, narrow_append]
                  rfl

theorem narrows_lookup (lk : TableLookup) : Narrows (lookupNumbers lk) (serializeLookup lk) := by
  show serializeLookup lk = (lookupNumbers lk).map narrow
  unfold serializeLookup lookupNumbers
  have hwritable : compactArrayU8 lk.writableIndexes = _ := narrows_array _
  have hreadonly : compactArrayU8 lk.readonlyIndexes = _ := narrows_array _
  rw [hwritable, hreadonly]
  cases arrayNumbers lk.writableIndexes with
  | error e => rfl
  | ok writable =>
      cases arrayNumbers lk.readonlyIndexes with
      | error e => rfl
      | ok readonly =>
          simp only [Except.map, bind, Except.bind, pure, Except.pure, narrow_append,
            narrow_bytes]

theorem narrows_message (c : CompiledAccounts) (instructions : List Instruction)
    (blockhash : List UInt8) :
    Narrows (messageNumbers c instructions blockhash)
      (serializeMessage c instructions blockhash) := by
  show serializeMessage c instructions blockhash = _
  unfold serializeMessage messageNumbers
  have hkeys : compactU16 c.staticAccounts.length = _ := narrows_compact _
  have hcount : compactU16 instructions.length = _ := narrows_compact _
  have hixs := narrows_mapM (narrows_instruction c.indexByBase58) instructions
  have hlookupCount :
      compactU16 (buildAddressTableLookups c.altWritable c.altReadonly).length = _ :=
    narrows_compact _
  have hlookups := narrows_mapM narrows_lookup
    (buildAddressTableLookups c.altWritable c.altReadonly)
  simp only [bind, Except.bind, pure, Except.pure, hkeys, hcount, hixs, hlookupCount, hlookups]
  cases compactNumbers c.staticAccounts.length with
  | error e => rfl
  | ok keyCount =>
  cases compactNumbers instructions.length with
  | error e => rfl
  | ok ixCount =>
  cases instructions.mapM (instructionNumbers c.indexByBase58) with
  | error e => rfl
  | ok ixs =>
  cases compactNumbers (buildAddressTableLookups c.altWritable c.altReadonly).length with
  | error e => rfl
  | ok lookupCount =>
  cases (buildAddressTableLookups c.altWritable c.altReadonly).mapM lookupNumbers with
  | error e => rfl
  | ok lookupParts =>
      simp only [Except.map, narrow_append, narrow_bytes, narrow_flatten]
      rfl

/-! ## What fits a byte -/

def FitBytes (out : List Nat) : Prop := ∀ i ∈ out, i < 256

theorem fitBytes_append {xs ys : List Nat} :
    FitBytes (xs ++ ys) ↔ FitBytes xs ∧ FitBytes ys :=
  List.forall_mem_append

theorem fitBytes_bytes (bytes : List UInt8) : FitBytes (bytes.map UInt8.toNat) := by
  intro i hi
  obtain ⟨b, -, rfl⟩ := List.mem_map.1 hi
  exact b.toNat_lt

theorem fitBytes_flatten {xss : List (List Nat)} :
    FitBytes xss.flatten ↔ ∀ xs ∈ xss, FitBytes xs := by
  constructor
  · intro h xs hxs i hi
    exact h i (List.mem_flatten.2 ⟨xs, hxs, hi⟩)
  · intro h i hi
    obtain ⟨xs, hxs, hi⟩ := List.mem_flatten.1 hi
    exact h xs hxs i hi

/-- Narrowing loses nothing exactly on what fits. -/
theorem narrow_exact_iff {out : List Nat} : (narrow out).map UInt8.toNat = out ↔ FitBytes out := by
  constructor
  · intro h i hi
    rw [← h] at hi
    exact fitBytes_bytes _ i hi
  · exact map_toNat_ofNat

theorem fitBytes_compact {n : Nat} {out : List Nat} (h : compactNumbers n = .ok out) :
    FitBytes out := by
  obtain ⟨bytes, -, hout⟩ := bind_eq_ok.1 h
  rw [← pure_eq_ok.1 hout]
  exact fitBytes_bytes bytes

theorem fitBytes_array {items out : List Nat} (h : arrayNumbers items = .ok out) :
    FitBytes out ↔ FitBytes items := by
  obtain ⟨size, hsize, hout⟩ := bind_eq_ok.1 h
  rw [← pure_eq_ok.1 hout, fitBytes_append]
  exact and_iff_right (fitBytes_compact hsize)

theorem fitBytes_mapM {α : Type} {f : α → Except Thrown (List Nat)} {Fit : α → Prop}
    {xs : List α} (hfit : ∀ x ∈ xs, ∀ out, f x = .ok out → (FitBytes out ↔ Fit x)) :
    ∀ {outs : List (List Nat)}, xs.mapM f = .ok outs →
      (FitBytes outs.flatten ↔ ∀ x ∈ xs, Fit x) := by
  induction xs with
  | nil =>
      intro outs h
      cases h
      simp [FitBytes]
  | cons x xs ih =>
      intro outs h
      rw [List.mapM_cons, bind_eq_ok] at h
      obtain ⟨out, hout, h⟩ := h
      obtain ⟨rest, hrest, h⟩ := bind_eq_ok.1 h
      rw [← pure_eq_ok.1 h, List.flatten_cons, fitBytes_append,
        hfit x List.mem_cons_self out hout,
        ih (fun y hy => hfit y (List.mem_cons_of_mem x hy)) hrest, List.forall_mem_cons]

end Ap3xSolana.Tx.MessageNumbers
