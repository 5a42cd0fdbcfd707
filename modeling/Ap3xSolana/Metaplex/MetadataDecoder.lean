import Ap3xSolana.Core.BorshRoundTrip
import Mathlib.Data.List.DropRight

/-!
# `decodeMetadata`

The account of a Metaplex record, whose optional blocks may be cut off.  Where they are, the
complete blocks are there and nothing of the one that is cut.
-/

namespace Ap3xSolana.Metaplex

open Ap3xSolana.Core Ap3xSolana.Core.Borsh
open Ap3xSolana.Lib Ap3xSolana.Lib.Cursor Ap3xSolana.Lib.LittleEndian Ap3xSolana.Lib.Reading

/-! ## Accounts -/

inductive MetadataVersion where
  | v1
  | v13
  | current
  deriving DecidableEq, Repr

inductive TokenStandard where
  | nonFungible
  | fungibleAsset
  | fungible
  | nonFungibleEdition
  | programmableNonFungible
  deriving DecidableEq, Repr

inductive UseMethod where
  | burn
  | multiple
  | single
  deriving DecidableEq, Repr

def tokenStandardVariants : List TokenStandard :=
  [.nonFungible, .fungibleAsset, .fungible, .nonFungibleEdition, .programmableNonFungible]

def useMethodVariants : List UseMethod := [.burn, .multiple, .single]

structure Creator where
  address : PublicKey
  verified : Bool
  share : Nat
  deriving DecidableEq

structure CollectionField where
  verified : Bool
  key : PublicKey
  deriving DecidableEq

structure UsesField where
  useMethod : UseMethod
  remaining : Nat
  total : Nat
  deriving DecidableEq, Repr

structure CollectionDetailsField where
  size : Nat
  deriving DecidableEq, Repr

structure MetadataBase where
  key : Nat
  updateAuthority : PublicKey
  mint : PublicKey
  name : String
  symbol : String
  uri : String
  sellerFeeBasisPoints : Nat
  creators : Option (List Creator)
  primarySaleHappened : Bool
  isMutable : Bool
  deriving DecidableEq

/-- The fields of the optional blocks. -/
structure OptionalFields where
  editionNonce : Option Nat := none
  tokenStandard : Option TokenStandard := none
  collection : Option CollectionField := none
  uses : Option UsesField := none
  collectionDetails : Option CollectionDetailsField := none
  deriving DecidableEq

structure MetadataAccount extends MetadataBase, OptionalFields where
  version : MetadataVersion
  deriving DecidableEq

/-! ## Errors -/

inductive MetaplexError where
  | borsh (e : BorshError)
  | invalidCOptionTag (tag : Nat) (field : String)
  | invalidUseMethod (b : Nat)
  | unsupportedCollectionDetails (variant : Nat)
  | invalidTokenStandard (b : Nat)
  deriving DecidableEq, Repr

def MetaplexError.message : MetaplexError → String
  | .borsh e => e.message
  | .invalidCOptionTag tag field =>
      s!"metaplex: invalid COption tag {tag} for {field} — expected 0 or 1"
  | .invalidUseMethod b => s!"metaplex: invalid Uses.useMethod variant {b} — expected 0..2"
  | .unsupportedCollectionDetails variant =>
      s!"metaplex: unsupported CollectionDetails variant {variant} — " ++
        "only V1 (size:u64) is known"
  | .invalidTokenStandard b =>
      s!"metaplex: invalid TokenStandard variant {b} — expected 0..4"

/-- `err.message.startsWith(text)`. -/
def MetaplexError.startsWith (e : MetaplexError) (text : String) : Bool :=
  text.toList.isPrefixOf e.message.toList

def isEndOfBuffer (e : MetaplexError) : Bool := e.startsWith "borsh: unexpected end of buffer"

def isTolerableV13Error (e : MetaplexError) : Bool :=
  isEndOfBuffer e || e.startsWith "metaplex: invalid COption tag"

/-! ## Field readers -/

abbrev MetaplexReader (α : Type) := Reader MetaplexError UInt8 α

def borsh {α : Type} (r : BorshReader α) : MetaplexReader α := mapError .borsh r

def readMetaplexCOption {α : Type} (field : String) (read : MetaplexReader α) :
    MetaplexReader (Option α) := do
  let tag ← borsh readU8
  if tag = 0 then return none
  else if tag = 1 then
    let value ← read
    return some value
  else throw (.invalidCOptionTag tag field)

/-- Trailing NULs are padding. -/
def stripNulPadding (s : String) : String := String.ofList (s.toList.rdropWhile (· = '\x00'))

def readCreator : BorshReader Creator := do
  let address ← readPubkey
  let verified ← readBool
  let share ← readU8
  return { address, verified, share }

def readCollection : MetaplexReader CollectionField := do
  let verified ← borsh readBool
  let key ← borsh readPubkey
  return { verified, key }

def readUses : MetaplexReader UsesField := do
  let methodByte ← borsh readU8
  match useMethodVariants[methodByte]? with
  | none => throw (.invalidUseMethod methodByte)
  | some useMethod =>
      let remaining ← borsh readU64
      let total ← borsh readU64
      return { useMethod, remaining, total }

def readCollectionDetails : MetaplexReader CollectionDetailsField := do
  let variant ← borsh readU8
  if variant ≠ 0 then throw (.unsupportedCollectionDetails variant)
  else
    let size ← borsh readU64
    return { size }

def readTokenStandard : MetaplexReader TokenStandard := do
  let b ← borsh readU8
  match tokenStandardVariants[b]? with
  | none => throw (.invalidTokenStandard b)
  | some v => return v

/-- The base header, which is always there. -/
def readBase : MetaplexReader MetadataBase := do
  let key ← borsh readU8
  let updateAuthority ← borsh readPubkey
  let mint ← borsh readPubkey
  let name ← borsh readString
  let symbol ← borsh readString
  let uri ← borsh readString
  let sellerFeeBasisPoints ← borsh readU16
  let creators ← readMetaplexCOption "creators" (borsh (readVec readCreator))
  let primarySaleHappened ← borsh readBool
  let isMutable ← borsh readBool
  return { key, updateAuthority, mint, name := stripNulPadding name
           symbol := stripNulPadding symbol, uri := stripNulPadding uri
           sellerFeeBasisPoints, creators, primarySaleHappened, isMutable }

/-! ## Optional blocks -/

/-- The variables that a `try` assigns; what is assigned before an error stays assigned. -/
structure Locals extends OptionalFields where
  version : MetadataVersion := .v1
  deriving DecidableEq

/-- The reader and the variables, in front of a statement and behind it or where it throws. -/
abbrev Block (α : Type) := Input UInt8 × Locals → Except MetaplexError α × (Input UInt8 × Locals)

namespace Block

/-- `x = read(r)`, and the statements behind it.  A read that throws leaves the cursor
somewhere; each `catch` puts it back. -/
def assign {α β : Type} (read : MetaplexReader α) (set : α → Locals → Locals) (next : Block β) :
    Block β := fun st =>
  match read st.1 with
  | .ok (value, r) => next (r, set value st.2)
  | .error e => (.error e, st)

/-- The last statement. -/
def set (f : Locals → Locals) : Block Unit := fun st => (.ok (), (st.1, f st.2))

/-- `if (r.remaining() > 0)`. -/
def ifRemaining (block : Block Unit) : Block Unit := fun st =>
  if 0 < remaining st.1 then block st else (.ok (), st)

/-- `try` with a `catch` that puts the reader and the variables of the block back, unless it
throws the error again; whether the block got through. -/
def attempt (block : Block Unit) (tolerable : MetaplexError → Bool) (reset : Locals → Locals) :
    Block Bool := fun st =>
  match block st with
  | (.ok (), st') => (.ok true, st')
  | (.error e, (r, locals)) =>
      if tolerable e then (.ok false, ({ r with offset := st.1.offset }, reset locals))
      else (.error e, (r, locals))

end Block

open Block

def readEditionNonce : Block Unit :=
  ifRemaining <|
    assign (readMetaplexCOption "editionNonce" (borsh readU8))
      (fun editionNonce l => { l with editionNonce }) <|
    set id

def readV13 : Block Unit :=
  ifRemaining <|
    assign (readMetaplexCOption "tokenStandard" readTokenStandard)
      (fun tokenStandard l => { l with tokenStandard }) <|
    assign (readMetaplexCOption "collection" readCollection)
      (fun collection l => { l with collection }) <|
    assign (readMetaplexCOption "uses" readUses) (fun uses l => { l with uses }) <|
    set fun l => { l with version := .v13 }

def readCurrent : Block Unit :=
  ifRemaining <|
    assign (readMetaplexCOption "collectionDetails" readCollectionDetails)
      (fun collectionDetails l => { l with collectionDetails }) <|
    set fun l => { l with version := .current }

def attemptEditionNonce : Block Bool := attempt readEditionNonce isEndOfBuffer id

def resetV13 (l : Locals) : Locals :=
  { l with tokenStandard := none, collection := none, uses := none }

def attemptV13 : Block Bool := attempt readV13 isTolerableV13Error resetV13

def resetCurrent (l : Locals) : Locals := { l with collectionDetails := none }

def attemptCurrent : Block Bool := attempt readCurrent isTolerableV13Error resetCurrent

/-- A `catch` that returns, or the code behind the `try`. -/
def orReturn (attempted : Block Bool) (next : Input UInt8 × Locals → Except MetaplexError Locals)
    (st : Input UInt8 × Locals) : Except MetaplexError Locals :=
  match attempted st with
  | (.error e, _) => .error e
  | (.ok false, st) => .ok st.2
  | (.ok true, st) => next st

def readOptional : Input UInt8 × Locals → Except MetaplexError Locals :=
  orReturn attemptEditionNonce <| orReturn attemptV13 <| orReturn attemptCurrent fun st =>
    .ok st.2

def decodeMetadata (data : List UInt8) : Except MetaplexError MetadataAccount := do
  let (base, r) ← readBase ⟨data, 0⟩
  let locals ← readOptional (r, {})
  return { base with toOptionalFields := locals.toOptionalFields, version := locals.version }

/-! ## Records -/

def padded (s : String) (n : Nat) : String := String.ofList (s.toList ++ List.replicate n '\x00')

/-- A text that is its own before the padding, and that a 32-bit length stands for. -/
structure TextFits (s : String) (padding : Nat) : Prop where
  unpadded : s.toList.getLast? ≠ some '\x00'
  short : (Utf8.utf8 (padded s padding)).length < 256 ^ 4
  markFree : (padded s padding).toList.head? ≠ some Utf8.byteOrderMark

/-- How many NULs stand behind the three texts. -/
structure Padding where
  name : Nat
  symbol : Nat
  uri : Nat

structure MetadataBase.Fits (b : MetadataBase) (padding : Padding) : Prop where
  key : b.key < 256 ^ 1
  name : TextFits b.name padding.name
  symbol : TextFits b.symbol padding.symbol
  uri : TextFits b.uri padding.uri
  sellerFeeBasisPoints : b.sellerFeeBasisPoints < 256 ^ 2
  creators : ∀ creators ∈ b.creators, creators.length < 256 ^ 4 ∧
    ∀ creator ∈ creators, creator.share < 256 ^ 1

structure OptionalFields.Fit (f : OptionalFields) : Prop where
  editionNonce : ∀ nonce ∈ f.editionNonce, nonce < 256 ^ 1
  uses : ∀ uses ∈ f.uses, uses.remaining < 256 ^ 8 ∧ uses.total < 256 ^ 8
  collectionDetails : ∀ details ∈ f.collectionDetails, details.size < 256 ^ 8

/-- A well-formed record, with each block. -/
structure MetadataRecord where
  base : MetadataBase
  padding : Padding
  fields : OptionalFields
  baseFits : base.Fits padding
  fieldsFit : fields.Fit

def encodeBool (b : Bool) : List UInt8 := [if b then 1 else 0]

def encodeString (s : String) : List UInt8 := toBytes 4 (Utf8.utf8 s).length ++ Utf8.utf8 s

def encodeCOption {α : Type} (enc : α → List UInt8) : Option α → List UInt8
  | none => toBytes 1 0
  | some a => toBytes 1 1 ++ enc a

def TokenStandard.byte : TokenStandard → Nat
  | .nonFungible => 0
  | .fungibleAsset => 1
  | .fungible => 2
  | .nonFungibleEdition => 3
  | .programmableNonFungible => 4

def UseMethod.byte : UseMethod → Nat
  | .burn => 0
  | .multiple => 1
  | .single => 2

def Creator.encode (c : Creator) : List UInt8 :=
  c.address.bytes ++ (encodeBool c.verified ++ toBytes 1 c.share)

def CollectionField.encode (c : CollectionField) : List UInt8 :=
  encodeBool c.verified ++ c.key.bytes

def UsesField.encode (u : UsesField) : List UInt8 :=
  toBytes 1 u.useMethod.byte ++ (toBytes 8 u.remaining ++ toBytes 8 u.total)

def CollectionDetailsField.encode (d : CollectionDetailsField) : List UInt8 :=
  toBytes 1 0 ++ toBytes 8 d.size

def encodeCreators (creators : List Creator) : List UInt8 :=
  toBytes 4 creators.length ++ creators.flatMap Creator.encode

def MetadataBase.encode (b : MetadataBase) (padding : Padding) : List UInt8 :=
  toBytes 1 b.key ++ (b.updateAuthority.bytes ++ (b.mint.bytes ++
    (encodeString (padded b.name padding.name) ++
      (encodeString (padded b.symbol padding.symbol) ++
        (encodeString (padded b.uri padding.uri) ++ (toBytes 2 b.sellerFeeBasisPoints ++
          (encodeCOption encodeCreators b.creators ++ (encodeBool b.primarySaleHappened ++
            encodeBool b.isMutable))))))))

namespace OptionalFields

def editionNonceBytes (f : OptionalFields) : List UInt8 := encodeCOption (toBytes 1) f.editionNonce

def v13Bytes (f : OptionalFields) : List UInt8 :=
  encodeCOption (fun standard => toBytes 1 standard.byte) f.tokenStandard ++
    (encodeCOption CollectionField.encode f.collection ++ encodeCOption UsesField.encode f.uses)

def currentBytes (f : OptionalFields) : List UInt8 :=
  encodeCOption CollectionDetailsField.encode f.collectionDetails

end OptionalFields

namespace MetadataRecord

def baseBytes (r : MetadataRecord) : List UInt8 := r.base.encode r.padding

def bytes (r : MetadataRecord) : List UInt8 :=
  r.baseBytes ++ (r.fields.editionNonceBytes ++ (r.fields.v13Bytes ++ r.fields.currentBytes))

def baseEnd (r : MetadataRecord) : Nat := r.baseBytes.length

def editionNonceEnd (r : MetadataRecord) : Nat := r.baseEnd + r.fields.editionNonceBytes.length

def v13End (r : MetadataRecord) : Nat := r.editionNonceEnd + r.fields.v13Bytes.length

def currentEnd (r : MetadataRecord) : Nat := r.v13End + r.fields.currentBytes.length

/-- The account that `n` bytes of the record stand for: the fields of the complete blocks. -/
def seen (r : MetadataRecord) (n : Nat) : MetadataAccount where
  toMetadataBase := r.base
  editionNonce := if r.editionNonceEnd ≤ n then r.fields.editionNonce else none
  tokenStandard := if r.v13End ≤ n then r.fields.tokenStandard else none
  collection := if r.v13End ≤ n then r.fields.collection else none
  uses := if r.v13End ≤ n then r.fields.uses else none
  collectionDetails := if r.currentEnd ≤ n then r.fields.collectionDetails else none
  version := if r.currentEnd ≤ n then .current else if r.v13End ≤ n then .v13 else .v1

end MetadataRecord

/-! ## Reading the fields -/

/-- What a reader makes of a field, or of less than the field. -/
abbrev Gives {α : Type} (r : MetaplexReader α) (part : List UInt8) (a : α) : Prop :=
  Exactly (fun e => isEndOfBuffer e = true) r part a

theorem isEndOfBuffer_of {e : BorshError} (h : IsEndOfBuffer e) :
    isEndOfBuffer (.borsh e) = true := by
  obtain ⟨what, needed, offset, left, rfl, -⟩ := h
  have hstart : "borsh: unexpected end of buffer reading ".toList =
      "borsh: unexpected end of buffer".toList ++ " reading ".toList := by decide +kernel
  unfold isEndOfBuffer MetaplexError.startsWith MetaplexError.message BorshError.message
  rw [List.isPrefixOf_iff_prefix]
  simp only [String.toList_append, toString, hstart, List.append_assoc]
  exact List.prefix_append _ _

theorem gives_borsh {α : Type} {r : BorshReader α} {part : List UInt8} {a : α}
    (h : Recovers r part a) : Gives (borsh r) part a :=
  Exactly.mapError (P := IsEndOfBuffer) ⟨h.reads, h.starves⟩ fun _ => isEndOfBuffer_of

theorem gives_u8 {n : Nat} (h : n < 256 ^ 1) : Gives (borsh readU8) (toBytes 1 n) n :=
  gives_borsh (recovers_nat "u8" h)

theorem gives_u64 {n : Nat} (h : n < 256 ^ 8) : Gives (borsh readU64) (toBytes 8 n) n :=
  gives_borsh (recovers_nat "u64" h)

theorem recovers_text {s : String} {padding : Nat} (h : TextFits s padding) :
    Recovers readString (encodeString (padded s padding)) (padded s padding) := by
  have hread := recovers_readString h.short
  rw [(Utf8.dropMark_eq_iff _).2 h.markFree] at hread
  rwa [wrap_of_nonneg (Int.natCast_nonneg _) (Int.ofNat_lt.2 h.short)] at hread

theorem gives_copt {α : Type} (field : String) {read : MetaplexReader α} {enc : α → List UInt8}
    {value : Option α} (h : ∀ a ∈ value, Gives read (enc a) a) :
    Gives (readMetaplexCOption field read) (encodeCOption enc value) value := by
  cases value with
  | none =>
      have hread : Gives (readMetaplexCOption field read) (toBytes 1 0 ++ []) none :=
        Exactly.bind (gives_u8 (by decide)) (Exactly.pure none)
      rwa [List.append_nil] at hread
  | some a =>
      exact Exactly.bind (gives_u8 (by decide)) (h a rfl).map

theorem gives_tokenStandard (standard : TokenStandard) :
    Gives readTokenStandard (toBytes 1 standard.byte) standard := by
  have hbyte : standard.byte < 256 ^ 1 := by cases standard <;> decide
  rw [← List.append_nil (toBytes 1 _)]
  apply Exactly.bind (gives_u8 hbyte)
  cases standard <;> exact Exactly.pure _

theorem gives_collection (c : CollectionField) : Gives readCollection c.encode c :=
  Exactly.bind (gives_borsh (recovers_readBool c.verified))
    (gives_borsh (recovers_readPubkey c.key)).map

theorem gives_uses {u : UsesField} (h : u.remaining < 256 ^ 8 ∧ u.total < 256 ^ 8) :
    Gives readUses u.encode u := by
  obtain ⟨useMethod, remaining, total⟩ := u
  have hbyte : useMethod.byte < 256 ^ 1 := by cases useMethod <;> decide
  apply Exactly.bind (gives_u8 hbyte)
  cases useMethod <;> exact Exactly.bind (gives_u64 h.1) (gives_u64 h.2).map

theorem gives_collectionDetails {d : CollectionDetailsField} (h : d.size < 256 ^ 8) :
    Gives readCollectionDetails d.encode d :=
  Exactly.bind (gives_u8 (by decide)) (gives_u64 h).map

theorem recovers_creator {c : Creator} (h : c.share < 256 ^ 1) :
    Recovers readCreator c.encode c :=
  (recovers_readPubkey c.address).bind ((recovers_readBool c.verified).bind
    ((recovers_nat "u8" h).map fun share => Creator.mk c.address c.verified share))

theorem recovers_creators {creators : List Creator} (hlen : creators.length < 256 ^ 4)
    (h : ∀ c ∈ creators, c.share < 256 ^ 1) :
    Recovers (readVec readCreator) (encodeCreators creators) creators := by
  have hitems : Recovers (Reading.times readCreator creators.length) _ (creators.map id) :=
    Recovers.times fun c hc => recovers_creator (h c hc)
  rw [List.map_id] at hitems
  exact (recovers_nat "u32" hlen).bind hitems

theorem stripNulPadding_padded {s : String} (h : s.toList.getLast? ≠ some '\x00') (n : Nat) :
    stripNulPadding (padded s n) = s := by
  unfold stripNulPadding padded
  rw [String.toList_ofList, ← String.toList_inj, String.toList_ofList, List.rdropWhile,
    List.reverse_append, List.reverse_replicate, List.dropWhile_append_of_pos fun c hc => by
      rw [List.eq_of_mem_replicate hc]
      decide]
  rw [← List.rdropWhile, List.rdropWhile_eq_self_iff]
  intro hne hlast
  exact h (by rw [List.getLast?_eq_some_getLast hne, of_decide_eq_true hlast])

theorem gives_base {b : MetadataBase} {padding : Padding} (h : b.Fits padding) :
    Gives readBase (b.encode padding) b := by
  have hbase : Gives readBase (b.encode padding)
      { b with
        name := stripNulPadding (padded b.name padding.name)
        symbol := stripNulPadding (padded b.symbol padding.symbol)
        uri := stripNulPadding (padded b.uri padding.uri) } := by
    apply Exactly.bind (gives_u8 h.key)
    apply Exactly.bind (gives_borsh (recovers_readPubkey b.updateAuthority))
    apply Exactly.bind (gives_borsh (recovers_readPubkey b.mint))
    apply Exactly.bind (gives_borsh (recovers_text h.name))
    apply Exactly.bind (gives_borsh (recovers_text h.symbol))
    apply Exactly.bind (gives_borsh (recovers_text h.uri))
    apply Exactly.bind (gives_borsh (recovers_nat "u16" h.sellerFeeBasisPoints))
    apply Exactly.bind (gives_copt "creators" fun creators hcreators =>
      gives_borsh (recovers_creators (h.creators creators hcreators).1
        (h.creators creators hcreators).2))
    apply Exactly.bind (gives_borsh (recovers_readBool b.primarySaleHappened))
    exact (gives_borsh (recovers_readBool b.isMutable)).map
  rwa [stripNulPadding_padded h.name.unpadded, stripNulPadding_padded h.symbol.unpadded,
    stripNulPadding_padded h.uri.unpadded] at hbase

/-! ## Blocks that are cut -/

/-- The block reads `part` and sets the variables.  Where the input ends inside `part` it
runs out of it, and its variables are the only ones that have changed. -/
structure Assigns (block : Block Unit) (part : List UInt8) (set reset : Locals → Locals) :
    Prop where
  complete : ∀ buf off rest locals, At buf off (part ++ rest) →
    block (⟨buf, off⟩, locals) = (.ok (), (⟨buf, off + part.length⟩, set locals))
  cut : ∀ buf off seen locals, seen <+: part → seen ≠ part → At buf off seen →
    ∃ e off' locals', block (⟨buf, off⟩, locals) = (.error e, (⟨buf, off'⟩, locals')) ∧
      isEndOfBuffer e = true ∧ reset locals' = reset locals

theorem Assigns.set (f reset : Locals → Locals) : Assigns (Block.set f) [] f reset where
  complete := fun _ _ _ _ _ => rfl
  cut := fun _ _ _ _ hpfx hne _ => absurd (List.prefix_nil.1 hpfx) hne

theorem assign_ok {α : Type} {read : MetaplexReader α} {part : List UInt8} {a : α}
    (h : Gives read part a) (f : α → Locals → Locals) (next : Block Unit)
    {buf rest : List UInt8} {off : Nat} (locals : Locals) (hat : At buf off (part ++ rest)) :
    assign read f next (⟨buf, off⟩, locals) = next (⟨buf, off + part.length⟩, f a locals) := by
  unfold assign
  rw [h.reads buf off rest hat]

theorem Assigns.assign {α : Type} {read : MetaplexReader α} {part part' : List UInt8} {a : α}
    {f : α → Locals → Locals} {next : Block Unit} {set reset : Locals → Locals}
    (h : Gives read part a) (h' : Assigns next part' set reset)
    (hreset : part' ≠ [] → ∀ locals, reset (f a locals) = reset locals) :
    Assigns (Block.assign read f next) (part ++ part') (fun locals => set (f a locals)) reset where
  complete := by
    intro buf off rest locals hat
    rw [List.append_assoc] at hat
    rw [assign_ok h f next locals hat, h'.complete _ _ rest _ hat.next, List.length_append,
      Nat.add_assoc]
  cut := by
    intro buf off seen locals hpfx hne hat
    by_cases hpart : part <+: seen
    · obtain ⟨seen', rfl⟩ := hpart
      have hpfx' : seen' <+: part' := (List.prefix_append_right_inj part).1 hpfx
      have hne' : seen' ≠ part' := fun heq => hne (by rw [heq])
      have hpart' : part' ≠ [] := fun hnil => hne' (by
        rw [hnil] at hpfx' ⊢
        exact List.prefix_nil.1 hpfx')
      obtain ⟨e, off', locals', hrun, he, hlocals⟩ :=
        h'.cut buf (off + part.length) seen' (f a locals) hpfx' hne' hat.next
      refine ⟨e, off', locals', ?_, he, hlocals.trans (hreset hpart' locals)⟩
      rw [assign_ok h f next locals hat, hrun]
    · have hseen : seen <+: part :=
        (List.prefix_or_prefix_of_prefix hpfx (List.prefix_append part part')).resolve_right hpart
      obtain ⟨e, hrun, he⟩ := h.starves buf off seen hseen
        (fun heq => hpart (heq ▸ List.prefix_refl part)) hat
      refine ⟨e, off, locals, ?_, he, rfl⟩
      unfold Block.assign
      rw [hrun]

/-- After the `try`: the block's fields where the block is there whole, and nothing of it
where it is not; what is still to come follows. -/
theorem orReturn_take {block : Block Unit} {part : List UInt8} {set reset : Locals → Locals}
    (h : Assigns block part set reset) {tolerable : MetaplexError → Bool}
    (htolerable : ∀ e, isEndOfBuffer e = true → tolerable e = true) (hpart : part ≠ [])
    {buf later : List UInt8} {off n : Nat} {locals : Locals} (hlocals : reset locals = locals)
    (hat : At buf off ((part ++ later).take n))
    {next : Input UInt8 × Locals → Except MetaplexError Locals} (after : Nat → Locals → Locals)
    (hafter : after 0 locals = locals)
    (hnext : ∀ off', At buf off' (later.take (n - part.length)) →
      ∀ locals' ∈ [set locals, locals],
        next (⟨buf, off'⟩, locals') = .ok (after (n - part.length) locals')) :
    orReturn (attempt (ifRemaining block) tolerable reset) next (⟨buf, off⟩, locals) =
      .ok (if part.length ≤ n then after (n - part.length) (set locals) else locals) := by
  have hlength := hat.length
  have hpos := List.length_pos_iff.2 hpart
  rw [List.length_take, List.length_append] at hlength
  unfold orReturn attempt ifRemaining
  by_cases hn : n = 0
  · have hnone : ¬ 0 < remaining (⟨buf, off⟩ : Input UInt8) := by
      show ¬ 0 < buf.length - off
      omega
    subst hn
    rw [Nat.zero_sub] at hnext
    rw [if_neg hnone, if_neg (by omega)]
    show next (⟨buf, off⟩, locals) = _
    rw [hnext off hat locals (List.mem_cons_of_mem _ List.mem_cons_self), hafter]
  · have hsome : 0 < remaining (⟨buf, off⟩ : Input UInt8) := by
      show 0 < buf.length - off
      omega
    rw [if_pos hsome]
    by_cases hle : part.length ≤ n
    · rw [List.take_append, List.take_of_length_le hle] at hat
      rw [h.complete buf off _ locals hat, if_pos hle]
      exact hnext _ hat.next _ List.mem_cons_self
    · rw [List.take_append_of_le_length (by omega)] at hat
      have hne : part.take n ≠ part := fun heq => by
        have hlen := congrArg List.length heq
        rw [List.length_take] at hlen
        omega
      obtain ⟨e, off', locals', hrun, he, hreset⟩ :=
        h.cut buf off _ locals (List.take_prefix n part) hne hat
      rw [hrun, if_neg hle]
      dsimp only
      rw [if_pos (htolerable e he), hreset, hlocals]

/-! ## Every cut -/

variable {f : OptionalFields}

def OptionalFields.setEditionNonce (f : OptionalFields) (l : Locals) : Locals :=
  { l with editionNonce := f.editionNonce }

def OptionalFields.setV13 (f : OptionalFields) (l : Locals) : Locals :=
  { l with
    tokenStandard := f.tokenStandard
    collection := f.collection
    uses := f.uses
    version := .v13 }

def OptionalFields.setCurrent (f : OptionalFields) (l : Locals) : Locals :=
  { l with
    collectionDetails := f.collectionDetails
    version := .current }

theorem assigns_editionNonce (h : f.Fit) :
    Assigns (assign (readMetaplexCOption "editionNonce" (borsh readU8))
      (fun editionNonce l => { l with editionNonce }) (Block.set id)) f.editionNonceBytes
      f.setEditionNonce id := by
  rw [← List.append_nil f.editionNonceBytes]
  have hnonce := gives_copt "editionNonce" fun nonce hnonce =>
    gives_u8 (h.editionNonce nonce hnonce)
  exact Assigns.assign hnonce (Assigns.set id id) fun hne => absurd rfl hne

theorem assigns_v13 (h : f.Fit) :
    Assigns (assign (readMetaplexCOption "tokenStandard" readTokenStandard)
        (fun tokenStandard l => { l with tokenStandard }) <|
      assign (readMetaplexCOption "collection" readCollection)
        (fun collection l => { l with collection }) <|
      assign (readMetaplexCOption "uses" readUses) (fun uses l => { l with uses }) <|
      Block.set fun l => { l with version := .v13 }) f.v13Bytes
      f.setV13 resetV13 := by
  have hstandard : Gives _ _ f.tokenStandard :=
    gives_copt "tokenStandard" fun standard _ => gives_tokenStandard standard
  have hcollection : Gives _ _ f.collection :=
    gives_copt "collection" fun collection _ => gives_collection collection
  have huses := gives_copt "uses" fun uses huses => gives_uses (h.uses uses huses)
  have hlast := Assigns.assign huses (Assigns.set (fun l => { l with version := .v13 }) resetV13)
    (f := fun uses l => { l with uses }) fun _ _ => rfl
  rw [List.append_nil] at hlast
  exact Assigns.assign hstandard (Assigns.assign hcollection hlast fun _ _ => rfl) fun _ _ => rfl

theorem assigns_current (h : f.Fit) :
    Assigns (assign (readMetaplexCOption "collectionDetails" readCollectionDetails)
        (fun collectionDetails l => { l with collectionDetails }) <|
      Block.set fun l => { l with version := .current }) f.currentBytes
      f.setCurrent resetCurrent := by
  rw [← List.append_nil f.currentBytes]
  have hdetails := gives_copt "collectionDetails" fun details hdetails =>
    gives_collectionDetails (h.collectionDetails details hdetails)
  exact Assigns.assign hdetails (Assigns.set _ resetCurrent) fun _ _ => rfl

theorem encodeCOption_ne_nil {α : Type} (enc : α → List UInt8) (value : Option α) :
    encodeCOption enc value ≠ [] := by
  cases value with
  | none => exact List.cons_ne_nil _ _
  | some a => exact List.append_ne_nil_of_left_ne_nil (List.cons_ne_nil _ _) _

theorem isTolerableV13Error_of {e : MetaplexError} (h : isEndOfBuffer e = true) :
    isTolerableV13Error e = true := by
  rw [isTolerableV13Error, h]
  rfl

namespace OptionalFields

def afterCurrent (f : OptionalFields) (n : Nat) (locals : Locals) : Locals :=
  if f.currentBytes.length ≤ n then f.setCurrent locals else locals

def afterV13 (f : OptionalFields) (n : Nat) (locals : Locals) : Locals :=
  if f.v13Bytes.length ≤ n then f.afterCurrent (n - f.v13Bytes.length) (f.setV13 locals)
  else locals

/-- The variables after `n` bytes of the optional blocks. -/
def after (f : OptionalFields) (n : Nat) : Locals :=
  if f.editionNonceBytes.length ≤ n then
    f.afterV13 (n - f.editionNonceBytes.length) (f.setEditionNonce {})
  else {}

theorem editionNonceBytes_ne_nil (f : OptionalFields) : f.editionNonceBytes ≠ [] :=
  encodeCOption_ne_nil _ _

theorem v13Bytes_ne_nil (f : OptionalFields) : f.v13Bytes ≠ [] :=
  List.append_ne_nil_of_left_ne_nil (encodeCOption_ne_nil _ _) _

theorem currentBytes_ne_nil (f : OptionalFields) : f.currentBytes ≠ [] :=
  encodeCOption_ne_nil _ _

theorem afterCurrent_zero (f : OptionalFields) (locals : Locals) :
    f.afterCurrent 0 locals = locals :=
  if_neg (Nat.not_le.2 (List.length_pos_iff.2 f.currentBytes_ne_nil))

theorem afterV13_zero (f : OptionalFields) (locals : Locals) : f.afterV13 0 locals = locals :=
  if_neg (Nat.not_le.2 (List.length_pos_iff.2 f.v13Bytes_ne_nil))

end OptionalFields

section Cuts

variable {buf later : List UInt8} {off n : Nat} {locals : Locals}

theorem current_take (h : f.Fit) (hlocals : resetCurrent locals = locals)
    (hat : At buf off ((f.currentBytes ++ later).take n)) :
    orReturn attemptCurrent (fun st => .ok st.2) (⟨buf, off⟩, locals) =
      .ok (f.afterCurrent n locals) :=
  orReturn_take (assigns_current h) (fun _ => isTolerableV13Error_of) f.currentBytes_ne_nil hlocals
    hat (fun _ => id) rfl fun _ _ _ _ => rfl

theorem v13_take (h : f.Fit) (hcurrent : resetCurrent locals = locals)
    (hlocals : resetV13 locals = locals)
    (hat : At buf off ((f.v13Bytes ++ (f.currentBytes ++ later)).take n)) :
    orReturn attemptV13 (orReturn attemptCurrent fun st => .ok st.2) (⟨buf, off⟩, locals) =
      .ok (f.afterV13 n locals) := by
  apply orReturn_take (assigns_v13 h) (fun _ => isTolerableV13Error_of) f.v13Bytes_ne_nil hlocals
    hat f.afterCurrent (f.afterCurrent_zero locals)
  intro off' hat' locals' hlocals'
  apply current_take h _ hat'
  rcases List.mem_pair.1 hlocals' with rfl | rfl
  · exact congrArg f.setV13 hcurrent
  · exact hcurrent

theorem readOptional_take (h : f.Fit)
    (hat : At buf off
      ((f.editionNonceBytes ++ (f.v13Bytes ++ (f.currentBytes ++ later))).take n)) :
    readOptional (⟨buf, off⟩, {}) = .ok (f.after n) := by
  apply orReturn_take (assigns_editionNonce h) (fun _ => id) f.editionNonceBytes_ne_nil rfl hat
    f.afterV13 (f.afterV13_zero _)
  intro off' hat' locals' hlocals'
  rcases List.mem_pair.1 hlocals' with rfl | rfl
  · exact v13_take h rfl rfl hat'
  · exact v13_take h rfl rfl hat'

end Cuts

/-! ## Truncated records -/

/-- A block that is cut cuts the ones behind it as well. -/
theorem MetadataRecord.seen_eq (r : MetadataRecord) {n : Nat} (h : r.baseEnd ≤ n) :
    r.seen n = { r.base with
      toOptionalFields := (r.fields.after (n - r.baseEnd)).toOptionalFields
      version := (r.fields.after (n - r.baseEnd)).version } := by
  have hnonceEnd : r.editionNonceEnd = r.baseEnd + r.fields.editionNonceBytes.length := rfl
  have hv13End : r.v13End = r.editionNonceEnd + r.fields.v13Bytes.length := rfl
  have hcurrentEnd : r.currentEnd = r.v13End + r.fields.currentBytes.length := rfl
  have hv13 := List.length_pos_iff.2 r.fields.v13Bytes_ne_nil
  have hcurrent := List.length_pos_iff.2 r.fields.currentBytes_ne_nil
  have hnonce : r.fields.editionNonceBytes.length ≤ n - r.baseEnd ↔ r.editionNonceEnd ≤ n := by
    omega
  have hv : r.fields.v13Bytes.length ≤ n - r.baseEnd - r.fields.editionNonceBytes.length ↔
      r.v13End ≤ n := by omega
  have hc : r.fields.currentBytes.length ≤ n - r.baseEnd - r.fields.editionNonceBytes.length -
      r.fields.v13Bytes.length ↔ r.currentEnd ≤ n := by omega
  unfold seen OptionalFields.after OptionalFields.afterV13 OptionalFields.afterCurrent
  simp only [hnonce, hv, hc]
  by_cases hncomplete : r.editionNonceEnd ≤ n
  · by_cases hvcomplete : r.v13End ≤ n
    · by_cases hccomplete : r.currentEnd ≤ n
      · simp only [if_pos hncomplete, if_pos hvcomplete, if_pos hccomplete]
        rfl
      · simp only [if_pos hncomplete, if_pos hvcomplete, if_neg hccomplete]
        rfl
    · have hccut : ¬ r.currentEnd ≤ n := by omega
      simp only [if_pos hncomplete, if_neg hvcomplete, if_neg hccut]
      rfl
  · have hvcut : ¬ r.v13End ≤ n := by omega
    have hccut : ¬ r.currentEnd ≤ n := by omega
    simp only [if_neg hncomplete, if_neg hvcut, if_neg hccut]

/-- **Metadata versions degrade cleanly.**  Of a record and whatever follows it, `n` bytes
give the base fields and the complete blocks; where they end in the base fields, they are
refused. -/
theorem metadata_degrades (r : MetadataRecord) (later : List UInt8) (n : Nat) :
    (r.baseEnd ≤ n → decodeMetadata ((r.bytes ++ later).take n) = .ok (r.seen n)) ∧
    (n < r.baseEnd → ∃ e, decodeMetadata ((r.bytes ++ later).take n) = .error e) := by
  have hbase : Gives readBase r.baseBytes r.base := gives_base r.baseFits
  have hbytes : r.bytes ++ later = r.baseBytes ++ (r.fields.editionNonceBytes ++
      (r.fields.v13Bytes ++ (r.fields.currentBytes ++ later))) := by
    simp only [MetadataRecord.bytes, List.append_assoc]
  rw [hbytes]
  constructor
  · intro hle
    rw [List.take_append, List.take_of_length_le hle]
    have hat := At.start (r.baseBytes ++ (r.fields.editionNonceBytes ++ (r.fields.v13Bytes ++
      (r.fields.currentBytes ++ later))).take (n - r.baseBytes.length))
    unfold decodeMetadata
    rw [r.seen_eq hle, hbase.reads _ 0 _ hat]
    show (readOptional _).bind _ = _
    rw [readOptional_take r.fieldsFit hat.next]
    rfl
  · intro hlt
    rw [List.take_append_of_le_length (Nat.le_of_lt hlt)]
    have hne : r.baseBytes.take n ≠ r.baseBytes := fun heq => by
      have hlen := congrArg List.length heq
      rw [List.length_take] at hlen
      unfold MetadataRecord.baseEnd at hlt
      omega
    obtain ⟨e, hrun, -⟩ := hbase.starves _ 0 _ (List.take_prefix n _) hne (At.start _)
    unfold decodeMetadata
    rw [hrun]
    exact ⟨e, rfl⟩

end Ap3xSolana.Metaplex
