import Ap3xSolana.Lib.Json
import Ap3xSolana.Portfolio.StoreRoundTrip

/-!
# Wallet files as JSON

`StoreFile` reads and writes a wallet file field by field.  Here the file is the JSON tree
that `JSON.stringify` prints and `JSON.parse` reads, the replacer and the reviver are
called at every key of it, and a lot holds any text as its source.  A value is a tree too,
which has `bigint`s and public keys besides what JSON has.  What the two write for one wallet
is the same file (`writeWalletData_trees`).

A value comes back from its file exactly when it holds no public key and the reviver takes
none of its texts for a `bigint` (`revive_stringify_iff`).
-/

namespace Ap3xSolana.Portfolio.WalletFiles

open Ap3xSolana.Core Ap3xSolana.Lib Ap3xSolana.Lib.Throwing
open Ap3xSolana.Portfolio.Accounting (AccountingMethod LotSource)
open Ap3xSolana.Portfolio.StoreFile (bigintReplacer bigintText bigintText_replacer Plain
  StoredLot StoredPosition StoredWallet writeText writeLot writeWallet)

/-! ## Values -/

/-- A number is a finite one. -/
inductive Value where
  | null
  | boolean (b : Bool)
  | number (n : ℚ)
  | text (s : String)
  | bigint (n : ℤ)
  | publicKey (key : PublicKey)
  | array (items : List Value)
  | object (fields : List (String × Value))

namespace Value

/-- `value.name`; none is `undefined`. -/
def field (name : String) : Value → Option Value
  | .object fields => OrderedMap.find name fields
  | _ => none

/-- `{ ...value, name: x }`.  What is spread here is an object. -/
def put (value : Value) (name : String) (x : Value) : Value :=
  match value with
  | .object fields => .object (OrderedMap.setEntries name x fields)
  | _ => .object [(name, x)]

def truthy : Value → Bool
  | .null => false
  | .boolean b => b
  | .number n => n ≠ 0
  | .text s => s ≠ ""
  | .bigint n => n ≠ 0
  | _ => true

end Value

/-- The fields of an object literal whose value may be `undefined`. -/
def given (name : String) (x : Option Value) : List (String × Value) :=
  (x.map fun v => (name, v)).toList

/-! ## `JSON.stringify` and `JSON.parse` -/

mutual

/-- `JSON.stringify(value, this.bigintReplacer)`.  The bytes of a public key are private,
so nothing of it is written. -/
def stringify : Value → Json
  | .null => .null
  | .boolean b => .boolean b
  | .number n => .number n
  | .text s => .string s
  | .bigint n => .string (bigintReplacer n)
  | .publicKey _ => .object []
  | .array items => .array (stringifyItems items)
  | .object fields => .object (stringifyFields fields)

def stringifyItems : List Value → List Json
  | [] => []
  | v :: vs => stringify v :: stringifyItems vs

def stringifyFields : List (String × Value) → List (String × Json)
  | [] => []
  | (name, v) :: fs => (name, stringify v) :: stringifyFields fs

end

/-- The reviver at a text. -/
def bigintReviver (s : String) : Value :=
  match bigintText s with
  | some n => .bigint n
  | none => .text s

mutual

/-- `JSON.parse(raw, this.bigintReviver)`: only a text is changed. -/
def revive : Json → Value
  | .null => .null
  | .boolean b => .boolean b
  | .number n => .number n
  | .string s => bigintReviver s
  | .array items => .array (reviveItems items)
  | .object fields => .object (reviveFields fields)

def reviveItems : List Json → List Value
  | [] => []
  | v :: vs => revive v :: reviveItems vs

def reviveFields : List (String × Json) → List (String × Value)
  | [] => []
  | (name, v) :: fs => (name, revive v) :: reviveFields fs

end

/-! ## What survives -/

mutual

/-- No public key in the value, and no text that reads as a `bigint`. -/
def Survives : Value → Prop
  | .null => True
  | .boolean _ => True
  | .number _ => True
  | .text s => Plain s
  | .bigint _ => True
  | .publicKey _ => False
  | .array items => SurviveItems items
  | .object fields => SurviveFields fields

def SurviveItems : List Value → Prop
  | [] => True
  | v :: vs => Survives v ∧ SurviveItems vs

def SurviveFields : List (String × Value) → Prop
  | [] => True
  | (_, v) :: fs => Survives v ∧ SurviveFields fs

end

theorem surviveItems_iff {vs : List Value} : SurviveItems vs ↔ ∀ v ∈ vs, Survives v := by
  induction vs with
  | nil => simp [SurviveItems]
  | cons v vs ih => rw [SurviveItems, ih, List.forall_mem_cons]

theorem surviveFields_iff {fs : List (String × Value)} :
    SurviveFields fs ↔ ∀ f ∈ fs, Survives f.2 := by
  induction fs with
  | nil => simp [SurviveFields]
  | cons f fs ih => rw [SurviveFields, ih, List.forall_mem_cons]

theorem bigintReviver_eq_text {s : String} : bigintReviver s = .text s ↔ Plain s := by
  unfold bigintReviver Plain
  cases bigintText s with
  | none => simp
  | some n => simp

@[simp] theorem bigintReviver_replacer (n : ℤ) :
    bigintReviver (bigintReplacer n) = .bigint n := by
  rw [bigintReviver, bigintText_replacer]

mutual

theorem revive_stringify_iff : (v : Value) → (revive (stringify v) = v ↔ Survives v)
  | .null => by simp [stringify, revive, Survives]
  | .boolean _ => by simp [stringify, revive, Survives]
  | .number _ => by simp [stringify, revive, Survives]
  | .text s => by rw [stringify, revive, Survives, bigintReviver_eq_text]
  | .bigint n => by simp [stringify, revive, Survives]
  | .publicKey _ => by simp [stringify, revive, Survives]
  | .array items => by
      rw [stringify, revive, Survives, Value.array.injEq, reviveItems_stringifyItems_iff]
  | .object fields => by
      rw [stringify, revive, Survives, Value.object.injEq, reviveFields_stringifyFields_iff]

theorem reviveItems_stringifyItems_iff :
    (vs : List Value) → (reviveItems (stringifyItems vs) = vs ↔ SurviveItems vs)
  | [] => by simp [stringifyItems, reviveItems, SurviveItems]
  | v :: vs => by
      rw [stringifyItems, reviveItems, SurviveItems, List.cons.injEq, revive_stringify_iff v,
        reviveItems_stringifyItems_iff vs]

theorem reviveFields_stringifyFields_iff :
    (fs : List (String × Value)) →
      (reviveFields (stringifyFields fs) = fs ↔ SurviveFields fs)
  | [] => by simp [stringifyFields, reviveFields, SurviveFields]
  | (name, v) :: fs => by
      rw [stringifyFields, reviveFields, SurviveFields, List.cons.injEq, Prod.mk.injEq,
        revive_stringify_iff v, reviveFields_stringifyFields_iff fs]
      simp

end

theorem reviveItems_stringifyItems (vs : List Value) :
    reviveItems (stringifyItems vs) = vs.map fun v => revive (stringify v) := by
  induction vs with
  | nil => rfl
  | cons v vs ih => rw [stringifyItems, reviveItems, ih, List.map_cons]

/-! ## Wallet data -/

structure Lot where
  amount : ℤ
  costBasisLamports : ℤ
  acquiredSlot : ℚ
  acquiredSig : String
  source : String
  reconstructedAt : Option ℚ := none
  basisUnresolved : Option Bool := none

structure Position where
  mint : PublicKey
  walletAddress : PublicKey
  lots : List Lot
  lastUpdatedSlot : ℚ

def methodText : AccountingMethod → String
  | .fifo => "fifo"
  | .lifo => "lifo"
  | .avgCost => "avg-cost"

structure WalletData where
  positions : List Position
  realizedPnl : ℤ
  realizedPnlByMint : OrderedMap String ℤ
  method : Option AccountingMethod := none

/-- The object a lot is. -/
def Lot.value (l : Lot) : Value :=
  .object
    ([("amount", .bigint l.amount), ("costBasisLamports", .bigint l.costBasisLamports),
      ("acquiredSlot", .number l.acquiredSlot), ("acquiredSig", .text l.acquiredSig),
      ("source", .text l.source)] ++
    given "reconstructedAt" (l.reconstructedAt.map .number) ++
    given "basisUnresolved" (l.basisUnresolved.map .boolean))

def Position.value (pos : Position) : Value :=
  .object
    [("mint", .publicKey pos.mint), ("walletAddress", .publicKey pos.walletAddress),
      ("lots", .array (pos.lots.map Lot.value)), ("lastUpdatedSlot", .number pos.lastUpdatedSlot)]

def pnlValue (pnl : OrderedMap String ℤ) : Value :=
  .object (pnl.entries.map fun e => (e.1, .bigint e.2))

def WalletData.value (data : WalletData) : Value :=
  .object
    ([("positions", .array (data.positions.map Position.value)),
      ("realizedPnl", .bigint data.realizedPnl),
      ("realizedPnlByMint", pnlValue data.realizedPnlByMint)] ++
    given "method" (data.method.map fun m => .text (methodText m)))

/-! ## The store -/

/-- The wallet files; `none` is `ENOENT`. -/
abbrev Files := PublicKey → Option Json

/-- What reading a file can throw.  `typeError` is a property of `undefined` or `null`, or a
method that a value does not have. -/
inductive LoadError where
  | publicKey (e : PublicKey.PublicKeyError)
  | typeError

/-- `PublicKey.fromBase58` of a field.  A value without a length has no characters to
decode, so its bytes are none. -/
def fromBase58 : Option Value → Except LoadError PublicKey
  | some (.text s) =>
      match PublicKey.fromBase58 s with
      | .ok key => .ok key
      | .error e => .error (.publicKey e)
  | some (.bigint _) | some (.number _) | some (.boolean _) =>
      .error (.publicKey (.invalidLength 0))
  | _ => .error .typeError

/-- `{ ...p, mint: …, walletAddress: … }` with the keys decoded. -/
def readPosition (p : Value) : Except LoadError Value := do
  let mint ← fromBase58 (p.field "mint")
  let walletAddress ← fromBase58 (p.field "walletAddress")
  return (p.put "mint" (.publicKey mint)).put "walletAddress" (.publicKey walletAddress)

/-- `parsed.positions.map(…)`. -/
def readPositions : Option Value → Except LoadError (List Value)
  | some (.array ps) => ps.mapM readPosition
  | _ => .error .typeError

/-- `value ?? {}`. -/
def orEmpty : Option Value → Value
  | none | some .null => .object []
  | some v => v

def readWallet (parsed : Value) : Except LoadError Value := do
  let positions ← readPositions (parsed.field "positions")
  return .object
    ([("positions", .array positions)] ++ given "realizedPnl" (parsed.field "realizedPnl") ++
    [("realizedPnlByMint", orEmpty (parsed.field "realizedPnlByMint"))] ++
    given "method" ((parsed.field "method").filter Value.truthy))

def loadWalletData (files : Files) (wallet : PublicKey) : Except LoadError (Option Value) :=
  match files wallet with
  | none => .ok none
  | some raw => do
      let data ← readWallet (revive raw)
      return some data

/-- `{ ...pos, mint: …, walletAddress: … }` with the keys encoded. -/
def writePosition (pos : Position) : Value :=
  (pos.value.put "mint" (.text pos.mint.toBase58)).put "walletAddress"
    (.text pos.walletAddress.toBase58)

/-- Every method is a text that is not empty. -/
def payload (data : WalletData) : Value :=
  .object
    ([("positions", .array (data.positions.map writePosition)),
      ("realizedPnl", .bigint data.realizedPnl),
      ("realizedPnlByMint", pnlValue data.realizedPnlByMint)] ++
    given "method" (data.method.map fun m => .text (methodText m)))

def writeWalletData (files : Files) (wallet : PublicKey) (data : WalletData) : Files :=
  Function.update files wallet (some (stringify (payload data)))

/-- The data read back are the data written.  A text is no `bigint`, so no field has
changed its type. -/
def RoundTrips (files : Files) (wallet : PublicKey) (data : WalletData) : Prop :=
  loadWalletData (writeWalletData files wallet data) wallet = .ok (some data.value)

/-! ## One position -/

structure PlainLot (l : Lot) : Prop where
  acquiredSig : Plain l.acquiredSig
  source : Plain l.source

/-- No text that is written for the position reads as a `bigint`. -/
structure PlainPosition (pos : Position) : Prop where
  mint : Plain pos.mint.toBase58
  walletAddress : Plain pos.walletAddress.toBase58
  lots : ∀ l ∈ pos.lots, PlainLot l

theorem surviveFields_append {fs gs : List (String × Value)} :
    SurviveFields (fs ++ gs) ↔ SurviveFields fs ∧ SurviveFields gs := by
  rw [surviveFields_iff, surviveFields_iff, surviveFields_iff, List.forall_mem_append]

theorem surviveFields_given {name : String} {x : Option Value} :
    SurviveFields (given name x) ↔ ∀ v ∈ x, Survives v := by
  cases x with
  | none => simp [given, SurviveFields]
  | some v => simp [given, SurviveFields]

theorem survives_lot {l : Lot} : Survives l.value ↔ PlainLot l := by
  have hnumber : ∀ v ∈ l.reconstructedAt.map Value.number, Survives v := by
    intro v hv
    obtain ⟨n, _, rfl⟩ := Option.map_eq_some_iff.1 hv
    exact trivial
  have hboolean : ∀ v ∈ l.basisUnresolved.map Value.boolean, Survives v := by
    intro v hv
    obtain ⟨b, _, rfl⟩ := Option.map_eq_some_iff.1 hv
    exact trivial
  rw [Lot.value, Survives, surviveFields_append, surviveFields_append, surviveFields_given,
    surviveFields_given, and_iff_left hboolean, and_iff_left hnumber]
  simp only [SurviveFields, Survives, true_and, and_true]
  exact ⟨fun h => ⟨h.1, h.2⟩, fun h => ⟨h.acquiredSig, h.source⟩⟩

theorem writePosition_eq (pos : Position) :
    writePosition pos =
      .object [("mint", .text pos.mint.toBase58),
        ("walletAddress", .text pos.walletAddress.toBase58),
        ("lots", .array (pos.lots.map Lot.value)),
        ("lastUpdatedSlot", .number pos.lastUpdatedSlot)] := by
  simp [writePosition, Position.value, Value.put, OrderedMap.setEntries]

/-- A key comes back from its text when the reviver leaves the text alone. -/
theorem fromBase58_bigintReviver {key key' : PublicKey} :
    fromBase58 (some (bigintReviver key.toBase58)) = .ok key' ↔
      Plain key.toBase58 ∧ key' = key := by
  unfold Plain bigintReviver
  cases bigintText key.toBase58 with
  | none =>
      dsimp only [fromBase58]
      rw [PublicKey.fromBase58_toBase58]
      simp [eq_comm]
  | some n => simp [fromBase58]

theorem readPosition_writePosition_iff {pos : Position} :
    readPosition (revive (stringify (writePosition pos))) = .ok pos.value ↔
      PlainPosition pos := by
  have hlots : revive (stringify (.array (pos.lots.map Lot.value))) =
      .array (pos.lots.map Lot.value) ↔ ∀ l ∈ pos.lots, PlainLot l := by
    rw [revive_stringify_iff, Survives, surviveItems_iff, List.forall_mem_map]
    exact forall₂_congr fun l _ => survives_lot
  have hread : readPosition (revive (stringify (writePosition pos))) = .ok pos.value ↔
      ∃ mint, (Plain pos.mint.toBase58 ∧ mint = pos.mint) ∧
        ∃ walletAddress, (Plain pos.walletAddress.toBase58 ∧
          walletAddress = pos.walletAddress) ∧
          Value.object [("mint", .publicKey mint), ("walletAddress", .publicKey walletAddress),
            ("lots", revive (stringify (.array (pos.lots.map Lot.value)))),
            ("lastUpdatedSlot", .number pos.lastUpdatedSlot)] = pos.value := by
    rw [writePosition_eq, readPosition, bind_eq_ok]
    refine exists_congr fun mint => and_congr ?_ ?_
    · rw [← fromBase58_bigintReviver]
      simp [stringify, stringifyFields, revive, reviveFields, Value.field, OrderedMap.find]
    rw [bind_eq_ok]
    refine exists_congr fun walletAddress => and_congr ?_ ?_
    · rw [← fromBase58_bigintReviver]
      simp [stringify, stringifyFields, revive, reviveFields, Value.field, OrderedMap.find]
    rw [pure_eq_ok]
    simp [stringify, stringifyFields, revive, reviveFields, Value.put, OrderedMap.setEntries]
  rw [hread]
  constructor
  · rintro ⟨_, ⟨hmint, rfl⟩, _, ⟨hwallet, rfl⟩, hvalue⟩
    simp only [Position.value, Value.object.injEq, List.cons.injEq, Prod.mk.injEq, true_and,
      and_true] at hvalue
    exact ⟨hmint, hwallet, hlots.1 hvalue⟩
  · intro h
    refine ⟨_, ⟨h.mint, rfl⟩, _, ⟨h.walletAddress, rfl⟩, ?_⟩
    rw [hlots.2 h.lots, Position.value]

/-! ## The whole file -/

theorem survives_pnlValue (pnl : OrderedMap String ℤ) : Survives (pnlValue pnl) := by
  rw [pnlValue, Survives, surviveFields_iff, List.forall_mem_map]
  exact fun _ _ => trivial

theorem survives_method (m : AccountingMethod) : Survives (.text (methodText m)) := by
  rw [Survives, Plain]
  cases m with
  | fifo => decide
  | lifo => decide
  | avgCost => decide

/-- Nothing but the positions can change. -/
theorem revive_payload (data : WalletData) :
    revive (stringify (payload data)) =
      .object
        ([("positions", .array (data.positions.map fun pos =>
            revive (stringify (writePosition pos)))),
          ("realizedPnl", .bigint data.realizedPnl),
          ("realizedPnlByMint", pnlValue data.realizedPnlByMint)] ++
        given "method" (data.method.map fun m => .text (methodText m))) := by
  have hpnl : revive (stringify (pnlValue data.realizedPnlByMint)) =
      pnlValue data.realizedPnlByMint := (revive_stringify_iff _).2 (survives_pnlValue _)
  have hmethod : ∀ m : AccountingMethod,
      revive (stringify (.text (methodText m))) = .text (methodText m) := fun m =>
    (revive_stringify_iff _).2 (survives_method m)
  have hpositions : revive (stringify (.array (data.positions.map writePosition))) =
      .array (data.positions.map fun pos => revive (stringify (writePosition pos))) := by
    rw [stringify, revive, reviveItems_stringifyItems, List.map_map]
    rfl
  have hpnlTotal : revive (stringify (.bigint data.realizedPnl)) = .bigint data.realizedPnl :=
    (revive_stringify_iff _).2 trivial
  rw [payload, stringify, revive]
  cases data.method with
  | none =>
      simp only [given, Option.map_none, Option.toList_none, List.append_nil, stringifyFields,
        reviveFields, hpositions, hpnlTotal, hpnl]
  | some m =>
      simp only [given, Option.map_some, Option.toList_some, List.cons_append, List.nil_append,
        stringifyFields, reviveFields, hpositions, hpnlTotal, hpnl, hmethod]

theorem truthy_method (m : AccountingMethod) : (Value.text (methodText m)).truthy = true := by
  cases m with
  | fifo => rfl
  | lifo => rfl
  | avgCost => rfl

theorem readWallet_payload (data : WalletData) :
    readWallet (revive (stringify (payload data))) = (do
      let positions ← (data.positions.map fun pos =>
        revive (stringify (writePosition pos))).mapM readPosition
      return .object
        ([("positions", .array positions), ("realizedPnl", .bigint data.realizedPnl),
          ("realizedPnlByMint", pnlValue data.realizedPnlByMint)] ++
        given "method" (data.method.map fun m => .text (methodText m)))) := by
  rw [revive_payload, readWallet]
  cases data.method with
  | none =>
      simp [Value.field, OrderedMap.find, given, readPositions, orEmpty, pnlValue]
  | some m =>
      simp [Value.field, OrderedMap.find, given, readPositions, orEmpty, pnlValue, Option.filter,
        truthy_method]

/-- No text in the file reads as a `bigint` but those written for one. -/
def PlainTexts (data : WalletData) : Prop := ∀ pos ∈ data.positions, PlainPosition pos

theorem readWallet_payload_iff {data : WalletData} :
    readWallet (revive (stringify (payload data))) = .ok data.value ↔ PlainTexts data := by
  rw [readWallet_payload, bind_eq_ok]
  have hpositions : (data.positions.map fun pos =>
      revive (stringify (writePosition pos))).mapM readPosition =
        .ok (data.positions.map Position.value) ↔ PlainTexts data := by
    rw [mapM_eq_ok, List.forall₂_map_left_iff, List.forall₂_map_right_iff, List.forall₂_same]
    exact forall₂_congr fun pos _ => readPosition_writePosition_iff
  rw [← hpositions]
  constructor
  · rintro ⟨positions, hread, hvalue⟩
    rw [pure_eq_ok, WalletData.value] at hvalue
    simp only [Value.object.injEq, List.cons_append, List.nil_append, List.cons.injEq,
      Prod.mk.injEq, Value.array.injEq, true_and, and_true] at hvalue
    rw [hread, hvalue]
  · intro hread
    exact ⟨_, hread, rfl⟩

theorem roundTrips_iff {files : Files} {wallet : PublicKey} {data : WalletData} :
    RoundTrips files wallet data ↔
      readWallet (revive (stringify (payload data))) = .ok data.value := by
  rw [RoundTrips, loadWalletData, writeWalletData, Function.update_self]
  dsimp only
  rw [bind_eq_ok]
  constructor
  · rintro ⟨v, hread, hv⟩
    rw [hread, Option.some.inj (pure_eq_ok.1 hv)]
  · exact fun hread => ⟨_, hread, rfl⟩

/-- Wallet data come back from their file exactly when none of their texts, signatures,
sources and keys, has the form of a written `bigint`. -/
theorem wallet_files_round_trip_iff (files : Files) (wallet : PublicKey) (data : WalletData) :
    RoundTrips files wallet data ↔ PlainTexts data := by
  rw [roundTrips_iff, readWallet_payload_iff]

/-! ## The files of `StoreFile` -/

def sourceText : LotSource → String
  | .trade => "trade"
  | .airdrop => "airdrop"
  | .transferIn => "transfer-in"
  | .coldStartReconstructed => "cold-start-reconstructed"
  | .coldStartUnresolved => "cold-start-unresolved"

/-- A lot of `StoreFile`.  A signature that was read back as a `bigint` stands for the text
that is written for it. -/
def ofLot (l : Accounting.Lot) : Lot :=
  { amount := l.amount
    costBasisLamports := l.costBasisLamports
    acquiredSlot := l.acquiredSlot
    acquiredSig := writeText l.acquiredSig
    source := sourceText l.source
    reconstructedAt := l.reconstructedAt.map fun (n : ℤ) => n
    basisUnresolved := l.basisUnresolved }

def ofPosition (pos : Portfolio.Position) : Position :=
  { mint := pos.mint
    walletAddress := pos.walletAddress
    lots := pos.lots.map ofLot
    lastUpdatedSlot := pos.lastUpdatedSlot }

def ofData (data : StoreFile.WalletData) : WalletData :=
  { positions := data.positions.map ofPosition
    realizedPnl := data.realizedPnl
    realizedPnlByMint := data.realizedPnlByMint
    method := data.method }

/-- The members of a file that may be left out. -/
def givenTree (name : String) (x : Option Json) : List (String × Json) :=
  (x.map fun v => (name, v)).toList

def lotTree (l : StoredLot) : Json :=
  .object
    ([("amount", .string l.amount), ("costBasisLamports", .string l.costBasisLamports),
      ("acquiredSlot", .number l.acquiredSlot), ("acquiredSig", .string l.acquiredSig),
      ("source", .string (sourceText l.source))] ++
    givenTree "reconstructedAt" (l.reconstructedAt.map fun (n : ℤ) => .number n) ++
    givenTree "basisUnresolved" (l.basisUnresolved.map .boolean))

def positionTree (pos : StoredPosition) : Json :=
  .object
    [("mint", .string pos.mint), ("walletAddress", .string pos.walletAddress),
      ("lots", .array (pos.lots.map lotTree)), ("lastUpdatedSlot", .number pos.lastUpdatedSlot)]

def pnlTree (pnl : List (String × String)) : Json :=
  .object (pnl.map fun e => (e.1, .string e.2))

/-- The tree of a file as `StoreFile` has it. -/
def walletTree (file : StoredWallet) : Json :=
  .object
    ([("positions", .array (file.positions.map positionTree)),
      ("realizedPnl", .string file.realizedPnl)] ++
    givenTree "realizedPnlByMint" (file.realizedPnlByMint.map pnlTree) ++
    givenTree "method" (file.method.map fun m => .string (methodText m)))

theorem stringifyItems_eq_map (vs : List Value) : stringifyItems vs = vs.map stringify := by
  induction vs with
  | nil => rfl
  | cons v vs ih => rw [stringifyItems, ih, List.map_cons]

theorem stringifyFields_eq_map (fs : List (String × Value)) :
    stringifyFields fs = fs.map fun f => (f.1, stringify f.2) := by
  induction fs with
  | nil => rfl
  | cons f fs ih => rw [stringifyFields, ih, List.map_cons]

theorem map_given (name : String) (x : Option Value) :
    (given name x).map (fun f => (f.1, stringify f.2)) = givenTree name (x.map stringify) := by
  cases x with
  | none => rfl
  | some v => rfl

theorem stringify_lot (l : Accounting.Lot) :
    stringify (ofLot l).value = lotTree (writeLot l) := by
  rw [Lot.value, ofLot, stringify, stringifyFields_eq_map, List.map_append, List.map_append,
    map_given, map_given, Option.map_map, Option.map_map, Option.map_map, lotTree]
  rfl

theorem stringify_position (pos : Portfolio.Position) :
    stringify (writePosition (ofPosition pos)) = positionTree (StoreFile.writePosition pos) := by
  have hlots : stringify (.array ((ofPosition pos).lots.map Lot.value)) =
      .array ((pos.lots.map writeLot).map lotTree) := by
    rw [stringify, stringifyItems_eq_map, ofPosition, List.map_map, List.map_map, List.map_map]
    exact congrArg Json.array (List.map_congr_left fun l _ => stringify_lot l)
  rw [writePosition_eq, stringify, stringifyFields_eq_map, List.map_cons, List.map_cons,
    List.map_cons, hlots]
  rfl

theorem stringify_pnlValue (pnl : OrderedMap String ℤ) :
    stringify (pnlValue pnl) =
      pnlTree (pnl.entries.map fun e => (e.1, bigintReplacer e.2)) := by
  rw [pnlValue, stringify, stringifyFields_eq_map, List.map_map, pnlTree, List.map_map]
  rfl

/-- What is written for the data of `StoreFile` is the file that `StoreFile` writes. -/
theorem stringify_payload (data : StoreFile.WalletData) :
    stringify (payload (ofData data)) = walletTree (writeWallet data) := by
  have hpositions : stringify (.array ((ofData data).positions.map writePosition)) =
      .array ((data.positions.map StoreFile.writePosition).map positionTree) := by
    rw [stringify, stringifyItems_eq_map, ofData, List.map_map, List.map_map, List.map_map]
    exact congrArg Json.array (List.map_congr_left fun pos _ => stringify_position pos)
  rw [payload, stringify, stringifyFields_eq_map, List.map_append, map_given, Option.map_map,
    List.map_cons, List.map_cons, List.map_cons, hpositions, ofData, stringify_pnlValue]
  rfl

/-- The files of `StoreFile` as trees. -/
def trees (files : StoreFile.Files) : Files := fun wallet => (files wallet).map walletTree

theorem writeWalletData_trees (files : StoreFile.Files) (wallet : PublicKey)
    (data : StoreFile.WalletData) :
    writeWalletData (trees files) wallet (ofData data) =
      trees (StoreFile.writeWalletData files wallet data) := by
  funext other
  unfold writeWalletData StoreFile.writeWalletData trees
  by_cases h : other = wallet
  · subst h
    rw [Function.update_self, Function.update_self, Option.map_some, stringify_payload]
  · rw [Function.update_of_ne h, Function.update_of_ne h]

/-- A lot whose signature is twelve and an `n`. -/
def numberedLot : Lot :=
  { amount := -5, costBasisLamports := 0, acquiredSlot := 1, acquiredSig := "12n",
    source := "trade" }

def numberedData : WalletData :=
  { positions := [{ mint := .ofByte 1, walletAddress := .ofByte 2, lots := [numberedLot],
                    lastUpdatedSlot := 1 }]
    realizedPnl := 0
    realizedPnlByMint := .empty }

theorem signature_comes_back_as_bigint :
    revive (stringify (.text numberedLot.acquiredSig)) = .bigint 12 ∧
      ¬ RoundTrips (fun _ => none) (.ofByte 2) numberedData := by
  refine ⟨?_, ?_⟩
  · have hbigint : bigintText numberedLot.acquiredSig = some 12 := by decide
    rw [stringify, revive, bigintReviver, hbigint]
  · rw [roundTrips_iff, readWallet_payload_iff]
    intro h
    have hlot := (h _ List.mem_cons_self).lots numberedLot List.mem_cons_self
    exact absurd hlot.acquiredSig (by decide)

end Ap3xSolana.Portfolio.WalletFiles
