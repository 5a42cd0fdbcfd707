import Ap3xSolana.Portfolio.StoreFile

/-!
# What a wallet file gives back

A `bigint` survives being written (`bigintReviver_replacer`); a text does when the
reviver does not take it for one (`Plain`).  Wallet data that was read is `Stable`:
writing it and reading it again changes nothing (`readWallet_writeWallet`).
-/

namespace Ap3xSolana.Portfolio.StoreFile

open Ap3xSolana.Core Ap3xSolana.Lib Ap3xSolana.Lib.Throwing
open Ap3xSolana.Portfolio.Accounting

/-! ## Texts -/

/-- The reviver leaves the text alone. -/
def Plain (s : String) : Prop := bigintText s = none

instance (s : String) : Decidable (Plain s) := inferInstanceAs (Decidable (_ = none))

theorem bigintReviver_plain {s : String} (h : Plain s) : bigintReviver s = .text s := by
  rw [bigintReviver, h]

theorem digitsThenN_toDigits (n : Nat) :
    digitsThenN (Nat.toDigits 10 n ++ ['n']) = some n := by
  have hdigits : (Nat.toDigits 10 n).all Char.isDigit = true := by
    rw [List.all_eq_true]
    exact fun c hc => Nat.isDigit_of_mem_toDigits (by decide) (by decide) hc
  unfold digitsThenN
  dsimp only
  rw [List.dropLast_concat, List.getLast?_concat, Nat.ofDigitChars_ten_toDigits]
  exact if_pos ⟨rfl, Nat.toDigits_ne_nil, hdigits⟩

theorem bigintText_replacer (n : Int) : bigintText (bigintReplacer n) = some n := by
  unfold bigintText bigintReplacer
  rw [String.toList_ofList]
  cases n with
  | ofNat m =>
      have htext : (toString (Int.ofNat m)).toList = Nat.toDigits 10 m := Nat.toList_repr
      rw [htext]
      split
      · rename_i cs hcs
        -- a digit string does not start with a sign
        exfalso
        cases hm : Nat.toDigits 10 m with
        | nil => exact Nat.toDigits_ne_nil hm
        | cons d ds =>
            rw [hm, List.cons_append, List.cons.injEq] at hcs
            have hd : d.isDigit = true :=
              Nat.isDigit_of_mem_toDigits (b := 10) (n := m) (by decide) (by decide)
                (by rw [hm]; exact List.mem_cons_self)
            rw [hcs.1] at hd
            exact absurd hd (by decide)
      · rw [digitsThenN_toDigits]
        rfl
  | negSucc m =>
      have htext : (toString (Int.negSucc m)).toList = '-' :: Nat.toDigits 10 (m + 1) := by
        show ("-" ++ (m + 1).repr).toList = _
        rw [String.toList_append, Nat.toList_repr]
        rfl
      rw [htext, List.cons_append]
      show Option.map _ (digitsThenN _) = _
      rw [digitsThenN_toDigits]
      rfl

theorem bigintReviver_replacer (n : Int) : bigintReviver (bigintReplacer n) = .bigint n := by
  rw [bigintReviver, bigintText_replacer]

@[simp] theorem readBigint_replacer (n : Int) : readBigint (bigintReplacer n) = .ok n := by
  rw [readBigint, bigintReviver_replacer]

/-- Writing the field and reading it again changes nothing. -/
def StableField (f : TextField) : Prop := bigintReviver (writeText f) = f

theorem stableField_text {s : String} : StableField (.text s) ↔ Plain s := by
  constructor
  · intro h
    unfold StableField writeText bigintReviver at h
    unfold Plain
    dsimp only at h
    cases htext : bigintText s with
    | none => rfl
    | some n => rw [htext] at h; cases h
  · exact bigintReviver_plain

theorem stableField_bigintReviver (s : String) : StableField (bigintReviver s) := by
  cases h : bigintText s with
  | none => rw [bigintReviver_plain h]; exact stableField_text.2 h
  | some n =>
      have hrevived : bigintReviver s = .bigint n := by rw [bigintReviver, h]
      rw [hrevived]
      exact bigintReviver_replacer n

theorem readKey_toBase58 {key : PublicKey} (h : Plain key.toBase58) :
    readKey key.toBase58 = .ok key := by
  rw [readKey, bigintReviver_plain h]
  dsimp only
  rw [PublicKey.fromBase58_toBase58]

/-- A key that was read is the one that was written. -/
theorem of_readKey {s : String} {key : PublicKey} (h : readKey s = .ok key) :
    s = key.toBase58 ∧ Plain s := by
  unfold readKey at h
  cases htext : bigintText s with
  | some n =>
      rw [bigintReviver, htext] at h
      cases h
  | none =>
      rw [bigintReviver_plain htext] at h
      dsimp only at h
      split at h
      · rename_i key' hkey
        cases h
        exact ⟨PublicKey.eq_toBase58_of_fromBase58 hkey, htext⟩
      · cases h

/-! ## Wallet data -/

/-- Nothing in the position changes when it is written and read. -/
structure StablePosition (p : Position) : Prop where
  mint : Plain p.mint.toBase58
  walletAddress : Plain p.walletAddress.toBase58
  lots : ∀ l ∈ p.lots, StableField l.acquiredSig

def Stable (data : WalletData) : Prop := ∀ p ∈ data.positions, StablePosition p

theorem readLot_writeLot {l : Lot} (h : StableField l.acquiredSig) :
    readLot (writeLot l) = .ok l := by
  unfold readLot writeLot
  dsimp only
  rw [readBigint_replacer, readBigint_replacer, h]
  rfl

theorem stableField_of_readLot {stored : StoredLot} {l : Lot} (h : readLot stored = .ok l) :
    StableField l.acquiredSig := by
  obtain ⟨_, _, h⟩ := bind_eq_ok.1 h
  obtain ⟨_, _, h⟩ := bind_eq_ok.1 h
  obtain rfl := pure_eq_ok.1 h
  exact stableField_bigintReviver _

theorem readPosition_writePosition {p : Position} (h : StablePosition p) :
    readPosition (writePosition p) = .ok p := by
  have hlots : (p.lots.map writeLot).mapM readLot = .ok p.lots := by
    rw [mapM_eq_ok, List.forall₂_map_left_iff, List.forall₂_same]
    exact fun l hl => readLot_writeLot (h.lots l hl)
  unfold readPosition writePosition
  dsimp only
  rw [hlots, readKey_toBase58 h.mint, readKey_toBase58 h.walletAddress]
  rfl

theorem readPosition_eq_ok {stored : StoredPosition} {p : Position}
    (h : readPosition stored = .ok p) :
    StablePosition p ∧ stored.mint = p.mint.toBase58 := by
  obtain ⟨lots, hlots, h⟩ := bind_eq_ok.1 h
  obtain ⟨mint, hmint, h⟩ := bind_eq_ok.1 h
  obtain ⟨walletAddress, hwallet, h⟩ := bind_eq_ok.1 h
  obtain rfl := pure_eq_ok.1 h
  obtain ⟨hmintText, hmintPlain⟩ := of_readKey hmint
  obtain ⟨hwalletText, hwalletPlain⟩ := of_readKey hwallet
  rw [hmintText] at hmintPlain
  rw [hwalletText] at hwalletPlain
  refine ⟨⟨hmintPlain, hwalletPlain, ?_⟩, hmintText⟩
  intro l hl
  obtain ⟨stored, _, hread⟩ := forall₂_of_mem (mapM_eq_ok.1 hlots) hl
  exact stableField_of_readLot hread

theorem readWallet_writeWallet {data : WalletData} (h : Stable data) :
    readWallet (writeWallet data) = .ok data := by
  have hpositions : (data.positions.map writePosition).mapM readPosition =
      .ok data.positions := by
    rw [mapM_eq_ok, List.forall₂_map_left_iff, List.forall₂_same]
    exact fun p hp => readPosition_writePosition (h p hp)
  have hpnl : (data.realizedPnlByMint.entries.map fun e => (e.1, bigintReplacer e.2)).mapM
      readPnl = .ok data.realizedPnlByMint.entries := by
    rw [mapM_eq_ok, List.forall₂_map_left_iff, List.forall₂_same]
    intro e _
    rw [readPnl, readBigint_replacer]
    rfl
  unfold readWallet writeWallet
  dsimp only
  rw [hpositions, readBigint_replacer, Option.getD_some, hpnl]
  show Except.ok _ = _
  rw [OrderedMap.ofEntries_entries]

theorem stable_of_readWallet {file : StoredWallet} {data : WalletData}
    (h : readWallet file = .ok data) : Stable data := by
  obtain ⟨positions, hpositions, h⟩ := bind_eq_ok.1 h
  obtain ⟨_, _, h⟩ := bind_eq_ok.1 h
  obtain ⟨_, _, h⟩ := bind_eq_ok.1 h
  obtain rfl := pure_eq_ok.1 h
  intro p hp
  obtain ⟨stored, _, hread⟩ := forall₂_of_mem (mapM_eq_ok.1 hpositions) hp
  exact (readPosition_eq_ok hread).1

/-- A lot after its file was written and read. -/
def revivedLot (l : Lot) : Lot :=
  { l with acquiredSig := bigintReviver (writeText l.acquiredSig) }

def revivedPosition (p : Position) : Position := { p with lots := p.lots.map revivedLot }

theorem totalAmount_revived (lots : List Lot) :
    totalAmount (lots.map revivedLot) = totalAmount lots := by
  rw [totalAmount, totalAmount, List.map_map]
  rfl

theorem revivedPosition_stable {p : Position} (h : StablePosition p) :
    revivedPosition p = p := by
  have hlots : p.lots.map revivedLot = p.lots := by
    conv_rhs => rw [← List.map_id p.lots]
    apply List.map_congr_left
    intro l hl
    rw [revivedLot, h.lots l hl]
    rfl
  rw [revivedPosition, hlots]

/-- Data whose keys are plain can be read back, whatever its signatures are. -/
theorem readWallet_writeWallet_revived {data : WalletData}
    (h : ∀ p ∈ data.positions, Plain p.mint.toBase58 ∧ Plain p.walletAddress.toBase58) :
    readWallet (writeWallet data) =
      .ok { data with positions := data.positions.map revivedPosition } := by
  have hpositions : (data.positions.map writePosition).mapM readPosition =
      .ok (data.positions.map revivedPosition) := by
    rw [mapM_eq_ok, List.forall₂_map_left_iff, List.forall₂_map_right_iff, List.forall₂_same]
    intro p hp
    have hlots : (p.lots.map writeLot).mapM readLot = .ok (p.lots.map revivedLot) := by
      rw [mapM_eq_ok, List.forall₂_map_left_iff, List.forall₂_map_right_iff, List.forall₂_same]
      intro l _
      unfold readLot writeLot
      dsimp only
      rw [readBigint_replacer, readBigint_replacer]
      rfl
    unfold readPosition writePosition
    dsimp only
    rw [hlots, readKey_toBase58 (h p hp).1, readKey_toBase58 (h p hp).2]
    rfl
  have hpnl : (data.realizedPnlByMint.entries.map fun e => (e.1, bigintReplacer e.2)).mapM
      readPnl = .ok data.realizedPnlByMint.entries := by
    rw [mapM_eq_ok, List.forall₂_map_left_iff, List.forall₂_same]
    intro e _
    rw [readPnl, readBigint_replacer]
    rfl
  unfold readWallet writeWallet
  dsimp only
  rw [hpositions, readBigint_replacer, Option.getD_some, hpnl]
  show Except.ok _ = _
  rw [OrderedMap.ofEntries_entries]

private theorem find_readBack {ps ps' : List Position}
    (h : List.Forall₂ (fun p p' => readPosition (writePosition p) = .ok p') ps ps')
    (mint : PublicKey) :
    match ps.find? (·.mint = mint) with
    | none => ps'.find? (·.mint = mint) = none
    | some p => ∃ p', ps'.find? (·.mint = mint) = some p' ∧
        readPosition (writePosition p) = .ok p' := by
  induction h with
  | nil => rfl
  | @cons p p' _ _ hp _ ih =>
      have hmint : p.mint = p'.mint :=
        PublicKey.toBase58_injective (readPosition_eq_ok hp).2
      rw [List.find?_cons, List.find?_cons, ← hmint]
      cases decide (p.mint = mint) with
      | true => exact ⟨p', rfl, hp⟩
      | false => exact ih

/-- What reading data back makes of its positions. -/
theorem position_readBack {data data' : WalletData}
    (h : readWallet (writeWallet data) = .ok data') (mint : PublicKey) :
    match data.position mint with
    | none => data'.position mint = none
    | some p => ∃ p', data'.position mint = some p' ∧
        readPosition (writePosition p) = .ok p' := by
  obtain ⟨positions, hpositions, h⟩ := bind_eq_ok.1 h
  obtain ⟨_, _, h⟩ := bind_eq_ok.1 h
  obtain ⟨_, _, h⟩ := bind_eq_ok.1 h
  obtain rfl := pure_eq_ok.1 h
  have hread := mapM_eq_ok.1 hpositions
  unfold writeWallet at hread
  dsimp only at hread
  rw [List.forall₂_map_left_iff] at hread
  exact find_readBack hread mint

theorem StablePosition.readBack {data data' : WalletData}
    (h : readWallet (writeWallet data) = .ok data') {mint : PublicKey}
    (hstable : ∀ p, data.position mint = some p → StablePosition p) :
    data'.position mint = data.position mint := by
  have hread := position_readBack h mint
  cases hpos : data.position mint with
  | none =>
      rw [hpos] at hread
      exact hread
  | some p =>
      rw [hpos] at hread
      obtain ⟨p', hp', hreadP⟩ := hread
      rw [readPosition_writePosition (hstable p hpos)] at hreadP
      rw [hp', Except.ok.inj hreadP]

/-! ## What a trade does to wallet data -/

private theorem find_put (ps : List Position) (pos : Position) (mint : PublicKey) :
    (match ps.findIdx? (fun (p : Position) => p.mint = pos.mint) with
      | some i => ps.set i pos
      | none => ps ++ [pos]).find? (·.mint = mint) =
    if mint = pos.mint then some pos else ps.find? (·.mint = mint) := by
  induction ps with
  | nil =>
      rw [List.findIdx?_nil]
      by_cases h : mint = pos.mint
      · simp [h]
      · simp [h, Ne.symm h]
  | cons p ps ih =>
      rw [List.findIdx?_cons]
      by_cases hp : p.mint = pos.mint
      · rw [if_pos (decide_eq_true hp)]
        dsimp only
        rw [List.set_cons_zero]
        by_cases h : mint = pos.mint
        · simp [h]
        · simp [h, Ne.symm h, hp]
      · rw [if_neg (by simpa using hp)]
        by_cases hm : p.mint = mint
        · have hne : ¬ mint = pos.mint := hm ▸ hp
          cases ps.findIdx? (fun p => p.mint = pos.mint) <;> simp [hm, hne]
        · have hskip : (p :: ps).find? (·.mint = mint) = ps.find? (·.mint = mint) :=
            List.find?_cons_of_neg (by simpa using hm)
          rw [hskip, ← ih]
          cases ps.findIdx? (fun p => p.mint = pos.mint) <;> simp [hm]

theorem position_put (data : WalletData) (pos : Position) (mint : PublicKey) :
    (putPosition data (data.positions.findIdx? (·.mint = pos.mint)) pos).position mint =
      if mint = pos.mint then some pos else data.position mint :=
  find_put data.positions pos mint

theorem mem_put {data : WalletData} {idx : Option Nat} {pos p : Position}
    (h : p ∈ (putPosition data idx pos).positions) : p = pos ∨ p ∈ data.positions := by
  cases idx with
  | some i => exact (List.mem_or_eq_of_mem_set h).symm
  | none =>
      rcases List.mem_append.1 h with h | h
      · exact .inr h
      · exact .inl (List.mem_singleton.1 h)

/-- What a trade leaves of a position and of the rest of the data. -/
theorem tradePosition_eq_ok {data booked : WalletData} {pos pos' : Position}
    {trade : LandedTrade} (h : tradePosition data pos trade = .ok (booked, pos')) :
    booked.positions = data.positions ∧ booked.method = data.method ∧
      pos'.mint = pos.mint ∧ pos'.walletAddress = pos.walletAddress := by
  unfold tradePosition at h
  split at h
  · cases h
    exact ⟨rfl, rfl, rfl, rfl⟩
  · split at h
    · split at h
      · cases h
      · cases h
        exact ⟨rfl, rfl, rfl, rfl⟩
    · cases h
      exact ⟨rfl, rfl, rfl, rfl⟩

/-- The position a trade is booked on. -/
def tradedPosition (data : WalletData) (trade : LandedTrade) : Position :=
  (data.position trade.mint).getD (newPosition trade)

theorem tradedPosition_mint (data : WalletData) (trade : LandedTrade) :
    (tradedPosition data trade).mint = trade.mint := by
  unfold tradedPosition
  cases h : data.position trade.mint with
  | none => rfl
  | some p =>
      have hmint := List.find?_some h
      exact of_decide_eq_true hmint

theorem Stable.lots_tradedPosition {data : WalletData} (h : Stable data)
    (trade : LandedTrade) : ∀ l ∈ (tradedPosition data trade).lots, StableField l.acquiredSig := by
  unfold tradedPosition
  cases hpos : data.position trade.mint with
  | none => exact fun l hl => nomatch hl
  | some p => exact (h p (List.mem_of_find?_eq_some hpos)).lots

theorem lots_tradedPosition (data : WalletData) (trade : LandedTrade) :
    (tradedPosition data trade).lots = ((data.position trade.mint).map (·.lots)).getD [] := by
  unfold tradedPosition
  cases data.position trade.mint <;> rfl

/-- The data and the change after a trade whose position is `pos`. -/
theorem applyTo_eq (data : WalletData) (trade : LandedTrade) :
    applyTo data trade = (do
      let (booked, pos) ← tradePosition data (tradedPosition data trade) trade
      return (putPosition booked (data.positions.findIdx? (·.mint = trade.mint)) pos,
        { wallet := trade.wallet, mint := trade.mint, before := data.position trade.mint,
          after := pos, reason := .applyLandedTrade })) := by
  unfold applyTo tradedPosition WalletData.position
  rw [List.find?_eq_bind_findIdx?_getElem?]

structure Booked (data : WalletData) (trade : LandedTrade) (data' : WalletData)
    (change : PositionChange) : Prop where
  wallet : change.wallet = trade.wallet
  mint : change.mint = trade.mint
  before : change.before = data.position trade.mint
  reason : change.reason = .applyLandedTrade
  afterMint : change.after.mint = trade.mint
  position : ∀ m, data'.position m =
    if m = trade.mint then some change.after else data.position m
  method : data'.method = data.method
  traded : ∃ booked, tradePosition data (tradedPosition data trade) trade =
    .ok (booked, change.after) ∧ data'.realizedPnlByMint = booked.realizedPnlByMint
  mem : ∀ p ∈ data'.positions, p = change.after ∨ p ∈ data.positions

theorem applyTo_booked {data data' : WalletData} {trade : LandedTrade}
    {change : PositionChange} (h : applyTo data trade = .ok (data', change)) :
    Booked data trade data' change := by
  rw [applyTo_eq] at h
  obtain ⟨⟨booked, pos⟩, htrade, h⟩ := bind_eq_ok.1 h
  obtain ⟨rfl, rfl⟩ := Prod.mk.inj (pure_eq_ok.1 h)
  obtain ⟨hpositions, hmethod, hmint, _⟩ := tradePosition_eq_ok htrade
  rw [tradedPosition_mint] at hmint
  refine ⟨rfl, rfl, rfl, rfl, hmint, ?_, hmethod, ⟨booked, htrade, rfl⟩, ?_⟩
  · intro m
    have hput := position_put booked pos m
    rw [hpositions, hmint] at hput
    rw [hput]
    unfold WalletData.position
    rw [hpositions]
  · intro p hp
    have hmem := mem_put hp
    rwa [hpositions] at hmem

end Ap3xSolana.Portfolio.StoreFile
