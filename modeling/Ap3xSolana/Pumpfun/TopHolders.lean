import Ap3xSolana.Lib.Sorting
import Ap3xSolana.Spl.AccountLayout
import Ap3xSolana.Spl.HolderQueries

/-!
# Top holders

`holders` asks for the twenty largest accounts of a mint, or, for more than twenty, scans
the token accounts of the first token program and sorts them.  A chain is its token
accounts, and `Serves` is what the two RPC methods promise about it.

The scan asks for accounts that end with the base layout.  An account of Token-2022, or one
with bytes behind the base layout, is not among them, so the result is right exactly if no
such account belongs into it (`holders_right_iff`).
-/

namespace Ap3xSolana.Pumpfun.Holders

open Ap3xSolana.Core Ap3xSolana.Events Ap3xSolana.Lib Ap3xSolana.Lib.Throwing
open Ap3xSolana.Lib.Cursor Ap3xSolana.Lib.Selection Ap3xSolana.Spl

/-! ## The code -/

/-- `slice(0, limit)`; a negative limit counts from the end. -/
def sliceTo {α : Type} (limit : Int) (xs : List α) : List α :=
  xs.take (if 0 ≤ limit then limit else xs.length + limit).toNat

structure HolderSummary (π : Type) where
  address : PublicKey
  balance : Int
  pctOfSupply : π

/-- The numbers of JavaScript: zero, and `Number(a) / Number(b)`. -/
structure Arithmetic (π : Type) where
  zero : π
  divide : Int → Int → π

variable {π : Type}

def pct (numbers : Arithmetic π) (balance totalSupply : Int) : π :=
  if totalSupply = 0 then numbers.zero else numbers.divide balance totalSupply

def summary (numbers : Arithmetic π) (totalSupply : Int) (address : PublicKey) (balance : Int) :
    HolderSummary π where
  address := address
  balance := balance
  pctOfSupply := pct numbers balance totalSupply

def holders (numbers : Arithmetic π) (rpcPool : RpcPoolLike) (mint : PublicKey) (limit : Int)
    (totalSupply : Int) : Except QueryError (List (HolderSummary π)) :=
  if limit ≤ 20 then do
    let largest ← getTokenLargestAccounts rpcPool mint none
    return (sliceTo limit largest).map fun a => summary numbers totalSupply a.address a.amount
  else do
    let all ← getTokenAccountsByMint rpcPool mint {}
    return sliceTo limit (sortDown HolderSummary.balance
      (all.map fun h => summary numbers totalSupply h.pubkey h.account.amount))

/-! ## The chain -/

def programId : TokenProgramKind → PublicKey
  | .splV1 => tokenProgramId
  | .token2022 => token2022ProgramId

/-- A token account: its base layout, and whatever stands behind it. -/
structure ChainAccount where
  address : PublicKey
  program : TokenProgramKind
  fields : TokenAccountBase
  base : List UInt8
  layout : TokenAccountLayout fields base
  tail : List UInt8

namespace ChainAccount

def data (a : ChainAccount) : List UInt8 := a.base ++ a.tail

def amount (a : ChainAccount) : Nat := a.fields.amount

end ChainAccount

/-- The token accounts on chain, of any mint. -/
structure Chain where
  accounts : List ChainAccount
  nodup : (accounts.map ChainAccount.address).Nodup

def Chain.ofMint (chain : Chain) (mint : PublicKey) : List ChainAccount :=
  chain.accounts.filter fun a => a.fields.mint = mint

/-- What the filters of `getProgramAccounts` say about the data of an account. -/
def passes (data : List UInt8) : RpcFilter → Bool
  | .dataSize size => data.length = size
  | .memcmp offset bytes =>
      match Base58.decode bytes with
      | .ok bytes => slice data offset (offset + bytes.length) = bytes
      | .error _ => false

/-- An entry of `getTokenLargestAccounts`; there may be other fields. -/
structure LargestEntry (a : ChainAccount) (entry : Json) : Prop where
  address : entry.field "address" = some (.string a.address.toBase58)
  amount : entry.field "amount" = some (.string (toString a.amount))
  decimals : ∃ n, entry.field "decimals" = some (.number n)

/-- An entry of `getProgramAccounts` with `encoding: 'base64'`. -/
structure ProgramEntry (a : ChainAccount) (entry : Json) : Prop where
  pubkey : entry.field "pubkey" = some (.string a.address.toBase58)
  account : ∃ acc rest, entry.field "account" = some acc ∧
    acc.field "data" =
      some (.array (.string (String.ofList (encodeBase64 a.data)) :: rest)) ∧
    acc.field "owner" = some (.string (programId a.program).toBase58)

/-- The documented behaviour of the two methods: the twenty largest accounts of a mint,
largest first; and the accounts of a program that pass all filters, in any order. -/
structure Serves (rpcPool : RpcPoolLike) (chain : Chain) : Prop where
  largest : ∀ mint commitment, ∃ page response entries,
    Largest ChainAccount.amount 20 (chain.ofMint mint) page ∧
      rpcPool.call (.getTokenLargestAccounts mint.toBase58 commitment) = .ok response ∧
      response.field "value" = some (.array entries) ∧
      List.Forall₂ LargestEntry page entries
  scan : ∀ (program : PublicKey) config, config.encoding = "base64" → ∃ found entries,
    found.Perm (chain.accounts.filter fun a =>
      programId a.program = program && config.filters.all (passes a.data)) ∧
      rpcPool.call (.getProgramAccounts program.toBase58 config) = .ok (.array entries) ∧
      List.Forall₂ ProgramEntry found entries

variable {π : Type}

/-- What a list of holders should be. -/
structure TopHolders (chain : Chain) (mint : PublicKey) (limit : Int)
    (hs : List (HolderSummary π)) : Prop where
  count : hs.length = min limit.toNat (chain.ofMint mint).length
  distinct : (hs.map HolderSummary.address).Nodup
  held : ∀ h ∈ hs, ∃ a ∈ chain.ofMint mint, a.address = h.address ∧ (a.amount : Int) = h.balance
  sorted : hs.Pairwise fun x y => y.balance ≤ x.balance
  complete : ∀ a ∈ chain.ofMint mint, a.address ∉ hs.map HolderSummary.address →
    ∀ h ∈ hs, (a.amount : Int) ≤ h.balance

/-- An account that the scan sees. -/
def Scanned (a : ChainAccount) : Prop :=
  a.program = .splV1 ∧ a.data.length = tokenAccountSize

instance (a : ChainAccount) : Decidable (Scanned a) :=
  inferInstanceAs (Decidable (_ ∧ _))

/-- Every account that the scan does not see is covered by `limit` seen accounts with a
balance as large. -/
def Covered (chain : Chain) (mint : PublicKey) (limit : Int) : Prop :=
  ∀ u ∈ chain.ofMint mint, ¬ Scanned u →
    limit ≤ (chain.ofMint mint).countP fun a => decide (Scanned a ∧ u.amount ≤ a.amount)

/-! ## Responses -/

theorem exists_mapM_zipIdx {ε α β γ : Type} {R : α → β → Prop} {S : α → γ → Prop}
    {f : β → Nat → Except ε γ} {xs : List α} {bs : List β} (h : List.Forall₂ R xs bs)
    (hf : ∀ a b i, R a b → ∃ c, f b i = .ok c ∧ S a c) :
    ∀ n, ∃ cs, ((bs.zipIdx n).mapM fun p => f p.1 p.2) = .ok cs ∧ List.Forall₂ S xs cs := by
  induction h with
  | nil => exact fun n => ⟨[], rfl, .nil⟩
  | @cons a b _ _ hab _ ih =>
      intro n
      obtain ⟨c, hc, hS⟩ := hf a b n hab
      obtain ⟨cs, hcs, hrest⟩ := ih (n + 1)
      refine ⟨c :: cs, ?_, .cons hS hrest⟩
      rw [List.zipIdx_cons, List.mapM_cons, bind_eq_ok]
      exact ⟨c, hc, bind_eq_ok.2 ⟨cs, hcs, rfl⟩⟩

theorem map_eq_of_forall₂ {α γ δ : Type} {f : α → δ} {g : γ → δ} {xs : List α} {cs : List γ}
    (h : List.Forall₂ (fun a c => g c = f a) xs cs) : cs.map g = xs.map f := by
  induction h with
  | nil => rfl
  | cons hac _ ih => rw [List.map_cons, List.map_cons, hac, ih]

theorem keyFromBase58_toBase58 (key : PublicKey) : keyFromBase58 key.toBase58 = .ok key := by
  rw [keyFromBase58, PublicKey.fromBase58_toBase58]
  rfl

theorem bigIntOf_toString (n : Nat) : bigIntOf (toString n) = .ok (n : Int) := by
  rw [bigIntOf, bigInt_toString]

theorem largestEntry_ok {a : ChainAccount} {entry : Json} (h : LargestEntry a entry) (i : Nat) :
    ∃ largest, largestEntry entry i = .ok largest ∧ largest.address = a.address ∧
      largest.amount = a.amount := by
  obtain ⟨decimals, hdecimals⟩ := h.decimals
  refine ⟨⟨a.address, a.amount, decimals⟩, ?_, rfl, rfl⟩
  simp only [largestEntry, bind_eq_ok, pure_eq_ok]
  refine ⟨(), if_pos (Json.isObject_of_field h.address), _, ?_, _, ?_, decimals, ?_, a.address,
    keyFromBase58_toBase58 a.address, a.amount, bigIntOf_toString a.amount, rfl⟩
  · rw [stringField, h.address]
  · rw [stringField, h.amount]
  · rw [numberField, hdecimals]

theorem length_base64Digits (bytes : List UInt8) : (base64Digits bytes).length % 4 ≠ 1 := by
  induction bytes using base64Digits.induct with
  | case1 a b c rest ih =>
      simp only [base64Digits, List.length_cons]
      omega
  | case2 a b => exact (by decide : 3 % 4 ≠ 1)
  | case3 a => exact (by decide : 2 % 4 ≠ 1)
  | case4 => exact (by decide : 0 % 4 ≠ 1)

theorem unpadded_encodeBase64 (bytes : List UInt8) :
    unpadded (encodeBase64 bytes) = base64Digits bytes := by
  have hnot : '=' ∉ base64Digits bytes := fun h => absurd (base64Digits_chars bytes _ h) (by decide)
  have hdrop : ∀ {n : Nat} {cs : List Char}, (base64Digits bytes).drop n = '=' :: cs → False :=
    fun h => hnot (List.mem_of_mem_drop (h ▸ List.mem_cons_self))
  have hlen := length_encodeBase64 bytes
  unfold encodeBase64 base64Padding at hlen ⊢
  have hlt : (3 - bytes.length % 3) % 3 < 3 := Nat.mod_lt _ (by decide)
  match (3 - bytes.length % 3) % 3, hlt, hlen with
  | 0, _, hlen =>
      have hpad : List.replicate 0 '=' = [] := rfl
      rw [unpadded, if_pos hlen, hpad, List.append_nil, if_neg hdrop, if_neg hdrop]
  | 1, _, hlen =>
      have hpad : List.replicate 1 '=' = ['='] := rfl
      rw [unpadded, if_pos hlen, hpad, List.length_append, List.length_singleton,
        Nat.add_sub_cancel, List.drop_left, List.take_left, if_pos rfl]
      apply if_neg
      intro h
      rw [List.drop_append_of_le_length (by omega)] at h
      exact hdrop (List.append_cancel_right (h.trans (by rfl : ['=', '='] = ['='] ++ ['='])))
  | 2, _, hlen =>
      have hpad : List.replicate 2 '=' = ['=', '='] := rfl
      have htwo : ['=', '='].length = 2 := rfl
      rw [unpadded, if_pos hlen, hpad, List.length_append, htwo, Nat.add_sub_cancel,
        List.drop_left, List.take_left, if_pos rfl]

theorem base64ToBytes_encodeBase64 (bytes : List UInt8) :
    base64ToBytes (String.ofList (encodeBase64 bytes)) = .ok bytes := by
  have hkept : (encodeBase64 bytes).filter (fun c => c.toNat ∉ [9, 10, 12, 13, 32]) =
      encodeBase64 bytes := by
    rw [List.filter_eq_self]
    intro c hc
    have hchar := encodeBase64_chars bytes c hc
    have hnot : ∀ n ∈ [9, 10, 12, 13, 32],
        ¬ (isBase64Char (Char.ofNat n) || Char.ofNat n = '=') = true := by decide
    rw [decide_eq_true_eq]
    intro hmem
    apply hnot _ hmem
    rwa [Char.ofNat_toNat]
  have hall : (base64Digits bytes).all isBase64Char = true :=
    List.all_eq_true.2 (base64Digits_chars bytes)
  rw [base64ToBytes, String.toList_ofList, hkept, unpadded_encodeBase64]
  show (if (base64Digits bytes).length % 4 = 1 then _ else _) = _
  rw [if_neg (length_base64Digits bytes), if_pos hall, base64Bytes_digits]

/-- The mint stands at the start of the layout. -/
theorem take_data (a : ChainAccount) : slice a.data 0 32 = a.fields.mint.bytes := by
  have hlayout := a.layout
  rw [slice, List.drop_zero, ChainAccount.data]
  generalize hbase : a.base = base at hlayout ⊢
  cases hlayout with
  | mk => rw [List.append_assoc, ← a.fields.mint.size, Nat.sub_zero, List.take_left]

theorem token2022ProgramId_ne : token2022ProgramId ≠ tokenProgramId := by decide +kernel

theorem programEntry_ok {a : ChainAccount} {entry : Json} (h : ProgramEntry a entry)
    (hprogram : a.program = .splV1) (fallback : PublicKey) (i : Nat) :
    ∃ holding, programEntry fallback entry i = .ok holding ∧ holding.pubkey = a.address ∧
      holding.account.amount = a.amount := by
  obtain ⟨acc, rest, hacc, hdata, howner⟩ := h.account
  have hkind : detectTokenProgram ⟨a.base ++ a.tail, some (programId a.program)⟩ = .splV1 := by
    rw [hprogram]
    show (if programId .splV1 = token2022ProgramId then TokenProgramKind.token2022 else .splV1) = _
    exact if_neg token2022ProgramId_ne.symm
  have hdecoded := decodeTokenAccount_base a.layout a.tail (some (programId a.program))
  rw [hkind] at hdecoded
  refine ⟨⟨a.address, { a.fields with tokenProgram := .splV1 }⟩, ?_, rfl, rfl⟩
  simp only [programEntry, bind_eq_ok, pure_eq_ok]
  refine ⟨(), if_pos (Json.isObject_of_field h.pubkey), _, ?_, acc, ?_, _, ?_, a.data,
    base64ToBytes_encodeBase64 a.data, programId a.program, ?_, _, ?_, a.address,
    keyFromBase58_toBase58 a.address, rfl⟩
  · rw [stringField, h.pubkey]
  · rw [objectField, hacc]
    exact if_pos (Json.isObject_of_field hdata)
  · rw [payload, hdata]
  · rw [ownerKey, howner]
    exact keyFromBase58_toBase58 _
  · rw [ChainAccount.data, hdecoded]
    rfl

/-! ## Both paths -/

def summaries (numbers : Arithmetic π) (totalSupply : Int) (page : List ChainAccount) :
    List (HolderSummary π) :=
  page.map fun a => summary numbers totalSupply a.address a.amount

theorem sliceTo_of_nonneg {α : Type} {limit : Int} (h : 0 ≤ limit) (xs : List α) :
    sliceTo limit xs = xs.take limit.toNat := by
  rw [sliceTo, if_pos h]

variable {rpcPool : RpcPoolLike} {chain : Chain}

theorem holders_largest (hserves : Serves rpcPool chain) (numbers : Arithmetic π)
    (mint : PublicKey) {limit : Int} (hpos : 1 ≤ limit) (hle : limit ≤ 20) (totalSupply : Int) :
    ∃ page, Largest ChainAccount.amount limit.toNat (chain.ofMint mint) page ∧
      holders numbers rpcPool mint limit totalSupply =
        .ok (summaries numbers totalSupply page) := by
  obtain ⟨page, response, entries, hpage, hcall, hvalue, hentries⟩ := hserves.largest mint none
  obtain ⟨largest, hlargest, hrel⟩ :=
    exists_mapM_zipIdx hentries (fun a entry i h => largestEntry_ok h i) 0
  have hquery : getTokenLargestAccounts rpcPool mint none = .ok largest := by
    simp only [getTokenLargestAccounts, bind_eq_ok]
    refine ⟨response, hcall, (), if_pos (Json.isObject_of_field hvalue), entries, ?_, hlargest⟩
    rw [hvalue]
    rfl
  have hmap : (largest.map fun a => summary numbers totalSupply a.address a.amount) =
      summaries numbers totalSupply page :=
    map_eq_of_forall₂ (hrel.imp fun _ _ h => by rw [h.1, h.2])
  refine ⟨page.take limit.toNat, hpage.take (by omega), ?_⟩
  rw [holders, if_pos hle, hquery]
  show Except.ok ((sliceTo limit largest).map _) = _
  rw [sliceTo_of_nonneg (by omega), List.map_take, hmap, summaries, summaries, List.map_take]

/-- The accounts that the scan sees. -/
def scanned (chain : Chain) (mint : PublicKey) : List ChainAccount :=
  (chain.ofMint mint).filter fun a => decide (Scanned a)

theorem programId_eq_iff (kind : TokenProgramKind) :
    programId kind = tokenProgramId ↔ kind = .splV1 := by
  cases kind with
  | splV1 => exact iff_of_true rfl rfl
  | token2022 => exact iff_of_false token2022ProgramId_ne nofun

/-- The two filters and the program pick the accounts of the mint that end with the base
layout. -/
theorem filter_byMint (chain : Chain) (mint : PublicKey) :
    (chain.accounts.filter fun a =>
      programId a.program = tokenProgramId &&
        (byMintConfig mint none).filters.all (passes a.data)) = scanned chain mint := by
  rw [scanned, Chain.ofMint, List.filter_filter]
  apply List.filter_congr
  intro a _
  have hmemcmp : passes a.data (.memcmp 0 mint.toBase58) = decide (a.fields.mint = mint) := by
    rw [passes, PublicKey.toBase58, Base58.decode_encode]
    show decide (slice a.data 0 (0 + mint.bytes.length) = mint.bytes) = _
    rw [mint.size, Nat.zero_add, take_data, decide_eq_decide]
    exact ⟨fun h => by cases hm : a.fields.mint; cases mint; simp_all, fun h => by rw [h]⟩
  rw [byMintConfig, List.all_cons, List.all_cons, List.all_nil, hmemcmp, Bool.and_true, passes,
    Bool.eq_iff_iff]
  simp only [Bool.and_eq_true, decide_eq_true_eq, programId_eq_iff]
  exact and_assoc.symm

theorem holders_scan (hserves : Serves rpcPool chain) (numbers : Arithmetic π)
    (mint : PublicKey) {limit : Int} (hlt : 20 < limit) (totalSupply : Int) :
    ∃ page, Largest ChainAccount.amount limit.toNat (scanned chain mint) page ∧
      holders numbers rpcPool mint limit totalSupply =
        .ok (summaries numbers totalSupply page) := by
  obtain ⟨found, entries, hperm, hcall, hentries⟩ :=
    hserves.scan tokenProgramId (byMintConfig mint none) rfl
  rw [filter_byMint] at hperm
  have hprogram : ∀ a ∈ found, a.program = .splV1 := fun a ha =>
    (of_decide_eq_true (List.mem_filter.1 (hperm.mem_iff.1 ha)).2).1
  have hboth := (List.forall₂_and_left found entries).2 ⟨hprogram, hentries⟩
  obtain ⟨all, hall, hrel⟩ := exists_mapM_zipIdx hboth
    (fun a entry i h => programEntry_ok h.2 h.1 tokenProgramId i) 0
  have hquery : getTokenAccountsByMint rpcPool mint {} = .ok all := by
    simp only [getTokenAccountsByMint, bind_eq_ok]
    exact ⟨_, hcall, entries, rfl, hall⟩
  have hmap : (all.map fun h => summary numbers totalSupply h.pubkey h.account.amount) =
      summaries numbers totalSupply found :=
    map_eq_of_forall₂ (hrel.imp fun _ _ h => by rw [h.1, h.2])
  have hsort : sortDown HolderSummary.balance (summaries numbers totalSupply found) =
      summaries numbers totalSupply (sortDown ChainAccount.amount found) := by
    rw [sortDown, summaries, summaries, sortDown, List.map_mergeSort]
    intro a _ b _
    exact decide_eq_decide.2 Int.ofNat_le.symm
  have hnodup : found.Nodup :=
    hperm.nodup_iff.2 (((List.Nodup.of_map _ chain.nodup).filter _).filter _)
  refine ⟨(sortDown ChainAccount.amount found).take limit.toNat,
    (largest_sortDown hnodup _).perm hperm, ?_⟩
  rw [holders, if_neg (by omega), hquery]
  show Except.ok (sliceTo limit (sortDown _ (all.map _))) = _
  rw [hmap, hsort, sliceTo_of_nonneg (by omega), summaries, summaries, List.map_take]

/-! ## When the result is right -/

theorem mem_ofMint {a : ChainAccount} {mint : PublicKey} (h : a ∈ chain.ofMint mint) :
    a ∈ chain.accounts := (List.mem_filter.1 h).1

theorem topHolders_iff (numbers : Arithmetic π) {mint : PublicKey} {limit totalSupply : Int}
    {page : List ChainAccount} (hsub : page ⊆ chain.ofMint mint) :
    TopHolders chain mint limit (summaries numbers totalSupply page) ↔
      Largest ChainAccount.amount limit.toNat (chain.ofMint mint) page := by
  have haddresses : (summaries numbers totalSupply page).map HolderSummary.address =
      page.map ChainAccount.address := by
    rw [summaries, List.map_map]
    rfl
  have hinj : ∀ a ∈ chain.ofMint mint, ∀ b ∈ chain.ofMint mint, a.address = b.address → a = b :=
    fun a ha b hb h => List.inj_on_of_nodup_map chain.nodup (mem_ofMint ha) (mem_ofMint hb) h
  have hmem : ∀ a ∈ chain.ofMint mint, a.address ∈ page.map ChainAccount.address ↔ a ∈ page := by
    intro a ha
    constructor
    · intro h
      obtain ⟨b, hb, heq⟩ := List.mem_map.1 h
      rwa [← hinj b (hsub hb) a ha heq]
    · exact fun h => List.mem_map_of_mem h
  constructor
  · intro h
    have hcount := h.count
    have hdistinct := h.distinct
    rw [summaries, List.length_map] at hcount
    rw [haddresses] at hdistinct
    refine ⟨hdistinct.of_map, hsub, hcount, ?_, ?_⟩
    · exact (List.pairwise_map.1 h.sorted).imp Int.ofNat_le.1
    · intro x hx hnot y hy
      have hout : x.address ∉ (summaries numbers totalSupply page).map HolderSummary.address := by
        rw [haddresses, hmem x hx]
        exact hnot
      exact Int.ofNat_le.1 (h.complete x hx hout _ (List.mem_map_of_mem hy))
  · intro h
    refine ⟨?_, ?_, ?_, ?_, ?_⟩
    · rw [summaries, List.length_map, h.length]
    · rw [haddresses]
      exact List.Nodup.map_on (fun a ha b hb heq => hinj a (hsub ha) b (hsub hb) heq) h.nodup
    · intro s hs
      obtain ⟨a, ha, rfl⟩ := List.mem_map.1 hs
      exact ⟨a, hsub ha, rfl, rfl⟩
    · exact List.pairwise_map.2 (h.sorted.imp Int.ofNat_le.2)
    · intro a ha hout s hs
      rw [haddresses, hmem a ha] at hout
      obtain ⟨b, hb, rfl⟩ := List.mem_map.1 hs
      exact Int.ofNat_le.2 (h.largest a ha hout b hb)

theorem scanned_subset (chain : Chain) (mint : PublicKey) :
    scanned chain mint ⊆ chain.ofMint mint :=
  fun _ h => (List.mem_filter.1 h).1

theorem largest_scanned_iff {mint : PublicKey} {limit : Int} (hpos : 1 ≤ limit)
    {page : List ChainAccount}
    (hpage : Largest ChainAccount.amount limit.toNat (scanned chain mint) page) :
    Largest ChainAccount.amount limit.toNat (chain.ofMint mint) page ↔
      Covered chain mint limit := by
  have hperm := List.filter_append_perm (fun a => decide (Scanned a)) (chain.ofMint mint)
  have hnodup : (chain.ofMint mint).Nodup := (List.Nodup.of_map _ chain.nodup).filter _
  have hsplit := hpage.append_iff (hperm.nodup_iff.2 hnodup)
  have hcount : ∀ u : ChainAccount,
      (scanned chain mint).countP (fun s => decide (u.amount ≤ s.amount)) =
        (chain.ofMint mint).countP fun a => decide (Scanned a ∧ u.amount ≤ a.amount) := by
    intro u
    rw [scanned, List.countP_filter]
    apply List.countP_congr
    intro a _
    rw [Bool.and_eq_true, decide_eq_true_eq, decide_eq_true_eq, decide_eq_true_eq]
    exact and_comm
  have hunseen : ∀ u, u ∈ (chain.ofMint mint).filter (fun a => !decide (Scanned a)) ↔
      u ∈ chain.ofMint mint ∧ ¬ Scanned u := by
    intro u
    rw [List.mem_filter, Bool.not_eq_true', decide_eq_false_iff_not]
  constructor
  · intro h u hu hnot
    have hcover := hsplit.1 (h.perm hperm.symm) u ((hunseen u).2 ⟨hu, hnot⟩)
    rw [hcount u] at hcover
    omega
  · intro h
    apply Largest.perm _ hperm
    apply hsplit.2
    intro u hu
    obtain ⟨hu, hnot⟩ := (hunseen u).1 hu
    have hcover := h u hu hnot
    rw [hcount u]
    omega

/-- The result is right if the limit is within the first method's twenty, or no account
outside the scan belongs into it; and then both methods give the same balances. -/
theorem holders_right_iff (hserves : Serves rpcPool chain) (numbers : Arithmetic π) :
    (∀ mint limit totalSupply, 1 ≤ limit →
      ∃ hs, holders numbers rpcPool mint limit totalSupply = .ok hs ∧
        (TopHolders chain mint limit hs ↔ limit ≤ 20 ∨ Covered chain mint limit)) ∧
    ∀ mint few many totalSupply hs hs', 1 ≤ few → few ≤ 20 → 20 < many →
      Covered chain mint many →
      holders numbers rpcPool mint few totalSupply = .ok hs →
      holders numbers rpcPool mint many totalSupply = .ok hs' →
      (hs'.map HolderSummary.balance).take few.toNat = hs.map HolderSummary.balance := by
  have hbalances : ∀ (totalSupply : Int) (page : List ChainAccount),
      (summaries numbers totalSupply page).map HolderSummary.balance =
        (page.map ChainAccount.amount).map Int.ofNat := by
    intro totalSupply page
    rw [summaries, List.map_map, List.map_map]
    rfl
  constructor
  · intro mint limit totalSupply hpos
    by_cases hle : limit ≤ 20
    · obtain ⟨page, hpage, hrun⟩ := holders_largest hserves numbers mint hpos hle totalSupply
      exact ⟨_, hrun, iff_of_true ((topHolders_iff numbers hpage.subset).2 hpage) (.inl hle)⟩
    · obtain ⟨page, hpage, hrun⟩ := holders_scan hserves numbers mint (not_le.1 hle) totalSupply
      have hsub : page ⊆ chain.ofMint mint :=
        fun a ha => scanned_subset chain mint (hpage.subset ha)
      refine ⟨_, hrun, ?_⟩
      rw [topHolders_iff numbers hsub, largest_scanned_iff hpos hpage]
      exact ⟨.inr, fun h => h.resolve_left (by omega)⟩
  · intro mint few many totalSupply hs hs' hpos hfew hmany hcovered hrun hrun'
    obtain ⟨page, hpage, hfirst⟩ := holders_largest hserves numbers mint hpos hfew totalSupply
    obtain ⟨page', hpage', hscan⟩ := holders_scan hserves numbers mint hmany totalSupply
    have hall := (largest_scanned_iff (by omega) hpage').2 hcovered
    have hnodup : (chain.ofMint mint).Nodup := (List.Nodup.of_map _ chain.nodup).filter _
    rw [hrun] at hfirst
    rw [hrun'] at hscan
    cases hfirst
    cases hscan
    rw [hbalances, hbalances, ← List.map_take,
      hall.keys_take hpage hnodup (by omega)]

/-! ## A chain with one account of each program -/

def largestJson (a : ChainAccount) : Json :=
  .object [("address", .string a.address.toBase58), ("amount", .string (toString a.amount)),
    ("decimals", .number 6)]

def programJson (a : ChainAccount) : Json :=
  .object [("pubkey", .string a.address.toBase58),
    ("account", .object [
      ("data", .array [.string (String.ofList (encodeBase64 a.data)), .string "base64"]),
      ("owner", .string (programId a.program).toBase58)])]

/-- A node that answers from the accounts of a chain. -/
def node (chain : Chain) : RpcPoolLike where
  call
    | .getTokenLargestAccounts mint _ =>
        let ofMint := chain.accounts.filter fun a => a.fields.mint.toBase58 = mint
        .ok (.object [("value", .array
          (((sortDown ChainAccount.amount ofMint).take 20).map largestJson))])
    | .getProgramAccounts program config =>
        .ok (.array ((chain.accounts.filter fun a =>
          (programId a.program).toBase58 = program &&
            config.filters.all (passes a.data)).map programJson))

theorem toBase58_eq_iff (key key' : PublicKey) : key.toBase58 = key'.toBase58 ↔ key = key' :=
  ⟨PublicKey.toBase58_injective, fun h => by rw [h]⟩

theorem serves_node (chain : Chain) : Serves (node chain) chain where
  largest := by
    intro mint commitment
    have hfilter : (chain.accounts.filter fun a => a.fields.mint.toBase58 = mint.toBase58) =
        chain.ofMint mint := by
      simp only [Chain.ofMint, toBase58_eq_iff]
    have hnodup : (chain.ofMint mint).Nodup := (List.Nodup.of_map _ chain.nodup).filter _
    refine ⟨_, _, _, largest_sortDown hnodup 20, rfl, rfl, ?_⟩
    rw [hfilter, List.forall₂_map_right_iff, List.forall₂_same]
    exact fun a _ => ⟨rfl, rfl, 6, rfl⟩
  scan := by
    intro program config _
    refine ⟨_, _, List.Perm.refl _, rfl, ?_⟩
    simp only [toBase58_eq_iff]
    rw [List.forall₂_map_right_iff, List.forall₂_same]
    exact fun a _ => ⟨rfl, _, _, rfl, rfl, rfl⟩

/-- An account of the mint of ones, without any optional field. -/
def plainAccount (address : UInt8) (program : TokenProgramKind) (amount : Nat)
    (hamount : amount < 256 ^ 8) : ChainAccount where
  address := .ofByte address
  program := program
  fields := { mint := .ofByte 1, owner := .ofByte 2, amount := amount, delegate := none,
              state := .initialized, isNative := none, delegatedAmount := 0,
              closeAuthority := none }
  base := _
  layout := .mk hamount (.none (List.length_replicate (n := 32) (a := 0)))
    (.none (List.length_replicate (n := 8) (a := 0))) nofun
    (by decide : 0 < 256 ^ 8) (.none (List.length_replicate (n := 32) (a := 0)))
  tail := []

def mixed : Chain where
  accounts := [plainAccount 3 .splV1 7 (by decide), plainAccount 4 .token2022 5 (by decide)]
  nodup := by decide +kernel

/-- Numbers that are not looked at. -/
def noNumbers : Arithmetic Unit := ⟨(), fun _ _ => ()⟩

theorem holders_right_iff_mixed :
    (∃ hs, holders noNumbers (node mixed) (.ofByte 1) 2 12 = .ok hs ∧
      TopHolders mixed (.ofByte 1) 2 hs) ∧
    ∃ hs, holders noNumbers (node mixed) (.ofByte 1) 21 12 = .ok hs ∧
      ¬ TopHolders mixed (.ofByte 1) 21 hs := by
  have h := (holders_right_iff (serves_node mixed) noNumbers).1
  constructor
  · obtain ⟨hs, hrun, hiff⟩ := h (.ofByte 1) 2 12 (by decide)
    exact ⟨hs, hrun, hiff.2 (.inl (by decide))⟩
  · obtain ⟨hs, hrun, hiff⟩ := h (.ofByte 1) 21 12 (by decide)
    refine ⟨hs, hrun, fun hright => ?_⟩
    rcases hiff.1 hright with hle | hcovered
    · exact absurd hle (by decide)
    · have hmem : plainAccount 4 .token2022 5 (by decide) ∈ mixed.ofMint (.ofByte 1) :=
        List.mem_filter.2 ⟨List.mem_cons_of_mem _ List.mem_cons_self, by decide +kernel⟩
      have hcover := hcovered _ hmem (by decide +kernel)
      revert hcover
      decide +kernel

/-- The only account of its mint is one of Token-2022. -/
def onlyToken2022 : Chain where
  accounts := [plainAccount 4 .token2022 5 (by decide)]
  nodup := List.nodup_singleton _

/-- It is not among the first 21 holders. -/
theorem token2022_holder_is_missed :
    holders noNumbers (node onlyToken2022) (.ofByte 1) 21 5 = .ok [] ∧
    ¬ ∀ (rpcPool : RpcPoolLike) (chain : Chain), Serves rpcPool chain →
      ∀ mint limit totalSupply, 1 ≤ limit → ∃ hs,
        holders noNumbers rpcPool mint limit totalSupply = .ok hs ∧
          TopHolders chain mint limit hs := by
  have hlength : (onlyToken2022.ofMint (.ofByte 1)).length = 1 := by decide +kernel
  have hscanned : scanned onlyToken2022 (.ofByte 1) = [] := by
    rw [List.eq_nil_iff_length_eq_zero]
    decide +kernel
  have hlimit : (20 : Int) < 21 := by decide
  obtain ⟨page, hpage, hrun⟩ :=
    holders_scan (serves_node onlyToken2022) noNumbers (.ofByte 1) hlimit 5
  rw [hscanned] at hpage
  have hpage := hpage.length
  have hnone : summaries noNumbers 5 page = [] := by
    rw [List.eq_nil_of_length_eq_zero hpage]
    rfl
  rw [hnone] at hrun
  refine ⟨hrun, fun hall => ?_⟩
  obtain ⟨hs, hrun', htop⟩ := hall _ _ (serves_node onlyToken2022) (.ofByte 1) 21 5 (by decide)
  rw [hrun] at hrun'
  cases hrun'
  have hcount := htop.count
  rw [hlength] at hcount
  exact absurd hcount (by decide)

end Ap3xSolana.Pumpfun.Holders
