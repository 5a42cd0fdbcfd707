import Ap3xSolana.Pumpfun.ProgramUpgrade

/-!
# Batched upgrade checks

While the chain does not change, the check of a list of deployments sees of each program
what `programDeploySlot` sees, in the order of the list, and asks for no more than a
hundred accounts at once.
-/

namespace Ap3xSolana.Pumpfun.ProgramUpgrade

open Core Events Lib Lib.Cursor Lib.Requests Lib.Throwing

/-! ## The chain -/

abbrev Chain := PublicKey → Option (List UInt8)

/-- What a slice leaves of the data. -/
def cut : Option DataSlice → List UInt8 → List UInt8
  | none, data => data
  | some s, data => (data.drop s.offset.toNat).take s.length.toNat

/-- An account in a response; there may be other fields. -/
def Answers (data : Option (List UInt8)) (account : Json) : Prop :=
  match data with
  | none => account = .null
  | some data => account.field "data" = some (.array [.string (toBase64 data), .string "base64"])

/-- Both methods answer with what is on chain, the batched one in the order of the request. -/
structure Serves (rpcPool : AccountRpc) (chain : Chain) : Prop where
  single : ∀ (key : PublicKey) config, ∃ response account,
    rpcPool.call (.getAccountInfo key.toBase58 config) = .ok response ∧
      response.field "value" = some account ∧
      Answers ((chain key).map (cut config.dataSlice)) account
  multiple : ∀ (keys : List PublicKey) config, keys.length ≤ 100 → ∃ response accounts,
    rpcPool.call (.getMultipleAccounts (keys.map PublicKey.toBase58) config) = .ok response ∧
      response.field "value" = some (.array accounts) ∧
      List.Forall₂ (fun key => Answers ((chain key).map (cut config.dataSlice))) keys accounts

/-! ## Texts -/

theorem bufferFromBase64_toBase64 (data : List UInt8) :
    bufferFromBase64 (toBase64 data) = data := by
  have hdigits : (encodeBase64 data).takeWhile (· ≠ '=') = base64Digits data := by
    rw [encodeBase64, List.takeWhile_append_of_pos]
    · have hpadding : (base64Padding data.length).takeWhile (· ≠ '=') = [] := by
        rw [base64Padding, List.takeWhile_replicate]
        rfl
      rw [hpadding, List.append_nil]
    · intro c hc
      have hchar := base64Digits_chars data c hc
      rw [decide_eq_true_eq]
      rintro rfl
      exact absurd hchar (by decide)
  have hkept : (base64Digits data).filterMap base64Kept = base64Digits data := by
    have hsome : ∀ c ∈ base64Digits data, base64Kept c = some c := fun c hc =>
      if_pos (base64Digits_chars data c hc)
    rw [List.filterMap_congr hsome, List.filterMap_some]
  rw [bufferFromBase64, toBase64, String.toList_ofList, hdigits, hkept, base64Bytes_digits]

/-! ## Reading accounts -/

variable {rpcPool : AccountRpc} {chain : Chain}

/-- What the single reader makes of a response. -/
theorem responseData_some {data : List UInt8} {response account : Json}
    (hvalue : response.field "value" = some account) (h : Answers (some data) account) :
    isTruthy (responseData response) = true ∧ firstBytes (responseData response) = .ok data := by
  have hdata : responseData response =
      some (.array [.string (toBase64 data), .string "base64"]) := by
    rw [responseData, hvalue]
    exact h
  rw [hdata]
  exact ⟨rfl, congrArg Except.ok (bufferFromBase64_toBase64 data)⟩

theorem responseData_none {response account : Json}
    (hvalue : response.field "value" = some account) (h : Answers none account) :
    responseData response = none := by
  rw [responseData, hvalue, show account = .null from h]
  rfl

theorem fetchAccountData_yields (h : Serves rpcPool chain) (key : PublicKey) (label : String) :
    Yields (fetchAccountData rpcPool key label) (chain key = some ·) := by
  obtain ⟨response, account, hcall, hvalue, haccount⟩ :=
    h.single key { commitment := some "confirmed" }
  have hresponse : ∀ response', (rpcPool.call (.getAccountInfo key.toBase58
      { commitment := some "confirmed" }) = .ok response') ↔ response' = response := by
    intro response'
    rw [hcall, Except.ok.injEq, eq_comm]
  have hread : ∀ response', response' = response → Yields
      (if isTruthy (responseData response') then lift (firstBytes (responseData response'))
        else throw (AccountError.layout label [] (some "account not found")) : AccountReads _)
      (chain key = some ·) := by
    rintro _ rfl
    cases hchain : chain key with
    | none =>
        rw [hchain] at haccount
        rw [responseData_none hvalue haccount]
        exact (Yields.throw _).of_iff fun data => (iff_of_false nofun False.elim).symm
    | some data =>
        rw [hchain] at haccount
        obtain ⟨htruthy, hbytes⟩ := responseData_some hvalue haccount
        rw [if_pos htruthy, hbytes]
        exact (Yields.lift _).of_iff fun data' => by rw [Except.ok.injEq, Option.some.injEq]; rfl
  refine (((Yields.call _ _).of_iff hresponse).bind hread).of_iff fun data => ?_
  exact ⟨fun ⟨_, _, hdata⟩ => hdata, fun hdata => ⟨response, rfl, hdata⟩⟩

theorem batchEntry_answers {data : Option (List UInt8)} {account : Json}
    (h : Answers data account) (label : String) (found : List UInt8) :
    batchEntry label account = .ok found ↔ data = some found := by
  cases data with
  | none =>
      rw [show account = .null from h]
      exact iff_of_false nofun nofun
  | some data =>
      have hfield : account.field "data" =
          some (.array [.string (toBase64 data), .string "base64"]) := h
      have htruthy : isTruthy (some account) = true := by
        cases account with
        | object fields => rfl
        | _ => cases hfield
      have hsame : toBase64 (bufferFromBase64 (toBase64 data)) = toBase64 data := by
        rw [bufferFromBase64_toBase64]
      unfold batchEntry
      rw [if_pos htruthy, hfield]
      show (if "base64" = "base64" ∧ toBase64 (bufferFromBase64 (toBase64 data)) = toBase64 data
        then Except.ok (bufferFromBase64 (toBase64 data)) else _) = _ ↔ _
      rw [if_pos ⟨rfl, hsame⟩, bufferFromBase64_toBase64, Except.ok.injEq, Option.some.injEq]

theorem batchEntries_iff {f : PublicKey × String → Option (List UInt8)}
    {requested : List (PublicKey × String)} {accounts : List Json}
    (h : List.Forall₂ (fun a => Answers (f a)) requested accounts) :
    ∀ datas, ((requested.zip accounts).mapM fun p => batchEntry p.1.2 p.2) = .ok datas ↔
      List.Forall₂ (fun a data => f a = some data) requested datas := by
  intro datas
  rw [mapM_eq_ok]
  induction h generalizing datas with
  | nil => rw [List.zip_nil_left, List.forall₂_nil_left_iff, List.forall₂_nil_left_iff]
  | @cons a account requested accounts ha _ ih =>
      rw [List.zip_cons_cons, List.forall₂_cons_left_iff, List.forall₂_cons_left_iff]
      simp only [batchEntry_answers ha, ih]

theorem fetchAccountDataBatch_yields (h : Serves rpcPool chain)
    {requested : List (PublicKey × String)} {dataSlice : Option DataSlice}
    (hlen : requested.length ≤ 100) (hlabels : ∀ a ∈ requested, trim a.2.toList ≠ [])
    (hslice : (dataSlice.any fun s => !(isBound s.offset && isBound s.length)) = false) :
    Yields (fetchAccountDataBatch rpcPool requested dataSlice)
      (List.Forall₂ (fun a data => (chain a.1).map (cut dataSlice) = some data) requested) := by
  have hbounds : ¬ (100 < requested.length ∨
      (requested.any fun a => trim a.2.toList = []) = true) := by
    rintro (hlong | hblank)
    · omega
    · obtain ⟨a, ha, hempty⟩ := List.any_eq_true.1 hblank
      exact hlabels a ha (of_decide_eq_true hempty)
  unfold fetchAccountDataBatch
  rw [if_neg hbounds, hslice, if_neg Bool.false_ne_true]
  by_cases hnil : requested = []
  · rw [if_pos hnil, hnil]
    exact (Yields.pure []).of_iff fun datas => by rw [List.forall₂_nil_left_iff, eq_comm]
  · obtain ⟨response, accounts, hcall, hvalue, haccounts⟩ := h.multiple (requested.map Prod.fst)
      { commitment := some "confirmed", dataSlice := dataSlice } (by rwa [List.length_map])
    rw [List.map_map] at hcall
    rw [List.forall₂_map_left_iff] at haccounts
    rw [if_neg hnil]
    have hcount : ¬ accounts.length ≠ requested.length := fun hne => hne haccounts.length_eq.symm
    have hread : ∀ response', rpcPool.call (.getMultipleAccounts
        (requested.map fun a => a.1.toBase58)
        { commitment := some "confirmed", dataSlice := dataSlice }) = .ok response' →
        Yields (lift (batchEntries requested response') : AccountReads _)
          (List.Forall₂ (fun a data => (chain a.1).map (cut dataSlice) = some data) requested) := by
      intro response' hcall'
      cases hcall.symm.trans hcall'
      refine (Yields.lift _).of_iff fun datas => ?_
      unfold batchEntries
      rw [hvalue]
      show (if accounts.length ≠ requested.length then _ else _) = _ ↔ _
      rw [if_neg hcount]
      exact batchEntries_iff haccounts datas
    refine ((Yields.call _ _).bind hread).of_iff fun datas => ?_
    exact ⟨fun ⟨_, _, hdatas⟩ => hdatas, fun hdatas => ⟨response, hcall, hdatas⟩⟩

/-! ## One deployment -/

/-- On this chain, the program was last deployed at the slot. -/
def Deployed (chain : Chain) (programId : PublicKey) (slot : Nat) : Prop :=
  ∃ program programData data, chain programId = some program ∧
    programDataKey program = .ok programData ∧ chain programData = some data ∧
    headerSlot (data.take 12) = .ok slot

theorem headerSlot_nil (slot : Nat) : headerSlot [] ≠ .ok slot := nofun

theorem cut_headerSlice (data : List UInt8) : cut (some headerSlice) data = data.take 12 := rfl

theorem programDeploySlot_yields (h : Serves rpcPool chain) (programId : PublicKey) :
    Yields (programDeploySlot rpcPool programId) (Deployed chain programId) := by
  have hheader : ∀ (programData : PublicKey) response,
      rpcPool.call (.getAccountInfo programData.toBase58 { dataSlice := some headerSlice }) =
        .ok response →
      ∀ slot, (∃ header, (if isTruthy (responseData response) then
          firstBytes (responseData response) else .ok []) = .ok header ∧
          headerSlot header = .ok slot) ↔
        ∃ data, chain programData = some data ∧ headerSlot (data.take 12) = .ok slot := by
    intro programData response hresponse slot
    obtain ⟨response', account, hcall, hvalue, haccount⟩ :=
      h.single programData { dataSlice := some headerSlice }
    cases hcall.symm.trans hresponse
    cases hchain : chain programData with
    | none =>
        rw [hchain] at haccount
        rw [responseData_none hvalue haccount]
        constructor
        · rintro ⟨_, ⟨⟩, hslot⟩
          exact absurd hslot (headerSlot_nil slot)
        · exact fun ⟨_, hnone, _⟩ => nomatch hnone
    | some data =>
        rw [hchain] at haccount
        obtain ⟨htruthy, hbytes⟩ := responseData_some hvalue haccount
        rw [if_pos htruthy, hbytes]
        constructor
        · rintro ⟨_, ⟨⟩, hslot⟩
          exact ⟨data, rfl, hslot⟩
        · rintro ⟨_, ⟨⟩, hslot⟩
          exact ⟨_, rfl, hslot⟩
  refine ((fetchAccountData_yields h programId "Program").bind fun program _ =>
    (Yields.lift (programDataKey program)).bind fun programData _ =>
      (Yields.call _ _).bind fun response _ => (Yields.lift _).bind fun header _ =>
        Yields.lift (headerSlot header)).of_iff fun slot => ?_
  constructor
  · rintro ⟨program, hprogram, programData, hkey, response, hresponse, hslot⟩
    obtain ⟨data, hdata, hslot⟩ := (hheader programData response hresponse slot).1 hslot
    exact ⟨program, programData, data, hprogram, hkey, hdata, hslot⟩
  · rintro ⟨program, programData, data, hprogram, hkey, hdata, hslot⟩
    obtain ⟨response, _, hresponse, -⟩ := h.single programData { dataSlice := some headerSlice }
    exact ⟨program, hprogram, programData, hkey, response, hresponse,
      (hheader programData response hresponse slot).2 ⟨data, hdata, hslot⟩⟩

/-! ## A batch -/

/-- What the check says of a listed deployment. -/
def Checked (chain : Chain) (entry : VerifiedDeploy) (check : UpgradeCheck) : Prop :=
  ∃ slot, Deployed chain entry.programId slot ∧ check = upgradeCheck entry slot

/-- A header is checked against the entry at its own place. -/
theorem checkHeaders_iff {batch : List VerifiedDeploy} {headers : List (List UInt8)} :
    ∀ {k : Nat} {entries : List VerifiedDeploy} {checks : List UpgradeCheck},
    At batch k entries → entries.length = headers.length →
    (((headers.zipIdx k).mapM fun p => checkHeader batch p.1 p.2) = .ok checks ↔
      List.Forall₂ (fun p check => ∃ slot, headerSlot p.2 = .ok slot ∧
        check = upgradeCheck p.1 slot) (entries.zip headers) checks) := by
  induction headers with
  | nil =>
      intro k entries checks _ hlen
      rw [List.eq_nil_of_length_eq_zero hlen, List.zipIdx_nil, List.mapM_nil, pure_eq_ok,
        List.zip_nil_left, List.forall₂_nil_left_iff, eq_comm]
  | cons header headers ih =>
      intro k entries checks hat hlen
      cases entries with
      | nil => cases hlen
      | cons entry entries =>
          have hone : ∀ check, checkHeader batch header k = .ok check ↔
              ∃ slot, headerSlot header = .ok slot ∧ check = upgradeCheck entry slot := by
            intro check
            unfold checkHeader
            rw [bind_eq_ok, hat.get]
            refine exists_congr fun slot => and_congr_right fun _ => ?_
            rw [pure_eq_ok, eq_comm]
          rw [List.zipIdx_cons, List.zip_cons_cons, mapM_eq_ok, List.forall₂_cons_left_iff,
            List.forall₂_cons_left_iff]
          simp only [hone, ← mapM_eq_ok, ih hat.tail (Nat.succ.inj hlen)]

/-- The stages of a batch, element by element. -/
theorem forall₂_stages {α β γ δ ζ : Type} {A : α → β → Prop} {B : β → γ → Prop}
    {C : γ → δ → Prop} {D : α × δ → ζ → Prop} {as : List α} :
    ∀ {zs : List ζ}, (∃ bs, List.Forall₂ A as bs ∧ ∃ cs, List.Forall₂ B bs cs ∧
      ∃ ds, List.Forall₂ C cs ds ∧ List.Forall₂ D (as.zip ds) zs) ↔
    List.Forall₂ (fun a z => ∃ b c d, A a b ∧ B b c ∧ C c d ∧ D (a, d) z) as zs := by
  induction as with
  | nil =>
      intro zs
      rw [List.forall₂_nil_left_iff]
      constructor
      · rintro ⟨_, _, _, _, _, _, hzs⟩
        rwa [List.zip_nil_left, List.forall₂_nil_left_iff] at hzs
      · rintro rfl
        exact ⟨[], .nil, [], .nil, [], .nil, .nil⟩
  | cons a as ih =>
      intro zs
      rw [List.forall₂_cons_left_iff]
      constructor
      · rintro ⟨_, _ | ⟨hA, hAs⟩, _, _ | ⟨hB, hBs⟩, _, _ | ⟨hC, hCs⟩, _ | ⟨hD, hDs⟩⟩
        exact ⟨_, _, ⟨_, _, _, hA, hB, hC, hD⟩, ih.1 ⟨_, hAs, _, hBs, _, hCs, hDs⟩, rfl⟩
      · rintro ⟨z, zs, ⟨b, c, d, hA, hB, hC, hD⟩, hrest, rfl⟩
        obtain ⟨bs, hAs, cs, hBs, ds, hCs, hDs⟩ := ih.2 hrest
        exact ⟨b :: bs, .cons hA hAs, c :: cs, .cons hB hBs, d :: ds, .cons hC hCs, .cons hD hDs⟩

theorem checkBatch_yields (h : Serves rpcPool chain) {batch : List VerifiedDeploy}
    (hlen : batch.length ≤ 100) :
    Yields (checkBatch rpcPool batch) (List.Forall₂ (Checked chain) batch) := by
  have hlabel : ∀ label : String, trim label.toList ≠ [] → ∀ {α : Type} {f : α → PublicKey}
      {xs : List α}, ∀ a ∈ xs.map (fun x => (f x, label)), trim a.2.toList ≠ [] := by
    intro label hne α f xs a ha
    obtain ⟨_, _, rfl⟩ := List.mem_map.1 ha
    exact hne
  have hprograms : Yields (fetchAccountDataBatch rpcPool
      (batch.map fun entry => (entry.programId, "Program")) none)
      (List.Forall₂ (fun entry program => chain entry.programId = some program) batch) := by
    refine (fetchAccountDataBatch_yields h (by rwa [List.length_map])
      (hlabel _ (by decide)) rfl).of_iff fun programs => ?_
    rw [List.forall₂_map_left_iff]
    exact Iff.of_eq (congrArg (List.Forall₂ · batch programs)
      (funext fun entry => funext fun program => by
        rw [show cut none = id from rfl, Option.map_id]
        rfl))
  have hheaders : ∀ keys : List PublicKey, keys.length ≤ 100 →
      Yields (fetchAccountDataBatch rpcPool (keys.map fun key => (key, "ProgramData"))
        (some headerSlice))
        (List.Forall₂ (fun key header => (chain key).map (·.take 12) = some header) keys) := by
    intro keys hkeys
    refine (fetchAccountDataBatch_yields h (by rwa [List.length_map])
      (hlabel _ (by decide)) rfl).of_iff fun headers => ?_
    rw [List.forall₂_map_left_iff]
    rfl
  refine (hprograms.bind fun programs hprogramsOk => (Yields.lift _).bind fun keys hkeys =>
    (hheaders keys ?_).bind fun headers _ => Yields.lift _).of_iff fun checks => ?_
  · rw [← (mapM_eq_ok.1 hkeys).length_eq, ← hprogramsOk.length_eq]
    exact hlen
  · have hstages : (∃ programs, List.Forall₂ (fun (entry : VerifiedDeploy) program =>
          chain entry.programId = some program) batch programs ∧
        ∃ keys, programs.mapM programDataKey = .ok keys ∧
        ∃ headers, List.Forall₂ (fun key header => (chain key).map (·.take 12) = some header)
          keys headers ∧
        (headers.zipIdx.mapM fun p => checkHeader batch p.1 p.2) = .ok checks) ↔
        ∃ programs, List.Forall₂ (fun (entry : VerifiedDeploy) program =>
          chain entry.programId = some program) batch programs ∧
        ∃ keys, List.Forall₂ (fun program key => programDataKey program = .ok key) programs keys ∧
        ∃ headers, List.Forall₂ (fun key header => (chain key).map (·.take 12) = some header)
          keys headers ∧
        List.Forall₂ (fun (p : VerifiedDeploy × List UInt8) check => ∃ slot,
          headerSlot p.2 = .ok slot ∧ check = upgradeCheck p.1 slot)
          (batch.zip headers) checks := by
      refine exists_congr fun programs => and_congr_right fun hAs =>
        exists_congr fun keys => ?_
      rw [mapM_eq_ok]
      refine and_congr_right fun hBs => exists_congr fun headers => and_congr_right fun hCs => ?_
      exact checkHeaders_iff (At.start batch)
        ((hAs.length_eq.trans hBs.length_eq).trans hCs.length_eq)
    rw [hstages, forall₂_stages]
    refine Iff.of_eq (congrArg (List.Forall₂ · batch checks) ?_)
    funext entry check
    refine propext ⟨?_, ?_⟩
    · rintro ⟨program, key, header, hprogram, hkey, hheader, slot, hslot, hcheck⟩
      obtain ⟨data, hdata, rfl⟩ := Option.map_eq_some_iff.1 hheader
      exact ⟨slot, ⟨program, key, data, hprogram, hkey, hdata, hslot⟩, hcheck⟩
    · rintro ⟨slot, ⟨program, key, data, hprogram, hkey, hdata, hslot⟩, hcheck⟩
      exact ⟨program, key, _, hprogram, hkey, Option.map_eq_some_iff.2 ⟨data, hdata, rfl⟩, slot,
        hslot, hcheck⟩

/-! ## The list -/

theorem checkFrom_yields (h : Serves rpcPool chain) (requested : List VerifiedDeploy)
    (start : Nat) (checks : List UpgradeCheck) :
    Yields (checkFrom rpcPool requested start checks) fun out =>
      ∃ rest, List.Forall₂ (Checked chain) (requested.drop start) rest ∧ checks ++ rest = out := by
  fun_induction checkFrom rpcPool requested start checks with
  | case1 start checks hlt ih =>
      have hbatch : ((requested.drop start).take 100).length ≤ 100 := List.length_take_le _ _
      refine ((checkBatch_yields h hbatch).bind fun checked _ => ih checked).of_iff fun out => ?_
      rw [← List.drop_drop]
      constructor
      · rintro ⟨checked, hchecked, rest, hrest, rfl⟩
        refine ⟨checked ++ rest, ?_, (List.append_assoc _ _ _).symm⟩
        have hall : List.Forall₂ (Checked chain) (_ ++ _) (checked ++ rest) :=
          List.rel_append hchecked hrest
        rwa [List.take_append_drop] at hall
      · rintro ⟨rest, hrest, rfl⟩
        refine ⟨rest.take 100, List.forall₂_take 100 hrest, rest.drop 100,
          List.forall₂_drop 100 hrest, ?_⟩
        rw [List.append_assoc, List.take_append_drop]
  | case2 start checks hge =>
      refine (Yields.pure checks).of_iff fun out => ?_
      rw [List.drop_eq_nil_of_le (Nat.le_of_not_lt hge)]
      constructor
      · exact fun heq => ⟨[], .nil, (List.append_nil _).trans heq⟩
      · rintro ⟨_, ⟨⟩, heq⟩
        exact (List.append_nil _).symm.trans heq

/-! ## Requests -/

/-- No more accounts than one request may name. -/
def Small (request : AccountRequest) : Prop := request.accounts ≤ 100

theorem fetchAccountDataBatch_within (rpcPool : AccountRpc)
    (requested : List (PublicKey × String)) (dataSlice : Option DataSlice) :
    Within Small (fetchAccountDataBatch rpcPool requested dataSlice) := by
  unfold fetchAccountDataBatch
  split
  · exact Within.throw _
  · rename_i hbounds
    have hsmall : Small (.getMultipleAccounts (requested.map fun a => a.1.toBase58)
        { commitment := some "confirmed", dataSlice := dataSlice }) := by
      have hlen := Nat.le_of_not_lt fun hlong => hbounds (.inl hlong)
      rwa [Small, AccountRequest.accounts, List.length_map]
    split
    · exact Within.throw _
    · split
      · exact Within.pure _
      · exact (Within.call _ hsmall).bind fun _ => Within.lift _

theorem checkBatch_within (rpcPool : AccountRpc) (batch : List VerifiedDeploy) :
    Within Small (checkBatch rpcPool batch) :=
  (fetchAccountDataBatch_within rpcPool _ _).bind fun _ => (Within.lift _).bind fun _ =>
    (fetchAccountDataBatch_within rpcPool _ _).bind fun _ => Within.lift _

theorem checkFrom_within (rpcPool : AccountRpc) (requested : List VerifiedDeploy) (start : Nat)
    (checks : List UpgradeCheck) : Within Small (checkFrom rpcPool requested start checks) := by
  fun_induction checkFrom rpcPool requested start checks with
  | case1 start checks hlt ih => exact (checkBatch_within rpcPool _).bind fun checked => ih checked
  | case2 start checks hge => exact Within.pure _

/-! ## The check -/

/-- The entry for a listed deployment, by what the single check returns for its program. -/
structure SingleCheck (rpcPool : AccountRpc) (entry : VerifiedDeploy) (check : UpgradeCheck)
    (slot : Nat) : Prop where
  single : result (programDeploySlot rpcPool entry.programId) = .ok slot
  programId : check.programId = entry.programId
  verifiedSlot : check.verifiedSlot = entry.slot
  deployedSlot : check.deployedSlot = slot
  upgraded : check.upgraded = true ↔ (slot : Int) ≠ entry.slot

/-- The check of a list is the single checks of its programs. -/
structure EqualsSingle (rpcPool : AccountRpc) (verified : List VerifiedDeploy) : Prop where
  succeeds : (∃ checks, result (checkProgramUpgrades rpcPool verified) = .ok checks) ↔
    ∀ entry ∈ verified, ∃ slot, result (programDeploySlot rpcPool entry.programId) = .ok slot
  entries : ∀ checks, result (checkProgramUpgrades rpcPool verified) = .ok checks →
    List.Forall₂ (fun entry check => ∃ slot, SingleCheck rpcPool entry check slot) verified checks
  small : ∀ request ∈ requests (checkProgramUpgrades rpcPool verified), request.accounts ≤ 100

/-- **Batched upgrade checks equal single checks** while the chain does not change. -/
theorem upgrade_checks_equal_single (h : Serves rpcPool chain) (verified : List VerifiedDeploy) :
    EqualsSingle rpcPool verified := by
  have hsingle : ∀ programId slot, result (programDeploySlot rpcPool programId) = .ok slot ↔
      Deployed chain programId slot := fun programId slot =>
    programDeploySlot_yields h programId [] slot
  have hlist : ∀ checks, result (checkProgramUpgrades rpcPool verified) = .ok checks ↔
      List.Forall₂ (Checked chain) verified checks := by
    intro checks
    refine (checkFrom_yields h verified 0 [] [] checks).trans ?_
    exact ⟨fun ⟨_, hrest, heq⟩ => heq ▸ hrest, fun hrest => ⟨checks, hrest, rfl⟩⟩
  constructor
  · simp only [hlist, hsingle, exists_forall₂_iff]
    refine forall₂_congr fun entry _ => ?_
    exact ⟨fun ⟨_, slot, hslot, _⟩ => ⟨slot, hslot⟩, fun ⟨slot, hslot⟩ => ⟨_, slot, hslot, rfl⟩⟩
  · intro checks hchecks
    refine ((hlist checks).1 hchecks).imp ?_
    rintro entry _ ⟨slot, hslot, rfl⟩
    exact ⟨slot, (hsingle _ _).2 hslot, rfl, rfl, rfl, decide_eq_true_iff⟩
  · exact (checkFrom_within rpcPool verified 0 []).requests

/-! ## A chain with one program -/

def accountJson : Option (List UInt8) → Json
  | none => .null
  | some data => .object [("data", .array [.string (toBase64 data), .string "base64"])]

/-- The account at an address in a response. -/
def account (chain : Chain) (dataSlice : Option DataSlice) (address : String) : Json :=
  accountJson ((PublicKey.fromBase58 address).toOption.bind fun key =>
    (chain key).map (cut dataSlice))

/-- A node that answers from the chain. -/
def node (chain : Chain) : AccountRpc where
  call
    | .getAccountInfo address config =>
        .ok (.object [("value", account chain config.dataSlice address)])
    | .getMultipleAccounts addresses config =>
        .ok (.object [("value", .array (addresses.map (account chain config.dataSlice)))])

theorem answers_account (chain : Chain) (dataSlice : Option DataSlice) (key : PublicKey) :
    Answers ((chain key).map (cut dataSlice)) (account chain dataSlice key.toBase58) := by
  unfold account
  rw [PublicKey.fromBase58_toBase58]
  show Answers _ (accountJson ((chain key).map (cut dataSlice)))
  cases (chain key).map (cut dataSlice) with
  | none => rfl
  | some data => rfl

theorem node_serves (chain : Chain) : Serves (node chain) chain where
  single := fun key config =>
    ⟨_, _, rfl, rfl, answers_account chain config.dataSlice key⟩
  multiple := fun keys config _ => by
    refine ⟨_, _, rfl, rfl, ?_⟩
    rw [List.map_map, List.forall₂_map_right_iff]
    exact List.forall₂_same.2 fun key _ => answers_account chain config.dataSlice key

/-- A program, and its data last deployed at slot 5. -/
def smallChain : Chain := fun key =>
  if key = .ofByte 1 then some ([2, 0, 0, 0] ++ List.replicate 32 2)
  else if key = .ofByte 2 then some ([3, 0, 0, 0] ++ [5, 0, 0, 0, 0, 0, 0, 0])
  else none

/-- The program twice, and one that is not there. -/
theorem upgrade_checks_small :
    EqualsSingle (node smallChain) [⟨.ofByte 1, 5⟩, ⟨.ofByte 1, 4⟩, ⟨.ofByte 9, 5⟩] :=
  upgrade_checks_equal_single (node_serves smallChain) _

end Ap3xSolana.Pumpfun.ProgramUpgrade
