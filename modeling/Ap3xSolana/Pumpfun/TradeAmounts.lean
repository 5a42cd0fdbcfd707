import Ap3xSolana.Pumpfun.IdlRoundTrip
import Ap3xSolana.Pumpfun.TradeBuilders

/-!
# Amounts in instruction data

What the program reads where a builder has encoded an amount.  The encoder reduces every
integer to eight bytes, and the builders do not check that it fits.
-/

namespace Ap3xSolana.Pumpfun

open Core Lib Lib.Reading Tx.FindProgramAddress Tx.TransactionAssembler

/-! ## Arguments -/

/-- What the builders pass: an amount, and the flag that the volume is tracked. -/
inductive ArgOf (types : String → Option IdlTypeDef) : IdlType → IdlValue → Prop
  | amount (z : Int) : ArgOf types (.name "u64") (.bigint z)
  | flag (b : Bool) :
      types "OptionBool" = some (.struct (some (.tuple [.name "bool"]))) →
      ArgOf types (.defined "OptionBool") (.array [.bool b])

/-- The bytes of an argument. -/
def sent : IdlValue → List UInt8
  | .bigint z => le z 8
  | .array [.bool b] => [if b then 1 else 0]
  | _ => []

/-- What the program reads. -/
def received : IdlValue → IdlValue
  | .bigint z => .bigint (LittleEndian.wrap 8 z)
  | v => v

variable {types : String → Option IdlTypeDef} {t : IdlType} {v : IdlValue}

theorem sent_ne_nil (h : ArgOf types t v) : sent v ≠ [] := by
  cases h with
  | amount z =>
      intro hnil
      have hlen : (le z 8).length = 0 := congrArg List.length hnil
      rw [length_le] at hlen
      cases hlen
  | flag b _ => exact nofun

theorem encode_arg (h : ArgOf types t v) (fuel : Nat) :
    encodeIdlValue types (fuel + 2) t v = .ok (sent v) := by
  cases h with
  | amount z => rfl
  | flag b htype =>
      unfold encodeIdlValue
      rw [htype]
      cases b <;> rfl

theorem reads_arg (h : ArgOf types t v) (fuel : Nat) :
    Reads (decodeValue types (fuel + 2) t) (sent v) (received v) := by
  cases h with
  | amount z =>
      have hread := (reads_take (length_le z 8)).map
        (f := fun bytes => intValue 8 (uintLE bytes))
      rw [uintLE_le] at hread
      exact hread
  | flag b htype =>
      have hbool : Reads (decodeValue types (fuel + 1) (.name "bool"))
          [if b then 1 else 0] (.bool b) := (codes_bool b).2
      have htuple : Reads (decodeTuple (decodeValue types (fuel + 1)) [.name "bool"])
          [if b then 1 else 0] [.bool b] := hbool.map (f := fun v => [v])
      unfold decodeValue
      rw [htype]
      exact htuple.map (f := IdlValue.array)

/-! ## Instruction data -/

/-- The arguments that the schema's types read from instruction data. -/
def decodeArgs (schema : IdlProgramSchema) (ix : IdlInstructionSchema) (data : List UInt8) :
    Except IdlError (((String → IdlValue) × Bool) × Cursor) :=
  decodePrefix (decodeValue schema.types callStack) ix.args (fun _ => .undefined)
    ⟨data.drop 8, 0⟩

/-- A call names an instruction, and passes an argument for each of its `fields`; `rest` is
left out of the data. -/
structure Sends (call : TradeCall) (ix : IdlInstructionSchema) (fields rest : List IdlField) :
    Prop where
  found : findInstruction call.schema call.name = .ok ix
  discriminator : (discriminatorBytes ix.discriminator).length = 8
  nonempty : fields ≠ []
  args : ix.args = fields ++ rest
  taken : argFields ix.args (argsOf call.args) = fields
  typed : ∀ f ∈ fields, ArgOf call.schema.types f.type (argsOf call.args (camelCase f.name))

namespace Sends

variable {call : TradeCall} {ix : IdlInstructionSchema} {fields rest : List IdlField}

def parts (call : TradeCall) (fields : List IdlField) : List (List UInt8) :=
  fields.map fun f => sent (argsOf call.args (camelCase f.name))

theorem instructionData_eq (h : Sends call ix fields rest) :
    instructionData call.schema ix (argsOf call.args) =
      .ok (discriminatorBytes ix.discriminator ++ (parts call fields).flatten) := by
  have hparts : fields.mapM (fun f => encodeIdlValue call.schema.types callStack f.type
      (argsOf call.args (camelCase f.name))) = .ok (parts call fields) :=
    Throwing.mapM_ok fun f hf => encode_arg (h.typed f hf) 998
  have hbody : encodeIdlFields fields (argsOf call.args) call.schema.types =
      .ok (parts call fields).flatten := by
    cases fields with
    | nil => exact absurd rfl h.nonempty
    | cons f fields =>
        show ((f :: fields).mapM fun f => encodeIdlValue call.schema.types callStack f.type
          (argsOf call.args (camelCase f.name))).bind _ = _
        rw [hparts]
        rfl
  show ((encodeIdlFields (argFields ix.args (argsOf call.args)) (argsOf call.args)
    call.schema.types).mapError BuildError.idl).bind _ = _
  rw [h.taken, hbody]
  rfl

theorem decodeArgs_eq (h : Sends call ix fields rest) {data : List UInt8}
    (hdata : instructionData call.schema ix (argsOf call.args) = .ok data) :
    decodeArgs call.schema ix data =
      .ok ((filled (fun key => received (argsOf call.args key)) (fun _ => .undefined) fields,
        decide (rest = [])), ⟨data.drop 8, (data.drop 8).length⟩) := by
  have hparts : List.Forall₂ (fun f part => Reads (decodeValue call.schema.types callStack f.type)
      part (received (argsOf call.args (camelCase f.name))) ∧ part ≠ [])
      fields (parts call fields) := by
    rw [parts, List.forall₂_map_right_iff, List.forall₂_same]
    exact fun f hf => ⟨reads_arg (h.typed f hf) 998, sent_ne_nil (h.typed f hf)⟩
  rw [h.instructionData_eq] at hdata
  cases hdata
  have hdrop : (discriminatorBytes ix.discriminator ++ (parts call fields).flatten).drop 8 =
      (parts call fields).flatten := List.drop_left' h.discriminator
  rw [decodeArgs, hdrop, h.args, ← Nat.zero_add (parts call fields).flatten.length]
  let property : String → IdlValue := fun key => received (argsOf call.args key)
  have hread : List.Forall₂ (fun f part => Reads (decodeValue call.schema.types callStack f.type)
      part (property (camelCase f.name)) ∧ part ≠ []) fields (parts call fields) := hparts
  exact decodePrefix_eq hread (Cursor.At.start _)

end Sends

/-! ## Builders -/

/-- The program and the accounts of a trade: everything but the data. -/
def tradeKeys (noble : Noble) (call : TradeCall) : Build (PublicKey × List AccountMeta) := do
  let known ← call.known
  let remaining ← call.remaining
  let ix ← findInstruction call.schema call.name
  let (programId, keys) ← instructionKeys noble call.schema ix known
  return (programId, keys ++ remaining)

/-- A required amount is not positive. -/
def TradeCall.Refused (call : TradeCall) : Prop := ∃ check ∈ call.checked, check.2 ≤ 0

theorem forM_positive (checked : List (String × Int)) :
    checked.forM positive = .ok () ↔ ¬ ∃ check ∈ checked, check.2 ≤ 0 := by
  induction checked with
  | nil => exact iff_of_true rfl fun ⟨_, h, _⟩ => nomatch h
  | cons check checked ih =>
      show (positive check).bind (fun _ => checked.forM positive) = .ok () ↔ _
      rw [List.exists_mem_cons_iff]
      unfold positive
      by_cases hcheck : check.2 ≤ 0
      · rw [if_pos hcheck]
        exact iff_of_false nofun fun h => h (.inl hcheck)
      · rw [if_neg hcheck, or_iff_right hcheck]
        exact ih

theorem buildTrade_eq_ok {noble : Noble} {call : TradeCall} {ix : IdlInstructionSchema}
    (hix : findInstruction call.schema call.name = .ok ix) {built : Instruction} :
    buildTrade noble call = .ok built ↔
      ¬ call.Refused ∧ tradeKeys noble call = .ok (built.programId, built.keys) ∧
      instructionData call.schema ix (argsOf call.args) = .ok built.data := by
  unfold buildTrade tradeKeys buildIdlInstruction TradeCall.Refused
  rw [← forM_positive, hix]
  simp only [Throwing.bind_eq_ok, Throwing.pure_eq_ok, Except.ok.injEq, exists_eq_left']
  constructor
  · rintro ⟨_, hforM, known, hknown, remaining, hremaining, keys, hkeys, data, hdata, rfl⟩
    exact ⟨hforM, ⟨known, hknown, remaining, hremaining, keys, hkeys, rfl⟩, hdata⟩
  · rintro ⟨hforM, ⟨known, hknown, remaining, hremaining, keys, hkeys, heq⟩, hdata⟩
    refine ⟨(), hforM, known, hknown, remaining, hremaining, keys, hkeys, _, hdata, ?_⟩
    rw [Prod.mk.injEq] at heq
    rw [heq.1, heq.2]

/-- The builder throws, or the data decode to the amounts that it was given. -/
def KeepsAmounts (call : TradeCall) (result : Build Instruction)
    (amounts : List (String × Int)) : Prop :=
  ∀ built, result = .ok built →
    ∃ ix fields complete c, findInstruction call.schema call.name = .ok ix ∧
      decodeArgs call.schema ix built.data = .ok ((fields, complete), c) ∧
      ∀ p ∈ amounts, fields p.1 = .bigint p.2

def FitsU64 (z : Int) : Prop := 0 ≤ z ∧ z < 2 ^ 64

theorem received_eq_iff (z : Int) : received (.bigint z) = .bigint z ↔ FitsU64 z := by
  show IdlValue.bigint (LittleEndian.wrap 8 z) = .bigint z ↔ _
  rw [IdlValue.bigint.injEq, LittleEndian.cast_wrap_eq_iff]
  rfl

theorem Sends.keepsAmounts_iff {call : TradeCall} {ix : IdlInstructionSchema}
    {fields rest : List IdlField} {amounts : List (String × Int)} (h : Sends call ix fields rest)
    (hamounts : ∀ p ∈ amounts, p.1 ∈ fields.map (fun f => camelCase f.name) ∧
      argsOf call.args p.1 = .bigint p.2) (noble : Noble) :
    KeepsAmounts call (buildTrade noble call) amounts ↔
      call.Refused ∨ (tradeKeys noble call).isOk = false ∨ ∀ p ∈ amounts, FitsU64 p.2 := by
  have hfields : ∀ p ∈ amounts, filled (fun key => received (argsOf call.args key))
      (fun _ => .undefined) fields p.1 = received (.bigint p.2) := by
    intro p hp
    rw [filled_apply, if_pos (hamounts p hp).1, (hamounts p hp).2]
  constructor
  · intro hkeeps
    by_cases hrefused : call.Refused
    · exact .inl hrefused
    cases hkeys : tradeKeys noble call with
    | error e => exact .inr (.inl rfl)
    | ok keys =>
        refine .inr (.inr fun p hp => ?_)
        obtain ⟨ix', out, complete, c, hix, hdecode, hout⟩ :=
          hkeeps ⟨keys.1, keys.2, _⟩ ((buildTrade_eq_ok h.found).2
            ⟨hrefused, hkeys, h.instructionData_eq⟩)
        rw [h.found, Except.ok.injEq] at hix
        rw [← hix, h.decodeArgs_eq h.instructionData_eq, Except.ok.injEq, Prod.mk.injEq,
          Prod.mk.injEq] at hdecode
        have hp' := hout p hp
        rw [← hdecode.1.1, hfields p hp] at hp'
        exact (received_eq_iff p.2).1 hp'
  · intro hwhen built hbuilt
    obtain ⟨hrefused, hkeys, hdata⟩ := (buildTrade_eq_ok h.found).1 hbuilt
    have hfits : ∀ p ∈ amounts, FitsU64 p.2 := by
      rcases hwhen with hwhen | hwhen | hwhen
      · exact absurd hwhen hrefused
      · rw [hkeys] at hwhen
        cases hwhen
      · exact hwhen
    refine ⟨ix, _, _, _, h.found, h.decodeArgs_eq hdata, fun p hp => ?_⟩
    rw [hfields p hp]
    exact (received_eq_iff p.2).2 (hfits p hp)

/-! ## Every builder -/

inductive Trade where
  | buy (p : BuyParams)
  | buyExactSolIn (p : BuyExactSolInParams)
  | sell (p : SellParams)
  | buyV2 (p : BuyV2Params)
  | buyExactQuoteInV2 (p : BuyExactQuoteInV2Params)
  | sellV2 (p : SellV2Params)
  | pumpSwapBuy (p : PumpSwapBuyParams)
  | pumpSwapBuyExactQuoteIn (p : PumpSwapBuyExactQuoteInParams)
  | pumpSwapSell (p : PumpSwapSellParams)

namespace Trade

def call (noble : Noble) : Trade → TradeCall
  | .buy p => p.call noble
  | .buyExactSolIn p => p.call noble
  | .sell p => p.call noble
  | .buyV2 p => p.call noble
  | .buyExactQuoteInV2 p => p.call noble
  | .sellV2 p => p.call noble
  | .pumpSwapBuy p => p.call noble
  | .pumpSwapBuyExactQuoteIn p => p.call noble
  | .pumpSwapSell p => p.call noble

def build (noble : Noble) : Trade → Build Instruction
  | .buy p => buildBuy noble p
  | .buyExactSolIn p => buildBuyExactSolIn noble p
  | .sell p => buildSell noble p
  | .buyV2 p => buildBuyV2 noble p
  | .buyExactQuoteInV2 p => buildBuyExactQuoteInV2 noble p
  | .sellV2 p => buildSellV2 noble p
  | .pumpSwapBuy p => buildPumpSwapBuy noble p
  | .pumpSwapBuyExactQuoteIn p => buildPumpSwapBuyExactQuoteIn noble p
  | .pumpSwapSell p => buildPumpSwapSell noble p

theorem build_eq (noble : Noble) (t : Trade) : t.build noble = buildTrade noble (t.call noble) := by
  cases t <;> rfl

/-- The amounts under the names that the decoder gives them. -/
def amounts : Trade → List (String × Int)
  | .buy p => [("amount", p.amount), ("maxSolCost", p.maxSolCost)]
  | .buyExactSolIn p => [("spendableSolIn", p.spendableSolIn), ("minTokensOut", p.minTokensOut)]
  | .sell p => [("amount", p.amount), ("minSolOutput", p.minSolOutput)]
  | .buyV2 p => [("amount", p.amount), ("maxSolCost", p.maxSolCost)]
  | .buyExactQuoteInV2 p =>
      [("spendableQuoteIn", p.spendableQuoteIn), ("minTokensOut", p.minTokensOut)]
  | .sellV2 p => [("amount", p.amount), ("minSolOutput", p.minSolOutput)]
  | .pumpSwapBuy p =>
      [("baseAmountOut", p.baseAmountOut), ("maxQuoteAmountIn", p.maxQuoteAmountIn)]
  | .pumpSwapBuyExactQuoteIn p =>
      [("spendableQuoteIn", p.spendableQuoteIn), ("minBaseAmountOut", p.minBaseAmountOut)]
  | .pumpSwapSell p =>
      [("baseAmountIn", p.baseAmountIn), ("minQuoteAmountOut", p.minQuoteAmountOut)]

end Trade

/-- The amounts of a trade in the schema's words, and whether its data end with the flag. -/
structure Layout (call : TradeCall) (ix : IdlInstructionSchema) (a b : String) (x y : Int)
    (flags rest : List IdlField) : Prop where
  found : findInstruction call.schema call.name = .ok ix
  discriminator : (discriminatorBytes ix.discriminator).length = 8
  args : ix.args = ⟨a, .name "u64"⟩ :: ⟨b, .name "u64"⟩ :: flags ++ rest
  taken : argFields ix.args (argsOf call.args) = ⟨a, .name "u64"⟩ :: ⟨b, .name "u64"⟩ :: flags
  first : argsOf call.args (camelCase a) = .bigint x
  second : argsOf call.args (camelCase b) = .bigint y
  flagged : ∀ f ∈ flags, ArgOf call.schema.types f.type (argsOf call.args (camelCase f.name))

theorem Layout.keepsAmounts_iff {call : TradeCall} {ix : IdlInstructionSchema} {a b : String}
    {x y : Int} {flags rest : List IdlField} (h : Layout call ix a b x y flags rest)
    (noble : Noble) :
    KeepsAmounts call (buildTrade noble call) [(camelCase a, x), (camelCase b, y)] ↔
      call.Refused ∨ (tradeKeys noble call).isOk = false ∨ FitsU64 x ∧ FitsU64 y := by
  have htyped : ∀ f ∈ (⟨a, .name "u64"⟩ :: ⟨b, .name "u64"⟩ :: flags : List IdlField),
      ArgOf call.schema.types f.type (argsOf call.args (camelCase f.name)) := by
    simp only [List.forall_mem_cons, h.first, h.second]
    exact ⟨.amount x, .amount y, h.flagged⟩
  have hsends : Sends call ix (⟨a, .name "u64"⟩ :: ⟨b, .name "u64"⟩ :: flags) rest :=
    ⟨h.found, h.discriminator, List.cons_ne_nil _ _, h.args, h.taken, htyped⟩
  rw [hsends.keepsAmounts_iff _ noble]
  · simp only [List.forall_mem_cons, List.not_mem_nil, false_implies, implies_true, and_true]
  · intro p hp
    rcases List.mem_pair.1 hp with rfl | rfl
    · exact ⟨List.mem_cons_self, h.first⟩
    · exact ⟨List.mem_cons_of_mem _ List.mem_cons_self, h.second⟩

theorem flagged {call : TradeCall} {b : Bool}
    (htype : call.schema.types "OptionBool" = some (.struct (some (.tuple [.name "bool"]))))
    (hvalue : argsOf call.args (camelCase "track_volume") = .array [.bool b]) :
    ∀ f ∈ ([⟨"track_volume", .defined "OptionBool"⟩] : List IdlField),
      ArgOf call.schema.types f.type (argsOf call.args (camelCase f.name)) := by
  intro f hf
  rw [List.mem_singleton] at hf
  rw [hf, hvalue]
  exact .flag b htype

/-- Both amounts of the trade fit into eight bytes. -/
def Trade.Fits (t : Trade) : Prop := ∀ p ∈ t.amounts, FitsU64 p.2

/-- A trade builder lets the program see the amounts it was given exactly if it throws
anyway, for a checked amount or an account without address, or both amounts fit. -/
theorem trade_keeps_amounts (noble : Noble) (t : Trade) :
    KeepsAmounts (t.call noble) (t.build noble) t.amounts ↔
      (t.call noble).Refused ∨ (tradeKeys noble (t.call noble)).isOk = false ∨ t.Fits := by
  have hpair : ∀ {a b : String} {x y : Int}, (∀ p ∈ [(a, x), (b, y)], FitsU64 p.2) ↔
      FitsU64 x ∧ FitsU64 y := by simp
  rw [Trade.build_eq]
  cases t with
  | buy p =>
      have h : Layout (p.call noble) _ "amount" "max_sol_cost" p.amount p.maxSolCost
          [⟨"track_volume", .defined "OptionBool"⟩] [⟨"partial_fill", .defined "OptionBool"⟩] :=
        ⟨rfl, rfl, rfl, rfl, rfl, rfl, flagged rfl rfl⟩
      exact (h.keepsAmounts_iff noble).trans (or_congr_right (or_congr_right hpair.symm))
  | buyExactSolIn p =>
      have h : Layout (p.call noble) _ "spendable_sol_in" "min_tokens_out" p.spendableSolIn
          p.minTokensOut [⟨"track_volume", .defined "OptionBool"⟩]
          [⟨"partial_fill", .defined "OptionBool"⟩] :=
        ⟨rfl, rfl, rfl, rfl, rfl, rfl, flagged rfl rfl⟩
      exact (h.keepsAmounts_iff noble).trans (or_congr_right (or_congr_right hpair.symm))
  | sell p =>
      have h : Layout (p.call noble) _ "amount" "min_sol_output" p.amount p.minSolOutput [] [] :=
        ⟨rfl, rfl, rfl, rfl, rfl, rfl, nofun⟩
      exact (h.keepsAmounts_iff noble).trans (or_congr_right (or_congr_right hpair.symm))
  | buyV2 p =>
      have h : Layout (p.call noble) _ "amount" "max_sol_cost" p.amount p.maxSolCost []
          [⟨"partial_fill", .defined "OptionBool"⟩] :=
        ⟨rfl, rfl, rfl, rfl, rfl, rfl, nofun⟩
      exact (h.keepsAmounts_iff noble).trans (or_congr_right (or_congr_right hpair.symm))
  | buyExactQuoteInV2 p =>
      have h : Layout (p.call noble) _ "spendable_quote_in" "min_tokens_out" p.spendableQuoteIn
          p.minTokensOut [] [⟨"partial_fill", .defined "OptionBool"⟩] :=
        ⟨rfl, rfl, rfl, rfl, rfl, rfl, nofun⟩
      exact (h.keepsAmounts_iff noble).trans (or_congr_right (or_congr_right hpair.symm))
  | sellV2 p =>
      have h : Layout (p.call noble) _ "amount" "min_sol_output" p.amount p.minSolOutput [] [] :=
        ⟨rfl, rfl, rfl, rfl, rfl, rfl, nofun⟩
      exact (h.keepsAmounts_iff noble).trans (or_congr_right (or_congr_right hpair.symm))
  | pumpSwapBuy p =>
      have h : Layout (p.call noble) _ "base_amount_out" "max_quote_amount_in" p.baseAmountOut
          p.maxQuoteAmountIn [⟨"track_volume", .defined "OptionBool"⟩] [] :=
        ⟨rfl, rfl, rfl, rfl, rfl, rfl, flagged rfl rfl⟩
      exact (h.keepsAmounts_iff noble).trans (or_congr_right (or_congr_right hpair.symm))
  | pumpSwapBuyExactQuoteIn p =>
      have h : Layout (p.call noble) _ "spendable_quote_in" "min_base_amount_out"
          p.spendableQuoteIn p.minBaseAmountOut [⟨"track_volume", .defined "OptionBool"⟩] [] :=
        ⟨rfl, rfl, rfl, rfl, rfl, rfl, flagged rfl rfl⟩
      exact (h.keepsAmounts_iff noble).trans (or_congr_right (or_congr_right hpair.symm))
  | pumpSwapSell p =>
      have h : Layout (p.call noble) _ "base_amount_in" "min_quote_amount_out" p.baseAmountIn
          p.minQuoteAmountOut [] [] :=
        ⟨rfl, rfl, rfl, rfl, rfl, rfl, nofun⟩
      exact (h.keepsAmounts_iff noble).trans (or_congr_right (or_congr_right hpair.symm))

/-! ## A limit that is lost -/

/-- Hashes that are never on the curve. -/
def toyNoble : Noble where
  sha256 := fun bytes => (bytes ++ List.replicate 32 0).take 32
  isOnCurve := fun _ => false

/-- A sell of one token for at least `2 ^ 64` lamports. -/
def sellForTooMuch : SellParams where
  mint := .ofByte 1
  user := .ofByte 2
  feeRecipient := .ofByte 3
  creator := .ofByte 4
  buybackFeeRecipient := .ofByte 5
  tokenProgram := none
  userTokenAccount := none
  amount := 1
  minSolOutput := 2 ^ 64
  cashback := none

/-- Its data ask for at least zero. -/
theorem sellForTooMuch_loses_limit :
    ¬ KeepsAmounts (sellForTooMuch.call toyNoble) (buildSell toyNoble sellForTooMuch)
      [("amount", 1), ("minSolOutput", 2 ^ 64)] := by
  have h : Layout (sellForTooMuch.call toyNoble) _ "amount" "min_sol_output" 1 (2 ^ 64) [] [] :=
    ⟨rfl, rfl, rfl, rfl, rfl, rfl, nofun⟩
  have hkeys : (tradeKeys toyNoble (sellForTooMuch.call toyNoble)).isOk = true := by
    decide +kernel
  intro hkeeps
  rcases (h.keepsAmounts_iff toyNoble).1 hkeeps with hrefused | hmissing | hfits
  · exact absurd hrefused (by simp [TradeCall.Refused, SellParams.call, sellForTooMuch])
  · rw [hkeys] at hmissing
    cases hmissing
  · exact absurd hfits.2.2 (by decide)

end Ap3xSolana.Pumpfun
