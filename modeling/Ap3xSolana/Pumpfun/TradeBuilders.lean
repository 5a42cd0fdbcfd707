import Ap3xSolana.Pumpfun.IdlInstruction

/-!
# The trade builders

pump.fun's bonding curve, its v2 form with an explicit quote mint, and PumpSwap.  Each
builder checks some of its amounts, names the accounts that the chain cannot derive, and
leaves the rest to `buildIdlInstruction`.
-/

namespace Ap3xSolana.Pumpfun

open Core Lib Tx.FindProgramAddress Tx.TransactionAssembler

/-! ## Programs and derived addresses -/

/-- `PublicKey.fromBase58` of a constant. -/
def programKey (s : String) : PublicKey := ((PublicKey.fromBase58 s).toOption).getD zeroKey

def tokenProgramId : PublicKey := programKey "TokenkegQfeZyiNwAJbNbGKPFXCWuBvf9Ss623VQ5DA"

def associatedTokenProgramId : PublicKey :=
  programKey "ATokenGPvbdGVxr1b2hvZbsiqW5xWH25efTNsLJA8knL"

def pumpfunBondingCurveProgramId : PublicKey :=
  programKey "6EF8rrecthR5Dkzon8Nwu78hRvfCKubJ14M5uBEwF6P"

def pumpfunPumpswapProgramId : PublicKey :=
  programKey "pAMMBay6oceH9fJKBRHGP5D4bD4sWpmSwMn52FMfXEA"

/-- With `allowOwnerOffCurve`, as every builder calls it. -/
def getAssociatedTokenAddress (noble : Noble) (mint owner tokenProgramId : PublicKey) :
    Build PublicKey :=
  findAddress noble [owner.bytes, tokenProgramId.bytes, mint.bytes] associatedTokenProgramId

def deriveUserVolumeAccumulatorPda (noble : Noble) (user programId : PublicKey) :
    Build PublicKey :=
  findAddress noble [Utf8.utf8 "user_volume_accumulator", user.bytes] programId

def deriveBondingCurveV2Pda (noble : Noble) (mint : PublicKey) : Build PublicKey :=
  findAddress noble [Utf8.utf8 "bonding-curve-v2", mint.bytes] pumpfunBondingCurveProgramId

def derivePumpSwapGlobalConfigPda (noble : Noble) : Build PublicKey :=
  findAddress noble [Utf8.utf8 "global_config"] pumpfunPumpswapProgramId

def derivePoolV2Pda (noble : Noble) (baseMint : PublicKey) : Build PublicKey :=
  findAddress noble [Utf8.utf8 "pool-v2", baseMint.bytes] pumpfunPumpswapProgramId

/-! ## One builder -/

def positive (check : String × Int) : Build Unit :=
  if check.2 ≤ 0 then .error (.notPositive check.1) else .ok ()

def ro (pubkey : PublicKey) : AccountMeta :=
  { pubkey := pubkey, isSigner := false, isWritable := false }

def rw (pubkey : PublicKey) : AccountMeta :=
  { pubkey := pubkey, isSigner := false, isWritable := true }

def knownOf (entries : List (String × PublicKey)) : Known := fun name => entries.lookup name

def argsOf (entries : List (String × IdlValue)) : String → IdlValue :=
  fun key => (entries.lookup key).getD .undefined

/-- What a builder hands to `buildIdlInstruction`, and the amounts it checks before. -/
structure TradeCall where
  schema : IdlProgramSchema
  name : String
  checked : List (String × Int)
  known : Build Known
  args : List (String × IdlValue)
  remaining : Build (List AccountMeta)

def buildTrade (noble : Noble) (call : TradeCall) : Build Instruction := do
  call.checked.forM positive
  let known ← call.known
  let remaining ← call.remaining
  buildIdlInstruction noble call.schema call.name known (argsOf call.args) remaining

/-- `[params.trackVolume ?? true]`. -/
def trackVolumeArg (trackVolume : Option Bool) : IdlValue := .array [.bool (trackVolume.getD true)]

/-! ## Bonding curve -/

structure BondingCurveTradeAccounts where
  mint : PublicKey
  user : PublicKey
  feeRecipient : PublicKey
  creator : PublicKey
  buybackFeeRecipient : PublicKey
  tokenProgram : Option PublicKey
  userTokenAccount : Option PublicKey
  deriving DecidableEq, Repr

def tradeAccounts (noble : Noble) (p : BondingCurveTradeAccounts) : Build Known := do
  let tokenProgram := p.tokenProgram.getD tokenProgramId
  let associatedUser ←
    match p.userTokenAccount with
    | some account => pure account
    | none => getAssociatedTokenAddress noble p.mint p.user tokenProgram
  return knownOf
    [ ("mint", p.mint)
    , ("user", p.user)
    , ("fee_recipient", p.feeRecipient)
    , ("token_program", tokenProgram)
    , ("associated_user", associatedUser)
    , ("bonding_curve.creator", p.creator) ]

def remainingAccounts (noble : Noble) (p : BondingCurveTradeAccounts) (cashback : Bool) :
    Build (List AccountMeta) := do
  let out ←
    if cashback then do
      let accumulator ←
        deriveUserVolumeAccumulatorPda noble p.user pumpfunBondingCurveProgramId
      pure [rw accumulator]
    else pure []
  let curveV2 ← deriveBondingCurveV2Pda noble p.mint
  return out ++ [ro curveV2, rw p.buybackFeeRecipient]

structure BuyParams extends BondingCurveTradeAccounts where
  amount : Int
  maxSolCost : Int
  trackVolume : Option Bool
  deriving DecidableEq, Repr

def BuyParams.call (noble : Noble) (p : BuyParams) : TradeCall where
  schema := pumpSchema
  name := "buy"
  checked := [("BuyParams.amount", p.amount), ("BuyParams.maxSolCost", p.maxSolCost)]
  known := tradeAccounts noble p.toBondingCurveTradeAccounts
  args := [("amount", .bigint p.amount), ("maxSolCost", .bigint p.maxSolCost),
    ("trackVolume", trackVolumeArg p.trackVolume)]
  remaining := remainingAccounts noble p.toBondingCurveTradeAccounts false

def buildBuy (noble : Noble) (p : BuyParams) : Build Instruction := buildTrade noble (p.call noble)

structure BuyExactSolInParams extends BondingCurveTradeAccounts where
  spendableSolIn : Int
  minTokensOut : Int
  trackVolume : Option Bool
  deriving DecidableEq, Repr

def BuyExactSolInParams.call (noble : Noble) (p : BuyExactSolInParams) : TradeCall where
  schema := pumpSchema
  name := "buy_exact_sol_in"
  checked := [("BuyExactSolInParams.spendableSolIn", p.spendableSolIn)]
  known := tradeAccounts noble p.toBondingCurveTradeAccounts
  args := [("spendableSolIn", .bigint p.spendableSolIn), ("minTokensOut", .bigint p.minTokensOut),
    ("trackVolume", trackVolumeArg p.trackVolume)]
  remaining := remainingAccounts noble p.toBondingCurveTradeAccounts false

def buildBuyExactSolIn (noble : Noble) (p : BuyExactSolInParams) : Build Instruction :=
  buildTrade noble (p.call noble)

structure SellParams extends BondingCurveTradeAccounts where
  amount : Int
  minSolOutput : Int
  cashback : Option Bool
  deriving DecidableEq, Repr

def SellParams.call (noble : Noble) (p : SellParams) : TradeCall where
  schema := pumpSchema
  name := "sell"
  checked := [("SellParams.amount", p.amount)]
  known := tradeAccounts noble p.toBondingCurveTradeAccounts
  args := [("amount", .bigint p.amount), ("minSolOutput", .bigint p.minSolOutput)]
  remaining := remainingAccounts noble p.toBondingCurveTradeAccounts (p.cashback.getD false)

def buildSell (noble : Noble) (p : SellParams) : Build Instruction :=
  buildTrade noble (p.call noble)

/-! ## Bonding curve, v2 -/

structure BondingCurveV2TradeAccounts where
  baseMint : PublicKey
  quoteMint : PublicKey
  user : PublicKey
  feeRecipient : PublicKey
  buybackFeeRecipient : PublicKey
  creator : PublicKey
  baseTokenProgram : Option PublicKey
  quoteTokenProgram : Option PublicKey
  userBaseTokenAccount : Option PublicKey
  userQuoteTokenAccount : Option PublicKey
  deriving DecidableEq, Repr

def v2Accounts (noble : Noble) (p : BondingCurveV2TradeAccounts) : Build Known := do
  let baseTokenProgram := p.baseTokenProgram.getD tokenProgramId
  let quoteTokenProgram := p.quoteTokenProgram.getD tokenProgramId
  let associatedBaseUser ←
    match p.userBaseTokenAccount with
    | some account => pure account
    | none => getAssociatedTokenAddress noble p.baseMint p.user baseTokenProgram
  let associatedQuoteUser ←
    match p.userQuoteTokenAccount with
    | some account => pure account
    | none => getAssociatedTokenAddress noble p.quoteMint p.user quoteTokenProgram
  return knownOf
    [ ("base_mint", p.baseMint)
    , ("quote_mint", p.quoteMint)
    , ("base_token_program", baseTokenProgram)
    , ("quote_token_program", quoteTokenProgram)
    , ("user", p.user)
    , ("fee_recipient", p.feeRecipient)
    , ("buyback_fee_recipient", p.buybackFeeRecipient)
    , ("bonding_curve.creator", p.creator)
    , ("associated_base_user", associatedBaseUser)
    , ("associated_quote_user", associatedQuoteUser) ]

structure BuyV2Params extends BondingCurveV2TradeAccounts where
  amount : Int
  maxSolCost : Int
  deriving DecidableEq, Repr

def BuyV2Params.call (noble : Noble) (p : BuyV2Params) : TradeCall where
  schema := pumpSchema
  name := "buy_v2"
  checked := [("BuyV2Params.amount", p.amount), ("BuyV2Params.maxSolCost", p.maxSolCost)]
  known := v2Accounts noble p.toBondingCurveV2TradeAccounts
  args := [("amount", .bigint p.amount), ("maxSolCost", .bigint p.maxSolCost)]
  remaining := .ok []

def buildBuyV2 (noble : Noble) (p : BuyV2Params) : Build Instruction :=
  buildTrade noble (p.call noble)

structure BuyExactQuoteInV2Params extends BondingCurveV2TradeAccounts where
  spendableQuoteIn : Int
  minTokensOut : Int
  deriving DecidableEq, Repr

def BuyExactQuoteInV2Params.call (noble : Noble) (p : BuyExactQuoteInV2Params) : TradeCall where
  schema := pumpSchema
  name := "buy_exact_quote_in_v2"
  checked := [("BuyExactQuoteInV2Params.spendableQuoteIn", p.spendableQuoteIn)]
  known := v2Accounts noble p.toBondingCurveV2TradeAccounts
  args := [("spendableQuoteIn", .bigint p.spendableQuoteIn),
    ("minTokensOut", .bigint p.minTokensOut)]
  remaining := .ok []

def buildBuyExactQuoteInV2 (noble : Noble) (p : BuyExactQuoteInV2Params) : Build Instruction :=
  buildTrade noble (p.call noble)

structure SellV2Params extends BondingCurveV2TradeAccounts where
  amount : Int
  minSolOutput : Int
  deriving DecidableEq, Repr

def SellV2Params.call (noble : Noble) (p : SellV2Params) : TradeCall where
  schema := pumpSchema
  name := "sell_v2"
  checked := [("SellV2Params.amount", p.amount)]
  known := v2Accounts noble p.toBondingCurveV2TradeAccounts
  args := [("amount", .bigint p.amount), ("minSolOutput", .bigint p.minSolOutput)]
  remaining := .ok []

def buildSellV2 (noble : Noble) (p : SellV2Params) : Build Instruction :=
  buildTrade noble (p.call noble)

/-! ## PumpSwap -/

structure PumpSwapPoolAccounts where
  pool : PublicKey
  baseMint : PublicKey
  quoteMint : PublicKey
  poolBaseTokenAccount : PublicKey
  poolQuoteTokenAccount : PublicKey
  coinCreator : PublicKey
  isCashbackCoin : Option Bool
  deriving DecidableEq, Repr

structure PumpSwapTradeAccounts where
  pool : PumpSwapPoolAccounts
  user : PublicKey
  protocolFeeRecipient : PublicKey
  buybackFeeRecipient : PublicKey
  baseTokenProgram : Option PublicKey
  quoteTokenProgram : Option PublicKey
  userBaseTokenAccount : Option PublicKey
  userQuoteTokenAccount : Option PublicKey
  deriving DecidableEq, Repr

namespace PumpSwap

def tradeAccounts (noble : Noble) (p : PumpSwapTradeAccounts) : Build Known := do
  let baseTokenProgram := p.baseTokenProgram.getD tokenProgramId
  let quoteTokenProgram := p.quoteTokenProgram.getD tokenProgramId
  let globalConfig ← derivePumpSwapGlobalConfigPda noble
  let userBaseTokenAccount ←
    match p.userBaseTokenAccount with
    | some account => pure account
    | none => getAssociatedTokenAddress noble p.pool.baseMint p.user baseTokenProgram
  let userQuoteTokenAccount ←
    match p.userQuoteTokenAccount with
    | some account => pure account
    | none => getAssociatedTokenAddress noble p.pool.quoteMint p.user quoteTokenProgram
  return knownOf
    [ ("pool", p.pool.pool)
    , ("user", p.user)
    , ("global_config", globalConfig)
    , ("base_mint", p.pool.baseMint)
    , ("quote_mint", p.pool.quoteMint)
    , ("user_base_token_account", userBaseTokenAccount)
    , ("user_quote_token_account", userQuoteTokenAccount)
    , ("pool_base_token_account", p.pool.poolBaseTokenAccount)
    , ("pool_quote_token_account", p.pool.poolQuoteTokenAccount)
    , ("protocol_fee_recipient", p.protocolFeeRecipient)
    , ("base_token_program", baseTokenProgram)
    , ("quote_token_program", quoteTokenProgram)
    , ("pool.coin_creator", p.pool.coinCreator) ]

/-- The cashback accounts; a sell also passes the accumulator itself. -/
def cashbackAccounts (noble : Noble) (p : PumpSwapTradeAccounts) (sell : Bool) :
    Build (List AccountMeta) := do
  let accumulator ← deriveUserVolumeAccumulatorPda noble p.user pumpfunPumpswapProgramId
  let account ← getAssociatedTokenAddress noble p.pool.quoteMint accumulator
    (p.quoteTokenProgram.getD tokenProgramId)
  return if sell then [rw account, rw accumulator] else [rw account]

def poolV2Accounts (noble : Noble) (p : PumpSwapTradeAccounts) : Build (List AccountMeta) := do
  let poolV2 ← derivePoolV2Pda noble p.pool.baseMint
  return [ro poolV2]

def remainingAccounts (noble : Noble) (p : PumpSwapTradeAccounts) (sell : Bool) :
    Build (List AccountMeta) := do
  let cashback ←
    if p.pool.isCashbackCoin.getD false then cashbackAccounts noble p sell else pure []
  let poolV2 ← if p.pool.coinCreator ≠ zeroKey then poolV2Accounts noble p else pure []
  let buyback ← getAssociatedTokenAddress noble p.pool.quoteMint p.buybackFeeRecipient
    (p.quoteTokenProgram.getD tokenProgramId)
  return cashback ++ poolV2 ++ [ro p.buybackFeeRecipient, rw buyback]

end PumpSwap

structure PumpSwapBuyParams extends PumpSwapTradeAccounts where
  baseAmountOut : Int
  maxQuoteAmountIn : Int
  trackVolume : Option Bool
  deriving DecidableEq, Repr

def PumpSwapBuyParams.call (noble : Noble) (p : PumpSwapBuyParams) : TradeCall where
  schema := pumpAmmSchema
  name := "buy"
  checked := [("PumpSwapBuyParams.baseAmountOut", p.baseAmountOut),
    ("PumpSwapBuyParams.maxQuoteAmountIn", p.maxQuoteAmountIn)]
  known := PumpSwap.tradeAccounts noble p.toPumpSwapTradeAccounts
  args := [("baseAmountOut", .bigint p.baseAmountOut),
    ("maxQuoteAmountIn", .bigint p.maxQuoteAmountIn),
    ("trackVolume", trackVolumeArg p.trackVolume)]
  remaining := PumpSwap.remainingAccounts noble p.toPumpSwapTradeAccounts false

def buildPumpSwapBuy (noble : Noble) (p : PumpSwapBuyParams) : Build Instruction :=
  buildTrade noble (p.call noble)

structure PumpSwapBuyExactQuoteInParams extends PumpSwapTradeAccounts where
  spendableQuoteIn : Int
  minBaseAmountOut : Int
  trackVolume : Option Bool
  deriving DecidableEq, Repr

def PumpSwapBuyExactQuoteInParams.call (noble : Noble) (p : PumpSwapBuyExactQuoteInParams) :
    TradeCall where
  schema := pumpAmmSchema
  name := "buy_exact_quote_in"
  checked := [("PumpSwapBuyExactQuoteInParams.spendableQuoteIn", p.spendableQuoteIn)]
  known := PumpSwap.tradeAccounts noble p.toPumpSwapTradeAccounts
  args := [("spendableQuoteIn", .bigint p.spendableQuoteIn),
    ("minBaseAmountOut", .bigint p.minBaseAmountOut),
    ("trackVolume", trackVolumeArg p.trackVolume)]
  remaining := PumpSwap.remainingAccounts noble p.toPumpSwapTradeAccounts false

def buildPumpSwapBuyExactQuoteIn (noble : Noble) (p : PumpSwapBuyExactQuoteInParams) :
    Build Instruction := buildTrade noble (p.call noble)

structure PumpSwapSellParams extends PumpSwapTradeAccounts where
  baseAmountIn : Int
  minQuoteAmountOut : Int
  deriving DecidableEq, Repr

def PumpSwapSellParams.call (noble : Noble) (p : PumpSwapSellParams) : TradeCall where
  schema := pumpAmmSchema
  name := "sell"
  checked := [("PumpSwapSellParams.baseAmountIn", p.baseAmountIn)]
  known := PumpSwap.tradeAccounts noble p.toPumpSwapTradeAccounts
  args := [("baseAmountIn", .bigint p.baseAmountIn),
    ("minQuoteAmountOut", .bigint p.minQuoteAmountOut)]
  remaining := PumpSwap.remainingAccounts noble p.toPumpSwapTradeAccounts true

def buildPumpSwapSell (noble : Noble) (p : PumpSwapSellParams) : Build Instruction :=
  buildTrade noble (p.call noble)

end Ap3xSolana.Pumpfun
