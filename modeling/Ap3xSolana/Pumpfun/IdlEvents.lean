import Ap3xSolana.Pumpfun.IdlSchema
import Ap3xSolana.Pumpfun.ProgramDecoder
import Ap3xSolana.Pumpfun.TradeBuilders

/-!
# The programs' events

What the two programs' published IDLs say about events, and the two decoders with the
events that have a kind of their own.
-/

namespace Ap3xSolana.Pumpfun

/-! ## How the generated schema writes fields -/

namespace EventField

def key (name : String) : IdlField := ⟨name, .name "pubkey"⟩

def flag (name : String) : IdlField := ⟨name, .name "bool"⟩

def str (name : String) : IdlField := ⟨name, .name "string"⟩

def u8 (name : String) : IdlField := ⟨name, .name "u8"⟩

def u16 (name : String) : IdlField := ⟨name, .name "u16"⟩

def u64 (name : String) : IdlField := ⟨name, .name "u64"⟩

def i64 (name : String) : IdlField := ⟨name, .name "i64"⟩

def i128 (name : String) : IdlField := ⟨name, .name "i128"⟩

end EventField

open EventField

/-! ## pump.fun -/

/-- The events of `PUMP_SCHEMA`. -/
def pumpEvents : List IdlEventSchema :=
  [ ⟨"AddQuoteControlMintEvent", "a4af574a582d213e",
      [key "quote_control", key "authority", key "quote_mint",
        u64 "initial_virtual_quote_reserves", i64 "timestamp"]⟩
  , ⟨"AdminCtoEvent", "6e7ce262aaff1178",
      [i64 "timestamp", key "authority", key "mint", key "bonding_curve", key "old_creator",
        key "new_creator", flag "is_holder_reward", flag "is_cashback_coin",
        u64 "old_creator_fee_bps", u64 "new_creator_fee_bps", flag "sharing_config_reset",
        u64 "swept_to_holder_vault", flag "pool_updated"]⟩
  , ⟨"AdminSetIdlAuthorityEvent", "f53b46224bb96d5c",
      [key "idl_authority"]⟩
  , ⟨"AdminUpdateTokenIncentivesEvent", "93fa6c78f71d43de",
      [i64 "start_time", i64 "end_time", u64 "day_number", u64 "token_supply_per_day", key "mint",
        i64 "seconds_in_a_day", i64 "timestamp"]⟩
  , ⟨"ClaimCashbackEvent", "e2d6f62107f293e5",
      [key "user", u64 "amount", i64 "timestamp", u64 "total_claimed",
        u64 "total_cashback_earned"]⟩
  , ⟨"ClaimTokenIncentivesEvent", "4facf631cd5bcee8",
      [key "user", key "mint", u64 "amount", i64 "timestamp", u64 "total_claimed_tokens",
        u64 "current_sol_volume"]⟩
  , ⟨"CloseUserVolumeAccumulatorEvent", "929fbdac925838f4",
      [key "user", i64 "timestamp", u64 "total_unclaimed_tokens", u64 "total_claimed_tokens",
        u64 "current_sol_volume", i64 "last_update_timestamp"]⟩
  , ⟨"CollectCreatorFeeEvent", "7a027f010ebf0caf",
      [i64 "timestamp", key "creator", u64 "creator_fee", key "quote_mint"]⟩
  , ⟨"CompleteEvent", "5f72619cd42e9808",
      [key "user", key "mint", key "bonding_curve", i64 "timestamp", key "quote_mint"]⟩
  , ⟨"CompletePumpAmmMigrationEvent", "bde95db95c94ea94",
      [key "user", key "mint", u64 "mint_amount", u64 "sol_amount", u64 "pool_migration_fee",
        key "bonding_curve", i64 "timestamp", key "pool", key "quote_mint"]⟩
  , ⟨"CreateEvent", "1b72a94ddeeb6376",
      [str "name", str "symbol", str "uri", key "mint", key "bonding_curve", key "user",
        key "creator", i64 "timestamp", u64 "virtual_token_reserves", u64 "virtual_sol_reserves",
        u64 "real_token_reserves", u64 "token_total_supply", key "token_program",
        flag "is_mayhem_mode", flag "is_cashback_enabled", key "quote_mint",
        u64 "virtual_quote_reserves", u64 "creator_fee_bps", flag "is_holder_reward", u8 "depth"]⟩
  , ⟨"DistributeCreatorFeesEvent", "a537817004b3ca28",
      [i64 "timestamp", key "mint", key "bonding_curve", key "sharing_config", key "admin",
        ⟨"shareholders", .vec (.defined "Shareholder")⟩, u64 "distributed", key "quote_mint"]⟩
  , ⟨"DistributeFeeToHoldersEvent", "e3bed7ceb0b4a584",
      [i64 "timestamp", key "mint", key "quote_mint", u64 "recipients", u64 "total"]⟩
  , ⟨"ExtendAccountEvent", "6161d7905d92167c",
      [key "account", key "user", u64 "current_size", u64 "new_size", i64 "timestamp"]⟩
  , ⟨"InitUserVolumeAccumulatorEvent", "86240d48e86582d8",
      [key "payer", key "user", i64 "timestamp"]⟩
  , ⟨"MigrateBondingCurveCreatorEvent", "9ba768dcd56cf303",
      [i64 "timestamp", key "mint", key "bonding_curve", key "sharing_config", key "old_creator",
        key "new_creator"]⟩
  , ⟨"MinimumDistributableFeeEvent", "a8d884efebb63134",
      [u64 "minimum_required", u64 "distributable_fees", flag "can_distribute"]⟩
  , ⟨"PostCompleteBuyEvent", "6fb06d8b316cd5fb",
      [key "user", key "mint", key "bonding_curve", key "quote_mint", i64 "timestamp",
        u64 "base_out", u64 "quote_in", u64 "fee_basis_points", u64 "fee",
        u64 "creator_fee_basis_points", u64 "creator_fee", u64 "buyback_fee",
        u64 "pool_base_reserves_before", u64 "pool_quote_reserves_before",
        u64 "pool_base_reserves_after", u64 "pool_quote_reserves_after"]⟩
  , ⟨"RemoveQuoteControlMintEvent", "2e21568600d5d130",
      [key "quote_control", key "authority", key "quote_mint", i64 "timestamp"]⟩
  , ⟨"ReservedFeeRecipientsEvent", "2bbcfa12dd4bbb5f",
      [i64 "timestamp", key "reserved_fee_recipient",
        ⟨"reserved_fee_recipients", .array (.name "pubkey") 7⟩]⟩
  , ⟨"SetCreatorEvent", "ed347b25f5fb48d2",
      [i64 "timestamp", key "mint", key "bonding_curve", key "creator"]⟩
  , ⟨"SetMetaplexCreatorEvent", "8ecb06207f69bfa2",
      [i64 "timestamp", key "mint", key "bonding_curve", key "metadata", key "creator"]⟩
  , ⟨"SetParamsEvent", "dfc39ff63e308f83",
      [u64 "initial_virtual_token_reserves", u64 "initial_virtual_sol_reserves",
        u64 "initial_real_token_reserves", u64 "final_real_sol_reserves",
        u64 "token_total_supply", u64 "fee_basis_points", key "withdraw_authority",
        flag "enable_migrate", u64 "pool_migration_fee", u64 "creator_fee_basis_points",
        ⟨"fee_recipients", .array (.name "pubkey") 8⟩, i64 "timestamp",
        key "set_creator_authority", key "admin_set_creator_authority"]⟩
  , ⟨"SetQuoteControlAdminEvent", "4af88d45ca511ef7",
      [key "quote_control", key "authority", key "old_admin", key "new_admin", i64 "timestamp"]⟩
  , ⟨"SetQuoteControlMintReservesEvent", "a943276d6686b6e8",
      [key "quote_control", key "authority", key "quote_mint",
        u64 "old_initial_virtual_quote_reserves", u64 "new_initial_virtual_quote_reserves",
        i64 "timestamp"]⟩
  , ⟨"SetQuoteControlReservesAdminEvent", "43fbb3b6575ca921",
      [key "quote_control", key "authority", key "old_reserves_admin", key "new_reserves_admin",
        i64 "timestamp"]⟩
  , ⟨"SweepBondingCurveFeeEvent", "742b4dbd117a482b",
      [i64 "timestamp", key "mint", key "bonding_curve", key "quote_mint", key "recipient",
        u64 "amount", u8 "bucket"]⟩
  , ⟨"SyncUserVolumeAccumulatorEvent", "c57aa77c74515bff",
      [key "user", u64 "total_claimed_tokens_before", u64 "total_claimed_tokens_after",
        i64 "timestamp"]⟩
  , ⟨"TradeEvent", "bddb7fd34ee661ee",
      [key "mint", u64 "sol_amount", u64 "token_amount", flag "is_buy", key "user",
        i64 "timestamp", u64 "virtual_sol_reserves", u64 "virtual_token_reserves",
        u64 "real_sol_reserves", u64 "real_token_reserves", key "fee_recipient",
        u64 "fee_basis_points", u64 "fee", key "creator", u64 "creator_fee_basis_points",
        u64 "creator_fee", flag "track_volume", u64 "total_unclaimed_tokens",
        u64 "total_claimed_tokens", u64 "current_sol_volume", i64 "last_update_timestamp",
        str "ix_name", flag "mayhem_mode", u64 "cashback_fee_basis_points", u64 "cashback",
        u64 "buyback_fee_basis_points", u64 "buyback_fee",
        ⟨"shareholders", .vec (.defined "Shareholder")⟩, key "quote_mint", u64 "quote_amount",
        u64 "virtual_quote_reserves", u64 "real_quote_reserves", u64 "holder_rewards_bps",
        u64 "holder_rewards", u64 "creator_fee_unclaimed"]⟩
  , ⟨"UpdateCreatorFeeConfigEvent", "98c67c7c6af67fbf",
      [i64 "timestamp", key "authority", flag "creator_fee_configurable",
        u64 "max_configurable_creator_fee_bps"]⟩
  , ⟨"UpdateGlobalAuthorityEvent", "b6c3892a23cecff7",
      [key "global", key "authority", key "new_authority", i64 "timestamp"]⟩
  , ⟨"UpdateMayhemVirtualParamsEvent", "757be4b6a1a8dcd6",
      [i64 "timestamp", key "mint", u64 "virtual_token_reserves", u64 "virtual_sol_reserves",
        u64 "new_virtual_token_reserves", u64 "new_virtual_sol_reserves",
        u64 "real_token_reserves", u64 "real_sol_reserves"]⟩ ]

def bondingCurveTyped : String → Option (List String)
  | "create" => some ["name", "symbol", "uri", "mint", "bondingCurve", "user"]
  | "trade" =>
      some ["mint", "solAmount", "tokenAmount", "isBuy", "user", "timestamp",
        "virtualSolReserves", "virtualTokenReserves", "realSolReserves", "realTokenReserves"]
  | "complete" => some ["user", "mint", "bondingCurve", "timestamp"]
  | "complete_pump_amm_migration" =>
      some ["user", "mint", "mintAmount", "solAmount", "poolMigrationFee", "bondingCurve",
        "timestamp", "pool"]
  | "collect_creator_fee" => some ["timestamp", "creator", "creatorFee"]
  | "set_params" =>
      some ["initialVirtualTokenReserves", "initialVirtualSolReserves",
        "initialRealTokenReserves", "finalRealSolReserves", "tokenTotalSupply", "feeBasisPoints"]
  | _ => none

def bondingCurveDecoder : IdlDecoderOptions where
  programId := pumpfunBondingCurveProgramId
  schema := { events := pumpEvents, types := pumpTypes }
  kindPrefix := .pumpfun
  typed := bondingCurveTyped

/-! ## PumpSwap -/

/-- The events of `PUMP_AMM_SCHEMA`. -/
def pumpAmmEvents : List IdlEventSchema :=
  [ ⟨"AdminCtoPoolEvent", "2f23a3f9969d937a",
      [i64 "timestamp", key "base_mint", key "pool", key "old_coin_creator",
        key "new_coin_creator", flag "is_holder_reward", flag "is_cashback_coin",
        u64 "old_creator_fee_bps", u64 "new_creator_fee_bps"]⟩
  , ⟨"AdminUpdateTokenIncentivesEvent", "93fa6c78f71d43de",
      [i64 "start_time", i64 "end_time", u64 "day_number", u64 "token_supply_per_day", key "mint",
        i64 "seconds_in_a_day", i64 "timestamp"]⟩
  , ⟨"BoostBuyAndBurnEvent", "3f451c16305cc2b9",
      [i64 "timestamp", key "mint", key "bonding_curve", key "pool", key "authority",
        u64 "quote_amount_in_requested", u64 "quote_amount_in_used", u64 "base_amount_burned",
        i128 "virtual_quote_reserves", u64 "real_quote_reserves_after", u64 "base_reserves_after",
        u64 "boost_vault_remaining"]⟩
  , ⟨"BuyEvent", "67f4521f2cf57777",
      [i64 "timestamp", u64 "base_amount_out", u64 "max_quote_amount_in",
        u64 "user_base_token_reserves", u64 "user_quote_token_reserves",
        u64 "pool_base_token_reserves", u64 "pool_quote_token_reserves", u64 "quote_amount_in",
        u64 "lp_fee_basis_points", u64 "lp_fee", u64 "protocol_fee_basis_points",
        u64 "protocol_fee", u64 "quote_amount_in_with_lp_fee", u64 "user_quote_amount_in",
        key "pool", key "user", key "user_base_token_account", key "user_quote_token_account",
        key "protocol_fee_recipient", key "protocol_fee_recipient_token_account",
        key "coin_creator", u64 "coin_creator_fee_basis_points", u64 "coin_creator_fee",
        flag "track_volume", u64 "total_unclaimed_tokens", u64 "total_claimed_tokens",
        u64 "current_sol_volume", i64 "last_update_timestamp", u64 "min_base_amount_out",
        str "ix_name", u64 "cashback_fee_basis_points", u64 "cashback",
        u64 "buyback_fee_basis_points", u64 "buyback_fee", i128 "virtual_quote_reserves",
        flag "can_boost", u64 "base_supply", u64 "holder_rewards_bps", u64 "holder_rewards",
        u64 "creator_fee_unclaimed"]⟩
  , ⟨"ClaimCashbackEvent", "e2d6f62107f293e5",
      [key "user", u64 "amount", i64 "timestamp", u64 "total_claimed",
        u64 "total_cashback_earned"]⟩
  , ⟨"ClaimTokenIncentivesEvent", "4facf631cd5bcee8",
      [key "user", key "mint", u64 "amount", i64 "timestamp", u64 "total_claimed_tokens",
        u64 "current_sol_volume"]⟩
  , ⟨"CloseUserVolumeAccumulatorEvent", "929fbdac925838f4",
      [key "user", i64 "timestamp", u64 "total_unclaimed_tokens", u64 "total_claimed_tokens",
        u64 "current_sol_volume", i64 "last_update_timestamp"]⟩
  , ⟨"CollectCoinCreatorFeeEvent", "e8f5c2eeeada3a59",
      [i64 "timestamp", key "coin_creator", u64 "coin_creator_fee", key "coin_creator_vault_ata",
        key "coin_creator_token_account"]⟩
  , ⟨"CreateConfigEvent", "6b34598137e25116",
      [i64 "timestamp", key "admin", u64 "lp_fee_basis_points", u64 "protocol_fee_basis_points",
        ⟨"protocol_fee_recipients", .array (.name "pubkey") 8⟩,
        u64 "coin_creator_fee_basis_points", key "admin_set_coin_creator_authority"]⟩
  , ⟨"CreatePoolEvent", "b1310cd2a076a774",
      [i64 "timestamp", u16 "index", key "creator", key "base_mint", key "quote_mint",
        u8 "base_mint_decimals", u8 "quote_mint_decimals", u64 "base_amount_in",
        u64 "quote_amount_in", u64 "pool_base_amount", u64 "pool_quote_amount",
        u64 "minimum_liquidity", u64 "initial_liquidity", u64 "lp_token_amount_out",
        u8 "pool_bump", key "pool", key "lp_mint", key "user_base_token_account",
        key "user_quote_token_account", key "coin_creator", flag "is_mayhem_mode",
        u64 "creator_fee_bps", flag "can_edit_creator_fee", flag "is_holder_reward"]⟩
  , ⟨"DepositEvent", "78f83d531f8e6b90",
      [i64 "timestamp", u64 "lp_token_amount_out", u64 "max_base_amount_in",
        u64 "max_quote_amount_in", u64 "user_base_token_reserves",
        u64 "user_quote_token_reserves", u64 "pool_base_token_reserves",
        u64 "pool_quote_token_reserves", u64 "base_amount_in", u64 "quote_amount_in",
        u64 "lp_mint_supply", key "pool", key "user", key "user_base_token_account",
        key "user_quote_token_account", key "user_pool_token_account"]⟩
  , ⟨"DisableEvent", "6bfdc14ce4ca1b68",
      [i64 "timestamp", key "admin", flag "disable_create_pool", flag "disable_deposit",
        flag "disable_withdraw", flag "disable_buy", flag "disable_sell"]⟩
  , ⟨"ExtendAccountEvent", "6161d7905d92167c",
      [i64 "timestamp", key "account", key "user", u64 "current_size", u64 "new_size"]⟩
  , ⟨"InitBoostEvent", "ae7c4af90451f611",
      [i64 "timestamp", key "mint", key "bonding_curve", key "pool",
        i128 "virtual_quote_reserves", u64 "real_quote_reserves_after"]⟩
  , ⟨"InitUserVolumeAccumulatorEvent", "86240d48e86582d8",
      [key "payer", key "user", i64 "timestamp"]⟩
  , ⟨"MigratePoolCoinCreatorEvent", "aadd52c793a5f72e",
      [i64 "timestamp", key "base_mint", key "pool", key "sharing_config", key "old_coin_creator",
        key "new_coin_creator"]⟩
  , ⟨"ReservedFeeRecipientsEvent", "2bbcfa12dd4bbb5f",
      [i64 "timestamp", key "reserved_fee_recipient",
        ⟨"reserved_fee_recipients", .array (.name "pubkey") 7⟩]⟩
  , ⟨"SellEvent", "3e2f370aa503dc2a",
      [i64 "timestamp", u64 "base_amount_in", u64 "min_quote_amount_out",
        u64 "user_base_token_reserves", u64 "user_quote_token_reserves",
        u64 "pool_base_token_reserves", u64 "pool_quote_token_reserves", u64 "quote_amount_out",
        u64 "lp_fee_basis_points", u64 "lp_fee", u64 "protocol_fee_basis_points",
        u64 "protocol_fee", u64 "quote_amount_out_without_lp_fee", u64 "user_quote_amount_out",
        key "pool", key "user", key "user_base_token_account", key "user_quote_token_account",
        key "protocol_fee_recipient", key "protocol_fee_recipient_token_account",
        key "coin_creator", u64 "coin_creator_fee_basis_points", u64 "coin_creator_fee",
        u64 "cashback_fee_basis_points", u64 "cashback", u64 "buyback_fee_basis_points",
        u64 "buyback_fee", i128 "virtual_quote_reserves", flag "can_boost", u64 "base_supply",
        u64 "holder_rewards_bps", u64 "holder_rewards", u64 "creator_fee_unclaimed"]⟩
  , ⟨"SetBondingCurveCoinCreatorEvent", "f2e7eb664163bdd3",
      [i64 "timestamp", key "base_mint", key "pool", key "bonding_curve", key "coin_creator"]⟩
  , ⟨"SetBoostAuthorityEvent", "5980f08d5bca4769",
      [i64 "timestamp", key "admin", key "old_boost_authority", key "new_boost_authority"]⟩
  , ⟨"SetMetaplexCoinCreatorEvent", "966bc77b7ccf66e4",
      [i64 "timestamp", key "base_mint", key "pool", key "metadata", key "coin_creator"]⟩
  , ⟨"SweepPoolFeeEvent", "82a42461e48287a5",
      [i64 "timestamp", key "pool", key "base_mint", key "quote_mint", key "recipient",
        key "payer", u64 "amount", u8 "bucket"]⟩
  , ⟨"SyncUserVolumeAccumulatorEvent", "c57aa77c74515bff",
      [key "user", u64 "total_claimed_tokens_before", u64 "total_claimed_tokens_after",
        i64 "timestamp"]⟩
  , ⟨"UpdateAdminEvent", "e198ab57f63f42ea",
      [i64 "timestamp", key "admin", key "new_admin"]⟩
  , ⟨"UpdateCreatorFeeConfigEvent", "98c67c7c6af67fbf",
      [i64 "timestamp", key "admin", flag "creator_fee_configurable",
        u64 "max_configurable_creator_fee_bps"]⟩
  , ⟨"UpdateFeeConfigEvent", "5a1741233ef4bcd0",
      [i64 "timestamp", key "admin", u64 "lp_fee_basis_points", u64 "protocol_fee_basis_points",
        ⟨"protocol_fee_recipients", .array (.name "pubkey") 8⟩,
        u64 "coin_creator_fee_basis_points", key "admin_set_coin_creator_authority"]⟩
  , ⟨"WithdrawEvent", "1609851aa02c47c0",
      [i64 "timestamp", u64 "lp_token_amount_in", u64 "min_base_amount_out",
        u64 "min_quote_amount_out", u64 "user_base_token_reserves",
        u64 "user_quote_token_reserves", u64 "pool_base_token_reserves",
        u64 "pool_quote_token_reserves", u64 "base_amount_out", u64 "quote_amount_out",
        u64 "lp_mint_supply", key "pool", key "user", key "user_base_token_account",
        key "user_quote_token_account", key "user_pool_token_account"]⟩ ]

/-- `TRADE_COMMON`. -/
def tradeCommon : List String :=
  ["timestamp", "userBaseTokenReserves", "userQuoteTokenReserves", "poolBaseTokenReserves",
    "poolQuoteTokenReserves", "lpFeeBasisPoints", "lpFee", "protocolFeeBasisPoints",
    "protocolFee", "pool", "user", "userBaseTokenAccount", "userQuoteTokenAccount",
    "protocolFeeRecipient", "protocolFeeRecipientTokenAccount"]

/-- `LIQUIDITY_COMMON`. -/
def liquidityCommon : List String :=
  ["timestamp", "userBaseTokenReserves", "userQuoteTokenReserves", "poolBaseTokenReserves",
    "poolQuoteTokenReserves", "lpMintSupply", "pool", "user", "userBaseTokenAccount",
    "userQuoteTokenAccount", "userPoolTokenAccount"]

def pumpSwapTyped : String → Option (List String)
  | "buy" =>
      some (tradeCommon ++ ["baseAmountOut", "maxQuoteAmountIn", "quoteAmountIn",
        "quoteAmountInWithLpFee", "userQuoteAmountIn"])
  | "sell" =>
      some (tradeCommon ++ ["baseAmountIn", "minQuoteAmountOut", "quoteAmountOut",
        "quoteAmountOutWithoutLpFee", "userQuoteAmountOut"])
  | "deposit" =>
      some (liquidityCommon ++ ["lpTokenAmountOut", "maxBaseAmountIn", "maxQuoteAmountIn",
        "baseAmountIn", "quoteAmountIn"])
  | "withdraw" =>
      some (liquidityCommon ++ ["lpTokenAmountIn", "minBaseAmountOut", "minQuoteAmountOut",
        "baseAmountOut", "quoteAmountOut"])
  | "create_pool" =>
      some ["timestamp", "index", "creator", "baseMint", "quoteMint", "baseMintDecimals",
        "quoteMintDecimals", "baseAmountIn", "quoteAmountIn", "poolBaseAmount", "poolQuoteAmount",
        "minimumLiquidity", "initialLiquidity", "lpTokenAmountOut", "poolBump", "pool", "lpMint"]
  | _ => none

def pumpSwapDecoder : IdlDecoderOptions where
  programId := pumpfunPumpswapProgramId
  schema := { events := pumpAmmEvents, types := pumpAmmTypes }
  kindPrefix := .pumpswap
  typed := pumpSwapTyped

end Ap3xSolana.Pumpfun
