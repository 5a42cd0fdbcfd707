import Ap3xSolana.Pumpfun.IdlCodec

/-!
# The IDL schema

What the two programs' published IDLs say about the instructions that the trade builders
name: discriminator, accounts in order with their seeds, and arguments.
-/

namespace Ap3xSolana.Pumpfun

open Lib

inductive IdlSeed where
  | const (value : List UInt8)
  | account (path : String)
  | arg (path : String)
  deriving DecidableEq, Repr

structure IdlPda where
  seeds : List IdlSeed
  program : Option IdlSeed
  deriving DecidableEq, Repr

structure IdlAccountSchema where
  name : String
  writable : Bool
  signer : Bool
  address : Option String
  pda : Option IdlPda
  deriving DecidableEq, Repr

structure IdlInstructionSchema where
  name : String
  discriminator : String
  accounts : List IdlAccountSchema
  args : List IdlField
  deriving DecidableEq, Repr

structure IdlProgramSchema where
  address : String
  types : String → Option IdlTypeDef
  instructions : List IdlInstructionSchema

/-! ## How the generated schema writes accounts -/

/-- An account that the caller names. -/
def given (name : String) (writable signer : Bool) : IdlAccountSchema :=
  { name := name, writable := writable, signer := signer, address := none, pda := none }

def fixed (name : String) (writable signer : Bool) (address : String) : IdlAccountSchema :=
  { given name writable signer with address := some address }

def derived (name : String) (writable signer : Bool) (seeds : List IdlSeed)
    (program : Option IdlSeed) : IdlAccountSchema :=
  { given name writable signer with pda := some { seeds := seeds, program := program } }

/-- A constant seed that spells a text. -/
def text (s : String) : IdlSeed := .const (Utf8.utf8 s)

def associatedTokenProgram : List UInt8 :=
  [140, 151, 37, 143, 78, 36, 137, 241, 187, 61, 16, 41, 20, 142, 13, 131, 11, 90, 19,
    153, 218, 255, 16, 132, 4, 142, 123, 216, 219, 233, 248, 89]

def bondingCurveProgram : List UInt8 :=
  [1, 86, 224, 246, 147, 102, 90, 207, 68, 219, 21, 104, 191, 23, 91, 170, 81, 137,
    203, 151, 245, 210, 255, 59, 101, 93, 43, 182, 253, 109, 24, 176]

def pumpSwapProgram : List UInt8 :=
  [12, 20, 222, 252, 130, 94, 198, 118, 148, 37, 8, 24, 187, 101, 64, 101, 244, 41,
    141, 49, 86, 213, 113, 180, 212, 248, 9, 12, 24, 233, 168, 99]

def feeProgram : List UInt8 :=
  [12, 53, 255, 169, 5, 90, 142, 86, 141, 168, 247, 188, 7, 86, 21, 39, 76, 241, 201,
    44, 164, 31, 64, 0, 156, 81, 106, 164, 20, 194, 124, 112]

/-! ## pump.fun -/

/-- Of `buy` and `buy_exact_sol_in`. -/
def bondingCurveBuyAccounts : List IdlAccountSchema :=
  [ derived "global" false false [text "global"] none
  , given "fee_recipient" true false
  , given "mint" false false
  , derived "bonding_curve" true false [text "bonding-curve", .account "mint"] none
  , derived "associated_bonding_curve" true false
      [.account "bonding_curve", .account "token_program", .account "mint"]
      (some (.const associatedTokenProgram))
  , given "associated_user" true false
  , given "user" true true
  , fixed "system_program" false false "11111111111111111111111111111111"
  , given "token_program" false false
  , derived "creator_vault" true false
      [text "creator-vault", .account "bonding_curve.creator"] none
  , derived "event_authority" false false [text "__event_authority"] none
  , fixed "program" false false "6EF8rrecthR5Dkzon8Nwu78hRvfCKubJ14M5uBEwF6P"
  , derived "global_volume_accumulator" false false
      [text "global_volume_accumulator"] none
  , derived "user_volume_accumulator" true false
      [text "user_volume_accumulator", .account "user"] none
  , derived "fee_config" false false
      [text "fee_config", .const bondingCurveProgram] (some (.account "fee_program"))
  , fixed "fee_program" false false "pfeeUxB6jkeY1Hxd7CsFCAjcbHA9rWtchMGdZ6VojVZ" ]

def bondingCurveSellAccounts : List IdlAccountSchema :=
  [ derived "global" false false [text "global"] none
  , given "fee_recipient" true false
  , given "mint" false false
  , derived "bonding_curve" true false [text "bonding-curve", .account "mint"] none
  , derived "associated_bonding_curve" true false
      [.account "bonding_curve", .account "token_program", .account "mint"]
      (some (.const associatedTokenProgram))
  , given "associated_user" true false
  , given "user" true true
  , fixed "system_program" false false "11111111111111111111111111111111"
  , derived "creator_vault" true false
      [text "creator-vault", .account "bonding_curve.creator"] none
  , given "token_program" false false
  , derived "event_authority" false false [text "__event_authority"] none
  , fixed "program" false false "6EF8rrecthR5Dkzon8Nwu78hRvfCKubJ14M5uBEwF6P"
  , derived "fee_config" false false
      [text "fee_config", .const bondingCurveProgram] (some (.account "fee_program"))
  , fixed "fee_program" false false "pfeeUxB6jkeY1Hxd7CsFCAjcbHA9rWtchMGdZ6VojVZ" ]

/-- Of `buy_v2` and `buy_exact_quote_in_v2`. -/
def bondingCurveBuyV2Accounts : List IdlAccountSchema :=
  [ derived "global" false false [text "global"] none
  , given "base_mint" false false
  , given "quote_mint" false false
  , given "base_token_program" false false
  , given "quote_token_program" false false
  , fixed "associated_token_program" false false "ATokenGPvbdGVxr1b2hvZbsiqW5xWH25efTNsLJA8knL"
  , given "fee_recipient" true false
  , derived "associated_quote_fee_recipient" true false
      [.account "fee_recipient", .account "quote_token_program", .account "quote_mint"]
      (some (.const associatedTokenProgram))
  , given "buyback_fee_recipient" true false
  , derived "associated_quote_buyback_fee_recipient" true false
      [.account "buyback_fee_recipient", .account "quote_token_program", .account "quote_mint"]
      (some (.const associatedTokenProgram))
  , derived "bonding_curve" true false [text "bonding-curve", .account "base_mint"] none
  , derived "associated_base_bonding_curve" true false
      [.account "bonding_curve", .account "base_token_program", .account "base_mint"]
      (some (.const associatedTokenProgram))
  , derived "associated_quote_bonding_curve" true false
      [.account "bonding_curve", .account "quote_token_program", .account "quote_mint"]
      (some (.const associatedTokenProgram))
  , given "user" true true
  , given "associated_base_user" true false
  , given "associated_quote_user" true false
  , derived "creator_vault" true false
      [text "creator-vault", .account "bonding_curve.creator"] none
  , derived "associated_creator_vault" true false
      [.account "creator_vault", .account "quote_token_program", .account "quote_mint"]
      (some (.const associatedTokenProgram))
  , derived "sharing_config" false false
      [text "sharing-config", .account "base_mint"] (some (.const feeProgram))
  , derived "global_volume_accumulator" false false
      [text "global_volume_accumulator"] none
  , derived "user_volume_accumulator" true false
      [text "user_volume_accumulator", .account "user"] none
  , derived "associated_user_volume_accumulator" true false
      [.account "user_volume_accumulator", .account "quote_token_program", .account "quote_mint"]
      (some (.const associatedTokenProgram))
  , derived "fee_config" false false
      [text "fee_config", .const bondingCurveProgram] (some (.account "fee_program"))
  , fixed "fee_program" false false "pfeeUxB6jkeY1Hxd7CsFCAjcbHA9rWtchMGdZ6VojVZ"
  , fixed "system_program" false false "11111111111111111111111111111111"
  , derived "event_authority" false false [text "__event_authority"] none
  , fixed "program" false false "6EF8rrecthR5Dkzon8Nwu78hRvfCKubJ14M5uBEwF6P" ]

def bondingCurveSellV2Accounts : List IdlAccountSchema :=
  [ derived "global" false false [text "global"] none
  , given "base_mint" false false
  , given "quote_mint" false false
  , given "base_token_program" false false
  , given "quote_token_program" false false
  , fixed "associated_token_program" false false "ATokenGPvbdGVxr1b2hvZbsiqW5xWH25efTNsLJA8knL"
  , given "fee_recipient" true false
  , derived "associated_quote_fee_recipient" true false
      [.account "fee_recipient", .account "quote_token_program", .account "quote_mint"]
      (some (.const associatedTokenProgram))
  , given "buyback_fee_recipient" true false
  , derived "associated_quote_buyback_fee_recipient" true false
      [.account "buyback_fee_recipient", .account "quote_token_program", .account "quote_mint"]
      (some (.const associatedTokenProgram))
  , derived "bonding_curve" true false [text "bonding-curve", .account "base_mint"] none
  , derived "associated_base_bonding_curve" true false
      [.account "bonding_curve", .account "base_token_program", .account "base_mint"]
      (some (.const associatedTokenProgram))
  , derived "associated_quote_bonding_curve" true false
      [.account "bonding_curve", .account "quote_token_program", .account "quote_mint"]
      (some (.const associatedTokenProgram))
  , given "user" true true
  , given "associated_base_user" true false
  , given "associated_quote_user" true false
  , derived "creator_vault" true false
      [text "creator-vault", .account "bonding_curve.creator"] none
  , derived "associated_creator_vault" true false
      [.account "creator_vault", .account "quote_token_program", .account "quote_mint"]
      (some (.const associatedTokenProgram))
  , derived "sharing_config" false false
      [text "sharing-config", .account "base_mint"] (some (.const feeProgram))
  , derived "user_volume_accumulator" true false
      [text "user_volume_accumulator", .account "user"] none
  , derived "associated_user_volume_accumulator" true false
      [.account "user_volume_accumulator", .account "quote_token_program", .account "quote_mint"]
      (some (.const associatedTokenProgram))
  , derived "fee_config" false false
      [text "fee_config", .const bondingCurveProgram] (some (.account "fee_program"))
  , fixed "fee_program" false false "pfeeUxB6jkeY1Hxd7CsFCAjcbHA9rWtchMGdZ6VojVZ"
  , fixed "system_program" false false "11111111111111111111111111111111"
  , derived "event_authority" false false [text "__event_authority"] none
  , fixed "program" false false "6EF8rrecthR5Dkzon8Nwu78hRvfCKubJ14M5uBEwF6P" ]

def pumpTypes : String → Option IdlTypeDef
  | "OptionBool" => some (.struct (some (.tuple [.name "bool"])))
  | "OptionU64" => some (.struct (some (.tuple [.name "u64"])))
  | "QuoteControlMint" =>
      some (.struct (some (.named [⟨"mint", .name "pubkey"⟩,
        ⟨"initial_virtual_quote_reserves", .name "u64"⟩])))
  | "Shareholder" =>
      some (.struct (some (.named [⟨"address", .name "pubkey"⟩, ⟨"share_bps", .name "u16"⟩])))
  | _ => none

def pumpSchema : IdlProgramSchema where
  address := "6EF8rrecthR5Dkzon8Nwu78hRvfCKubJ14M5uBEwF6P"
  types := pumpTypes
  instructions :=
  [ { name := "buy"
      discriminator := "66063d1201daebea"
      accounts := bondingCurveBuyAccounts
      args := [⟨"amount", .name "u64"⟩, ⟨"max_sol_cost", .name "u64"⟩,
        ⟨"track_volume", .defined "OptionBool"⟩, ⟨"partial_fill", .defined "OptionBool"⟩] }
  , { name := "buy_exact_sol_in"
      discriminator := "38fc74089edfcd5f"
      accounts := bondingCurveBuyAccounts
      args := [⟨"spendable_sol_in", .name "u64"⟩, ⟨"min_tokens_out", .name "u64"⟩,
        ⟨"track_volume", .defined "OptionBool"⟩, ⟨"partial_fill", .defined "OptionBool"⟩] }
  , { name := "sell"
      discriminator := "33e685a4017f83ad"
      accounts := bondingCurveSellAccounts
      args := [⟨"amount", .name "u64"⟩, ⟨"min_sol_output", .name "u64"⟩] }
  , { name := "buy_v2"
      discriminator := "b817ee6167c5d33d"
      accounts := bondingCurveBuyV2Accounts
      args := [⟨"amount", .name "u64"⟩, ⟨"max_sol_cost", .name "u64"⟩,
        ⟨"partial_fill", .defined "OptionBool"⟩] }
  , { name := "buy_exact_quote_in_v2"
      discriminator := "c2ab1c46684d5b2f"
      accounts := bondingCurveBuyV2Accounts
      args := [⟨"spendable_quote_in", .name "u64"⟩, ⟨"min_tokens_out", .name "u64"⟩,
        ⟨"partial_fill", .defined "OptionBool"⟩] }
  , { name := "sell_v2"
      discriminator := "5df6823ce7e940b2"
      accounts := bondingCurveSellV2Accounts
      args := [⟨"amount", .name "u64"⟩, ⟨"min_sol_output", .name "u64"⟩] } ]

/-! ## PumpSwap -/

/-- Of `buy` and `buy_exact_quote_in`. -/
def pumpSwapBuyAccounts : List IdlAccountSchema :=
  [ given "pool" true false
  , given "user" true true
  , given "global_config" false false
  , given "base_mint" false false
  , given "quote_mint" false false
  , given "user_base_token_account" true false
  , given "user_quote_token_account" true false
  , given "pool_base_token_account" true false
  , given "pool_quote_token_account" true false
  , given "protocol_fee_recipient" false false
  , derived "protocol_fee_recipient_token_account" true false
      [.account "protocol_fee_recipient", .account "quote_token_program", .account "quote_mint"]
      (some (.const associatedTokenProgram))
  , given "base_token_program" false false
  , given "quote_token_program" false false
  , fixed "system_program" false false "11111111111111111111111111111111"
  , fixed "associated_token_program" false false "ATokenGPvbdGVxr1b2hvZbsiqW5xWH25efTNsLJA8knL"
  , derived "event_authority" false false [text "__event_authority"] none
  , fixed "program" false false "pAMMBay6oceH9fJKBRHGP5D4bD4sWpmSwMn52FMfXEA"
  , derived "coin_creator_vault_ata" true false
      [.account "coin_creator_vault_authority", .account "quote_token_program",
        .account "quote_mint"]
      (some (.const associatedTokenProgram))
  , derived "coin_creator_vault_authority" false false
      [text "creator_vault", .account "pool.coin_creator"] none
  , derived "global_volume_accumulator" false false
      [text "global_volume_accumulator"] none
  , derived "user_volume_accumulator" true false
      [text "user_volume_accumulator", .account "user"] none
  , derived "fee_config" false false
      [text "fee_config", .const pumpSwapProgram] (some (.account "fee_program"))
  , fixed "fee_program" false false "pfeeUxB6jkeY1Hxd7CsFCAjcbHA9rWtchMGdZ6VojVZ" ]

def pumpSwapSellAccounts : List IdlAccountSchema :=
  [ given "pool" true false
  , given "user" true true
  , given "global_config" false false
  , given "base_mint" false false
  , given "quote_mint" false false
  , given "user_base_token_account" true false
  , given "user_quote_token_account" true false
  , given "pool_base_token_account" true false
  , given "pool_quote_token_account" true false
  , given "protocol_fee_recipient" false false
  , derived "protocol_fee_recipient_token_account" true false
      [.account "protocol_fee_recipient", .account "quote_token_program", .account "quote_mint"]
      (some (.const associatedTokenProgram))
  , given "base_token_program" false false
  , given "quote_token_program" false false
  , fixed "system_program" false false "11111111111111111111111111111111"
  , fixed "associated_token_program" false false "ATokenGPvbdGVxr1b2hvZbsiqW5xWH25efTNsLJA8knL"
  , derived "event_authority" false false [text "__event_authority"] none
  , fixed "program" false false "pAMMBay6oceH9fJKBRHGP5D4bD4sWpmSwMn52FMfXEA"
  , derived "coin_creator_vault_ata" true false
      [.account "coin_creator_vault_authority", .account "quote_token_program",
        .account "quote_mint"]
      (some (.const associatedTokenProgram))
  , derived "coin_creator_vault_authority" false false
      [text "creator_vault", .account "pool.coin_creator"] none
  , derived "fee_config" false false
      [text "fee_config", .const pumpSwapProgram] (some (.account "fee_program"))
  , fixed "fee_program" false false "pfeeUxB6jkeY1Hxd7CsFCAjcbHA9rWtchMGdZ6VojVZ" ]

def pumpAmmTypes : String → Option IdlTypeDef
  | "OptionBool" => some (.struct (some (.tuple [.name "bool"])))
  | _ => none

def pumpAmmSchema : IdlProgramSchema where
  address := "pAMMBay6oceH9fJKBRHGP5D4bD4sWpmSwMn52FMfXEA"
  types := pumpAmmTypes
  instructions :=
  [ { name := "buy"
      discriminator := "66063d1201daebea"
      accounts := pumpSwapBuyAccounts
      args := [⟨"base_amount_out", .name "u64"⟩, ⟨"max_quote_amount_in", .name "u64"⟩,
        ⟨"track_volume", .defined "OptionBool"⟩] }
  , { name := "buy_exact_quote_in"
      discriminator := "c62e1552b4d9e870"
      accounts := pumpSwapBuyAccounts
      args := [⟨"spendable_quote_in", .name "u64"⟩, ⟨"min_base_amount_out", .name "u64"⟩,
        ⟨"track_volume", .defined "OptionBool"⟩] }
  , { name := "sell"
      discriminator := "33e685a4017f83ad"
      accounts := pumpSwapSellAccounts
      args := [⟨"base_amount_in", .name "u64"⟩, ⟨"min_quote_amount_out", .name "u64"⟩] } ]

end Ap3xSolana.Pumpfun
