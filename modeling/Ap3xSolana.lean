import Ap3xSolana.Connectivity.CallAborts
import Ap3xSolana.Connectivity.CallContract
import Ap3xSolana.Connectivity.GapCoverage
import Ap3xSolana.Connectivity.GapRecovery
import Ap3xSolana.Connectivity.GeyserAccounting
import Ap3xSolana.Connectivity.GeyserClient
import Ap3xSolana.Connectivity.HealthState
import Ap3xSolana.Connectivity.HistoricalBackfill
import Ap3xSolana.Connectivity.HistoryOnce
import Ap3xSolana.Connectivity.ProbeCooldown
import Ap3xSolana.Connectivity.RoundRobin
import Ap3xSolana.Connectivity.RpcPool
import Ap3xSolana.Connectivity.StaysClosed
import Ap3xSolana.Connectivity.TxStream
import Ap3xSolana.Core.Base58
import Ap3xSolana.Core.Borsh
import Ap3xSolana.Core.BorshRoundTrip
import Ap3xSolana.Core.CompactU16
import Ap3xSolana.Core.HttpClient
import Ap3xSolana.Core.PublicKey
import Ap3xSolana.Core.RequestAborts
import Ap3xSolana.Core.RequestRetries
import Ap3xSolana.Events.Base64
import Ap3xSolana.Events.CpiDecoder
import Ap3xSolana.Events.LineAccounting
import Ap3xSolana.Events.LogForest
import Ap3xSolana.Events.LogRoundTrip
import Ap3xSolana.Events.LogText
import Ap3xSolana.Events.ParseLogs
import Ap3xSolana.Events.RawTraces
import Ap3xSolana.Events.Registry
import Ap3xSolana.Executor.AttemptLog
import Ap3xSolana.Executor.BundleDelivery
import Ap3xSolana.Executor.BundleOnce
import Ap3xSolana.Executor.BundleResults
import Ap3xSolana.Executor.Changes
import Ap3xSolana.Executor.Execution
import Ap3xSolana.Executor.Executor
import Ap3xSolana.Executor.InFlightMap
import Ap3xSolana.Executor.Invariant
import Ap3xSolana.Executor.Landing
import Ap3xSolana.Executor.Progress
import Ap3xSolana.Executor.Resolves
import Ap3xSolana.Executor.Signers
import Ap3xSolana.Executor.SubmitterUsed
import Ap3xSolana.Executor.Types
import Ap3xSolana.Executor.Waiting
import Ap3xSolana.Executor.WireReadBack
import Ap3xSolana.Lib.ConstantProduct
import Ap3xSolana.Lib.Cursor
import Ap3xSolana.Lib.Drawdown
import Ap3xSolana.Lib.Grouping
import Ap3xSolana.Lib.Interpolation
import Ap3xSolana.Lib.Json
import Ap3xSolana.Lib.KeyedMutex
import Ap3xSolana.Lib.Monitor
import Ap3xSolana.Lib.OrderedMap
import Ap3xSolana.Lib.ProRata
import Ap3xSolana.Lib.Radix
import Ap3xSolana.Lib.Reading
import Ap3xSolana.Lib.RecentKeys
import Ap3xSolana.Lib.RecentlyUsed
import Ap3xSolana.Lib.Requests
import Ap3xSolana.Lib.RoundRobin
import Ap3xSolana.Lib.Run
import Ap3xSolana.Lib.Saturation
import Ap3xSolana.Lib.Separated
import Ap3xSolana.Lib.SignificantBits
import Ap3xSolana.Lib.SlidingWindow
import Ap3xSolana.Lib.Sorting
import Ap3xSolana.Lib.Table
import Ap3xSolana.Lib.Throwing
import Ap3xSolana.Lib.Utf8
import Ap3xSolana.Metaplex.MetadataDecoder
import Ap3xSolana.Metaplex.MetadataResolver
import Ap3xSolana.Portfolio.Accounting
import Ap3xSolana.Portfolio.Basis
import Ap3xSolana.Portfolio.ColdStart
import Ap3xSolana.Portfolio.FailedApply
import Ap3xSolana.Portfolio.History
import Ap3xSolana.Portfolio.Oversell
import Ap3xSolana.Portfolio.Position
import Ap3xSolana.Portfolio.Reconciler
import Ap3xSolana.Portfolio.Reconstructor
import Ap3xSolana.Portfolio.Serialised
import Ap3xSolana.Portfolio.StoreCalls
import Ap3xSolana.Portfolio.StoreFile
import Ap3xSolana.Portfolio.StoreInvariant
import Ap3xSolana.Portfolio.StoreRoundTrip
import Ap3xSolana.Portfolio.WalletFiles
import Ap3xSolana.Pumpfun.AccountResolution
import Ap3xSolana.Pumpfun.AsOf
import Ap3xSolana.Pumpfun.EventPrefixes
import Ap3xSolana.Pumpfun.IdlCodec
import Ap3xSolana.Pumpfun.IdlEvents
import Ap3xSolana.Pumpfun.IdlInstruction
import Ap3xSolana.Pumpfun.IdlRoundTrip
import Ap3xSolana.Pumpfun.IdlSchema
import Ap3xSolana.Pumpfun.PriceImpact
import Ap3xSolana.Pumpfun.ProgramDecoder
import Ap3xSolana.Pumpfun.ProgramUpgrade
import Ap3xSolana.Pumpfun.QuoteRoundTrip
import Ap3xSolana.Pumpfun.Quotes
import Ap3xSolana.Pumpfun.RecentTrades
import Ap3xSolana.Pumpfun.SqlitePumpfunSignals
import Ap3xSolana.Pumpfun.TopHolders
import Ap3xSolana.Pumpfun.TradeAmounts
import Ap3xSolana.Pumpfun.TradeBuilders
import Ap3xSolana.Pumpfun.UpgradeChecks
import Ap3xSolana.Signals.BusSteps
import Ap3xSolana.Signals.ConsumerOrder
import Ap3xSolana.Signals.Disposal
import Ap3xSolana.Signals.Isolation
import Ap3xSolana.Signals.MemorySignalBus
import Ap3xSolana.Signals.QueueAccounting
import Ap3xSolana.Signals.QueueDrain
import Ap3xSolana.Signals.Signal
import Ap3xSolana.Signals.SignalQueue
import Ap3xSolana.Signals.SourceGaps
import Ap3xSolana.Signals.Sources
import Ap3xSolana.Signals.SourcesAgree
import Ap3xSolana.Spl.AccountLayout
import Ap3xSolana.Spl.ExtensionValues
import Ap3xSolana.Spl.HolderQueries
import Ap3xSolana.Spl.TokenAccount
import Ap3xSolana.Strategies.BuyBasis
import Ap3xSolana.Strategies.Containment
import Ap3xSolana.Strategies.Guards
import Ap3xSolana.Strategies.Identities
import Ap3xSolana.Strategies.Instance
import Ap3xSolana.Strategies.LandedTradeAdapter
import Ap3xSolana.Strategies.PnlGuards
import Ap3xSolana.Strategies.PromiseChain
import Ap3xSolana.Strategies.Quarantine
import Ap3xSolana.Strategies.RateGuards
import Ap3xSolana.Strategies.Runtime
import Ap3xSolana.Strategies.RuntimeSteps
import Ap3xSolana.Strategies.SameBooks
import Ap3xSolana.Strategies.Shutdown
import Ap3xSolana.Strategies.SolFlow
import Ap3xSolana.Strategies.StartStop
import Ap3xSolana.Strategies.StateStore
import Ap3xSolana.Strategies.Strategy
import Ap3xSolana.Strategies.TradesApplied
import Ap3xSolana.Trading.Intents
import Ap3xSolana.Trading.MonteCarlo
import Ap3xSolana.Trading.MonteCarloRun
import Ap3xSolana.Trading.PortfolioReplay
import Ap3xSolana.Trading.WalkForward
import Ap3xSolana.Tx.AccountList
import Ap3xSolana.Tx.CompileAccounts
import Ap3xSolana.Tx.FeeWindow
import Ap3xSolana.Tx.FindProgramAddress
import Ap3xSolana.Tx.MessageForm
import Ap3xSolana.Tx.MessageNumbers
import Ap3xSolana.Tx.NoWrap
import Ap3xSolana.Tx.PriorityFee
import Ap3xSolana.Tx.ReadBack
import Ap3xSolana.Tx.Readers
import Ap3xSolana.Tx.RoundTrip
import Ap3xSolana.Tx.SameSigners
import Ap3xSolana.Tx.SignerCalls
import Ap3xSolana.Tx.SystemTransfer
import Ap3xSolana.Tx.TransactionAssembler
import Ap3xSolana.Tx.TransactionCodec
import Ap3xSolana.Tx.TransactionV1
import Ap3xSolana.Vault.Composition
import Ap3xSolana.Vault.ConcurrentSigning
import Ap3xSolana.Vault.Crypto
import Ap3xSolana.Vault.FailedUnlock
import Ap3xSolana.Vault.FileVaultStorage
import Ap3xSolana.Vault.Keys
import Ap3xSolana.Vault.KeysKept
import Ap3xSolana.Vault.OneHandle
import Ap3xSolana.Vault.RecordsWhole
import Ap3xSolana.Vault.ReserveKept
import Ap3xSolana.Vault.Revocation
import Ap3xSolana.Vault.SeedHistory
import Ap3xSolana.Vault.SequentialKeys
import Ap3xSolana.Vault.Vault
import Ap3xSolana.Vault.WalletHandle
import Ap3xSolana.Webhooks.CrashRecovery
import Ap3xSolana.Webhooks.Drainer
import Ap3xSolana.Webhooks.ExactlyOnce
import Ap3xSolana.Webhooks.Finishes
import Ap3xSolana.Webhooks.HeliusCatchup
import Ap3xSolana.Webhooks.HeliusDriver
import Ap3xSolana.Webhooks.History
import Ap3xSolana.Webhooks.Outbox
import Ap3xSolana.Webhooks.Pipeline
import Ap3xSolana.Webhooks.PollLoop
import Ap3xSolana.Webhooks.Provenance
import Ap3xSolana.Webhooks.RetryDelay
import Ap3xSolana.Webhooks.RowLog
