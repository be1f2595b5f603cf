import Linvesther.Contracts.CheckpointChain
import Linvesther.Contracts.CorrectionHistory
import Linvesther.Contracts.PolicyImmutability
import Linvesther.Contracts.PolicyQuorum
import Linvesther.Contracts.CommandReplay
import Linvesther.Contracts.OwnerRotation
import Linvesther.Contracts.MembershipEpochs
import Linvesther.Contracts.ProfileEpochs
import Linvesther.ChainWorker.CanonicalView
import Linvesther.ChainWorker.ProjectionReplay
import Linvesther.ChainWorker.RelayDedup
import Linvesther.Api.LifecycleAuthorization
import Linvesther.Api.SignIn
import Linvesther.Api.Consent
import Linvesther.Protocol.Merkle
import Linvesther.Verifier.PublicBundle
import Linvesther.Verifier.Coherence
import Linvesther.Zkvm.Performance
import Linvesther.Zkvm.Cagr
import Linvesther.Collector.Envelope
import Linvesther.Domain.Ledger
import Linvesther.Wallet.Balances
import Linvesther.Zkvm.BracketArithmetic
import Linvesther.Zkvm.Ratios
import Linvesther.Zkvm.WalletBinding
import Linvesther.Zkvm.PerformanceFigures
import Linvesther.Domain.Continuity
import Linvesther.Domain.FifoMatching
import Linvesther.Worker.WalletInsert
import Linvesther.Worker.FlowNeutrality
import Linvesther.Worker.TradeLog
import Linvesther.Worker.Kraken
import Linvesther.Collector.Vault
import Linvesther.Api.CredentialStores
import Linvesther.Api.Disclosures
import Linvesther.ChainWorker.SyncRecovery
import Linvesther.ChainWorker.RelayConcurrency
import Linvesther.ChainWorker.ProjectionRefinement
import Linvesther.Api.TrafficLimits
import Linvesther.Api.ReadOnlyTokens
import Linvesther.Api.AccountOwnership
import Linvesther.Worker.Commands
import Linvesther.Worker.Rekey
import Linvesther.Worker.BinanceFlows
import Linvesther.Worker.BinanceTrades
import Linvesther.Api.PublicProfile
import Linvesther.Api.AcceptedClaims
import Linvesther.Api.SharedLimits
import Linvesther.Api.ExactTotals
import Linvesther.Api.MultiAccount
import Linvesther.Api.WalletProof
import Linvesther.Worker.ConnectRefusal
import Linvesther.Worker.TradeStreams
import Linvesther.Worker.CoinbaseSync
import Linvesther.Protocol.Canonical
import Linvesther.Verifier.Calendar
import Linvesther.Domain.InternalTransfer
import Linvesther.Wallet.Synthetic
import Linvesther.Wallet.Explorer
import Linvesther.Worker.WalletFlows
import Linvesther.Worker.CoinbaseTrades
import Linvesther.Worker.Ibkr
import Linvesther.Collector.TradeStore
import Linvesther.Collector.ConnectorConformance
import Linvesther.Worker.EarnRewards
import Linvesther.Worker.KeyRotation
import Linvesther.Worker.FillPricing
import Linvesther.Worker.Redaction
import Linvesther.Worker.FetchOrder
import Linvesther.Worker.Reconciliation
import Linvesther.Worker.Chart
import Linvesther.Worker.IbkrReports
import Linvesther.Worker.EarnPositions
import Linvesther.Worker.ProvenFigures
