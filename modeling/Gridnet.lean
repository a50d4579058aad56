import Gridnet.Machine
import Gridnet.ListUpdate
import Gridnet.PoolModel
import Gridnet.PoolVerify
import Gridnet.PoolSpending
import Gridnet.PoolAgreement
import Gridnet.WalletModel
import Gridnet.WalletTokens
import Gridnet.WalletChain
import Gridnet.PoolCodec
import Gridnet.TransactionSigning
import Gridnet.PollModel
import Gridnet.BestScan
import Gridnet.PollGroups
import Gridnet.RightsModel
import Gridnet.PollWinner
import Gridnet.DynamicAccess
import Gridnet.SpendingRights
import Gridnet.RightsOutcome
import Gridnet.BytecodeModel
import Gridnet.BytecodeFields
import Gridnet.BytecodeLayout
import Gridnet.BytecodeRoundTrip
import Gridnet.Sha256
import Gridnet.BytecodeSurvival
import Gridnet.BytecodeBounds
import Gridnet.ReferenceCompiler
import Gridnet.CompilersAgree
import Gridnet.CompilersDiffer
import Gridnet.FlowModel
import Gridnet.FlowStack
import Gridnet.FlowRevert
import Gridnet.LockedAssets
import Gridnet.DomainSupply
import Gridnet.SendParser
import Gridnet.Ber
import Gridnet.BlockHeaderModel
import Gridnet.BlockIdentity
import Gridnet.LedgerModel
import Gridnet.TransactionProcessing
import Gridnet.PreValidation
import Gridnet.BlockProcessing
import Gridnet.LedgerFlow
import Gridnet.TurnRefinement
import Gridnet.BlockRuns
import Gridnet.BlockVerification
import Gridnet.Counters
import Gridnet.ReplayProtection
import Gridnet.SilencedDomains
import Gridnet.FormationAccounting
import Gridnet.BlockFormation
import Gridnet.FormationReplay
import Gridnet.VerifiableModel
import Gridnet.FraudProofs
import Gridnet.VerifiableProcessing
import Gridnet.Balances
import Gridnet.FraudPenalty
import Gridnet.ForkWalks
import Gridnet.GuardedScan
import Gridnet.ParentLookup
import Gridnet.ChainProofModel
import Gridnet.SequentialVerifier
import Gridnet.Ranges
import Gridnet.ParallelVerifier
import Gridnet.ChunkLayout
import Gridnet.SignaturePhase
import Gridnet.VerifierChecks
import Gridnet.ParallelChecks
import Gridnet.VerifiersAgree
import Gridnet.HostileProofs
import Gridnet.IncrementalVerification
import Gridnet.ProofRules
import Gridnet.IncrementalAgreement
import Gridnet.ChainProofUpdate
import Gridnet.ChainWork
import Gridnet.ChainInStep
import Gridnet.ForkChoice
import Gridnet.EpochRewards
import Gridnet.RewardFlow
import Gridnet.Behaviours
import Gridnet.SwarmSignaling
import Gridnet.ZeroKnowledgeAuth
import Gridnet.DerTrees
import Gridnet.PollStorage
import Gridnet.AccessEntries
import Gridnet.DescriptorStorage
import Gridnet.DataConcatenation
import Gridnet.BalanceChanges
import Gridnet.DomainBacklog
import Gridnet.DomainBodies
import Gridnet.PoolPricing
import Gridnet.FraudDetection
import Gridnet.RewardPayment
import Gridnet.EpochAccounting
import Gridnet.VerifiableRewards
import Gridnet.RewardAgreement
import Gridnet.ReceiptTruth
import Gridnet.EntryPermissions
import Gridnet.ChunkPartition
import Gridnet.InFlowDomains
import Gridnet.TransferTotals
import Gridnet.HeaderRoundTrip
import Gridnet.BlockContents
import Gridnet.BlockCounts
import Gridnet.PointerWalks
import Gridnet.PathFreeing
import Gridnet.CumulativeWork
import Gridnet.ObjectLists
import Gridnet.PermissionInheritance
import Gridnet.FraudLinks
import Gridnet.FraudFlows
import Gridnet.FraudRuns
import Gridnet.RecentChainProofs
import Gridnet.MovingAverage
import Gridnet.Difficulty
import Gridnet.Retargeting
import Gridnet.DifficultyCoherence
import Gridnet.GreedyMerge
import Gridnet.UnstableSort
import Gridnet.MemPool
import Gridnet.PendingOrder
import Gridnet.EraseLoop
import Gridnet.MemPoolCleaning
import Gridnet.MemPoolRemovals
import Gridnet.VerifiableFormation
import Gridnet.BerRecords
import Gridnet.TransactionCodec
import Gridnet.TransactionRoundTrip
import Gridnet.VerifiableNodes
import Gridnet.VerifiableSealing
import Gridnet.VerifiableRestoring
import Gridnet.RadixChange
import Gridnet.Base58Exact
import Gridnet.SextetGroups
import Gridnet.Base64Exact
import Gridnet.KeyedStore
import Gridnet.TokenPoolStorage
import Gridnet.LinkedList
import Gridnet.RecencyList
import Gridnet.UnorderedCache
import Gridnet.Paging
import Gridnet.DomainSearch
import Gridnet.IdentityTokens
import Gridnet.KeyBlockSearch
import Gridnet.ChainCut
import Gridnet.HalvingSearch
import Gridnet.KeyIndex
import Gridnet.RecentTransactions
import Gridnet.RecentTransactionRuns
import Gridnet.WalletStorage
import Gridnet.Rounds
import Gridnet.DeferredTransactions
import Gridnet.PendingMarks
import Gridnet.Waking
import Gridnet.WakingRuns
import Gridnet.Schedules
import Gridnet.SynchronizedLocker
import Gridnet.RoutingTable
import Gridnet.IntervalUnion
import Gridnet.ConnTracker
import Gridnet.TokenCodec
import Gridnet.NetMsgCodec
import Gridnet.NetMsgRoundTrip
import Gridnet.ReceiptCodec
import Gridnet.FixedWindow
import Gridnet.Firewall
import Gridnet.FirewallRuns
