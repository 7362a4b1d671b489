import StopTrading.Library.Transition
import StopTrading.Library.Threads
import StopTrading.Library.MachineInt
import StopTrading.Library.BitString
import StopTrading.Library.BitBuffer
import StopTrading.Library.KeyedTotal
import StopTrading.Library.FirstMatch
import StopTrading.Library.ListSplits
import StopTrading.Library.Completion
import StopTrading.Library.HashChain
import StopTrading.Library.SuffixLinks
import StopTrading.Library.Decimal
import StopTrading.Library.KeyedProfile
import StopTrading.Library.Crossing
import StopTrading.Library.FiniteMap
import StopTrading.Library.LinearProbing
import StopTrading.Library.ByteFile
import StopTrading.Library.FoldedChecksum
import StopTrading.Library.ByteMemory
import StopTrading.Library.PointerWalk
import StopTrading.Library.CompressedTrie
import StopTrading.Library.LongestPrefix
import StopTrading.Library.FloatOps
import StopTrading.Library.GraphSearch
import StopTrading.Library.TopologicalOrder
import StopTrading.Library.DepthFirst
import StopTrading.Library.Panics
import StopTrading.TickDb.TimestampCodec
import StopTrading.TickDb.TimestampWords
import StopTrading.TickDb.TimestampRoundTrip
import StopTrading.TickDb.FloatCodec
import StopTrading.TickDb.FloatLossless
import StopTrading.TickDb.XorSeries
import StopTrading.TickDb.XorLayout
import StopTrading.TickDb.XorBlock
import StopTrading.TickDb.XorStream
import StopTrading.TickDb.Writer
import StopTrading.TickDb.Reader
import StopTrading.TickDb.Counters
import StopTrading.TickDb.Query
import StopTrading.Disruptor.Sequencer
import StopTrading.Disruptor.Publication
import StopTrading.Disruptor.Accounting
import StopTrading.Disruptor.Ring
import StopTrading.Disruptor.Overwrite
import StopTrading.Disruptor.DependencyGraph
import StopTrading.Routing.OrderStateMachine
import StopTrading.Routing.Executions
import StopTrading.Routing.ErrorTraces
import StopTrading.Concurrency.RwLock
import StopTrading.Concurrency.FutexMutex
import StopTrading.Risk.Margin
import StopTrading.Risk.Drawdown
import StopTrading.Risk.PreTrade
import StopTrading.Risk.OrderId
import StopTrading.Backtest.Engine
import StopTrading.Backtest.Accounting
import StopTrading.Exchange.HaltDetector
import StopTrading.Network.Multipath
import StopTrading.Network.Reassembly
import StopTrading.Dataflow.Batching
import StopTrading.Audit.Ledger
import StopTrading.Audit.TamperEvidence
import StopTrading.Events.KeywordMatcher
import StopTrading.Events.KeywordTrie
import StopTrading.Events.KeywordLinks
import StopTrading.Events.CriticalScan
import StopTrading.State.Failover
import StopTrading.State.Snapshot
import StopTrading.Safety.KillSwitch
import StopTrading.Safety.CircuitBreaker
import StopTrading.Safety.BreakerCooldown
import StopTrading.Portfolio.Positions
import StopTrading.Fix.Codec
import StopTrading.Fix.Faithful
import StopTrading.Fix.Checksum
import StopTrading.Fix.Session
import StopTrading.Fix.SessionRuns
import StopTrading.Fix.DecodeSafety
import StopTrading.Fix.Integers
import StopTrading.Fix.Outgoing
import StopTrading.Fix.GapFill
import StopTrading.Fix.Injection
import StopTrading.Exchange.AuctionBook
import StopTrading.Exchange.AuctionPrice
import StopTrading.Exchange.AuctionTies
import StopTrading.Exchange.AuctionEngine
import StopTrading.Exchange.AuctionCancel
import StopTrading.Exchange.AuctionExecution
import StopTrading.OrderBook.L3Tracker
import StopTrading.OrderBook.QueuePosition
import StopTrading.OrderBook.Replay
import StopTrading.OrderBook.Sides
import StopTrading.OrderBook.Manager
import StopTrading.OrderBook.Checksum
import StopTrading.OrderBook.TradeBuffer
import StopTrading.Compliance.SelfTrade
import StopTrading.Compliance.BestPrices
import StopTrading.DataStructures.ConcurrentHash
import StopTrading.DataStructures.HashRefinement
import StopTrading.DataStructures.HashThreads
import StopTrading.DataStructures.HashReaders
import StopTrading.DataStructures.SkipList
import StopTrading.DataStructures.SkipRefinement
import StopTrading.DataStructures.SkipTermination
import StopTrading.DataStructures.RadixTree
import StopTrading.DataStructures.RadixInsert
import StopTrading.DataStructures.RadixRefinement
import StopTrading.DataStructures.RadixPrefix
import StopTrading.Gateway.Failover
import StopTrading.EventStore.Replay
import StopTrading.EventStore.Store
import StopTrading.EventStore.Wal
import StopTrading.EventStore.WalRecovery
import StopTrading.EventStore.WalCorruption
import StopTrading.Ipc.ShmRing
import StopTrading.Ipc.SharedMemory
import StopTrading.Memory.Slab
import StopTrading.Network.RateLimiter
import StopTrading.Network.WsThrottle
import StopTrading.Strategy.Dag
import StopTrading.Strategy.TopoOrder
import StopTrading.Strategy.Execute
import StopTrading.Execution.Iceberg
import StopTrading.Execution.Conditional
import StopTrading.Execution.ConditionalHistory
import StopTrading.Execution.PostOnly
import StopTrading.Execution.TrailingStop
import StopTrading.Risk.OrderIdReturns
import StopTrading.Memory.Arena
import StopTrading.Memory.ObjectPool
import StopTrading.EventStore.BookLevels
import StopTrading.Safety.ErrorBursts
import StopTrading.Gateway.VenueSelection
import StopTrading.OrderBook.SnapshotManager
import StopTrading.Backtest.Matcher
import StopTrading.Backtest.MatcherRuns
import StopTrading.Persistence.Wal
import StopTrading.Network.RefillThreads
import StopTrading.Execution.IcebergSizing
import StopTrading.Execution.ConditionalChains
import StopTrading.Execution.ExecutionRouter
import StopTrading.Library.CentralMoments
import StopTrading.Ml.OnlineStats
import StopTrading.Ml.OnlineKurtosis
import StopTrading.Events.KeywordScan
import StopTrading.Library.Walks
import StopTrading.Library.BellmanFord
import StopTrading.Dex.Routing
import StopTrading.Dex.Graph
import StopTrading.Dex.Arbitrage
import StopTrading.Dex.Quotes
import StopTrading.Library.Locks
import StopTrading.Network.ApiKeyRotator
import StopTrading.Network.RotatorLocks
import StopTrading.Library.CountedLoop
import StopTrading.Library.Triangular
import StopTrading.Library.Trellis
import StopTrading.Concurrency.SeqLock
import StopTrading.Security.Compliance
import StopTrading.Linalg.Cholesky
import StopTrading.Linalg.CholeskySolve
import StopTrading.Regime.Hmm
import StopTrading.Ml.CovarianceMatrix
import StopTrading.Library.MerkleTree
import StopTrading.Library.Replies
import StopTrading.Library.SlidingWindow
import StopTrading.Library.GreedyCut
import StopTrading.Security.Governance
import StopTrading.Security.Kms
import StopTrading.FeatEng.TemporalContext
import StopTrading.Persistence.WalFormat
import StopTrading.Runtime.WorkerPool
import StopTrading.Ml.ModelRegistry
import StopTrading.Features.Rolling
import StopTrading.Toxicity.Vpin
