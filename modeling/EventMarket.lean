import EventMarket.Book.BookIntegrity
import EventMarket.Book.OrderBook
import EventMarket.Constraint.Payoff
import EventMarket.Constraint.PayoffExact
import EventMarket.Constraint.RegistryIndex
import EventMarket.Core.BasketSizing
import EventMarket.Core.BasketSizingOptimal
import EventMarket.Core.CostPrefix
import EventMarket.Core.DecimalTexts
import EventMarket.Core.DepthAgreement
import EventMarket.Core.ExecutionCost
import EventMarket.Core.FeeLedger
import EventMarket.Core.FixedPoint
import EventMarket.Core.MachineFees
import EventMarket.Core.MachineSizing
import EventMarket.Core.NetSizing
import EventMarket.Core.NetSizingOptimal
import EventMarket.Core.OrderBuilding
import EventMarket.Core.PairAgreement
import EventMarket.Core.PassiveQueue
import EventMarket.Core.QueueDominance
import EventMarket.Core.QueueReconciliation
import EventMarket.Core.Reservation
import EventMarket.Core.SearchBudget
import EventMarket.Core.SizingRange
import EventMarket.Core.SizingTask
import EventMarket.Foundations.BestOn
import EventMarket.Foundations.CheckedArithmetic
import EventMarket.Foundations.Combinations
import EventMarket.Foundations.CyclicCode
import EventMarket.Foundations.Depletion
import EventMarket.Foundations.Drain
import EventMarket.Foundations.Durable
import EventMarket.Foundations.FramedLog
import EventMarket.Foundations.HeldTime
import EventMarket.Foundations.IntervalLedger
import EventMarket.Foundations.LinkedChain
import EventMarket.Foundations.LittleEndian
import EventMarket.Foundations.Mirror
import EventMarket.Foundations.OrderedDict
import EventMarket.Foundations.Ring
import EventMarket.Foundations.Run
import EventMarket.Foundations.Tally
import EventMarket.Foundations.Yields
import EventMarket.Gateway.Json
import EventMarket.Gateway.JsonStrict
import EventMarket.Gateway.JsonText
import EventMarket.Gateway.MarketRegistry
import EventMarket.Gateway.MetadataCanonical
import EventMarket.Gateway.MetadataDocument
import EventMarket.Gateway.MetadataSnapshot
import EventMarket.Gateway.OrderbookDecoder
import EventMarket.Gateway.OrderbookProcessor
import EventMarket.Journal.ChecksumBursts
import EventMarket.Journal.Codec
import EventMarket.Journal.CodecBijection
import EventMarket.Journal.RawJournal
import EventMarket.Market.Generations
import EventMarket.Market.MarketState
import EventMarket.Market.Replica
import EventMarket.Opportunity.CandidateCertificates
import EventMarket.Opportunity.CandidateLifecycle
import EventMarket.Opportunity.CandidateRefresh
import EventMarket.Opportunity.CandidateTracker
import EventMarket.Scripts.ArchiveCrashes
import EventMarket.Scripts.CatalogArchive
import EventMarket.Scripts.CatalogMigration
import EventMarket.Scripts.CatalogRecovery
import EventMarket.Scripts.ContractRules
import EventMarket.Scripts.EconomicSelection
import EventMarket.Scripts.ImplicationSoundness
import EventMarket.Scripts.MarketFamilies
import EventMarket.Scripts.PublicPool
import EventMarket.Scripts.PublicPoolBound
import EventMarket.Scripts.PythonValues
import EventMarket.Session.AsyncCapture
import EventMarket.Session.AsyncCaptureSafety
import EventMarket.Session.BasketEntry
import EventMarket.Session.BasketExecution
import EventMarket.Session.BasketExecutionCash
import EventMarket.Session.BasketExecutionRun
import EventMarket.Session.BasketExecutionSteps
import EventMarket.Session.BasketFills
import EventMarket.Session.BasketFloor
import EventMarket.Session.BasketLiquidity
import EventMarket.Session.BasketLookahead
import EventMarket.Session.BasketObservation
import EventMarket.Session.BasketObservationRun
import EventMarket.Session.BasketObservationTime
import EventMarket.Session.BasketReconciliation
import EventMarket.Session.BasketScreen
import EventMarket.Session.BasketStatement
import EventMarket.Session.CapitalTimeExact
import EventMarket.Session.CaptureSession
import EventMarket.Session.DepthPreparation
import EventMarket.Session.LegacyFunding
import EventMarket.Session.LegacyLedger
import EventMarket.Session.LegacyQuote
import EventMarket.Session.LegacyStudy
import EventMarket.Session.LifecycleCash
import EventMarket.Session.LifecycleFloor
import EventMarket.Session.LifecycleHoldings
import EventMarket.Session.LifecycleLabels
import EventMarket.Session.LifecycleOrders
import EventMarket.Session.LifecyclePast
import EventMarket.Session.LifecycleRun
import EventMarket.Session.LifecycleSteps
import EventMarket.Session.LifecycleTime
import EventMarket.Session.PassiveLedger
import EventMarket.Session.PassiveProbe
import EventMarket.Session.PassiveRun
import EventMarket.Session.PolicyFile
import EventMarket.Session.PositionLots
import EventMarket.Session.PositionSequences
import EventMarket.Session.ReadOnlyFeed
import EventMarket.Session.ReadOnlyFeedOutcome
import EventMarket.Session.ReadOnlyFeedReconnect
import EventMarket.Session.ReadOnlyFeedRecovery
import EventMarket.Session.ReadOnlyFeedSafety
import EventMarket.Session.ReplayObserver
import EventMarket.Session.SessionFiles
import EventMarket.Session.SessionIntegrity
import EventMarket.Session.SessionWriter
import EventMarket.Session.ShownLevels
import EventMarket.Session.StudyArrival
import EventMarket.Session.StudyJson
import EventMarket.Session.StudyLifecycle
import EventMarket.Session.StudyLiquidity
import EventMarket.Session.StudyPositions
import EventMarket.Session.StudyReservation
import EventMarket.Session.StudyWalk
