import Labios.Adapter.Agreement
import Labios.Client.Waiting
import Labios.Elastic.Dechunk
import Labios.Label.Codec
import Labios.Shuffler.Packing
import Labios.Storage.TreeFiles
import Labios.Theorems.AdapterCoherence
import Labios.Theorems.AggregationMeaning
import Labios.Theorems.AppendMode
import Labios.Theorems.AtomicConditions
import Labios.Theorems.Backpressure
import Labios.Theorems.BatchRounds
import Labios.Theorems.BatchSolving
import Labios.Theorems.ByteArrayFile
import Labios.Theorems.CacheAccounting
import Labios.Theorems.ChannelDestroyed
import Labios.Theorems.ChannelFeeds
import Labios.Theorems.ChannelSequences
import Labios.Theorems.ClientCache
import Labios.Theorems.CompoundConditions
import Labios.Theorems.ConcurrentPuts
import Labios.Theorems.ConcurrentSizes
import Labios.Theorems.ContinuationChains
import Labios.Theorems.CrossBatchOrder
import Labios.Theorems.DeliveryOrder
import Labios.Theorems.Descriptors
import Labios.Theorems.DestroyedKeys
import Labios.Theorems.DockerExchange
import Labios.Theorems.ElasticDecisions
import Labios.Theorems.FailedFlush
import Labios.Theorems.FileBackend
import Labios.Theorems.HazardRecords
import Labios.Theorems.LabelIds
import Labios.Theorems.LabelsOwned
import Labios.Theorems.LatencyPercentiles
import Labios.Theorems.LocationLookup
import Labios.Theorems.MedianValues
import Labios.Theorems.MergedData
import Labios.Theorems.MergedTargets
import Labios.Theorems.NumericArguments
import Labios.Theorems.ObserveListings
import Labios.Theorems.OnceExecuted
import Labios.Theorems.OrphanContainers
import Labios.Theorems.PipelineDelivery
import Labios.Theorems.PipelineText
import Labios.Theorems.PipelineWiring
import Labios.Theorems.ReadLocality
import Labios.Theorems.RegistryRoundTrip
import Labios.Theorems.RejectedCommands
import Labios.Theorems.RenamedFiles
import Labios.Theorems.Replies
import Labios.Theorems.ReportedSizes
import Labios.Theorems.ResumeCommands
import Labios.Theorems.RoutedReplies
import Labios.Theorems.Sampling
import Labios.Theorems.SeparateKeys
import Labios.Theorems.ShortBuffers
import Labios.Theorems.ShortWrites
import Labios.Theorems.Shuffling
import Labios.Theorems.SizeStrings
import Labios.Theorems.SourceReads
import Labios.Theorems.SplitReads
import Labios.Theorems.StaleScores
import Labios.Theorems.StatusOrder
import Labios.Theorems.StickyPolicies
import Labios.Theorems.StoreLifetimes
import Labios.Theorems.SupertaskFailure
import Labios.Theorems.SuspendedFirst
import Labios.Theorems.SuspensionTimes
import Labios.Theorems.TelemetryWindows
import Labios.Theorems.TierAwareness
import Labios.Theorems.TierCompatibility
import Labios.Theorems.TimerFlush
import Labios.Theorems.TopWorkers
import Labios.Theorems.TruncatedData
import Labios.Theorems.UriRoundTrip
import Labios.Theorems.ValidOffsets
import Labios.Theorems.VersionedWorkspace
import Labios.Theorems.WorkerReports
import Labios.Theorems.WorkspaceAccess
import Labios.Theorems.WorkspaceIsolation
import Labios.Theorems.WriteSplitting
import Labios.Theorems.CommissionedWorkers
