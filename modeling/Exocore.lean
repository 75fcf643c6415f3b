import Exocore.ChainRunsIndex
import Exocore.PendingSyncExchange
import Exocore.PendingSyncNewOperation
import Exocore.PendingStoreRuns
import Exocore.CommitLink
import Exocore.CommitOnce
import Exocore.ChainSyncLinks
import Exocore.StoreMoves
import Exocore.EngineStatuses
import Exocore.ChainSyncDiverge
import Exocore.ChainReopenRuns
import Exocore.StoreCollectLife
import Exocore.StoreIndexCalls
import Exocore.StoreWatchedRuns
import Exocore.StorePages
import Exocore.ChainWrites
import Exocore.ChainReceived
import Exocore.CommitBuilt
import Exocore.CommitEnds
import Exocore.CommitOperations
import Exocore.CommitSignatures
import Exocore.ChainSyncPositions
import Exocore.ChainSyncPanic
import Exocore.ChainSyncEnds
import Exocore.StoreIndexContent
import Exocore.CommitStops
import Exocore.CommitBest
import Exocore.CommitHeight
import Exocore.EngineHandles
import Exocore.PendingSyncDescribes
import Exocore.PendingSyncSends
import Exocore.PendingSyncRevives
import Exocore.CoreNesting
import Exocore.CoreBuilders
import Exocore.ChainTrackerStore
import Exocore.ChainOwned
import Exocore.CoreClock
import Exocore.CoreRamFile
import Exocore.StoreAggregatorPerm
import Exocore.StoreRescored
import Exocore.StoreFetchOnce
import Exocore.StoreRequest
import Exocore.StoreMutationCache
import Exocore.StoreTrackedOnce
import Exocore.DiscoveryStore
import Exocore.EngineOperations
import Exocore.TransportWakes
import Exocore.TransportStatus
import Exocore.TransportSurvives
import Exocore.StoreQueryExpected
import Exocore.LibDotted
import Exocore.LibNested
import Exocore.StoreSchema
import Exocore.StoreSchemaFields
import Exocore.StoreSchemaMapped
import Exocore.StoreSchemaDocument
import Exocore.LibSpilled
import Exocore.StoreEntityIterator
import Exocore.StoreAggregatorAlike
import Exocore.StoreEntityMutations
import Exocore.StoreEntitiesGathered
import Exocore.StoreEntitiesExported
import Exocore.StoreEntitiesAgree
import Exocore.LibComparison
import Exocore.LibFloat32
import Exocore.StoreOrderingValue
import Exocore.StoreOrderingLaws
import Exocore.ChainSyncProbe
import Exocore.ChainSyncScan
import Exocore.ChainSyncSearch
import Exocore.ChainSyncExchange
import Exocore.LibBallots
import Exocore.ClusterWorld
import Exocore.ClusterVotes
import Exocore.ClusterNode
import Exocore.ClusterChains
import Exocore.ClusterGroups
import Exocore.ClusterCommit
import Exocore.ClusterPropose
import Exocore.ClusterStages
import Exocore.ClusterSign
import Exocore.ClusterTick
import Exocore.ClusterCleanup
import Exocore.ClusterAgree
