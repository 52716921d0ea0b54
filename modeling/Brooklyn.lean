import Brooklyn.AbstractGeoDnsService
import Brooklyn.AggregatingEnricherRuns
import Brooklyn.AttributeMap
import Brooklyn.AutoScalerBounds
import Brooklyn.AutoScalerLatest
import Brooklyn.AutoScalerPoolEvents
import Brooklyn.AutoScalerQueued
import Brooklyn.AutoScalerStability
import Brooklyn.BalancingFrame
import Brooklyn.BalancingRelief
import Brooklyn.BashQuoting
import Brooklyn.BasicEntityMemento
import Brooklyn.BasicPool
import Brooklyn.BasicSubscriptionContext
import Brooklyn.BraceExpansion
import Brooklyn.ByonLocationResolver
import Brooklyn.ClusterStart
import Brooklyn.CombiningEnricherRuns
import Brooklyn.ComparableVersion
import Brooklyn.CompoundTaskRest
import Brooklyn.ConfigInheritance
import Brooklyn.ConfigKeyFields
import Brooklyn.DependentConfiguration
import Brooklyn.DuplicateItemEvents
import Brooklyn.EffectorArguments
import Brooklyn.EntityDynamicType
import Brooklyn.FixedListMachines
import Brooklyn.FixedNameAddresses
import Brooklyn.FlagFields
import Brooklyn.FollowTheSunDecisions
import Brooklyn.FollowTheSunFigures
import Brooklyn.FollowTheSunRemoval
import Brooklyn.FollowTheSunRotation
import Brooklyn.GlobMatching
import Brooklyn.GroupBackReferences
import Brooklyn.GroupViews
import Brooklyn.Identifiers
import Brooklyn.ItemSearch
import Brooklyn.ItemsInContainersGroupRuns
import Brooklyn.JavaNames
import Brooklyn.JavaStringLists
import Brooklyn.LocalhostPorts
import Brooklyn.LocationRegistry
import Brooklyn.MachineClaims
import Brooklyn.MapKeyEntries
import Brooklyn.MapOfCollectionsCalls
import Brooklyn.MementoFileDeletion
import Brooklyn.MementoTransformer
import Brooklyn.MethodEffector
import Brooklyn.MutexRelease
import Brooklyn.PersistenceFollows
import Brooklyn.PersisterAgreement
import Brooklyn.PortRanges
import Brooklyn.QueueingLookups
import Brooklyn.RebalanceWakeups
import Brooklyn.RebindApplications
import Brooklyn.RollingMean
import Brooklyn.ScheduledRuns
import Brooklyn.SchedulerOrder
import Brooklyn.ServerPool
import Brooklyn.StringKeyMapConverter
import Brooklyn.Strings
import Brooklyn.TaskAccounting
import Brooklyn.TimeRoundTrip
import Brooklyn.TimeWeightedDeltaEnricher
import Brooklyn.UnmanageSubtree
import Brooklyn.WorkerPoolRuns
