import NotK8s.Apiserver.DeletionRuns
import NotK8s.Apiserver.NoLostUpdate
import NotK8s.Apiserver.Pages
import NotK8s.Apiserver.QuantityGrammar
import NotK8s.Authz.NodeReach
import NotK8s.Cacher.Mirror
import NotK8s.Controllers.CompleteSets
import NotK8s.Controllers.CronJobRuns
import NotK8s.Controllers.CronMeaning
import NotK8s.Controllers.DeadNodes
import NotK8s.Controllers.Evictions
import NotK8s.Controllers.GarbageDeletes
import NotK8s.Controllers.JobAccounting
import NotK8s.Controllers.PodCidrs
import NotK8s.Controllers.RolloutProgress
import NotK8s.Controllers.ScalingVelocity
import NotK8s.Controllers.Stabilization
import NotK8s.Controllers.TimerRuns
import NotK8s.Controllers.UpdateOrder
import NotK8s.Controllers.VolumeRuns
import NotK8s.Flowcontrol.Isolation
import NotK8s.LeaderElection.Exclusive
import NotK8s.Nodelet.CpuLists
import NotK8s.Nodelet.DeviceHolders
import NotK8s.Nodelet.Managers
import NotK8s.Nodelet.Userns
import NotK8s.Nodeproxy.Backends
import NotK8s.Nodeproxy.Mirror
import NotK8s.Nodestore.CompactionVisibility
import NotK8s.Nodestore.GuardedWrites
import NotK8s.Nodestore.LeaseClock
import NotK8s.Nodestore.RestoredHistory
import NotK8s.Nodestore.SingleNode
import NotK8s.Patch.CanonicalSets
import NotK8s.Patch.Decode
import NotK8s.Patch.Directives
import NotK8s.Patch.ListKeeping
import NotK8s.Patch.Ownership
import NotK8s.Replication.LostLeadership
import NotK8s.Replication.ProposalHonesty
import NotK8s.Replication.RestartReachCluster
import NotK8s.Replication.StorageContract
import NotK8s.Scheduler.Admission
import NotK8s.Scheduler.Convergence
import NotK8s.Scheduler.DeviceExclusion
import NotK8s.Scheduler.DeviceSearch
import NotK8s.Scheduler.EventOrder
import NotK8s.Scheduler.GateRuns
import NotK8s.Scheduler.ImageCounts
import NotK8s.Scheduler.InterPodAffinity
import NotK8s.Scheduler.SnapshotRefresh
import NotK8s.Scheduler.SpreadSkew
import NotK8s.Scheduler.VictimSelection
import NotK8s.Watch.Identity
