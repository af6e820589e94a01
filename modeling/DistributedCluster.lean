import DistributedCluster.Lib.Http
import DistributedCluster.Membership.Refutation
import DistributedCluster.Membership.Merging
import DistributedCluster.Membership.LateJoin
import DistributedCluster.Storage.Handover
import DistributedCluster.Storage.Retry
import DistributedCluster.Storage.Effects
import DistributedCluster.Storage.Once
import DistributedCluster.Storage.Concurrent
import DistributedCluster.Storage.Rollback
import DistributedCluster.Ingestion.Types
import DistributedCluster.Search.Retention
import DistributedCluster.Executor.Discipline
import DistributedCluster.Executor.Leases
import DistributedCluster.Search.Types
import DistributedCluster.Executor.Runs
import DistributedCluster.Lib.Discipline
import DistributedCluster.Lib.Logging
import DistributedCluster.Executor.Lifecycle
import DistributedCluster.Executor.Acceptance
import DistributedCluster.Executor.Exclusion
import DistributedCluster.Executor.Status
import DistributedCluster.Storage.Ownership
import DistributedCluster.Storage.Placement
import DistributedCluster.Executor.Placement
import DistributedCluster.Lib.Paging
import DistributedCluster.Search.Engine
import DistributedCluster.Search.Exact
import DistributedCluster.Search.Completion
import DistributedCluster.Storage.Divergence
import DistributedCluster.Executor.Divergence
import DistributedCluster.Executor.Survival
import DistributedCluster.Executor.Takeover
import DistributedCluster.Membership.Addresses
import DistributedCluster.Membership.Contact
import DistributedCluster.Ingestion.Gutenberg
import DistributedCluster.Ingestion.Handlers
import DistributedCluster.Ingestion.Ingested
import DistributedCluster.Membership.Suspicion
import DistributedCluster.Search.Scoring
import DistributedCluster.Membership.Defence
import DistributedCluster.Membership.Disowning
import DistributedCluster.Storage.Lookup
import DistributedCluster.Executor.Lookup
import DistributedCluster.Lib.Url
import DistributedCluster.Storage.Splicing
import DistributedCluster.Storage.Failure
import DistributedCluster.Executor.Orphan
import DistributedCluster.Executor.Rejection
import DistributedCluster.Ingestion.Splitting
import DistributedCluster.Lib.CaseMapping
import DistributedCluster.Lib.Words
import DistributedCluster.Search.Characters
import DistributedCluster.Search.Words
import DistributedCluster.Search.Agreement
import DistributedCluster.Search.Handlers
import DistributedCluster.Search.Creation
import DistributedCluster.Membership.Packets
import DistributedCluster.Membership.Detection
import DistributedCluster.Membership.Spreading
import DistributedCluster.Executor.Outcomes
import DistributedCluster.Executor.Draining
import DistributedCluster.App.Components
import DistributedCluster.App.Soundness
import DistributedCluster.Storage.History
