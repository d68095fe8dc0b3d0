import Prodinamik.Raft.StateMachineSafety
import Prodinamik.Raft.Replication
import Prodinamik.Raft.Replay
import Prodinamik.Raft.Reconnect
import Prodinamik.Runs.Compact
import Prodinamik.Runs.Served
import Prodinamik.Runs.Engine
import Prodinamik.Runs.Resume
import Prodinamik.Runs.Reentry
import Prodinamik.Runs.OneWay
import Prodinamik.Machine.Trap
import Prodinamik.Machine.Temporal
import Prodinamik.Lib.Run
import Prodinamik.Runs.History
import Prodinamik.Grid.Absorbing
import Prodinamik.Grid.Rebuild
import Prodinamik.Grid.Dispatch
import Prodinamik.Grid.Stranded
import Prodinamik.Grid.Delivery
import Prodinamik.Memory.Convergence
import Prodinamik.Memory.DeltaSync
import Prodinamik.Cluster.Elector
import Prodinamik.Cluster.Distributed
import Prodinamik.Grid.RaftBridge
import Prodinamik.Events.EventStore
import Prodinamik.Events.Durable
import Prodinamik.Events.Sequence
import Prodinamik.Access.Lifecycle
import Prodinamik.Access.Server
import Prodinamik.Access.Isolation
import Prodinamik.Runs.Moves
import Prodinamik.Runs.Paths
import Prodinamik.Runs.Targets
import Prodinamik.Raft.IndexInvariant
import Prodinamik.Runs.Archive
import Prodinamik.Runs.Shared
import Prodinamik.Raft.Wire
import Prodinamik.Audit.Conservation
import Prodinamik.Plugins.Mirror
import Prodinamik.Profiles.Coherence
import Prodinamik.Lib.Interleave
import Prodinamik.Validators.Cache
import Prodinamik.Validators.Pipeline
import Prodinamik.Validators.Known
import Prodinamik.Validators.Warm
import Prodinamik.Validators.Soundness
import Prodinamik.Access.Approval
import Prodinamik.Access.Decisions
import Prodinamik.Lib.Replace
import Prodinamik.Skills.SkillForge
import Prodinamik.Skills.Promotion
import Prodinamik.Runs.Hooks
import Prodinamik.Runs.HitlChain
import Prodinamik.Runs.EventAccess
import Prodinamik.Grid.Service
import Prodinamik.Grid.Fencing
import Prodinamik.Grid.Waiting
import Prodinamik.Grid.Capacity
import Prodinamik.Grid.Overload
import Prodinamik.Workers.Supervisor
import Prodinamik.Workers.Pool
import Prodinamik.Workers.WorkerIds
import Prodinamik.Workers.Coroutines
import Prodinamik.Workers.Recovery
import Prodinamik.Events.Batch
import Prodinamik.Lib.Words
import Prodinamik.Runs.Slug
import Prodinamik.Lib.Split
import Prodinamik.Machine.Formula
import Prodinamik.Runs.WalBatch
import Prodinamik.Runs.RoundTrip
import Prodinamik.Runs.Rejected
import Prodinamik.Lib.LruCache
import Prodinamik.Machine.StaticCache
import Prodinamik.Plugins.PluginRepository
import Prodinamik.Plugins.Installed
import Prodinamik.Lib.TokenBucket
import Prodinamik.Access.RateLimiter
import Prodinamik.Budget.CostTracker
import Prodinamik.Budget.BudgetEnforcer
import Prodinamik.Budget.Degradation
import Prodinamik.Safety.EventBus
import Prodinamik.Safety.Monitor
import Prodinamik.Safety.Soundness
import Prodinamik.Safety.Cascade
import Prodinamik.Safety.Delivery
import Prodinamik.Safety.Orchestrator
import Prodinamik.Safety.Health
import Prodinamik.Alerts.AlertManager
import Prodinamik.Alerts.Dispatch
import Prodinamik.Events.Purge
import Prodinamik.Events.Pages
import Prodinamik.Events.Reached
import Prodinamik.Events.Compaction
import Prodinamik.Events.Accounts
import Prodinamik.Grid.Least
import Prodinamik.Grid.Watchers
import Prodinamik.Grid.Fifo
import Prodinamik.Memory.ReadWrites
import Prodinamik.Audit.Count
import Prodinamik.Lib.Regex
import Prodinamik.Lib.JsonScan
import Prodinamik.Agents.Action
import Prodinamik.Agents.Extraction
import Prodinamik.Agents.ContextManager
import Prodinamik.Agents.AgentWorker
import Prodinamik.Agents.Success
import Prodinamik.Agents.Results
import Prodinamik.Lib.Surrogates
import Prodinamik.Memory.LocalMemory
import Prodinamik.Memory.Recall
import Prodinamik.Validators.Expiry
import Prodinamik.Adapters.Adapter
import Prodinamik.Access.BudgetThreshold
import Prodinamik.Remediation.AutoRemediator
import Prodinamik.Skills.Drafting
import Prodinamik.Llm.Registry
import Prodinamik.Llm.Accounts
import Prodinamik.Agents.ContextWindow
import Prodinamik.Agents.ContextEntries
import Prodinamik.Metrics.Histogram
import Prodinamik.Lib.Grouping
import Prodinamik.Recommend.RunRecommender
import Prodinamik.Recommend.Isolation
import Prodinamik.Lib.Rounding
import Prodinamik.Detect.EmergenceDetector
import Prodinamik.Detect.DriftCollector
import Prodinamik.Detect.Justified
import Prodinamik.Lib.DepthFirst
import Prodinamik.Plugins.Dependencies
import Prodinamik.Machine.Cycles
import Prodinamik.Machine.Reachability
import Prodinamik.Grid.CapabilityIndex
import Prodinamik.Detect.DriftQueries
import Prodinamik.Plugins.HermesConfig
import Prodinamik.Audit.Replay
import Prodinamik.Machine.Migration
import Prodinamik.Machine.Parser
import Prodinamik.Machine.Written
import Prodinamik.Memory.EphemeralMemory
import Prodinamik.Events.Why
import Prodinamik.Agents.WarmAgentCoordinator
import Prodinamik.Profiles.DependencyGraph
import Prodinamik.Lib.Deviation
import Prodinamik.Budget.TemporalCostDebugger
import Prodinamik.Runs.AutoRemediation
import Prodinamik.Agents.ToolExecutor
import Prodinamik.Predict.ForecastEngine
