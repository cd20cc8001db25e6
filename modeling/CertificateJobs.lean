import CertificateJobs.Library.Sha256
import CertificateJobs.Library.IndexBy
import CertificateJobs.Library.Kahn
import CertificateJobs.Library.KeyedBy
import CertificateJobs.Library.Closure
import CertificateJobs.Library.Machine
import CertificateJobs.Library.Framed
import CertificateJobs.Library.Lists
import CertificateJobs.Library.Slice
import CertificateJobs.Library.Dag
import CertificateJobs.Library.ControlLoop
import CertificateJobs.Library.Noninterference
import CertificateJobs.Library.Trim
import CertificateJobs.Api.Kubernetes
import CertificateJobs.Api.Types
import CertificateJobs.Security.Template
import CertificateJobs.Security.Policy
import CertificateJobs.Workflow.Graph
import CertificateJobs.Workflow.GraphSound
import CertificateJobs.Workflow.Nodes
import CertificateJobs.Workflow.NodeEffects
import CertificateJobs.Controller.JobBuilder
import CertificateJobs.Controller.JobNames
import CertificateJobs.Controller.HardenedJobs
import CertificateJobs.Controller.JobLabels
import CertificateJobs.Controller.SecretVolume
import CertificateJobs.Controller.Run
import CertificateJobs.Controller.Reconcile
import CertificateJobs.Controller.Conditions
import CertificateJobs.Controller.Cluster
import CertificateJobs.Controller.Watches
import CertificateJobs.Webhook.Admission
import CertificateJobs.Webhook.Defaulting
import CertificateJobs.Workflow.Observation
import CertificateJobs.Workflow.Scheduling
import CertificateJobs.Workflow.Ownership
import CertificateJobs.Workflow.Pass
import CertificateJobs.Workflow.Total
import CertificateJobs.Workflow.Verdict
import CertificateJobs.Workflow.Ranging
import CertificateJobs.Workflow.InMemory
import CertificateJobs.Workflow.Moves
import CertificateJobs.Workflow.Objects
import CertificateJobs.Workflow.Progress
import CertificateJobs.Workflow.Effects
import CertificateJobs.Workflow.Retime
import CertificateJobs.Runs.Entry
import CertificateJobs.Runs.Rules
import CertificateJobs.Runs.Sweep
import CertificateJobs.Runs.Table
import CertificateJobs.Runs.ServiceAccount
import CertificateJobs.Runs.Parallelism
import CertificateJobs.Runs.Outcomes
import CertificateJobs.Runs.Stamps
import CertificateJobs.Runs.Failures
import CertificateJobs.Runs.Stop
import CertificateJobs.Runs.Order
import CertificateJobs.Runs.Coherence
import CertificateJobs.Runs.Cache
import CertificateJobs.Runs.Input
import CertificateJobs.Runs.Truth
import CertificateJobs.Runs.Messages
import CertificateJobs.Runs.Quiescence
import CertificateJobs.Runs.WellFormed
import CertificateJobs.Runs.Isolation
import CertificateJobs.Runs.Retry
import CertificateJobs.Runs.Rerun
import CertificateJobs.Runs.Life
import CertificateJobs.Runs.Overlap
import CertificateJobs.Runs.Admitted
import CertificateJobs.Runs.Refinement
import CertificateJobs.Runs.Liveness
import CertificateJobs.Runs.Greedy
import CertificateJobs.Runs.Recovery
import CertificateJobs.Runs.Clock
import CertificateJobs.Runs.Timeline
import CertificateJobs.Runs.ConditionHistory
import CertificateJobs.Runs.Serial
import CertificateJobs.Runs.Convergence
import CertificateJobs.Runs.Manager
import CertificateJobs.Runs.Wakeups
import CertificateJobs.Runs.Tenants
import CertificateJobs.Cmd.WatchScope
