import RatKingdom.Tickets.Shared
import RatKingdom.Tickets.Ready
import RatKingdom.Tickets.Spellings
import RatKingdom.Reconcile.Attention
import RatKingdom.Harness.Codex
import RatKingdom.Landing.Verdict
import RatKingdom.Landing.RecoveryRuns
import RatKingdom.Verification.AdmissionRuns
import RatKingdom.Verification.ReadinessRuns
import RatKingdom.Workflow.Approval
import RatKingdom.Workflow.Link
import RatKingdom.Workflow.Terminal
import RatKingdom.Workflow.Cursor
import RatKingdom.Workflow.Archive
import RatKingdom.Reactor.Storm
import RatKingdom.Reactor.Diagnosis
import RatKingdom.Reactor.Order
import RatKingdom.Agents.Lanes
import RatKingdom.Supervisor.Owners
import RatKingdom.Supervisor.Attempts
import RatKingdom.Supervisor.Evidence
import RatKingdom.Supervisor.Reaper
import RatKingdom.Supervisor.Stranded
import RatKingdom.Supervisor.Transcript
import RatKingdom.Telemetry.CriticalPath
import RatKingdom.Git.Forward
import RatKingdom.Git.Swap
import RatKingdom.Scheduler.Timely
import RatKingdom.Supervisor.Reverted
import RatKingdom.Space.AsOf
import RatKingdom.Harness.Outcome
import RatKingdom.Release.Attested
import RatKingdom.Onboarding.Approved
import RatKingdom.Reconcile.Recurrence
import RatKingdom.Coordinator.Pages
import RatKingdom.Orchestrator.Refused
import RatKingdom.Factory.Failed
import RatKingdom.Landing.Admission
import RatKingdom.Scheduler.Meaning
import RatKingdom.Landing.Checks
import RatKingdom.Space.Sdlc
import RatKingdom.Landing.Generations
import RatKingdom.Factory.TicketGraph
import RatKingdom.Policy.Duration
import RatKingdom.Verification.ProofKey
import RatKingdom.Workflow.Interpolate
import RatKingdom.Workflow.Resolve
import RatKingdom.Reactor.Prompt
import RatKingdom.Sync.Arbitrate
import RatKingdom.Core.Percent
import RatKingdom.Space.Expiry
import RatKingdom.Tickets.Proquint
