import TokenGovernance.Config.Start
import TokenGovernance.Config.Text
import TokenGovernance.Json.Records
import TokenGovernance.Proofs.Engine.Amendments
import TokenGovernance.Proofs.Engine.Execution
import TokenGovernance.Proofs.Engine.Pools
import TokenGovernance.Proofs.Engine.Power
import TokenGovernance.Store.Snapshot
import TokenGovernance.Proofs.Phase
import TokenGovernance.Proofs.WriteLog
import TokenGovernance.Proofs.Engine.Lifecycle
import TokenGovernance.Proofs.Engine.Finality
import TokenGovernance.Proofs.Engine.ExecutionWindow
import TokenGovernance.Proofs.Engine.Integrity
import TokenGovernance.Proofs.Engine.Agreement
import TokenGovernance.Proofs.Engine.EventLog
import TokenGovernance.Proofs.Engine.Restart
import TokenGovernance.Proofs.Engine.Availability
import TokenGovernance.Proofs.Engine.Cancellation
import TokenGovernance.Proofs.Binary.Exact
import TokenGovernance.Proofs.Engine.Standing
import TokenGovernance.Proofs.Engine.Instant
import TokenGovernance.Proofs.Engine.VoteOrder
import TokenGovernance.Proofs.Outcome
import TokenGovernance.Proofs.Commitment
import TokenGovernance.Proofs.Assignment
import TokenGovernance.Proofs.Engine.Resumption
import TokenGovernance.Proofs.Engine.Retry
import TokenGovernance.Proofs.Recovery
import TokenGovernance.Proofs.FirstVote
import TokenGovernance.Proofs.Json.Records
import TokenGovernance.Proofs.Config
import TokenGovernance.Proofs.Search
