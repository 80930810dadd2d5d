import AccessStack.Receipts.Refinement
import AccessStack.Json
import AccessStack.Campaign.Exclusion
import AccessStack.Campaign.Laws
import AccessStack.Campaign.Readback
import AccessStack.Campaign.Dispatch
import AccessStack.Release.Completable
import AccessStack.Release.Recorded
import AccessStack.Release.Resubmission
import AccessStack.Tasks.Deduplication
import AccessStack.Watches
import AccessStack.FileChanges
import AccessStack.Files.Authorization
import AccessStack.OAuth.SingleUse
import AccessStack.OAuth.Rotation
import AccessStack.Relay
import AccessStack.Shell.Confirmation
import AccessStack.Accounts.Laws
import AccessStack.Accounts.Unambiguous
import AccessStack.Rollout.Laws
import AccessStack.Browser.Restart
import AccessStack.Browser.TaskRuns
import AccessStack.Browser.QueueTurns
import AccessStack.Browser.Replay
import AccessStack.Identity.Grants
import AccessStack.Identity.Factors
import AccessStack.Identity.Retry
import AccessStack.Identity.Crashes
import AccessStack.Oracle.Exchange
import AccessStack.Interleaving
import AccessStack.Release.Prune
import AccessStack.Release.PruneLaws
import AccessStack.Release.PruneRuns
import AccessStack.Accounts.Exactness
import AccessStack.Accounts.ExactnessLaws
import AccessStack.Accounts.WorkspaceIds
import AccessStack.Browser.Extraction
import AccessStack.Browser.ExtractionBytes
import AccessStack.Browser.SnapshotLaws
import AccessStack.Browser.SnapshotRuns
import AccessStack.Companion.ChatWake
import AccessStack.Companion.ChatWakeLaws
import AccessStack.Companion.ChatWakeNotices
import AccessStack.Companion.InstanceLock
import AccessStack.Companion.InstanceLockLaws
import AccessStack.Companion.InstanceLockRuns
import AccessStack.Companion.ReloadableAgent
import AccessStack.Companion.ReloadableAgentLaws
import AccessStack.Confirmations.CanonicalJson
import AccessStack.Confirmations.CanonicalLaws
import AccessStack.Confirmations.DigestLaws
import AccessStack.Edge.ProgressLaws
import AccessStack.Edge.ProgressRuns
import AccessStack.Files.MutableTree
import AccessStack.Files.MutableTreeLaws
import AccessStack.Files.RelativePathLaws
import AccessStack.Files.TextDecoding
import AccessStack.Files.TextPreservation
import AccessStack.GitStatus
import AccessStack.Mcp.Cancellation
import AccessStack.Mcp.CancellationRuns
import AccessStack.Policies.Agreement
import AccessStack.Rollout.Preference
import AccessStack.Shell.CaptureLaws
import AccessStack.Shell.CommandAnalysis
import AccessStack.Shell.FileSink
import AccessStack.Shell.FileSinkLaws
import AccessStack.Shell.PosixQuoting
import AccessStack.Tasks.LogPages
