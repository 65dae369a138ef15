import LeadQueue.Library.Table
import LeadQueue.Library.Machine
import LeadQueue.Library.Fallible
import LeadQueue.Library.RowLocks
import LeadQueue.Library.Ranking
import LeadQueue.Python
import LeadQueue.Recipients
import LeadQueue.Settings
import LeadQueue.Retry
import LeadQueue.Postgres
import LeadQueue.JsonText.Dumps
import LeadQueue.JsonText.Accepts
import LeadQueue.JsonText.Numbers
import LeadQueue.JsonText.Strings
import LeadQueue.JsonText.Storable
import LeadQueue.Schema
import LeadQueue.Queue.Claim
import LeadQueue.Queue.Selection
import LeadQueue.Queue.Record
import LeadQueue.Queue.Requeue
import LeadQueue.Queue.Like
import LeadQueue.Reporting
import LeadQueue.Library.Paging
import LeadQueue.Library.KeyWaits
import LeadQueue.Reporting.Report
import LeadQueue.Reporting.Status
import LeadQueue.Intake
import LeadQueue.Intake.Effect
import LeadQueue.Intake.Constraints
import LeadQueue.Intake.Overlap
import LeadQueue.Concurrent
import LeadQueue.Sessions
import LeadQueue.Sessions.Invariant
import LeadQueue.Sessions.Commit
import LeadQueue.Sessions.Serial
import LeadQueue.Library.Prophecy
import LeadQueue.Migrations
import LeadQueue.Guarantees.Budget
import LeadQueue.Guarantees.Exclusive
import LeadQueue.Guarantees.Fencing
import LeadQueue.Guarantees.ManualRetry
import LeadQueue.Guarantees.MigrationsOnce
import LeadQueue.Guarantees.OneCopy
import LeadQueue.Guarantees.JournalAttribution
import LeadQueue.Guarantees.JournalCoverage
import LeadQueue.Guarantees.JournalHistory
import LeadQueue.Guarantees.JournalTimes
import LeadQueue.Guarantees.DeliveredFinal
import LeadQueue.Guarantees.Reclaim
import LeadQueue.Guarantees.Recording
import LeadQueue.Guarantees.Headers
import LeadQueue.Guarantees.Sharing
import LeadQueue.Guarantees.StatsAgree
import LeadQueue.Guarantees.StatusPage
import LeadQueue.Guarantees.RecipientView
import LeadQueue.Guarantees.PayloadStorage
import LeadQueue.Guarantees.RecipientLimit
import LeadQueue.Guarantees.FairBatch
import LeadQueue.Guarantees.IdleWorker
import LeadQueue.Guarantees.IntakeOnce
import LeadQueue.Guarantees.ValidationComplete
import LeadQueue.Guarantees.NothingLost
import LeadQueue.Guarantees.ProblemReport
import LeadQueue.Guarantees.ProblemPages
import LeadQueue.Guarantees.TargetedRetry
import LeadQueue.Guarantees.BulkRetry
import LeadQueue.Guarantees.RetryAccounting
import LeadQueue.Guarantees.RetryHorizon
import LeadQueue.Guarantees.RetryArithmetic
import LeadQueue.Guarantees.Attachment
import LeadQueue.Guarantees.AttachDeadlock
import LeadQueue.Service
import LeadQueue.Schemas
import LeadQueue.Schemas.Body
import LeadQueue.Schemas.Answers
import LeadQueue.Sender
import LeadQueue.Stub
import LeadQueue.Worker
import LeadQueue.Fleet
import LeadQueue.Network
import LeadQueue.Guarantees.FleetRecords
import LeadQueue.Guarantees.FleetShutdown
import LeadQueue.Guarantees.Receipts
import LeadQueue.Guarantees.AcceptedOnce
import LeadQueue.Guarantees.StubCounts
import LeadQueue.Guarantees.Serializable
import LeadQueue.Library.Runs
