import Odiseo.Materials.MergeOnce
import Odiseo.Materials.ReviewAgreement
import Odiseo.Materials.SuccessTerminal
import Odiseo.Materials.LoneReviewer
import Odiseo.Materials.GenerateSpec
import Odiseo.Materials.Superseded
import Odiseo.Materials.Rounds
import Odiseo.Database.Graph
import Odiseo.Roles.Entities
import Odiseo.Roles.Escalation
import Odiseo.Roles.Inheritance
import Odiseo.Auth.Service
import Odiseo.Auth.Staleness
import Odiseo.Materials.Versioning
import Odiseo.Database.Outline
import Odiseo.Materials.ReviewOpening
import Odiseo.Materials.Reconciliation
import Odiseo.Materials.Ledger
import Odiseo.Materials.AntiRepetition
import Odiseo.Database.Procedure
import Odiseo.Materials.Merge
import Odiseo.Tenancy.Service
import Odiseo.Tenancy.Worker
import Odiseo.Tenancy.Isolation
import Odiseo.Tenants.Lookup
import Odiseo.Catalogs.UseCase
import Odiseo.Catalogs.Visibility
import Odiseo.Tenancy.Migrations
import Odiseo.Tenancy.Nesting
import Odiseo.Designs.Service
import Odiseo.Designs.SoleDefault
import Odiseo.Tenants.AdminRemoval
import Odiseo.Materials.Redispatch
import Odiseo.Calendar.Months
import Odiseo.Dashboard.ConsumptionMetrics
import Odiseo.Dashboard.Billing
import Odiseo.Batch.Progress
import Odiseo.Materials.Recovery
import Odiseo.Tenants.Provisioning
import Odiseo.Tenants.Serviceability
import Odiseo.Materials.SerialCalls
import Odiseo.Materials.Site
import Odiseo.Materials.SiteSpec
import Odiseo.Picking.Greedy
import Odiseo.Materials.SelectionSpec
import Odiseo.QuestionBank.Strategy
import Odiseo.QuestionBank.Shortage
import Odiseo.Materials.Repeats
import Odiseo.QuestionBank.Bank
import Odiseo.QuestionBank.CandidatePool
import Odiseo.Picking.Sampling
import Odiseo.QuestionBank.Alternatives
import Odiseo.Materials.Limits
import Odiseo.Materials.ReviewScope
import Odiseo.Syllabi.AcademicTime
import Odiseo.Syllabi.Archive
import Odiseo.Roles.Invalidation
import Odiseo.Syllabi.Distributions
import Odiseo.Syllabi.Weeks
import Odiseo.Syllabi.Clone
import Odiseo.Syllabi.WeeklyLimit
import Odiseo.Syllabi.ActiveWeeks
import Odiseo.Syllabi.CloneExact
import Odiseo.Syllabi.CloneCycle
import Odiseo.Syllabi.CycleScroll
import Odiseo.Database.Session
import Odiseo.Database.Sequence
import Odiseo.Syllabi.SafeWeeks
import Odiseo.Syllabi.LastWrite
import Odiseo.Materials.GeneratedWeeks
import Odiseo.Materials.Execution
import Odiseo.Materials.DispatchOnce
import Odiseo.Materials.DailyCron
import Odiseo.Materials.SiteSound
import Odiseo.Materials.Bypass
import Odiseo.Materials.Artifacts
import Odiseo.Materials.MergedPdf
import Odiseo.Syllabi.Store
import Odiseo.Syllabi.StoreSpec
import Odiseo.Syllabi.Converges
import Odiseo.Locking.RedisDistributedLock
import Odiseo.Locking.CronTicks
import Odiseo.Calendar.Gregorian
import Odiseo.Dashboard.Service
import Odiseo.Dashboard.MonthBuckets
import Odiseo.Database.Sums
import Odiseo.Dashboard.TenantTotals
import Odiseo.Catalogs.SearchCache
import Odiseo.Materials.Partition
import Odiseo.Materials.Accounting
import Odiseo.Materials.ReviewDrafts
import Odiseo.Logging.ScrubSecrets
import Odiseo.Logging.SecretMatches
import Odiseo.Logging.Pieces
import Odiseo.Logging.Values
import Odiseo.Logging.Survivors
import Odiseo.Catalogs.SearchTerm
import Odiseo.Common.MapWithConcurrency
import Odiseo.Materials.StorageKeys
import Odiseo.Catalogs.Payload
import Odiseo.Catalogs.Sync
import Odiseo.Catalogs.SyncRuns
import Odiseo.Requests.Guards
import Odiseo.Requests.Safety
import Odiseo.Requests.Sessions
import Odiseo.Database.Replay
import Odiseo.Materials.BrowserPool
import Odiseo.Templates.Replay
import Odiseo.Database.DistinctOn
import Odiseo.Tenancy.Integrity
import Odiseo.Tenancy.LiveMigration
import Odiseo.Client.Guard
import Odiseo.Client.Tab
import Odiseo.Designs.PageTexts
import Odiseo.Templates.Page
import Odiseo.Templates.PageRuns
import Odiseo.Catalogs.KeptVersion
