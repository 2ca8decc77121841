import RentCompass.Store.Idempotency
import RentCompass.Store.PoisonJobs
import RentCompass.Store.OutboxSafety
import RentCompass.Store.Lineage
import RentCompass.Store.Visibility
import RentCompass.Store.BranchKeys
import RentCompass.Web.Handlers
import RentCompass.Web.Forget
import RentCompass.Json.Dumps
import RentCompass.Agent.Transcript
import RentCompass.Json.RoundTrip
import RentCompass.Tools.Ledger
import RentCompass.Tools.Execution
import RentCompass.Tools.WriteOnce
import RentCompass.Json.Canonical
import RentCompass.Tools.Recorded
import RentCompass.Agent.Contracts
import RentCompass.Agent.Specialists
import RentCompass.Agent.FailClosed
import RentCompass.Sha256
import RentCompass.Json.Depth
import RentCompass.Tools.SchemaCheck
import RentCompass.Tools.StrictSchema
import RentCompass.Tools.AuthoredSchema
import RentCompass.Tools.StrictEncoder
import RentCompass.Tools.StrictRoundTrip
import RentCompass.Agent.ToolBatch
import RentCompass.Agent.BatchPlan
import RentCompass.Agent.WriteGate
import RentCompass.Agent.BatchLedger
import RentCompass.Agent.CheckpointIdentity
import RentCompass.Web.RateLimit
import RentCompass.Memory.Collection
import RentCompass.Memory.Tombstones
import RentCompass.Memory.TurnWrites
import RentCompass.Memory.RetiredTurns
import RentCompass.Memory.EditedTurns
import RentCompass.Memory.SyncRaces
import RentCompass.FileTree
import RentCompass.PosixPath
import RentCompass.Deploy.RuntimeBackup
import RentCompass.Deploy.HostileArchives
import RentCompass.Deploy.CreateBackup
import RentCompass.Deploy.TarRoundTrip
import RentCompass.Deploy.ManifestRoundTrip
import RentCompass.Deploy.StagedTree
import RentCompass.Deploy.BackupRestores
import RentCompass.Listings.Candidates
import RentCompass.Listings.Validation
import RentCompass.Listings.EvidenceBinding
import RentCompass.Listings.PathIndependence
import RentCompass.Canary.Lifecycle
import RentCompass.Canary.Contract
import RentCompass.Canary.Aggregate
import RentCompass.Canary.Report
import RentCompass.Canary.FailsClosed
import RentCompass.Web.RefundWindow
import RentCompass.Md5
import RentCompass.Memory.AgentMemory
import RentCompass.Memory.Confinement
import RentCompass.Memory.ExplicitFacts
import RentCompass.Memory.Remembering
import RentCompass.Memory.PendingWrites
import RentCompass.Transactions
import RentCompass.Store.Finalize
import RentCompass.Store.Changes
import RentCompass.Store.Copies
import RentCompass.Store.Integrity
import RentCompass.Groups
import RentCompass.Store.Versions
import RentCompass.Store.TurnCalls
import RentCompass.Store.BranchCopies
import RentCompass.Store.Slots
import RentCompass.Memory.Consent
import RentCompass.Memory.StickyConsent
import RentCompass.Scraping.ListingCache
import RentCompass.Scraping.OnDemand
import RentCompass.Web.Focus
import RentCompass.Web.Registry
import RentCompass.Scraping.OtmAccess
import RentCompass.Web.DirectSearch
import RentCompass.Scraping.Robots
import RentCompass.Memory.LegacyCopy
import RentCompass.Regex
import RentCompass.Web.Markup
import RentCompass.Json.Escaped
import RentCompass.Web.BodyScan
import RentCompass.Tools.SchemaAgreement
import RentCompass.Tools.StrictCompliance
import RentCompass.Tools.StrictSiblings
import RentCompass.Json.Same
import RentCompass.Tools.StrictSettled
import RentCompass.Tools.StrictTidy
import RentCompass.Tools.StrictListed
import RentCompass.Tools.StrictIdempotent
import RentCompass.Tenancy.Reference
import RentCompass.Tenancy.PrintedSums
import RentCompass.Canary.Phases
import RentCompass.Canary.LegalStreams
import RentCompass.Canary.Recorder
import RentCompass.Canary.RecordedLifecycles
import RentCompass.Greedy
import RentCompass.Listings.Ranking
import RentCompass.Listings.RankingLaws
import RentCompass.Listings.Refinement
import RentCompass.Listings.RefinementLaws
import RentCompass.Listings.CriteriaLaws
import RentCompass.Listings.FormCriteria
import RentCompass.Agent.SpecialistResults
import RentCompass.Agent.EvidenceAdmission
import RentCompass.Datetime
import RentCompass.Store.Timestamps
import RentCompass.Listings.ZhMoney
import RentCompass.Listings.ZhMoneyRuns
import RentCompass.Listings.ZhMoneyLaws
import RentCompass.Agent.CommuteKeys
import RentCompass.Agent.TokenIndex
import RentCompass.Agent.RouteBefore
import RentCompass.Agent.Durations
import RentCompass.Agent.PhraseRuns
import RentCompass.Agent.JoinedDurations
import RentCompass.Frames
import RentCompass.Json.OneLine
import RentCompass.Utf8
import RentCompass.Waves
import RentCompass.Agent.PlanWaves
import RentCompass.Agent.WaveExecutor
import RentCompass.Agent.ExecutionPlan
import RentCompass.Web.ChatStream
import RentCompass.Web.ChatReader
import RentCompass.Recency
import RentCompass.Web.SessionStore
import RentCompass.Since
import RentCompass.Web.AuthStore
import RentCompass.Agent.GraphRunners
import RentCompass.Oldest
import RentCompass.Data.PersistentCache
