import TrustPortal.Lib.Agree
import TrustPortal.Lib.Code
import TrustPortal.Lib.Dict
import TrustPortal.Lib.Except
import TrustPortal.Lib.Fold
import TrustPortal.Lib.HashChain
import TrustPortal.Lib.Run
import TrustPortal.Lib.Slices
import TrustPortal.Python.Base64
import TrustPortal.Python.Equality
import TrustPortal.Python.Json
import TrustPortal.Python.Layout
import TrustPortal.Python.Loads
import TrustPortal.Python.Lossy
import TrustPortal.Python.Number
import TrustPortal.Python.Text
import TrustPortal.Python.Url
import TrustPortal.Python.Value
import TrustPortal.Sql.Jsonb
import TrustPortal.Sql.Rows
import TrustPortal.Sql.Table
import TrustPortal.Sql.Value
import TrustPortal.Request.JsonLimits
import TrustPortal.Web.SafeHttp
import TrustPortal.Web.Security
import TrustPortal.Api.Execution
import TrustPortal.Auth.Replay
import TrustPortal.Auth.Session
import TrustPortal.Auth.Setup
import TrustPortal.Audit.Anchor
import TrustPortal.Audit.Archive
import TrustPortal.Audit.DumpFormat
import TrustPortal.Audit.DumpReader
import TrustPortal.Audit.Log
import TrustPortal.Audit.PublishHead
import TrustPortal.Audit.Trigger
import TrustPortal.Audit.VerifyChain
import TrustPortal.Audit.Witness
import TrustPortal.Scheduler.Cron
import TrustPortal.Scheduler.Run
import TrustPortal.Scheduler.System
import TrustPortal.Logging.CloudWatch
import TrustPortal.Logging.Shipper
import TrustPortal.Collectors.ChangeRecord
import TrustPortal.Collectors.CodeCommit
import TrustPortal.GitSources.ChunkedFiles
import TrustPortal.GitSources.Compare
import TrustPortal.GitSources.HistoryWalk
import TrustPortal.GitSources.LocalDirectory
import TrustPortal.GitSources.Mappings
import TrustPortal.GitSources.Service
import TrustPortal.Transcript.Lines
import TrustPortal.Transcript.Parse
import TrustPortal.Transcript.Reconstruct
import TrustPortal.DecisionLog.Budget
import TrustPortal.DecisionLog.Entry
import TrustPortal.DecisionLog.Import
import TrustPortal.DecisionLog.Session
import TrustPortal.DecisionLog.Storage
import TrustPortal.DecisionLog.Sync
import TrustPortal.DecisionLog.Verify
import TrustPortal.EvidenceImport.Datasets
import TrustPortal.EvidenceImport.Import
import TrustPortal.EvidenceImport.Values
import TrustPortal.EvidenceStore.BucketPolicy
import TrustPortal.EvidenceStore.Iam
import TrustPortal.EvidenceStore.KeyText
import TrustPortal.EvidenceStore.Keys
import TrustPortal.EvidenceStore.Listing
import TrustPortal.EvidenceStore.Objects
import TrustPortal.EvidenceStore.Plans
import TrustPortal.EvidenceStore.Retention
import TrustPortal.EvidenceStore.Service
import TrustPortal.EvidenceStore.Sync
import TrustPortal.EvidenceStore.Verify
import TrustPortal.EvidenceStore.VerifyStore
import TrustPortal.EvidenceStore.Write
import TrustPortal.Proofs.Request.JsonLimits
import TrustPortal.Proofs.Web.SafeHttp
import TrustPortal.Proofs.Web.Security
import TrustPortal.Proofs.Api.Execution
import TrustPortal.Proofs.Auth.Replay
import TrustPortal.Proofs.Auth.Revocation
import TrustPortal.Proofs.Auth.Setup
import TrustPortal.Proofs.Audit.Clean
import TrustPortal.Proofs.Audit.Content
import TrustPortal.Proofs.Audit.Deletion
import TrustPortal.Proofs.Audit.DumpReader
import TrustPortal.Proofs.Audit.HeadKey
import TrustPortal.Proofs.Audit.Lineage
import TrustPortal.Proofs.Audit.Manifest
import TrustPortal.Proofs.Audit.PublishedHeads
import TrustPortal.Proofs.Audit.ReadableHeads
import TrustPortal.Proofs.Audit.Scan
import TrustPortal.Proofs.Audit.Slices
import TrustPortal.Proofs.Audit.Start
import TrustPortal.Proofs.Audit.Trigger
import TrustPortal.Proofs.Audit.Written
import TrustPortal.Proofs.Scheduler.Cron
import TrustPortal.Proofs.Scheduler.Ownership
import TrustPortal.Proofs.Scheduler.Statements
import TrustPortal.Proofs.Scheduler.Threads
import TrustPortal.Proofs.Logging.Emit
import TrustPortal.Proofs.Logging.Queue
import TrustPortal.Proofs.Logging.Shipping
import TrustPortal.Proofs.Collectors.ChangeRecord
import TrustPortal.Proofs.Collectors.CodeCommit
import TrustPortal.Proofs.GitSources.ChunkedFiles
import TrustPortal.Proofs.GitSources.Compare
import TrustPortal.Proofs.GitSources.Globs
import TrustPortal.Proofs.GitSources.HistoryWalk
import TrustPortal.Proofs.GitSources.DateOrder
import TrustPortal.Proofs.GitSources.RangeWalk
import TrustPortal.Proofs.GitSources.LastSynced
import TrustPortal.Proofs.GitSources.LocalWalk
import TrustPortal.Proofs.GitSources.ManifestText
import TrustPortal.Proofs.GitSources.Patterns
import TrustPortal.Proofs.Transcript.Brackets
import TrustPortal.Proofs.Transcript.Depth
import TrustPortal.Proofs.Transcript.Documented
import TrustPortal.Proofs.Transcript.Entries
import TrustPortal.Proofs.Transcript.EntryLine
import TrustPortal.Proofs.Transcript.Escapes
import TrustPortal.Proofs.Transcript.Fragments
import TrustPortal.Proofs.Transcript.OnePass
import TrustPortal.Proofs.Transcript.Parsed
import TrustPortal.Proofs.Transcript.Reader
import TrustPortal.Proofs.Transcript.Reconstruct
import TrustPortal.Proofs.Transcript.Records
import TrustPortal.Proofs.Transcript.Reread
import TrustPortal.Proofs.Transcript.RoundTrip
import TrustPortal.Proofs.Transcript.Separators
import TrustPortal.Proofs.Transcript.Splitting
import TrustPortal.Proofs.Transcript.Utf8
import TrustPortal.Proofs.Transcript.Writer
import TrustPortal.Proofs.Transcript.Written
import TrustPortal.Proofs.DecisionLog.Altered
import TrustPortal.Proofs.DecisionLog.Authority
import TrustPortal.Proofs.DecisionLog.Budget
import TrustPortal.Proofs.DecisionLog.Calls
import TrustPortal.Proofs.DecisionLog.Canonical
import TrustPortal.Proofs.DecisionLog.Compare
import TrustPortal.Proofs.DecisionLog.DryRun
import TrustPortal.Proofs.DecisionLog.History
import TrustPortal.Proofs.DecisionLog.Order
import TrustPortal.Proofs.DecisionLog.Outcomes
import TrustPortal.Proofs.DecisionLog.PathRules
import TrustPortal.Proofs.DecisionLog.Repository
import TrustPortal.Proofs.DecisionLog.Unchanged
import TrustPortal.Proofs.DecisionLog.Verified
import TrustPortal.Proofs.EvidenceImport.Entries
import TrustPortal.Proofs.EvidenceImport.Idempotent
import TrustPortal.Proofs.EvidenceImport.Stored
import TrustPortal.Proofs.EvidenceStore.BucketPolicy
import TrustPortal.Proofs.EvidenceStore.Cursor
import TrustPortal.Proofs.EvidenceStore.Groups
import TrustPortal.Proofs.EvidenceStore.Guard
import TrustPortal.Proofs.EvidenceStore.KeyText
import TrustPortal.Proofs.EvidenceStore.ListingSlices
import TrustPortal.Proofs.EvidenceStore.RecordSlices
import TrustPortal.Proofs.EvidenceStore.Records
import TrustPortal.Proofs.EvidenceStore.Retention
import TrustPortal.Proofs.EvidenceStore.Transitions
import TrustPortal.Proofs.EvidenceStore.VerifySlices
import TrustPortal.Proofs.EvidenceStore.Write
import TrustPortal.GitSources.Candidates
import TrustPortal.GitSources.Fetch
import TrustPortal.GitSources.FileWrites
import TrustPortal.GitSources.GovernanceDocs
import TrustPortal.GitSources.Repository
import TrustPortal.Proofs.GitSources.Candidates
import TrustPortal.Proofs.GitSources.CommitRecords
import TrustPortal.Proofs.GitSources.Published
import TrustPortal.Proofs.GitSources.Strategies
import TrustPortal.Auth.RateLimit
import TrustPortal.Lib.Quota
import TrustPortal.Proofs.Auth.RateLimit
import TrustPortal.Proofs.Scheduler.Leader
import TrustPortal.Proofs.Web.Redirect
import TrustPortal.Crud.Columns
import TrustPortal.Crud.Routes
import TrustPortal.Proofs.Crud.Routes
