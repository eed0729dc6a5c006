import PhantomShare.Foundations.Bytes
import PhantomShare.Foundations.Program
import PhantomShare.Foundations.RelyGuarantee
import PhantomShare.Foundations.Table
import PhantomShare.Foundations.Transaction
import PhantomShare.Foundations.Footprint
import PhantomShare.Foundations.Machine
import PhantomShare.Foundations.Alone
import PhantomShare.Foundations.Guarded
import PhantomShare.Foundations.Returns
import PhantomShare.Foundations.Stops
import PhantomShare.FileCrypto.Format
import PhantomShare.FileCrypto.Integrity
import PhantomShare.Database.Schema
import PhantomShare.Database.Statements
import PhantomShare.Platform
import PhantomShare.World
import PhantomShare.Operations
import PhantomShare.Core.Security
import PhantomShare.Services.AuditAndLocation
import PhantomShare.Services.FileServices
import PhantomShare.Services.CleanupService
import PhantomShare.Services.KeyService
import PhantomShare.Services.QuotaService
import PhantomShare.Routers.Auth
import PhantomShare.Routers.Secrets
import PhantomShare.Routers.SecretVersions
import PhantomShare.Routers.SecretAccess
import PhantomShare.Routers.Files
import PhantomShare.Routers.FileVersions
import PhantomShare.Routers.Admin
import PhantomShare.Rules
import PhantomShare.Footprints
import PhantomShare.Outlines
import PhantomShare.Journal
import PhantomShare.Store.Effects
import PhantomShare.Store.Texts
import PhantomShare.Store.History
import PhantomShare.Burn.Accounting
import PhantomShare.Burn.TextSecrets
import PhantomShare.Burn.FileSecrets
import PhantomShare.Access.Location
import PhantomShare.Access.Gates
import PhantomShare.Access.Revocation
import PhantomShare.Deletion.Accounting
import PhantomShare.Deletion.Runs
import PhantomShare.Audit.Twins
import PhantomShare.Audit.Blocks
import PhantomShare.Audit.Handlers
import PhantomShare.Administration.Admins
import PhantomShare.Sessions.Ledger
import PhantomShare.Sessions.Statements
import PhantomShare.Sessions.Rotation
import PhantomShare.Sessions.Acceptance
import PhantomShare.Sessions.Register
import PhantomShare.Sessions.Permanence
import PhantomShare.Internet.Address
import PhantomShare.Internet.RoundTrip
import PhantomShare.Internet.ClientIp
import PhantomShare.Cleanup.Outage
import PhantomShare.Cleanup.Locks
import PhantomShare.Cleanup.LockSafety
import PhantomShare.Foundations.Counting
import PhantomShare.Core.RateLimit
import PhantomShare.RateLimit.Window
import PhantomShare.RateLimit.Keying
import PhantomShare.Services.NotificationWorker
import PhantomShare.Notifications.Conservation
import PhantomShare.Notifications.Retries
import PhantomShare.Cli.TokenRotation
import PhantomShare.Access.Expiry
import PhantomShare.Access.LocationRules
import PhantomShare.Access.TokenErrors
import PhantomShare.Access.Frozen
import PhantomShare.Foundations.Since
import PhantomShare.Background.Fading
import PhantomShare.Background.Scheduling
import PhantomShare.Background.Runs
import PhantomShare.Background.Deletion
import PhantomShare.Uploads.Pipeline
import PhantomShare.Cli.LostSession
import PhantomShare.Foundations.Lockstep
import PhantomShare.RateLimit.Reference
import PhantomShare.RateLimit.RetryAfter
import PhantomShare.Quotas.Ledger
import PhantomShare.Database.Migrations
import PhantomShare.Migrations.Rollback
import PhantomShare.Cli.Lifetime
import PhantomShare.Stats.Lifetime
import PhantomShare.Foundations.Pagination
import PhantomShare.Routers.Listings
import PhantomShare.Listings.Completeness
import PhantomShare.Audit.Severity
import PhantomShare.Internet.NetUrl
import PhantomShare.Cli.ShareRef
import PhantomShare.Foundations.RowLocks
import PhantomShare.Routers.EmailVerification
import PhantomShare.EmailVerification.Record
import PhantomShare.EmailVerification.Commits
import PhantomShare.EmailVerification.Invariant
import PhantomShare.EmailVerification.SingleUse
import PhantomShare.Store.Documents
import PhantomShare.Store.Reading
import PhantomShare.Migrations.Retrievability
import PhantomShare.Lifecycle.Record
import PhantomShare.Lifecycle.Moves
import PhantomShare.Foundations.Postconditions
import PhantomShare.Lifecycle.Integrity
import PhantomShare.Lifecycle.Evolution
import PhantomShare.Lifecycle.Transactions
import PhantomShare.Service.Requests
import PhantomShare.Service.Outlines
import PhantomShare.Service.Orderly
import PhantomShare.Service.Handlers
import PhantomShare.Service.Creations
import PhantomShare.Service.Changes
import PhantomShare.Service.Runs
import PhantomShare.Service.Mediation
