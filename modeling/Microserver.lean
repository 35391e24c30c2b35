import Microserver.Programs
import Microserver.Interleaving
import Microserver.Linearization
import Microserver.Ranking
import Microserver.Companion
import Microserver.Values
import Microserver.Store
import Microserver.Statements
import Microserver.Operations
import Microserver.Queries
import Microserver.Handlers
import Microserver.Schema
import Microserver.Items
import Microserver.Reads
import Microserver.Integrity
import Microserver.ReferenceChecks
import Microserver.Histories
import Microserver.Reachable
import Microserver.ReferentialRuns
import Microserver.FailedDeletes
import Microserver.ConcurrentIntegrity
import Microserver.Users
import Microserver.SortedSearch
import Microserver.FullTextIndex
import Microserver.FullTextSync
import Microserver.DeclaredReferences
import Microserver.FreeNames
import Microserver.LiveTables
import Microserver.Renaming
import Microserver.Base64
import Microserver.Tokens
import Microserver.Accounts
import Microserver.Credentials
import Microserver.PasswordChanges
import Microserver.Evaluations
import Microserver.BulkInserts
import Microserver.Paging
import Microserver.Exports
import Microserver.Reloads
import Microserver.Cascades
import Microserver.RowInvariants
import Microserver.Embeddings
import Microserver.Isolation
import Microserver.Deletes
import Microserver.Readings
import Microserver.Listings
import Microserver.DeepData
import Microserver.EqualityFilters
import Microserver.FilterSyntax
import Microserver.TiedPages
import Microserver.PagedListings
import Microserver.SearchShapes
import Microserver.TokenBuckets
import Microserver.RateLimits
import Microserver.Params
import Microserver.ReadHandlers
import Microserver.VecItems
import Microserver.ItemRequests
import Microserver.Shelves
import Microserver.SearchLimits
import Microserver.Spellings
import Microserver.ReloadSizes
import Microserver.Backups
import Microserver.Router
import Microserver.DocumentRequests
import Microserver.Authorization
import Microserver.Confidentiality
import Microserver.Throttling
import Microserver.LoginThrottling
import Microserver.LimiterRuns
import Microserver.RetryAfter
import Microserver.PasswordResets
import Microserver.SqlTexts
import Microserver.QueryTexts
import Microserver.Placeholders
import Microserver.Groupings
import Microserver.GroupLabels
import Microserver.ResponseWriters
import Microserver.Compression
import Microserver.JsonScanner
import Microserver.JsonReading
import Microserver.JsonOutcomes
import Microserver.BodyLimits
import Microserver.Rotations
import Microserver.Rounding
import Microserver.FixedWidth
import Microserver.Timestamps
import Microserver.FilePaths
import Microserver.BackupNames
import Microserver.Prunings
import Microserver.ConcurrentRotations
import Microserver.Quoting
import Microserver.Metrics
import Microserver.MetricLines
import Microserver.RouteLabels
import Microserver.CorsChain
import Microserver.VaryLabels
import Microserver.AutomaticIds
import Microserver.ConcurrentIds
import Microserver.LastSeen
import Microserver.IdleClients
import Microserver.Retention
import Microserver.SqlSelects
import Microserver.CompiledQueries
import Microserver.CompiledSearches
import Microserver.CompiledReads
import Microserver.CompiledAggregates
