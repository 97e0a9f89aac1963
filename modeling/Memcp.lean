import Memcp.Interaction.Program
import Memcp.Interaction.Pool
import Memcp.Data.Dict
import Memcp.Python.Json
import Memcp.Types
import Memcp.Backends.Base
import Memcp.Policy.Action
import Memcp.Policy.Access
import Memcp.Policy.Metadata
import Memcp.Policy.Scope
import Memcp.Policy.Transfer
import Memcp.Policy.Operations
import Memcp.Policy.Confinement
import Memcp.Policy.Accounting
import Memcp.Policy.Guarantees
import Memcp.Backends.Keyword
import Memcp.Backends.Spaces
import Memcp.Backends.InMemory
import Memcp.Backends.Sqlite.Database
import Memcp.Backends.Sqlite.Adapter
import Memcp.Backends.Sqlite.Refinement
import Memcp.Backends.Local
import Memcp.Isolation
import Memcp.Attribution
import Memcp.Policy.Alone
import Memcp.Threshold
import Memcp.Policy.AgentId
import Memcp.Policy.ScopeText
import Memcp.ScopeMeaning
import Memcp.Backends.Sqlite.Concurrency
import Memcp.Policy.OneSpace
import Memcp.Policy.Importing
import Memcp.Policy.Requests
import Memcp.Policy.Batches
import Memcp.Refusals
import Memcp.Policy.Sessions
import Memcp.Policy.Patching
import Memcp.StoredMetadata
import Memcp.SizeCap
import Memcp.ConcurrentUpdates
import Memcp.Backends.Sqlite.Faults
import Memcp.HistoryLog
import Memcp.Backends.Mem0.Adapter
import Memcp.Backends.Mem0.Server
import Memcp.Backends.Mem0.Ownership
import Memcp.Mem0Isolation
import Memcp.Interaction.Transaction
import Memcp.Backends.Mem0.Updates
import Memcp.Mem0Updates
import Memcp.PatchSemantics
import Memcp.Policy.Identities
import Memcp.Policy.Repeats
import Memcp.Policy.Migrating
import Memcp.SkipImports
import Memcp.Backends.Tokenizer
import Memcp.Backends.Pairs
import Memcp.Scoring
import Memcp.BestHits
import Memcp.Backends.Paging
import Memcp.PagingWalks
import Memcp.CompleteReads
import Memcp.AuditRecords
import Memcp.BulkDelete
import Memcp.ImportSurvival
import Memcp.MigrationFidelity
import Memcp.SplitImports
import Memcp.RoundTrip
import Memcp.Data.Loop
import Memcp.Http.Auth
import Memcp.KeysFile
import Memcp.Tokens
import Memcp.EntityRows
import Memcp.SystemRecords
import Memcp.UpdateTwice
import Memcp.StatementLimit
import Memcp.ImportReports
import Memcp.Data.Keyed
import Memcp.Overwrites
import Memcp.Policy.Failing
import Memcp.FailingImports
import Memcp.Backends.Mem0.Untyped
import Memcp.Mem0Shapes
import Memcp.Backends.Mem0.Declared
import Memcp.Data.Triples
import Memcp.SaraAm
import Memcp.Boundaries
import Memcp.Policy.Finding
import Memcp.Linearizable
import Memcp.DedupIdentity
import Memcp.Secrecy
import Memcp.HttpIsolation
import Memcp.LocalAnswers
import Memcp.Restarts
import Memcp.Startup
import Memcp.AuditLog
import Memcp.CallBudgets
import Memcp.BackendFailures
