import Scintx.Lib.Transition
import Scintx.Lib.Tenancy
import Scintx.Lib.Table
import Scintx.Lib.Sql
import Scintx.Lib.Grouping
import Scintx.Lib.Float64
import Scintx.Lib.Average
import Scintx.Lib.Chain
import Scintx.Lib.JsonCopy
import Scintx.Lib.GoStd
import Scintx.Lib.Text
import Scintx.Lib.Base64
import Scintx.Lib.Reader
import Scintx.Lib.Calendar
import Scintx.Lib.Transaction
import Scintx.Lib.Loop
import Scintx.Api.Types
import Scintx.Api.Clone
import Scintx.Api.Records
import Scintx.Api.Embedding
import Scintx.Api.Purl
import Scintx.Api.PurlGrammar
import Scintx.Api.PurlTheorems
import Scintx.Api.Matching
import Scintx.Api.MatchingTheorems
import Scintx.Orchestrator.Aggregator
import Scintx.Orchestrator.AggregatorTheorems
import Scintx.Orchestrator.AggregateLoop
import Scintx.Orchestrator.Consensus
import Scintx.Orchestrator.Correlation
import Scintx.Orchestrator.Identifiers
import Scintx.Policy.Document
import Scintx.Policy.Evaluate
import Scintx.Policy.EvaluateTheorems
import Scintx.Policy.RawTheorems
import Scintx.Policy.MergedTheorems
import Scintx.Policy.MonotoneTheorems
import Scintx.Policy.Attribution
import Scintx.Policy.Reasons
import Scintx.Auth.Sign
import Scintx.Auth.SignTheorems
import Scintx.Auth.Panics
import Scintx.Auth.Config
import Scintx.Auth.RoundTrip
import Scintx.Auth.Middleware
import Scintx.Store.JobQueue
import Scintx.Store.JobQueueTheorems
import Scintx.Store.SqlJobQueue
import Scintx.Store.SqlJobQueueTheorems
import Scintx.Store.Timestamps
import Scintx.Store.JobCounts
import Scintx.Store.Memory
import Scintx.Store.CopyLaw
import Scintx.Store.SqlSubmissions
import Scintx.Store.SqlSubmissionsTheorems
import Scintx.Store.ConcurrentCreate
import Scintx.Store.Artifacts
import Scintx.Workers.LocalPool
import Scintx.Workers.LocalPoolTheorems
import Scintx.Workers.PoolLedger
import Scintx.Workers.EnvConfig
import Scintx.Server.Upload
import Scintx.Osv.Vscode
import Scintx.Osv.Client
import Scintx.Osv.Paging
import Scintx.Osv.Convert
import Scintx.Credentials.Resolve
import Scintx.Credentials.Rotation
import Scintx.Osv.Provider
import Scintx.Osv.ProviderTheorems
import Scintx.Orchestrator.World
import Scintx.Orchestrator.Emitter
import Scintx.Orchestrator.CacheKey
import Scintx.Orchestrator.Process
import Scintx.Orchestrator.Moves
import Scintx.Orchestrator.Lifecycle
import Scintx.Orchestrator.Copies
import Scintx.Orchestrator.Results
import Scintx.Orchestrator.History
import Scintx.Orchestrator.SingleRun
import Scintx.Orchestrator.Events
import Scintx.Orchestrator.Caching
import Scintx.Orchestrator.Failures
import Scintx.Orchestrator.LostResults
import Scintx.Orchestrator.Adjudicate
import Scintx.Server.Handlers
import Scintx.Server.HandlerMoves
import Scintx.Server.HandlerStages
import Scintx.System.Parties
import Scintx.System.Local
import Scintx.System.LocalMoves
import Scintx.System.LocalTheorems
import Scintx.System.Resume
import Scintx.Workers.QueuePool
import Scintx.Workers.Admission
import Scintx.Workers.RunClaimed
import Scintx.Workers.Failures
import Scintx.Workers.Attempts
import Scintx.Workers.AttemptsTheorems
import Scintx.System.Queue
import Scintx.System.QueueTenancy
import Scintx.System.QueueResume
import Scintx.System.Adjudication
import Scintx.System.Creation
import Scintx.System.CreationTheorems
import Scintx.Server.Reads
import Scintx.Webhook.Sign
import Scintx.Webhook.Deliver
import Scintx.Api.Registry
import Scintx.System.Identity
import Scintx.System.Content
import Scintx.Policy.Loading
import Scintx.System.Rulings
import Scintx.System.Outcomes
import Scintx.Policy.Example
import Scintx.Ossindex.Client
import Scintx.Ossindex.Provider
import Scintx.Orchestrator.Gate
