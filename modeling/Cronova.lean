import Cronova.Properties.Archive
import Cronova.Properties.History
import Cronova.Properties.Retention
import Cronova.Concurrency.Triples
import Cronova.Scheduler.Steps
import Cronova.Scheduler.System
import Cronova.Scheduler.Confined
import Cronova.Scheduler.Mutex
import Cronova.Properties.BlockPropagation
import Cronova.Properties.Cancellation
import Cronova.Properties.Hold
import Cronova.Properties.Starvation
import Cronova.Properties.Outputs
import Cronova.Properties.Restart
import Cronova.Scheduler.Stepwise
import Cronova.Properties.Paused
import Cronova.Properties.Saves
import Cronova.Properties.Takeover
import Cronova.Properties.Migration
import Cronova.Properties.Cascade
import Cronova.Api.Editor
import Cronova.Properties.RoundTrip
import Cronova.Concurrency.Machine
import Cronova.Concurrency.Registry
import Cronova.Remote.Hub
import Cronova.Remote.Sessions
import Cronova.Properties.SessionTable
import Cronova.Properties.HubLoad
import Cronova.Properties.Reconnect
import Cronova.Remote.Link
import Cronova.Properties.LogDelivery
import Cronova.Properties.FinalOutcome
import Cronova.Properties.RemoteOutput
import Cronova.Properties.LogResume
import Cronova.Scheduler.Reload
import Cronova.Properties.Reload
import Cronova.Scheduler.Blocking
import Cronova.Properties.Confluence
import Cronova.Graph.BreadthFirst
import Cronova.Scheduler.Resets
import Cronova.Properties.Retries
import Cronova.Properties.Marks
import Cronova.Properties.Backoff
import Cronova.Properties.Priority
import Cronova.Api.Routes
import Cronova.Properties.OperatorRole
import Cronova.Scheduler.Render
import Cronova.Properties.Passwords
import Cronova.Properties.Success
import Cronova.Properties.SuccessRuns
import Cronova.Properties.SuccessRetries
import Cronova.Properties.SuccessSteps
import Cronova.Properties.RecordedSuccess
import Cronova.Properties.Executable
import Cronova.Parser.Foreach
import Cronova.Properties.Defaults
import Cronova.Properties.FanOut
import Cronova.Properties.Subworkflows
import Cronova.Parser.Placeholder
import Cronova.Properties.Substitution
import Cronova.Executor.Redact
import Cronova.Executor.Redacted
import Cronova.Properties.Redaction
import Cronova.Properties.Buffering
import Cronova.Concurrency.Trace
import Cronova.Properties.Backfill
import Cronova.Scheduler.Calendar
import Cronova.Store.Timestamp
import Cronova.Relational.OrderBy
import Cronova.Store.TextOrder
import Cronova.Properties.TimeOrder
import Cronova.Properties.SqlSecrets
import Cronova.Scheduler.Naming
import Cronova.Properties.Naming
import Cronova.Executor.StateDir
import Cronova.Properties.AttemptFiles
import Cronova.Properties.Intake
import Cronova.Properties.Membership
import Cronova.Scheduler.Alone
import Cronova.Properties.Atomicity
import Cronova.Properties.Idempotence
import Cronova.Store.Connections
import Cronova.Properties.StoredSecrets
import Cronova.Text.DateGrammar
import Cronova.Properties.DateOffsets
import Cronova.Api.LogStream
import Cronova.Properties.LogStream
import Cronova.Properties.QueueOrder
import Cronova.Api.RateLimit
import Cronova.Properties.RateLimit
import Cronova.Aiwiki.Query
import Cronova.Properties.Translation
import Cronova.Files.Calls
import Cronova.Text.Path
import Cronova.Api.Projects
import Cronova.Files.Staging
import Cronova.Properties.Uploads
import Cronova.Auth.Password
import Cronova.Api.Accounts
import Cronova.Api.Access
import Cronova.Properties.Access
import Cronova.Properties.Revocation
import Cronova.Properties.Gate
import Cronova.Store.JoinTokens
import Cronova.Properties.Joining
import Cronova.Http.Template
import Cronova.Api.Client
import Cronova.Mcp.Tools
import Cronova.Properties.Tools
import Cronova.Executor.Engine
import Cronova.Properties.OneProcess
import Cronova.Web.Diff
import Cronova.Properties.Diff
import Cronova.Graph.Colouring
import Cronova.Web.Graph
import Cronova.Properties.GraphEdits
