import McpgSql.Library.Machine
import McpgSql.Library.OrdMap
import McpgSql.Json
import McpgSql.Protocol
import McpgSql.Cdc.PgOutput
import McpgSql.Cdc.Progress
import McpgSql.Cdc.Peek
import McpgSql.Cdc.Source
import McpgSql.Cdc.Failure
import McpgSql.Cdc.World
import McpgSql.Cdc.Output
import McpgSql.Cdc.Safety
import McpgSql.Cdc.Shown
import McpgSql.Cdc.Redelivery
import McpgSql.Cdc.Straggler
import McpgSql.Config
import McpgSql.Library.Keyset
import McpgSql.Params
import McpgSql.Changes.Plan
import McpgSql.Changes.Poll
import McpgSql.Changes.Emitted
import McpgSql.Changes.Settle
import McpgSql.Cache.Key
import McpgSql.Library.Records
import McpgSql.Cache.Reading
import McpgSql.Cache.Separation
import McpgSql.Pool.Digest
import McpgSql.Pool.Registry
import McpgSql.Pool.Creds
import McpgSql.Pool.Sharing
import McpgSql.Breaker.Calls
import McpgSql.Breaker.Probes
import McpgSql.Breaker.Cooldown
import McpgSql.Execute.ParamExprs
import McpgSql.Stream.Cursor
import McpgSql.Execute.Shape
import McpgSql.Stream.Paging
import McpgSql.Execute.Args
import McpgSql.Execute.Managed
import McpgSql.Cache.Freshness
import McpgSql.Cache.Lookup
import McpgSql.Library.Template
import McpgSql.Cache.Crossing
import McpgSql.Guards
import McpgSql.Execute.Calls
import McpgSql.Execute.Entries
import McpgSql.Listing.Coverage
import McpgSql.Execute.Session
import McpgSql.Execute.Guarded
import McpgSql.Pool.Bounds
import McpgSql.Pool.Recency
import McpgSql.Pool.Revocation
import McpgSql.Plugin.Rotation
import McpgSql.Plugin.Drain
import McpgSql.Driver.SqliteCancel
import McpgSql.Library.Places
import McpgSql.Plugin.Await
import McpgSql.Plugin.InFlight
import McpgSql.Plugin.CancelRequest
import McpgSql.Transaction.Group
import McpgSql.Transaction.Handle
import McpgSql.Driver.MysqlVars
import McpgSql.Execute.Accounting
import McpgSql.Execute.Charges
import McpgSql.Driver.Postgres
import McpgSql.Schema.Validate
import McpgSql.Schema.Output
import McpgSql.Library.Utf8
import McpgSql.Sql.Placeholders
import McpgSql.Sql.Rewriting
import McpgSql.Sql.Lexer
import McpgSql.Sql.Statements
import McpgSql.Sql.Privileged
import McpgSql.Execute.StreamBinding
import McpgSql.Watch.Polling
import McpgSql.Cdc.Window
import McpgSql.Cdc.Budget
import McpgSql.Cache.Watchers
import McpgSql.Library.Broadcast
import McpgSql.Watch.Listening
import McpgSql.Watch.Liveness
import McpgSql.Cdc.Decode
import McpgSql.Cdc.Wire
import McpgSql.Cdc.Panic
import McpgSql.Library.Iso8601
import McpgSql.Driver.Interval
import McpgSql.Changes.Binding
import McpgSql.Changes.Budget
import McpgSql.Cdc.Truncate
import McpgSql.Driver.ResultSets
import McpgSql.Execute.Scalar
import McpgSql.Driver.Sqlite
import McpgSql.Driver.Fidelity
import McpgSql.Cdc.LsnText
import McpgSql.Cdc.Quoting
import McpgSql.Sql.Scanners
import McpgSql.Execute.Cel
import McpgSql.Auth.Rotator
import McpgSql.Driver.Grants
import McpgSql.Redact
import McpgSql.Execute.Retry
import McpgSql.Execute.AwaitRun
import McpgSql.Driver.PgSession
import McpgSql.Cdc.Gaps
import McpgSql.Schema.Input
import McpgSql.Driver.Bind
import McpgSql.Pool.Sweeper
import McpgSql.Auth.RdsIam
import McpgSql.Execute.Profile
import McpgSql.Execute.Supported
import McpgSql.Watch.Exact
import McpgSql.Execute.Redacted
import McpgSql.Execute.Spend
