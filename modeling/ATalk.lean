import ATalk.Lib.Text
import ATalk.Lib.JsonText
import ATalk.Lib.Checks
import ATalk.Lib.Transition
import ATalk.Python
import ATalk.Sqlite
import ATalk.Core.Ledger
import ATalk.Core.Store
import ATalk.Core.InsertEvent
import ATalk.Federation.Canonical
import ATalk.Federation.Schema
import ATalk.Federation.Compose
import ATalk.Federation.Outbox
import ATalk.Federation.Send
import ATalk.Federation.Agreement
import ATalk.Federation.Inbox
import ATalk.Server
import ATalk.Server.PostEvents
import ATalk.Server.TargetAcl
import ATalk.Federation.Receive
import ATalk.Server.Atomicity
import ATalk.Raft.Statement
import ATalk.Raft.Store
import ATalk.Sqlite.Order
import ATalk.Raft.Ledger
import ATalk.Raft.Replay
import ATalk.Raft.Equivalence
import ATalk.Lib.Callers
import ATalk.Backends
import ATalk.Backends.Identity
import ATalk.Backends.RaftIdentity
import ATalk.Backends.Numbering
import ATalk.Server.OneMessage
import ATalk.Backends.Authority
import ATalk.Backends.Commands
import ATalk.Backends.SqliteCommands
import ATalk.Backends.RaftCommands
import ATalk.Lib.Calendar
import ATalk.Admin
import ATalk.Admin.Tokens
import ATalk.Admin.DeadTokens
import ATalk.Admin.Grace
import ATalk.Admin.Alone
import ATalk.Admin.Credential
import ATalk.Admin.Settled
import ATalk.Admin.AllOrNothing
import ATalk.Federation.Worker
import ATalk.Federation.Lifecycle
import ATalk.Lib.Paging
import ATalk.Federation.Queue
import ATalk.Federation.Starvation
import ATalk.Federation.Receipts
import ATalk.Federation.Notifications
import ATalk.Server.Rejections
import ATalk.Federation.ReceiptsOut
import ATalk.Server.Backlog
import ATalk.Server.Reading
import ATalk.Server.Wake
import ATalk.Adapter
import ATalk.Adapter.Inbox
import ATalk.Adapter.CrashSafe
import ATalk.Adapter.Requests
import ATalk.Lib.JsonHooks
import ATalk.Federation.Base64
import ATalk.Adapter.RunOnce
import ATalk.Lib.JsonEqual
import ATalk.Federation.Depth
import ATalk.Federation.Bijection
import ATalk.Lib.ModPow
import ATalk.Lib.Edwards
import ATalk.Federation.Ed25519
import ATalk.Federation.PointDecoding
import ATalk.Federation.SmallOrder
import ATalk.Tools.TaskLib
import ATalk.Tools.Evidence
import ATalk.Tools.Isolation
import ATalk.Tools.Steps
import ATalk.Federation.RetryAfter
import ATalk.Lib.Sweep
import ATalk.Federation.HintScan
import ATalk.Adapter.Replies
import ATalk.Tools.Opening
import ATalk.Federation.RateLimit
import ATalk.Server.AclFile
import ATalk.Adapter.Threads
import ATalk.Clients.McpInbox
import ATalk.Migration.Cursors
import ATalk.Tools.RescueRuns
import ATalk.Adapter.AnsweredOnce
import ATalk.Adapter.OpenClaw
import ATalk.Adapter.Loops
import ATalk.Server.InboxCalls
import ATalk.Server.Coupling
import ATalk.Lib.Channel
import ATalk.Federation.Sending
import ATalk.Exchange
import ATalk.Exchange.Sender
import ATalk.Exchange.Receiver
import ATalk.Exchange.Agreement
import ATalk.Exchange.Delivery
import ATalk.Exchange.Verdict
import ATalk.Exchange.Undisturbed
import ATalk.Exchange.Main
import ATalk.Federation.ReceiptText
import ATalk.Exchange.Receipts
import ATalk.Exchange.Acknowledged
import ATalk.Server.Devices
import ATalk.Server.Routes
import ATalk.Server.Presented
import ATalk.Server.Attribution
import ATalk.Server.Hints
