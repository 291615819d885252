import ProfiNotifications.Foundations.Keyed
import ProfiNotifications.Foundations.Transition
import ProfiNotifications.Foundations.ReadCommitted
import ProfiNotifications.Foundations.Text
import ProfiNotifications.Foundations.Json
import ProfiNotifications.Foundations.Validation
import ProfiNotifications.OrderCore.Domain
import ProfiNotifications.OrderCore.Schemas
import ProfiNotifications.OrderCore.Mapping
import ProfiNotifications.OrderCore.Store
import ProfiNotifications.OrderCore.Handlers
import ProfiNotifications.OrderCore.System
import ProfiNotifications.OrderCore.Assessment
import ProfiNotifications.OrderCore.Relay
import ProfiNotifications.OrderCore.Ingest
import ProfiNotifications.OrderCore.Redelivery
import ProfiNotifications.OrderCore.Reliability
import ProfiNotifications.Llm.Domain
import ProfiNotifications.Llm.Notification
import ProfiNotifications.Llm.Schemas
import ProfiNotifications.OrderCore.KnownOrder
import ProfiNotifications.Notifications.Domain
import ProfiNotifications.Notifications.MessageSchema
import ProfiNotifications.Notifications.Delivery
import ProfiNotifications.Notifications.Topology
import ProfiNotifications.Notifications.Broker
import ProfiNotifications.Notifications.NoLoss
import ProfiNotifications.Notifications.Budget
import ProfiNotifications.Pipeline
import ProfiNotifications.ParserWorker.Domain
import ProfiNotifications.OrderPipeline
import ProfiNotifications.Foundations.Latest
import ProfiNotifications.Foundations.Sorting
import ProfiNotifications.Foundations.Unmarshal
import ProfiNotifications.AuthWorker.Jar
import ProfiNotifications.AuthWorker.Token
import ProfiNotifications.AuthWorker.BrowserJson
import ProfiNotifications.AuthWorker.CookieStore
import ProfiNotifications.AuthWorker.Usecase
import ProfiNotifications.AuthWorker.Refresh
import ProfiNotifications.Foundations.Batch
import ProfiNotifications.OrderCore.Backlog
import ProfiNotifications.AuthWorker.Renewer
import ProfiNotifications.AuthWorker.Touch
import ProfiNotifications.AuthWorker.Served
import ProfiNotifications.Foundations.Html
import ProfiNotifications.Llm.Layout
import ProfiNotifications.Llm.Markup
import ProfiNotifications.Llm.Cut
import ProfiNotifications.Foundations.Logged
import ProfiNotifications.Foundations.Selection
import ProfiNotifications.Llm.Assess
import ProfiNotifications.Llm.Retry
import ProfiNotifications.AuthWorker.Duplicates
import ProfiNotifications.Foundations.Wrapping
import ProfiNotifications.AuthWorker.Lifetime
import ProfiNotifications.AuthWorker.Renewal
import ProfiNotifications.Foundations.History
import ProfiNotifications.AuthWorker.LastWrite
import ProfiNotifications.AuthWorker.RoundTrip
import ProfiNotifications.AuthWorker.Deletion
import ProfiNotifications.Foundations.Pattern
import ProfiNotifications.AuthWorker.Redact
import ProfiNotifications.Foundations.Cursor
import ProfiNotifications.ParserWorker.Paging
import ProfiNotifications.Foundations.Serde
import ProfiNotifications.ParserWorker.Board
import ProfiNotifications.ParserWorker.SparseBoard
import ProfiNotifications.Foundations.JsonAtoms
import ProfiNotifications.OrderCore.Columns
import ProfiNotifications.OrderCore.Intake
import ProfiNotifications.Foundations.WorkQueue
import ProfiNotifications.Llm.Queues
import ProfiNotifications.Llm.OrdersKept
import ProfiNotifications.Llm.Lineage
import ProfiNotifications.AuthWorker.Worker
import ProfiNotifications.AuthWorker.WorkerRuns
import ProfiNotifications.AuthWorker.Server
import ProfiNotifications.ParserWorker.Codec
import ProfiNotifications.ParserWorker.Consumer
import ProfiNotifications.Scheduler.Command
import ProfiNotifications.Scheduler.Ticks
import ProfiNotifications.SessionPipeline
import ProfiNotifications.OrderCore.Decisions
import ProfiNotifications.OrderSystem
import ProfiNotifications.OrderTracking
import ProfiNotifications.AuthWorker.StatusReports
import ProfiNotifications.Notifications.Outcomes
import ProfiNotifications.Notifications.Telegram
import ProfiNotifications.Notifications.Chat
import ProfiNotifications.ChatPipeline
import ProfiNotifications.Llm.OpenAi
