import AgentWorkflow.Lib.Machine
import AgentWorkflow.Lib.Calendar
import AgentWorkflow.ControlPlane.Database
import AgentWorkflow.ControlPlane.Maintenance
import AgentWorkflow.Lib.PyJson
import AgentWorkflow.Lib.Table
import AgentWorkflow.ControlPlane.Tasks
import AgentWorkflow.ControlPlane.Agents
import AgentWorkflow.ControlPlane.System
import AgentWorkflow.ControlPlane.Lifecycle
import AgentWorkflow.ControlPlane.Fencing
import AgentWorkflow.ControlPlane.Lease
import AgentWorkflow.VmAgent.Queue
import AgentWorkflow.VmAgent.QueueRows
import AgentWorkflow.VmAgent.QueueLifecycle
import AgentWorkflow.VmAgent.QueueingSink
import AgentWorkflow.VmAgent.Replay
import AgentWorkflow.VmAgent.ReplayRules
import AgentWorkflow.VmAgent.ReplaySafety
import AgentWorkflow.VmAgent.ReplayRecovery
import AgentWorkflow.Lib.PyText
import AgentWorkflow.Worker.ResultFormat
import AgentWorkflow.Worker.OfflineQueue
import AgentWorkflow.Worker.OfflineNames
import AgentWorkflow.Worker.OfflineSafety
import AgentWorkflow.Worker.OfflineRuns
import AgentWorkflow.Lib.Registry
import AgentWorkflow.ControlPlane.Broker
import AgentWorkflow.ControlPlane.BrokerDelivery
import AgentWorkflow.ControlPlane.BrokerSubscriptions
import AgentWorkflow.ControlPlane.Rollout
import AgentWorkflow.ControlPlane.RolloutRows
import AgentWorkflow.ControlPlane.RolloutStable
import AgentWorkflow.ControlPlane.RolloutPublish
import AgentWorkflow.ControlPlane.RolloutPromotion
import AgentWorkflow.Lib.Numbered
import AgentWorkflow.Workflows.Scheduler
import AgentWorkflow.Workflows.SchedulerInvariant
import AgentWorkflow.ControlPlane.EventStream
import AgentWorkflow.ControlPlane.EventStreamDelivery
import AgentWorkflow.ControlPlane.EventStreamAgreement
import AgentWorkflow.VmAgent.Dialer
import AgentWorkflow.VmAgent.DialerCancel
import AgentWorkflow.Lib.Index
import AgentWorkflow.VmAgent.DialerTasks
import AgentWorkflow.Desktop.ApiClient
import AgentWorkflow.Desktop.TokenScope
import AgentWorkflow.Desktop.Auth
import AgentWorkflow.Desktop.AuthSession
import AgentWorkflow.Desktop.ChatStore
import AgentWorkflow.Desktop.ChatSystem
import AgentWorkflow.Desktop.ChatFrames
import AgentWorkflow.Desktop.ChatDelete
import AgentWorkflow.Desktop.ChatOwners
import AgentWorkflow.Desktop.ChatSelect
import AgentWorkflow.Desktop.ChatIdentity
import AgentWorkflow.Desktop.ChatMarks
import AgentWorkflow.Desktop.ChatStreaming
import AgentWorkflow.Desktop.ChatCrash
import AgentWorkflow.VmAgent.ReplayMetrics
import AgentWorkflow.VmAgent.ReplayOrder
import AgentWorkflow.ControlPlane.Idempotency
import AgentWorkflow.Desktop.CcWrapper
import AgentWorkflow.Desktop.CcSessions
import AgentWorkflow.Desktop.CcMcpConfig
import AgentWorkflow.Desktop.AuthPersistence
import AgentWorkflow.Desktop.TokenMigration
import AgentWorkflow.Lib.JsonText
import AgentWorkflow.Lib.Binary64
import AgentWorkflow.Lib.OrderedDict
import AgentWorkflow.Lib.SlidingWindow
import AgentWorkflow.Lib.Sorting
import AgentWorkflow.ControlPlane.RateLimiter
import AgentWorkflow.ControlPlane.Sessions
import AgentWorkflow.Workflows.SchedulerOrder
import AgentWorkflow.Workflows.SchedulerFile
import AgentWorkflow.Workflows.SchedulerProgress
import AgentWorkflow.VmAgent.DialerRun
import AgentWorkflow.Lib.Utf8
import AgentWorkflow.Worker.CommandOutput
import AgentWorkflow.Worker.RunDirectories
import AgentWorkflow.Lib.PosixPath
import AgentWorkflow.Worker.TaskInputs
import AgentWorkflow.Lib.Decimal
import AgentWorkflow.Lib.PythonJson
import AgentWorkflow.ControlPlane.ResultReplay
import AgentWorkflow.Lib.GoLiteral
import AgentWorkflow.Lib.JsonDoc
import AgentWorkflow.VmAgent.GoJson
import AgentWorkflow.Workflows.Guardian
import AgentWorkflow.VmAgent.Runner
import AgentWorkflow.Lib.PyUrl
import AgentWorkflow.ControlPlane.ReleaseUrl
import AgentWorkflow.Desktop.ChatDeltas
import AgentWorkflow.Desktop.ChatMerge
import AgentWorkflow.Desktop.ChatRegenerate
import AgentWorkflow.Desktop.Sse
import AgentWorkflow.Desktop.HttpTurn
import AgentWorkflow.Desktop.ChatStanding
import AgentWorkflow.Desktop.ChatSwitching
import AgentWorkflow.Desktop.ChatReturns
import AgentWorkflow.Desktop.ChatLeaves
import AgentWorkflow.Desktop.ChatAwaiting
import AgentWorkflow.Desktop.ChatFallback
import AgentWorkflow.Desktop.SseHandle
import AgentWorkflow.Desktop.SseReconnect
import AgentWorkflow.Lib.JsValue
import AgentWorkflow.Desktop.CcEvents
import AgentWorkflow.Desktop.CcStdout
import AgentWorkflow.Desktop.CcOversize
import AgentWorkflow.Desktop.ConnectionHealth
import AgentWorkflow.Desktop.ConnectionLoops
import AgentWorkflow.Lib.Crash
import AgentWorkflow.Desktop.PrivateStorage
import AgentWorkflow.Desktop.PrivateCrash
import AgentWorkflow.Lib.JsStringify
import AgentWorkflow.Lib.JsBytes
import AgentWorkflow.Lib.JsConvert
import AgentWorkflow.Desktop.KnownHosts
import AgentWorkflow.Desktop.KnownHostsPins
import AgentWorkflow.Desktop.Activity
import AgentWorkflow.Desktop.IdeServer
import AgentWorkflow.Desktop.ConnectionPolling
import AgentWorkflow.Desktop.SettingsSwitch
import AgentWorkflow.Lib.JsRegex
import AgentWorkflow.Desktop.Sanitize
import AgentWorkflow.Desktop.SanitizePasses
import AgentWorkflow.Desktop.SanitizeTokens
import AgentWorkflow.Lib.Base64
import AgentWorkflow.Lib.Linear
import AgentWorkflow.Desktop.Credentials
import AgentWorkflow.Desktop.CredentialsLinear
