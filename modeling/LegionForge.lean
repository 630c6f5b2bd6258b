import LegionForge.Audit.Concurrent
import LegionForge.Audit.Tamper
import LegionForge.Agent.ArgumentScan
import LegionForge.Agent.Halt
import LegionForge.Gateway.Worker
import LegionForge.Agent.ToolReplies
import LegionForge.Security.Derivation
import LegionForge.Agent.FanOut
import LegionForge.Agent.MasterToken
import LegionForge.Security.ToolRegistry
import LegionForge.Lib.RowLocks
import LegionForge.Gateway.TaskQueue
import LegionForge.Gateway.TaskEnds
import LegionForge.Gateway.Dependencies
import LegionForge.Gateway.WorkerLoop
import LegionForge.Gateway.Orphans
import LegionForge.Gateway.QueueDepth
import LegionForge.Agent.Crystallization
import LegionForge.Gateway.BudgetDays
import LegionForge.Gateway.ResultCache
import LegionForge.Gateway.Resolution
import LegionForge.Agent.BoundedRuns
import LegionForge.Agent.DailyCounter
import LegionForge.Agent.EngineLimit
import LegionForge.Gateway.Occurrences
import LegionForge.Gateway.ScheduleEdits
import LegionForge.Gateway.ScheduleProgress
import LegionForge.Gateway.Accounts
import LegionForge.Gateway.Intake
import LegionForge.Agent.Fetchers
import LegionForge.Gateway.Memory
import LegionForge.Gateway.MemoryIsolation
import LegionForge.Agent.ToolNames
import LegionForge.Agent.LoopWindow
import LegionForge.Agent.DestructiveScan
import LegionForge.Connectors.Inbound
import LegionForge.Gateway.RateLimit
import LegionForge.Gateway.PipelineRun
import LegionForge.Gateway.StreamSlots
import LegionForge.Agent.OllamaCluster
import LegionForge.Lib.Stretch
import LegionForge.Lib.Pieces
import LegionForge.Tools.ModelIntegrity
import LegionForge.Tools.Analyzer
import LegionForge.Tools.AnalysisReport
import LegionForge.Lib.Utf8
import LegionForge.Tools.SizeCaps
import LegionForge.Tools.FileTools
import LegionForge.Agent.InjectedContext
import LegionForge.Security.FetchGuard
import LegionForge.Lib.LdapTemplate
import LegionForge.Gateway.LdapLogin
import LegionForge.Gateway.OidcLogin
import LegionForge.Agent.SurvivingInjection
import LegionForge.Agent.RedactionGaps
import LegionForge.Gateway.TaskListing
import LegionForge.Gateway.TaskTemplates
import LegionForge.Lib.Hex
import LegionForge.Lib.JsonCompact
import LegionForge.Tools.Signing
import LegionForge.Lib.Grants
import LegionForge.Gateway.StreamAccess
import LegionForge.Gateway.KeyRotation
import LegionForge.Gateway.TaskShares
import LegionForge.Gateway.UserConnections
import LegionForge.Security.CredentialStore
import LegionForge.Lib.JsonRound
import LegionForge.Lib.Lines
import LegionForge.Connectors.EventStream
import LegionForge.Connectors.Replies
import LegionForge.Lib.TextFile
import LegionForge.Security.PgPass
import LegionForge.Security.DatabasePasswords
import LegionForge.Lib.Csv
import LegionForge.Gateway.TaskExport
import LegionForge.Gateway.UserPreferences
import LegionForge.Gateway.Callbacks
