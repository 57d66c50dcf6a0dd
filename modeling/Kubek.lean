import Kubek.Backups.Exclusion
import Kubek.Access.NoEscalation
import Kubek.Assistant.Approval
import Kubek.Assistant.ApprovedChange
import Kubek.Telegram.OneToOne
import Kubek.Ws.LiveAccess
import Kubek.Launch.CheckedCommands
import Kubek.Launch.CommandShape
import Kubek.Instance.Disposal
import Kubek.Backups.ReadyBacked
import Kubek.Backups.Recoverable
import Kubek.Lib.FileTree
import Kubek.Backups.RestoreRoundTrip
import Kubek.Properties.SafeEdits
import Kubek.Core.RealPath
import Kubek.Access.Revocation
import Kubek.Twofa.OneSession
import Kubek.Backups.InUse
import Kubek.Servers.ContainerReconcile
import Kubek.Scheduler.Tasks
import Kubek.Scheduler.Agreement
import Kubek.Extensions.Manager
import Kubek.Extensions.NoReach
import Kubek.Content.Installer
import Kubek.Content.Ownership
import Kubek.Content.Turns
import Kubek.Content.InSync
import Kubek.Servers.ImportCleanup
import Kubek.Servers.TransferRoundTrip
import Kubek.Servers.Instances
import Kubek.Servers.Boot
import Kubek.Servers.Protected
import Kubek.Core.RunPool
import Kubek.AuditLog.Diff
import Kubek.Instance.CrashRestarts
import Kubek.Players.Lists
import Kubek.Migrations.SchemaCleanup
import Kubek.Properties.Restore
import Kubek.Networks.Draft
import Kubek.Networks.Members
import Kubek.Extensions.Consent
import Kubek.Networks.TomlPatcher
import Kubek.Networks.VelocityConfig
import Kubek.Networks.Forwarding
import Kubek.Networks.LineDiff
import Kubek.Networks.Review
import Kubek.Networks.SharedSecret
import Kubek.Backups.CollectOnce
import Kubek.Assistant.SecretFiles
import Kubek.Instance.StopSettles
import Kubek.Assistant.EventStream
import Kubek.Assistant.CompletionStream
import Kubek.Properties.LineEnds
import Kubek.Properties.Untouched
import Kubek.Lib.Regex
import Kubek.Instance.Console
import Kubek.Instance.Completer
import Kubek.Networks.Wizard
import Kubek.Servers.Provisioning
import Kubek.Instance.DockerLogs
import Kubek.Networks.MinimalDiff
import Kubek.RateLimit.Limits
import Kubek.RateLimit.Honours
import Kubek.Networks.PortAllocation
import Kubek.Networks.TryOrder
import Kubek.Lib.TreeFiles
import Kubek.Core.PathText
import Kubek.Lib.Selection
import Kubek.Files.ZipArchive
import Kubek.Core.ServerFolders
import Kubek.Lib.TreeWalk
import Kubek.MetricsHistory.ProcessTree
import Kubek.Lib.JsNumber
import Kubek.Lib.Cron
import Kubek.Scheduler.Intervals
import Kubek.Lib.Base64
import Kubek.Notifications.Paging
import Kubek.Players.ListCodec
import Kubek.MetricsHistory.PowerShellSampler
import Kubek.Scheduler.StoredSchedule
import Kubek.Content.Dependants
import Kubek.Lib.RollUp
import Kubek.MetricsHistory.Collector
import Kubek.Lib.TreeEdits
import Kubek.Modpacks.PackPaths
import Kubek.Modpacks.Reader
import Kubek.Modpacks.Installer
import Kubek.Lib.Numerals
import Kubek.Lib.IpText
import Kubek.RateLimit.IpKey
import Kubek.Core.Subnets
import Kubek.Access.RoundTrip
import Kubek.Core.Download
import Kubek.Core.ProcessKill
import Kubek.Lib.LinkEdits
import Kubek.Files.FtpFs
import Kubek.Access.Sessions
import Kubek.Core.Tasks
import Kubek.Scheduler.Runs
import Kubek.Migrations.AccessLevels
import Kubek.Migrations.Runner
