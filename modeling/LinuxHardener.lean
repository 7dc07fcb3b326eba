import LinuxHardener.State.Tamper
import LinuxHardener.State.AuditLog
import LinuxHardener.State.AuditCodec
import LinuxHardener.State.AuditTamper
import LinuxHardener.State.AuditWriters
import LinuxHardener.State.LocalExecutor
import LinuxHardener.State.CaptureLinks
import LinuxHardener.State.RestoreRun
import LinuxHardener.State.Confinement
import LinuxHardener.Compliance.Silencing
import LinuxHardener.Compliance.CsvReport
import LinuxHardener.Compliance.Exclusions
import LinuxHardener.Common.FileUtils
import LinuxHardener.Ssh.FirstWins
import LinuxHardener.Firewall.Refused
import LinuxHardener.Common.DirectiveWriter
import LinuxHardener.Firewall.Agreement
import LinuxHardener.Commands.Batch
import LinuxHardener.Core.PluginManager
import LinuxHardener.Audit.Converges
import LinuxHardener.Kernel.Converges
import LinuxHardener.Scheduler.Coverage
import LinuxHardener.Scheduler.Daemon
import LinuxHardener.Scheduler.Quiet
import LinuxHardener.Fleet.SameMachines
import LinuxHardener.Fleet.Posture
import LinuxHardener.State.KeyKept
import LinuxHardener.Plugins.PassedOver
import LinuxHardener.Audit.Preview
import LinuxHardener.Firewall.Preview
import LinuxHardener.Core.Exceptions
import LinuxHardener.Plugins.Clamp
import LinuxHardener.Common.Readers
import LinuxHardener.Pam.LayerDrift
import LinuxHardener.Common.WriterFrame
import LinuxHardener.State.Migrations
import LinuxHardener.State.CheckpointDb
import LinuxHardener.State.ScanHistory
import LinuxHardener.Core.SshCommands
import LinuxHardener.State.ByteExact
import LinuxHardener.State.LatestNamed
import LinuxHardener.Scheduler.CronToCalendar
import LinuxHardener.Audit.Scan
import LinuxHardener.Scheduler.Retention
import LinuxHardener.Lib.PamRule
import LinuxHardener.Pam.Stack
import LinuxHardener.Lib.SystemdUnit
import LinuxHardener.Scheduler.ServiceUnit
import LinuxHardener.Ssh.Expansion
import LinuxHardener.Ssh.Apply
import LinuxHardener.Ssh.Atomic
import LinuxHardener.Core.ConfigValidation
import LinuxHardener.Firewall.Tightening
import LinuxHardener.Firewall.Ruleset
import LinuxHardener.Commands.ApplyAudit
import LinuxHardener.Fleet.Endpoint
import LinuxHardener.Core.DatedPermissions
import LinuxHardener.Core.ConfigWrite
import LinuxHardener.Lib.KeyedMap
import LinuxHardener.Core.ConfigLayers
import LinuxHardener.Core.ConfigLoader
import LinuxHardener.Lib.DropIns
import LinuxHardener.Kernel.BootFiles
import LinuxHardener.Kernel.BootPersistence
import LinuxHardener.Kernel.Divergence
import LinuxHardener.Desktop.FleetScan
import LinuxHardener.Desktop.Inventory
import LinuxHardener.Desktop.PathGuards
import LinuxHardener.Desktop.PrivilegedOps
import LinuxHardener.Common.LinkProbe
import LinuxHardener.Commands.ConfigDocument
import LinuxHardener.Lib.TomlValue
import LinuxHardener.Desktop.SchedulerSave
import LinuxHardener.Lib.HookedScript
import LinuxHardener.Firewall.BootFile
import LinuxHardener.Lib.ByteText
import LinuxHardener.Scheduler.WebhookHeaders
import LinuxHardener.Lib.Wildcard
import LinuxHardener.Lib.Fnmatch
import LinuxHardener.Kernel.GlobCouldMatch
import LinuxHardener.Mac.Reload
import LinuxHardener.Lib.Trimmed
import LinuxHardener.Lib.ShellFile
import LinuxHardener.Plugins.ShellConfig
import LinuxHardener.Lib.KeepLast
import LinuxHardener.Lib.NameStamp
import LinuxHardener.Plugins.BackupRetention
import LinuxHardener.Lib.TextRuns
import LinuxHardener.Desktop.SanitiseError
import LinuxHardener.Scheduler.WebhookTarget
import LinuxHardener.Fleet.RollbackVerdicts
import LinuxHardener.Pam.Converges
