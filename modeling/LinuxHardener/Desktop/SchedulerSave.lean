import LinuxHardener.Desktop.PathGuards
import LinuxHardener.Lib.TomlValue
import LinuxHardener.Scheduler.Alerts

/-
  Saving the desktop's schedule (`src-tauri`, `commands/scheduler.rs`; `hardener-types`,
  `scheduler.rs`; `hardener-scheduler`, `config.rs`).

  Correspondence (Rust ↔ Lean):
    `SchedulerUiConfig`, `NotificationUiConfig`, `EmailUiConfig`, `WebhookUiConfig`, `WebhookWire`,
    `WebhookEndpointWire`, `SchedulerConfig`, `StorageConfig`, `NotificationConfig`, `EmailConfig`,
    `WebhookConfig`, `WebhookEndpoint`, `WebhookFormat` ↔ the types of these names
    their `Serialize`, `Deserialize`        ↔ `toTable`, `read…`
    `From<WebhookWire>`, `From<WebhookUiConfig>` ↔ `WebhookWire.toUi`, `WebhookUiConfig.toWire`
    `validate_notification_channels`        ↔ `validateNotificationChannels`
    `existing_scheduler_table`, `drop_superseded_webhook_keys`, `render_scheduler_section`,
    `write_scheduler_config`, `save_scheduler_config`, `get_scheduler_config`
                                            ↔ the functions of these names

  A message is what it is before `safe_err` takes the paths out of it. What a table of HTTP headers
  reads as (`HashMap<String, String>`) is a parameter, as is the directory of the daemon's data.

  What is proved:
    1. `readUi_merged` — what the form reads back.
    2. `readScheduler_merged` — what the daemon reads.
    3. `save_merges` — what a save keeps and what it changes.
-/
namespace LinuxHardener.Desktop.Scheduler

open LineText
open Toml
open LinuxHardener.Scheduler (NotifyMode)

/-! ## The form -/

structure EmailUiConfig where
  enabled : Bool
  recipients : List Chars
  fromAddress : Chars
  deriving DecidableEq, Repr

structure WebhookUiConfig where
  enabled : Bool
  url : Chars
  format : Chars
  deriving DecidableEq, Repr

structure NotificationUiConfig where
  notifyMinSeverity : Chars
  email : EmailUiConfig
  webhooks : WebhookUiConfig
  deriving DecidableEq, Repr

structure SchedulerUiConfig where
  enabled : Bool
  schedule : Chars
  plugins : List Chars
  minSeverity : Chars
  notifications : NotificationUiConfig
  deriving DecidableEq, Repr

def NotificationUiConfig.default : NotificationUiConfig := ⟨[], ⟨false, [], []⟩, ⟨false, [], []⟩⟩

def SchedulerUiConfig.default : SchedulerUiConfig := ⟨false, [], [], [], .default⟩

structure WebhookEndpointWire where
  name : Chars
  url : Chars
  format : Chars
  deriving DecidableEq, Repr

structure WebhookWire where
  enabled : Bool
  url : Option Chars
  format : Option Chars
  endpoints : List WebhookEndpointWire
  deriving DecidableEq, Repr

def defaultWebhookFormat : Chars := "generic".toList

def desktopEndpointName : Chars := "desktop".toList

/-- The list wins when it has an entry. -/
def WebhookWire.toUi (wire : WebhookWire) : WebhookUiConfig :=
  match wire.endpoints with
  | endpoint :: _ => ⟨wire.enabled, endpoint.url, endpoint.format⟩
  | [] => ⟨wire.enabled, wire.url.getD [], wire.format.getD []⟩

def WebhookUiConfig.endpoints (config : WebhookUiConfig) : List WebhookEndpointWire :=
  if config.url = [] then []
  else [⟨desktopEndpointName, config.url, if config.format = [] then defaultWebhookFormat else config.format⟩]

def WebhookUiConfig.toWire (config : WebhookUiConfig) : WebhookWire := ⟨config.enabled, none, none, config.endpoints⟩

/-! ## The form's table -/

def strings (texts : List Chars) : Value := .array (texts.map .string)

def WebhookEndpointWire.toTable (endpoint : WebhookEndpointWire) : Table :=
  .of [("name".toList, .string endpoint.name), ("url".toList, .string endpoint.url), ("format".toList, .string endpoint.format)]

/-- A flat key is written only when it is set. -/
def flatKey (name : Chars) (text : Option Chars) : List (Chars × Value) := (text.map fun text => (name, .string text)).toList

def WebhookWire.toTable (wire : WebhookWire) : Table :=
  .of (("enabled".toList, .boolean wire.enabled) :: flatKey "url".toList wire.url ++ flatKey "format".toList wire.format ++
    [("endpoints".toList, .array (wire.endpoints.map fun endpoint => .table endpoint.toTable))])

def EmailUiConfig.toTable (config : EmailUiConfig) : Table :=
  .of [("enabled".toList, .boolean config.enabled), ("recipients".toList, strings config.recipients),
    ("from_address".toList, .string config.fromAddress)]

def NotificationUiConfig.toTable (config : NotificationUiConfig) : Table :=
  .of [("notify_min_severity".toList, .string config.notifyMinSeverity), ("email".toList, .table config.email.toTable),
    ("webhooks".toList, .table config.webhooks.toWire.toTable)]

def SchedulerUiConfig.toTable (config : SchedulerUiConfig) : Table :=
  .of [("enabled".toList, .boolean config.enabled), ("schedule".toList, .string config.schedule),
    ("plugins".toList, strings config.plugins), ("min_severity".toList, .string config.minSeverity),
    ("notifications".toList, .table config.notifications.toTable)]

open Table (fieldOr)

def readEndpointWire (value : Value) : Option WebhookEndpointWire := do
  let t ← value.table?
  let name ← fieldOr [] Value.string? t "name".toList
  let url ← fieldOr [] Value.string? t "url".toList
  let format ← fieldOr [] Value.string? t "format".toList
  return ⟨name, url, format⟩

def readEndpointWires (value : Value) : Option (List WebhookEndpointWire) := value.array?.bind fun items => items.mapM readEndpointWire

def readFlat (value : Value) : Option (Option Chars) := value.string?.map some

def readWebhookUi (value : Value) : Option WebhookUiConfig := do
  let t ← value.table?
  let enabled ← fieldOr false Value.boolean? t "enabled".toList
  let url ← fieldOr none readFlat t "url".toList
  let format ← fieldOr none readFlat t "format".toList
  let endpoints ← fieldOr [] readEndpointWires t "endpoints".toList
  return WebhookWire.toUi ⟨enabled, url, format, endpoints⟩

def readEmailUi (value : Value) : Option EmailUiConfig := do
  let t ← value.table?
  let enabled ← fieldOr false Value.boolean? t "enabled".toList
  let recipients ← fieldOr [] Value.strings? t "recipients".toList
  let fromAddress ← fieldOr [] Value.string? t "from_address".toList
  return ⟨enabled, recipients, fromAddress⟩

def readNotificationUi (value : Value) : Option NotificationUiConfig := do
  let t ← value.table?
  let notifyMinSeverity ← fieldOr [] Value.string? t "notify_min_severity".toList
  let email ← fieldOr NotificationUiConfig.default.email readEmailUi t "email".toList
  let webhooks ← fieldOr NotificationUiConfig.default.webhooks readWebhookUi t "webhooks".toList
  return ⟨notifyMinSeverity, email, webhooks⟩

def readSchedulerUi (value : Value) : Option SchedulerUiConfig := do
  let t ← value.table?
  let enabled ← fieldOr false Value.boolean? t "enabled".toList
  let schedule ← fieldOr [] Value.string? t "schedule".toList
  let plugins ← fieldOr [] Value.strings? t "plugins".toList
  let minSeverity ← fieldOr [] Value.string? t "min_severity".toList
  let notifications ← fieldOr NotificationUiConfig.default readNotificationUi t "notifications".toList
  return ⟨enabled, schedule, plugins, minSeverity, notifications⟩

/-! ## The daemon's settings -/

inductive WebhookFormat where
  | generic | slack | discord
  deriving DecidableEq, Repr

structure WebhookEndpoint (Headers : Type) where
  name : Chars
  url : Chars
  format : WebhookFormat
  headers : Option Headers

structure WebhookConfig (Headers : Type) where
  enabled : Bool
  endpoints : List (WebhookEndpoint Headers)

structure EmailConfig where
  enabled : Bool
  smtpHost : Chars
  smtpPort : Nat
  smtpTls : Bool
  smtpUsername : Chars
  recipients : List Chars
  fromAddress : Chars
  deriving DecidableEq, Repr

structure NotificationConfig (Headers : Type) where
  notifyMinSeverity : Chars
  notifyMode : NotifyMode
  email : EmailConfig
  webhooks : WebhookConfig Headers

structure StorageConfig where
  databasePath : Chars
  jsonOutputDir : Chars
  retentionCount : Nat
  retentionDays : Nat
  deriving DecidableEq, Repr

structure SchedulerConfig (Headers : Type) where
  enabled : Bool
  schedule : Chars
  plugins : List Chars
  minSeverity : Chars
  storage : StorageConfig
  notifications : NotificationConfig Headers

def EmailConfig.default : EmailConfig := ⟨false, [], 587, true, [], [], []⟩

def NotificationConfig.default {Headers : Type} : NotificationConfig Headers := ⟨[], .findings, .default, ⟨false, []⟩⟩

/-- `default_data_dir` and the reader of a table of headers. -/
structure Daemon (Headers : Type) where
  dataDir : Chars
  readHeaders : Value → Option Headers

def readFormat (value : Value) : Option WebhookFormat := do
  let text ← value.string?
  if text = "generic".toList then some .generic
  else if text = "slack".toList then some .slack
  else if text = "discord".toList then some .discord
  else none

def readNotifyMode (value : Value) : Option NotifyMode := do
  let text ← value.string?
  if text = "findings".toList then some .findings
  else if text = "regression".toList then some .regression
  else if text = "both".toList then some .both
  else none

def readEmail (value : Value) : Option EmailConfig := do
  let t ← value.table?
  let enabled ← fieldOr EmailConfig.default.enabled Value.boolean? t "enabled".toList
  let smtpHost ← fieldOr EmailConfig.default.smtpHost Value.string? t "smtp_host".toList
  let smtpPort ← fieldOr EmailConfig.default.smtpPort (Value.unsigned? 16) t "smtp_port".toList
  let smtpTls ← fieldOr EmailConfig.default.smtpTls Value.boolean? t "smtp_tls".toList
  let smtpUsername ← fieldOr EmailConfig.default.smtpUsername Value.string? t "smtp_username".toList
  let recipients ← fieldOr EmailConfig.default.recipients Value.strings? t "recipients".toList
  let fromAddress ← fieldOr EmailConfig.default.fromAddress Value.string? t "from_address".toList
  return ⟨enabled, smtpHost, smtpPort, smtpTls, smtpUsername, recipients, fromAddress⟩

namespace Daemon

variable {Headers : Type} (daemon : Daemon Headers)

def storageDefault : StorageConfig := ⟨daemon.dataDir ++ "/scheduler.db".toList, daemon.dataDir ++ "/scans".toList, 90, 0⟩

def readStorage (value : Value) : Option StorageConfig := do
  let t ← value.table?
  let databasePath ← fieldOr daemon.storageDefault.databasePath Value.string? t "database_path".toList
  let jsonOutputDir ← fieldOr daemon.storageDefault.jsonOutputDir Value.string? t "json_output_dir".toList
  let retentionCount ← fieldOr daemon.storageDefault.retentionCount (Value.unsigned? 32) t "retention_count".toList
  let retentionDays ← fieldOr daemon.storageDefault.retentionDays (Value.unsigned? 32) t "retention_days".toList
  return ⟨databasePath, jsonOutputDir, retentionCount, retentionDays⟩

/-- `name` and `url` are required. -/
def readEndpoint (value : Value) : Option (WebhookEndpoint Headers) := do
  let t ← value.table?
  let name ← (t "name".toList).bind Value.string?
  let url ← (t "url".toList).bind Value.string?
  let format ← fieldOr .generic readFormat t "format".toList
  let headers ← fieldOr none (fun value => (daemon.readHeaders value).map some) t "headers".toList
  return ⟨name, url, format, headers⟩

def readEndpoints (value : Value) : Option (List (WebhookEndpoint Headers)) :=
  value.array?.bind fun items => items.mapM daemon.readEndpoint

def readWebhooks (value : Value) : Option (WebhookConfig Headers) := do
  let t ← value.table?
  let enabled ← fieldOr false Value.boolean? t "enabled".toList
  let endpoints ← fieldOr [] daemon.readEndpoints t "endpoints".toList
  return ⟨enabled, endpoints⟩

def readNotifications (value : Value) : Option (NotificationConfig Headers) := do
  let t ← value.table?
  let notifyMinSeverity ← fieldOr [] Value.string? t "notify_min_severity".toList
  let notifyMode ← fieldOr .findings readNotifyMode t "notify_mode".toList
  let email ← fieldOr EmailConfig.default readEmail t "email".toList
  let webhooks ← fieldOr ⟨false, []⟩ daemon.readWebhooks t "webhooks".toList
  return ⟨notifyMinSeverity, notifyMode, email, webhooks⟩

def readScheduler (value : Value) : Option (SchedulerConfig Headers) := do
  let t ← value.table?
  let enabled ← fieldOr false Value.boolean? t "enabled".toList
  let schedule ← fieldOr "0 0 2 * * *".toList Value.string? t "schedule".toList
  let plugins ← fieldOr [] Value.strings? t "plugins".toList
  let minSeverity ← fieldOr "medium".toList Value.string? t "min_severity".toList
  let storage ← fieldOr daemon.storageDefault daemon.readStorage t "storage".toList
  let notifications ← fieldOr .default daemon.readNotifications t "notifications".toList
  return ⟨enabled, schedule, plugins, minSeverity, storage, notifications⟩

end Daemon

/-! ## The save -/

def validateNotificationChannels (notifications : NotificationUiConfig) : Except Chars Unit :=
  if notifications.webhooks.enabled && (trim notifications.webhooks.url).isEmpty then
    .error ("Webhook notifications are enabled but no endpoint URL is set, so nothing would be sent. ".toList ++
      "Add a URL, or switch webhooks off.".toList)
  else if notifications.email.enabled && notifications.email.recipients.all (fun recipient => (trim recipient).isEmpty) then
    .error ("Email notifications are enabled but no recipient is set, so nothing would be sent. ".toList ++
      "Add a recipient, or switch email off.".toList)
  else .ok ()

/-- The `[scheduler]` table already in a document, or an empty one. -/
def sectionOf (document : Table) : Table := document.sub "scheduler".toList

def existingSchedulerTable (toml : Library) (content : Chars) : Except Chars Value :=
  match toml.parse content with
  | .error e => .error ("Failed to read the existing scheduler section: ".toList ++ e)
  | .ok document => .ok (.table (sectionOf document))

def eraseFlatKeys (webhooks : Table) : Table := (webhooks.erase "url".toList).erase "format".toList

def webhooksPath : List Chars := ["notifications".toList, "webhooks".toList]

def dropSupersededWebhookKeys : Value → Value
  | .table scheduler => .table (Table.editAt eraseFlatKeys webhooksPath scheduler)
  | other => other

def renderSchedulerSection (toml : Library) (config : SchedulerUiConfig) (existing : Chars) : Except Chars Chars := do
  let held ← existingSchedulerTable toml existing
  let merged := dropSupersededWebhookKeys (Toml.overlay held (.table config.toTable))
  match toml.pretty (.of [("scheduler".toList, merged)]) with
  | .error e => .error ("Failed to serialise scheduler config: ".toList ++ e)
  | .ok rendered => .ok ('\n' :: rendered)

/-- The text that is written. -/
def writeSchedulerConfig (toml : Library) (existing : Chars) (config : SchedulerUiConfig) : Except Chars Chars :=
  match toml.remove existing "scheduler".toList with
  | .error e => .error ("Failed to parse config: ".toList ++ e)
  | .ok output => do
    let rendered ← renderSchedulerSection toml config existing
    return output ++ rendered

def saveSchedulerConfig (toml : Library) (existing : Chars) (config : SchedulerUiConfig) : Except Chars Chars := do
  validateIpcString config.schedule "schedule".toList
  config.plugins.forM fun plugin => validateIpcString plugin "scheduler_plugin".toList
  validateIpcString config.notifications.webhooks.url "webhook_url".toList
  validateIpcString config.notifications.email.fromAddress "from_address".toList
  config.notifications.email.recipients.forM fun recipient => validateIpcString recipient "email_recipient".toList
  validateNotificationChannels config.notifications
  writeSchedulerConfig toml existing config

def getSchedulerConfig (toml : Library) (content : Chars) : Except Chars SchedulerUiConfig :=
  match toml.parse content with
  | .error e => .error ("Failed to parse config: ".toList ++ e)
  | .ok document =>
    match fieldOr .default readSchedulerUi document "scheduler".toList with
    | some config => .ok config
    | none => .error ("Failed to parse config: ".toList ++ toml.mistyped document)

/-! ## What a save makes of the section -/

def mergedEmail (old : Table) (config : EmailUiConfig) : Table := config.toTable.atop old

def mergedWebhooks (old : Table) (config : WebhookUiConfig) : Table := eraseFlatKeys (config.toWire.toTable.atop old)

def mergedNotifications (old : Table) (config : NotificationUiConfig) : Table :=
  Table.editAt eraseFlatKeys ["webhooks".toList] (config.toTable.atop old)

def merged (old : Table) (config : SchedulerUiConfig) : Table :=
  Table.editAt eraseFlatKeys webhooksPath (config.toTable.atop old)

section

variable (old : Table)

theorem mergedWebhooks_enabled (config : WebhookUiConfig) :
    mergedWebhooks old config "enabled".toList = some (.boolean config.enabled) := by
  have h : config.toWire.toTable.atop old "enabled".toList = _ := Table.atop_leaf rfl rfl
  exact h

theorem mergedWebhooks_endpoints (config : WebhookUiConfig) : mergedWebhooks old config "endpoints".toList =
    some (.array (config.endpoints.map fun endpoint => .table endpoint.toTable)) := by
  have h : config.toWire.toTable.atop old "endpoints".toList = _ := Table.atop_leaf rfl rfl
  exact h

theorem mergedWebhooks_flat (config : WebhookUiConfig) :
    mergedWebhooks old config "url".toList = none ∧ mergedWebhooks old config "format".toList = none :=
  ⟨rfl, rfl⟩

theorem mergedNotifications_severity (config : NotificationUiConfig) :
    mergedNotifications old config "notify_min_severity".toList = some (.string config.notifyMinSeverity) := by
  rw [mergedNotifications, Table.editAt_ne [] (by decide)]
  exact Table.atop_leaf rfl rfl

theorem mergedNotifications_mode (config : NotificationUiConfig) :
    mergedNotifications old config "notify_mode".toList = old "notify_mode".toList := by
  rw [mergedNotifications, Table.editAt_ne [] (by decide)]
  exact Table.atop_none rfl

theorem mergedNotifications_email (config : NotificationUiConfig) : mergedNotifications old config "email".toList =
    some (.table (mergedEmail (old.sub "email".toList) config.email)) := by
  rw [mergedNotifications, Table.editAt_ne [] (by decide)]
  exact Table.atop_table rfl

theorem mergedNotifications_webhooks (config : NotificationUiConfig) : mergedNotifications old config "webhooks".toList =
    some (.table (mergedWebhooks (old.sub "webhooks".toList) config.webhooks)) := by
  have h : config.toTable.atop old "webhooks".toList = _ := Table.atop_table rfl
  rw [mergedNotifications, Table.editAt_table h]
  exact Table.insert_self

theorem merged_notifications (config : SchedulerUiConfig) : merged old config "notifications".toList =
    some (.table (mergedNotifications (old.sub "notifications".toList) config.notifications)) := by
  have h : config.toTable.atop old "notifications".toList = _ := Table.atop_table rfl
  rw [merged, webhooksPath, Table.editAt_table h]
  exact Table.insert_self

theorem merged_leaf (config : SchedulerUiConfig) (key : Chars) {value : Value} (h : config.toTable key = some value)
    (hleaf : value.table? = none) (hne : key ≠ "notifications".toList) : merged old config key = some value := by
  rw [merged, webhooksPath, Table.editAt_ne _ hne, Table.atop_leaf h hleaf]

end

/-! ## Reading it back -/

theorem readEndpointWires_map (endpoints : List WebhookEndpointWire) :
    readEndpointWires (.array (endpoints.map fun endpoint => .table endpoint.toTable)) = some endpoints := by
  have hmap : (endpoints.map fun endpoint => Value.table endpoint.toTable).mapM readEndpointWire = some endpoints := by
    induction endpoints with
    | nil => rfl
    | cons endpoint endpoints ih =>
      rw [List.map_cons, List.mapM_cons, ih]
      rfl
  exact hmap

/-- The form as it is read back: a webhook with no URL has no format, and one with none chosen has
the default. -/
def WebhookUiConfig.stored (config : WebhookUiConfig) : WebhookUiConfig := config.toWire.toUi

def SchedulerUiConfig.stored (config : SchedulerUiConfig) : SchedulerUiConfig :=
  { config with notifications := { config.notifications with webhooks := config.notifications.webhooks.stored } }

theorem readWebhookUi_merged (old : Table) (config : WebhookUiConfig) :
    readWebhookUi (.table (mergedWebhooks old config)) = some config.stored := by
  obtain ⟨hurl, hformat⟩ := mergedWebhooks_flat old config
  change (do
    let enabled ← fieldOr false Value.boolean? (mergedWebhooks old config) "enabled".toList
    let url ← fieldOr none readFlat (mergedWebhooks old config) "url".toList
    let format ← fieldOr none readFlat (mergedWebhooks old config) "format".toList
    let endpoints ← fieldOr [] readEndpointWires (mergedWebhooks old config) "endpoints".toList
    return WebhookWire.toUi ⟨enabled, url, format, endpoints⟩) = _
  rw [Table.fieldOr_some (mergedWebhooks_enabled old config), Table.fieldOr_some (mergedWebhooks_endpoints old config),
    readEndpointWires_map, fieldOr, hurl, fieldOr, hformat]
  rfl

theorem readEmailUi_merged (old : Table) (config : EmailUiConfig) : readEmailUi (.table (mergedEmail old config)) = some config := by
  have henabled : mergedEmail old config "enabled".toList = some (.boolean config.enabled) := Table.atop_leaf rfl rfl
  have hrecipients : mergedEmail old config "recipients".toList = some (strings config.recipients) := Table.atop_leaf rfl rfl
  have hfrom : mergedEmail old config "from_address".toList = some (.string config.fromAddress) := Table.atop_leaf rfl rfl
  change (do
    let enabled ← fieldOr false Value.boolean? (mergedEmail old config) "enabled".toList
    let recipients ← fieldOr [] Value.strings? (mergedEmail old config) "recipients".toList
    let fromAddress ← fieldOr [] Value.string? (mergedEmail old config) "from_address".toList
    return EmailUiConfig.mk enabled recipients fromAddress) = _
  rw [Table.fieldOr_some henabled, Table.fieldOr_some hrecipients, Table.fieldOr_some hfrom, strings, Value.strings?_array]
  rfl

theorem readNotificationUi_merged (old : Table) (config : NotificationUiConfig) :
    readNotificationUi (.table (mergedNotifications old config)) = some { config with webhooks := config.webhooks.stored } := by
  change (do
    let notifyMinSeverity ← fieldOr [] Value.string? (mergedNotifications old config) "notify_min_severity".toList
    let email ← fieldOr NotificationUiConfig.default.email readEmailUi (mergedNotifications old config) "email".toList
    let webhooks ← fieldOr NotificationUiConfig.default.webhooks readWebhookUi (mergedNotifications old config) "webhooks".toList
    return NotificationUiConfig.mk notifyMinSeverity email webhooks) = _
  rw [Table.fieldOr_some (mergedNotifications_severity old config), Table.fieldOr_some (mergedNotifications_email old config),
    Table.fieldOr_some (mergedNotifications_webhooks old config), readEmailUi_merged, readWebhookUi_merged]
  rfl

theorem readUi_merged (old : Table) (config : SchedulerUiConfig) : readSchedulerUi (.table (merged old config)) = some config.stored := by
  change (do
    let enabled ← fieldOr false Value.boolean? (merged old config) "enabled".toList
    let schedule ← fieldOr [] Value.string? (merged old config) "schedule".toList
    let plugins ← fieldOr [] Value.strings? (merged old config) "plugins".toList
    let minSeverity ← fieldOr [] Value.string? (merged old config) "min_severity".toList
    let notifications ← fieldOr NotificationUiConfig.default readNotificationUi (merged old config) "notifications".toList
    return SchedulerUiConfig.mk enabled schedule plugins minSeverity notifications) = _
  rw [Table.fieldOr_some (merged_leaf old config "enabled".toList rfl rfl (by decide)),
    Table.fieldOr_some (merged_leaf old config "schedule".toList rfl rfl (by decide)),
    Table.fieldOr_some (merged_leaf old config "plugins".toList rfl rfl (by decide)),
    Table.fieldOr_some (merged_leaf old config "min_severity".toList rfl rfl (by decide)),
    Table.fieldOr_some (merged_notifications old config), readNotificationUi_merged, strings, Value.strings?_array]
  rfl

/-! ## What the daemon reads -/

/-- The keys of the section that the form does not own, as the daemon reads them. -/
structure KeptEmail where
  smtpHost : Chars
  smtpPort : Nat
  smtpTls : Bool
  smtpUsername : Chars

structure Kept where
  storage : StorageConfig
  notifyMode : NotifyMode
  email : KeptEmail

def readKeptEmail (email : Table) : Option KeptEmail := do
  let smtpHost ← fieldOr EmailConfig.default.smtpHost Value.string? email "smtp_host".toList
  let smtpPort ← fieldOr EmailConfig.default.smtpPort (Value.unsigned? 16) email "smtp_port".toList
  let smtpTls ← fieldOr EmailConfig.default.smtpTls Value.boolean? email "smtp_tls".toList
  let smtpUsername ← fieldOr EmailConfig.default.smtpUsername Value.string? email "smtp_username".toList
  return ⟨smtpHost, smtpPort, smtpTls, smtpUsername⟩

namespace Daemon

variable {Headers : Type} (daemon : Daemon Headers)

def readKept (old : Table) : Option Kept := do
  let storage ← fieldOr daemon.storageDefault daemon.readStorage old "storage".toList
  let notifyMode ← fieldOr .findings readNotifyMode (old.sub "notifications".toList) "notify_mode".toList
  let email ← readKeptEmail ((old.sub "notifications".toList).sub "email".toList)
  return ⟨storage, notifyMode, email⟩

/-- The endpoints that the daemon is given by the form. -/
def endpointsOf (config : WebhookUiConfig) : Option (List (WebhookEndpoint Headers)) :=
  config.endpoints.mapM fun endpoint => (readFormat (.string endpoint.format)).map fun format =>
    ⟨endpoint.name, endpoint.url, format, none⟩

def emailOf (kept : KeptEmail) (config : EmailUiConfig) : EmailConfig :=
  ⟨config.enabled, kept.smtpHost, kept.smtpPort, kept.smtpTls, kept.smtpUsername, config.recipients, config.fromAddress⟩

theorem readEmail_merged (old : Table) (config : EmailUiConfig) :
    readEmail (.table (mergedEmail old config)) = (readKeptEmail old).map fun kept => emailOf kept config := by
  have henabled : mergedEmail old config "enabled".toList = some (.boolean config.enabled) := Table.atop_leaf rfl rfl
  have hrecipients : mergedEmail old config "recipients".toList = some (strings config.recipients) := Table.atop_leaf rfl rfl
  have hfrom : mergedEmail old config "from_address".toList = some (.string config.fromAddress) := Table.atop_leaf rfl rfl
  have hkept : ∀ key, config.toTable key = none → mergedEmail old config key = old key := fun _ h => Table.atop_none h
  change (do
    let enabled ← fieldOr EmailConfig.default.enabled Value.boolean? (mergedEmail old config) "enabled".toList
    let smtpHost ← fieldOr EmailConfig.default.smtpHost Value.string? (mergedEmail old config) "smtp_host".toList
    let smtpPort ← fieldOr EmailConfig.default.smtpPort (Value.unsigned? 16) (mergedEmail old config) "smtp_port".toList
    let smtpTls ← fieldOr EmailConfig.default.smtpTls Value.boolean? (mergedEmail old config) "smtp_tls".toList
    let smtpUsername ← fieldOr EmailConfig.default.smtpUsername Value.string? (mergedEmail old config) "smtp_username".toList
    let recipients ← fieldOr EmailConfig.default.recipients Value.strings? (mergedEmail old config) "recipients".toList
    let fromAddress ← fieldOr EmailConfig.default.fromAddress Value.string? (mergedEmail old config) "from_address".toList
    return EmailConfig.mk enabled smtpHost smtpPort smtpTls smtpUsername recipients fromAddress) = _
  rw [Table.fieldOr_some henabled, Table.fieldOr_some hrecipients, Table.fieldOr_some hfrom, strings, Value.strings?_array,
    Table.fieldOr_congr (hkept "smtp_host".toList rfl), Table.fieldOr_congr (hkept "smtp_port".toList rfl),
    Table.fieldOr_congr (hkept "smtp_tls".toList rfl), Table.fieldOr_congr (hkept "smtp_username".toList rfl), readKeptEmail]
  cases fieldOr EmailConfig.default.smtpHost Value.string? old "smtp_host".toList <;>
  cases fieldOr EmailConfig.default.smtpPort (Value.unsigned? 16) old "smtp_port".toList <;>
  cases fieldOr EmailConfig.default.smtpTls Value.boolean? old "smtp_tls".toList <;>
  cases fieldOr EmailConfig.default.smtpUsername Value.string? old "smtp_username".toList <;> rfl

theorem readEndpoint_toTable (endpoint : WebhookEndpointWire) : daemon.readEndpoint (.table endpoint.toTable) =
    (readFormat (.string endpoint.format)).map fun format => ⟨endpoint.name, endpoint.url, format, none⟩ := by
  change (do
    let format ← readFormat (.string endpoint.format)
    return (⟨endpoint.name, endpoint.url, format, none⟩ : WebhookEndpoint Headers)) = _
  cases readFormat (.string endpoint.format) <;> rfl

theorem readEndpoints_map (config : WebhookUiConfig) :
    daemon.readEndpoints (.array (config.endpoints.map fun endpoint => .table endpoint.toTable)) = endpointsOf config := by
  change (config.endpoints.map fun endpoint => Value.table endpoint.toTable).mapM daemon.readEndpoint = _
  rw [List.mapM_map, endpointsOf]
  exact congrArg (fun f => config.endpoints.mapM f) (funext daemon.readEndpoint_toTable)

theorem readWebhooks_merged (old : Table) (config : WebhookUiConfig) :
    daemon.readWebhooks (.table (mergedWebhooks old config)) = (endpointsOf config).map fun endpoints => ⟨config.enabled, endpoints⟩ := by
  change (do
    let enabled ← fieldOr false Value.boolean? (mergedWebhooks old config) "enabled".toList
    let endpoints ← fieldOr [] daemon.readEndpoints (mergedWebhooks old config) "endpoints".toList
    return WebhookConfig.mk enabled endpoints) = _
  rw [Table.fieldOr_some (mergedWebhooks_enabled old config), Table.fieldOr_some (mergedWebhooks_endpoints old config),
    readEndpoints_map]
  cases @endpointsOf Headers config <;> rfl

theorem readNotifications_merged (old : Table) (config : NotificationUiConfig) :
    daemon.readNotifications (.table (mergedNotifications old config)) = (do
      let notifyMode ← fieldOr NotifyMode.findings readNotifyMode old "notify_mode".toList
      let kept ← readKeptEmail (old.sub "email".toList)
      let endpoints ← endpointsOf config.webhooks
      return NotificationConfig.mk config.notifyMinSeverity notifyMode (emailOf kept config.email)
        ⟨config.webhooks.enabled, endpoints⟩) := by
  change (do
    let notifyMinSeverity ← fieldOr [] Value.string? (mergedNotifications old config) "notify_min_severity".toList
    let notifyMode ← fieldOr NotifyMode.findings readNotifyMode (mergedNotifications old config) "notify_mode".toList
    let email ← fieldOr EmailConfig.default readEmail (mergedNotifications old config) "email".toList
    let webhooks ← fieldOr (WebhookConfig.mk false []) daemon.readWebhooks (mergedNotifications old config) "webhooks".toList
    return NotificationConfig.mk notifyMinSeverity notifyMode email webhooks) = _
  rw [Table.fieldOr_some (mergedNotifications_severity old config), Table.fieldOr_congr (mergedNotifications_mode old config),
    Table.fieldOr_some (mergedNotifications_email old config), Table.fieldOr_some (mergedNotifications_webhooks old config),
    readEmail_merged, readWebhooks_merged]
  cases fieldOr NotifyMode.findings readNotifyMode old "notify_mode".toList <;> cases readKeptEmail (old.sub "email".toList) <;>
    cases @endpointsOf Headers config.webhooks <;> rfl

/-- What the form and the keys it does not own make together. -/
def assembled (kept : Kept) (endpoints : List (WebhookEndpoint Headers)) (config : SchedulerUiConfig) : SchedulerConfig Headers where
  enabled := config.enabled
  schedule := config.schedule
  plugins := config.plugins
  minSeverity := config.minSeverity
  storage := kept.storage
  notifications :=
    ⟨config.notifications.notifyMinSeverity, kept.notifyMode, emailOf kept.email config.notifications.email,
      ⟨config.notifications.webhooks.enabled, endpoints⟩⟩

theorem merged_storage (old : Table) (config : SchedulerUiConfig) : merged old config "storage".toList = old "storage".toList := by
  rw [merged, webhooksPath, Table.editAt_ne _ (by decide)]
  exact Table.atop_none rfl

theorem readScheduler_merged (old : Table) (config : SchedulerUiConfig) :
    daemon.readScheduler (.table (merged old config)) = (daemon.readKept old).bind fun kept =>
      (endpointsOf config.notifications.webhooks).map fun endpoints => assembled kept endpoints config := by
  change (do
    let enabled ← fieldOr false Value.boolean? (merged old config) "enabled".toList
    let schedule ← fieldOr "0 0 2 * * *".toList Value.string? (merged old config) "schedule".toList
    let plugins ← fieldOr [] Value.strings? (merged old config) "plugins".toList
    let minSeverity ← fieldOr "medium".toList Value.string? (merged old config) "min_severity".toList
    let storage ← fieldOr daemon.storageDefault daemon.readStorage (merged old config) "storage".toList
    let notifications ← fieldOr NotificationConfig.default daemon.readNotifications (merged old config) "notifications".toList
    return SchedulerConfig.mk enabled schedule plugins minSeverity storage notifications) = _
  rw [Table.fieldOr_some (merged_leaf old config "enabled".toList rfl rfl (by decide)),
    Table.fieldOr_some (merged_leaf old config "schedule".toList rfl rfl (by decide)),
    Table.fieldOr_some (merged_leaf old config "plugins".toList rfl rfl (by decide)),
    Table.fieldOr_some (merged_leaf old config "min_severity".toList rfl rfl (by decide)),
    Table.fieldOr_congr (merged_storage old config), Table.fieldOr_some (merged_notifications old config),
    readNotifications_merged, strings, Value.strings?_array, readKept]
  cases fieldOr daemon.storageDefault daemon.readStorage old "storage".toList <;>
    cases fieldOr NotifyMode.findings readNotifyMode (old.sub "notifications".toList) "notify_mode".toList <;>
    cases readKeptEmail ((old.sub "notifications".toList).sub "email".toList) <;>
    cases @endpointsOf Headers config.notifications.webhooks <;> rfl

/-- The formats that the daemon knows, and none chosen. -/
def knownFormats : List Chars := [[], "generic".toList, "slack".toList, "discord".toList]

theorem readFormat_isSome (format : Chars) :
    (readFormat (.string (if format = [] then defaultWebhookFormat else format))).isSome ↔ format ∈ knownFormats := by
  unfold readFormat knownFormats
  by_cases hnone : format = []
  · subst hnone
    exact ⟨fun _ => List.mem_cons_self, fun _ => rfl⟩
  · rw [if_neg hnone]
    change (if format = "generic".toList then some WebhookFormat.generic
      else if format = "slack".toList then some .slack else if format = "discord".toList then some .discord else none).isSome ↔ _
    rw [List.mem_cons, List.mem_cons, List.mem_cons, List.mem_singleton]
    split <;> rename_i hgeneric
    · simp [hgeneric]
    · split <;> rename_i hslack
      · simp [hslack]
      · split <;> rename_i hdiscord
        · simp [hdiscord]
        · exact ⟨nofun, fun h => h.elim (absurd · hnone) fun h => h.elim (absurd · hgeneric) fun h => h.elim (absurd · hslack) (absurd · hdiscord)⟩

theorem endpointsOf_eq (config : WebhookUiConfig) : @endpointsOf Headers config =
    if config.url = [] then some []
    else (readFormat (.string (if config.format = [] then defaultWebhookFormat else config.format))).map fun format =>
      [⟨desktopEndpointName, config.url, format, none⟩] := by
  rw [endpointsOf, WebhookUiConfig.endpoints]
  by_cases hurl : config.url = []
  · rw [if_pos hurl, if_pos hurl]
    rfl
  · rw [if_neg hurl, if_neg hurl, List.mapM_cons, List.mapM_nil]
    cases readFormat (.string (if config.format = [] then defaultWebhookFormat else config.format)) <;> rfl

theorem endpointsOf_isSome (config : WebhookUiConfig) :
    (@endpointsOf Headers config).isSome ↔ config.url = [] ∨ config.format ∈ knownFormats := by
  rw [endpointsOf_eq]
  by_cases hurl : config.url = []
  · rw [if_pos hurl]
    exact ⟨fun _ => .inl hurl, fun _ => rfl⟩
  · rw [if_neg hurl, Option.isSome_map, readFormat_isSome]
    exact ⟨.inr, fun h => h.resolve_left hurl⟩

/-- The daemon's endpoint is the form's URL, under the desktop's name and with no header. -/
theorem url_of_endpointsOf {config : WebhookUiConfig} {endpoints : List (WebhookEndpoint Headers)}
    (h : endpointsOf config = some endpoints) : endpoints.map (·.url) = if config.url = [] then [] else [config.url] := by
  rw [endpointsOf_eq] at h
  by_cases hurl : config.url = []
  · rw [if_pos hurl] at h ⊢
    cases h
    rfl
  · rw [if_neg hurl] at h ⊢
    obtain ⟨format, -, rfl⟩ := Option.map_eq_some_iff.mp h
    rfl

end Daemon

/-! ## What stays -/

theorem webhooks_at (config : SchedulerUiConfig) :
    Table.TableAt webhooksPath config.toTable config.notifications.webhooks.toWire.toTable :=
  ⟨config.notifications.toTable, rfl, _, rfl, rfl⟩

theorem eraseFlatKeys_empty : eraseFlatKeys Table.empty = Table.empty := by
  rw [eraseFlatKeys, Table.erase_empty, Table.erase_empty]

theorem merged_kept (old : Table) (config : SchedulerUiConfig) {q : List Chars} (hlacks : config.toTable.Lacks q)
    (hurl : ¬ webhooksPath ++ ["url".toList] <+: q) (hformat : ¬ webhooksPath ++ ["format".toList] <+: q) :
    valueAt (merged old config) q = valueAt old q := by
  rw [merged, Table.valueAt_editAt (webhooks_at config) hlacks eraseFlatKeys_empty, Table.valueAt_atop hlacks]
  intro rest hq t
  subst hq
  have hrest : ∀ key, ¬ webhooksPath ++ [key] <+: webhooksPath ++ rest → ¬ [key] <+: rest :=
    fun key h hkey => h ((List.prefix_append_right_inj webhooksPath).mpr hkey)
  rw [eraseFlatKeys, valueAt_erase (hrest _ hformat), valueAt_erase (hrest _ hurl)]

theorem eraseFlatKeys_eraseFlatKeys (t : Table) : eraseFlatKeys (eraseFlatKeys t) = eraseFlatKeys t := by
  unfold eraseFlatKeys
  rw [Table.erase_comm "format".toList "url".toList, Table.erase_erase, Table.erase_erase]

theorem merged_merged (old : Table) (config : SchedulerUiConfig) : merged (merged old config) config = merged old config := by
  have hatop : ∀ t, config.notifications.webhooks.toWire.toTable.atop (eraseFlatKeys t) =
      eraseFlatKeys (config.notifications.webhooks.toWire.toTable.atop t) := by
    intro t
    rw [eraseFlatKeys, Table.atop_erase rfl, Table.atop_erase rfl, eraseFlatKeys]
  calc merged (merged old config) config
      = Table.editAt eraseFlatKeys webhooksPath (Table.editAt eraseFlatKeys webhooksPath (config.toTable.atop (config.toTable.atop old))) := by
        rw [merged, merged, Table.atop_editAt (webhooks_at config) eraseFlatKeys_empty hatop]
    _ = merged old config := by
        rw [Table.editAt_editAt eraseFlatKeys_eraseFlatKeys, Table.atop_atop, merged]

/-! ## The text that is written -/

theorem write_ok {toml : Library} {existing text : Chars} {config : SchedulerUiConfig}
    (h : writeSchedulerConfig toml existing config = .ok text) :
    ∃ d rest block, toml.parse existing = .ok d ∧ toml.remove existing "scheduler".toList = .ok rest ∧
      toml.pretty (.of [("scheduler".toList, .table (merged (sectionOf d) config))]) = .ok block ∧ text = rest ++ '\n' :: block := by
  rw [writeSchedulerConfig] at h
  cases hremove : toml.remove existing "scheduler".toList with
  | error e =>
    rw [hremove] at h
    cases h
  | ok rest =>
    rw [hremove] at h
    obtain ⟨rendered, hrender, htext⟩ := bind_eq_ok.mp h
    rw [renderSchedulerSection] at hrender
    obtain ⟨held, hheld, hpretty⟩ := bind_eq_ok.mp hrender
    rw [existingSchedulerTable] at hheld
    cases hparse : toml.parse existing with
    | error e =>
      rw [hparse] at hheld
      cases hheld
    | ok d =>
      rw [hparse] at hheld
      cases hheld
      have hmerged : dropSupersededWebhookKeys (Toml.overlay (.table (sectionOf d)) (.table config.toTable)) =
          .table (merged (sectionOf d) config) := by
        rw [Table.overlay_table]
        rfl
      dsimp only at hpretty
      rw [hmerged] at hpretty
      cases hblock : toml.pretty (.of [("scheduler".toList, .table (merged (sectionOf d) config))]) with
      | error e =>
        rw [hblock] at hpretty
        cases hpretty
      | ok block =>
        rw [hblock] at hpretty
        cases hpretty
        cases htext
        exact ⟨d, rest, block, rfl, rfl, hblock, rfl⟩

theorem save_ok {toml : Library} {existing text : Chars} {config : SchedulerUiConfig}
    (h : saveSchedulerConfig toml existing config = .ok text) : writeSchedulerConfig toml existing config = .ok text := by
  obtain ⟨-, -, h⟩ := bind_eq_ok.mp h
  obtain ⟨-, -, h⟩ := bind_eq_ok.mp h
  obtain ⟨-, -, h⟩ := bind_eq_ok.mp h
  obtain ⟨-, -, h⟩ := bind_eq_ok.mp h
  obtain ⟨-, -, h⟩ := bind_eq_ok.mp h
  obtain ⟨-, -, h⟩ := bind_eq_ok.mp h
  exact h

/-- The document after a save. -/
def savedDocument (d : Table) (config : SchedulerUiConfig) : Table :=
  (d.erase "scheduler".toList).insert "scheduler".toList (.table (merged (sectionOf d) config))

theorem parse_saved {toml : Library} (lawful : toml.Lawful) {existing text : Chars} {config : SchedulerUiConfig}
    (h : saveSchedulerConfig toml existing config = .ok text) :
    ∃ d, toml.parse existing = .ok d ∧ toml.parse text = .ok (savedDocument d config) := by
  obtain ⟨d, rest, block, hparse, hremove, hpretty, rfl⟩ := write_ok (save_ok h)
  exact ⟨d, hparse, lawful.parse_append (lawful.parse_remove hparse hremove) Table.erase_self hpretty⟩

theorem savedDocument_section (d : Table) (config : SchedulerUiConfig) :
    savedDocument d config "scheduler".toList = some (.table (merged (sectionOf d) config)) := Table.insert_self

theorem sectionOf_savedDocument (d : Table) (config : SchedulerUiConfig) :
    sectionOf (savedDocument d config) = merged (sectionOf d) config :=
  Table.sub_table (savedDocument_section d config)

theorem savedDocument_other (d : Table) (config : SchedulerUiConfig) {key : Chars} (h : key ≠ "scheduler".toList) :
    savedDocument d config key = d key := by
  rw [savedDocument, Table.insert_ne h, Table.erase_ne h]

theorem savedDocument_again (d : Table) (config : SchedulerUiConfig) : savedDocument (savedDocument d config) config = savedDocument d config := by
  funext key
  by_cases hkey : key = "scheduler".toList
  · rw [hkey, savedDocument_section, savedDocument_section, sectionOf_savedDocument, merged_merged]
  · rw [savedDocument_other _ config hkey]

/-- What a save makes of a document. -/
structure SaveMerges (toml : Library) (config : SchedulerUiConfig) (document saved : Table) (text : Chars) : Prop where
  sections : ∀ key, key ≠ "scheduler".toList → saved key = document key
  kept : ∀ q, config.toTable.Lacks q → ¬ webhooksPath ++ ["url".toList] <+: q → ¬ webhooksPath ++ ["format".toList] <+: q →
    valueAt (sectionOf saved) q = valueAt (sectionOf document) q
  endpoints : valueAt (sectionOf saved) (webhooksPath ++ ["endpoints".toList]) =
    some (.array (config.notifications.webhooks.endpoints.map fun endpoint => .table endpoint.toTable))
  flat : valueAt (sectionOf saved) (webhooksPath ++ ["url".toList]) = none ∧
    valueAt (sectionOf saved) (webhooksPath ++ ["format".toList]) = none
  form : getSchedulerConfig toml text = .ok config.stored
  again : ∀ text', saveSchedulerConfig toml text config = .ok text' → toml.parse text' = .ok saved
  daemonReads : ∀ {Headers : Type} (daemon : Daemon Headers),
    ((saved "scheduler".toList).bind daemon.readScheduler).isSome ↔
      (daemon.readKept (sectionOf document)).isSome ∧
        (config.notifications.webhooks.url = [] ∨ config.notifications.webhooks.format ∈ Daemon.knownFormats)
  daemonSame : ∀ {Headers : Type} (daemon : Daemon Headers) (settings : SchedulerConfig Headers),
    (saved "scheduler".toList).bind daemon.readScheduler = some settings →
      settings.enabled = config.enabled ∧ settings.schedule = config.schedule ∧ settings.plugins = config.plugins ∧
      settings.minSeverity = config.minSeverity ∧ settings.notifications.notifyMinSeverity = config.notifications.notifyMinSeverity ∧
      settings.notifications.webhooks.enabled = config.notifications.webhooks.enabled ∧
      settings.notifications.webhooks.endpoints.map (·.url) =
        if config.notifications.webhooks.url = [] then [] else [config.notifications.webhooks.url]

/-- A first schedule, saved where there was no configuration. -/
def firstForm : SchedulerUiConfig :=
  ⟨true, "0 30 4 * * *".toList, [], "medium".toList,
    ⟨"high".toList, ⟨false, [], []⟩, ⟨true, "https://hooks.example/x".toList, "slack".toList⟩⟩⟩

def firstBlock : Chars :=
  ("[scheduler]\nenabled = true\nschedule = \"0 30 4 * * *\"\nplugins = []\nmin_severity = \"medium\"\n\n" ++
    "[scheduler.notifications]\nnotify_min_severity = \"high\"\n\n" ++
    "[scheduler.notifications.email]\nenabled = false\nrecipients = []\nfrom_address = \"\"\n\n" ++
    "[scheduler.notifications.webhooks]\nenabled = true\n\n[[scheduler.notifications.webhooks.endpoints]]\n" ++
    "name = \"desktop\"\nurl = \"https://hooks.example/x\"\nformat = \"slack\"\n").toList

/-- What the libraries make of the two texts that a first save has to do with: none, and a block
alone. -/
def firstParse (saved : Table) (block text : Chars) : Except Chars Table :=
  if text = [] then .ok Table.empty else if text = '\n' :: block then .ok saved else .error []

def firstRemove (block text key : Chars) : Except Chars Chars :=
  if text = [] ∨ text = '\n' :: block ∧ key = "scheduler".toList then .ok [] else .error []

open Classical in
noncomputable def firstPretty (printed : Table) (block : Chars) (t : Table) : Except Chars Chars :=
  if t = printed then .ok block else .error []

def firstSection (form : SchedulerUiConfig) : Table := .of [("scheduler".toList, .table (merged Table.empty form))]

noncomputable def firstLibrary (block : Chars) (form : SchedulerUiConfig) : Library where
  parse := firstParse (savedDocument Table.empty form) block
  remove := firstRemove block
  pretty := firstPretty (firstSection form) block
  mistyped _ := []

section

variable {saved printed t : Table} {block text key printed' : Chars} {form : SchedulerUiConfig}

theorem firstParse_eq_ok : firstParse saved block text = .ok t ↔ text = [] ∧ t = Table.empty ∨ text = '\n' :: block ∧ t = saved := by
  rw [firstParse]
  split
  · next htext =>
    subst htext
    exact ⟨fun h => .inl ⟨rfl, (Except.ok.inj h).symm⟩, fun h => by rcases h with ⟨-, rfl⟩ | ⟨h, -⟩ <;> first | rfl | cases h⟩
  · next hne =>
    split
    · next htext => exact ⟨fun h => .inr ⟨htext, (Except.ok.inj h).symm⟩, fun h => by rw [(h.resolve_left fun h => hne h.1).2]⟩
    · next hne' => exact ⟨nofun, fun h => (h.elim (fun h => hne h.1) fun h => hne' h.1).elim⟩

theorem firstRemove_eq_ok {rest : Chars} :
    firstRemove block text key = .ok rest ↔ (text = [] ∨ text = '\n' :: block ∧ key = "scheduler".toList) ∧ rest = [] := by
  rw [firstRemove]
  split
  · next h => exact ⟨fun hrest => ⟨h, (Except.ok.inj hrest).symm⟩, fun hrest => by rw [hrest.2]⟩
  · next h => exact ⟨nofun, fun hrest => absurd hrest.1 h⟩

theorem firstPretty_eq_ok : firstPretty printed block t = .ok printed' ↔ t = printed ∧ printed' = block := by
  rw [firstPretty]
  split
  · next h => exact ⟨fun hblock => ⟨h, (Except.ok.inj hblock).symm⟩, fun hblock => by rw [hblock.2]⟩
  · next h => exact ⟨nofun, fun hblock => absurd hblock.1 h⟩

theorem firstLibrary_parse :
    (firstLibrary block form).parse text = .ok t ↔
      text = [] ∧ t = Table.empty ∨ text = '\n' :: block ∧ t = savedDocument Table.empty form := firstParse_eq_ok

theorem firstLibrary_remove {rest : Chars} : (firstLibrary block form).remove text key = .ok rest ↔
    (text = [] ∨ text = '\n' :: block ∧ key = "scheduler".toList) ∧ rest = [] := firstRemove_eq_ok

theorem firstLibrary_pretty : (firstLibrary block form).pretty t = .ok printed' ↔ t = firstSection form ∧ printed' = block :=
  firstPretty_eq_ok

theorem firstLibrary_lawful : (firstLibrary block form).Lawful := by
  constructor
  case parse_remove =>
    intro text key rest d hparse hremove
    obtain ⟨hcase, rfl⟩ := firstLibrary_remove.mp hremove
    refine firstLibrary_parse.mpr (.inl ⟨rfl, ?_⟩)
    rcases firstLibrary_parse.mp hparse with ⟨htext, rfl⟩ | ⟨htext, rfl⟩
    · exact Table.erase_empty key
    · obtain ⟨-, rfl⟩ := hcase.resolve_left fun hnil => List.cons_ne_nil _ _ (htext.symm.trans hnil)
      rw [savedDocument, Table.erase_insert, Table.erase_empty, Table.erase_empty]
  case parse_append =>
    intro text key printed d t hparse hkey hpretty
    obtain ⟨hsection, rfl⟩ := firstLibrary_pretty.mp hpretty
    obtain ⟨rfl, htable⟩ := Table.of_single_inj hsection
    cases htable
    rcases firstLibrary_parse.mp hparse with ⟨rfl, rfl⟩ | ⟨-, rfl⟩
    · refine firstLibrary_parse.mpr (.inr ⟨rfl, ?_⟩)
      rw [savedDocument, Table.erase_empty]
      rfl
    · rw [savedDocument_section] at hkey
      cases hkey

theorem firstLibrary_write : writeSchedulerConfig (firstLibrary block form) [] form = .ok ('\n' :: block) := by
  have hparse : (firstLibrary block form).parse [] = .ok Table.empty := firstLibrary_parse.mpr (.inl ⟨rfl, rfl⟩)
  have hremove : (firstLibrary block form).remove [] "scheduler".toList = .ok [] := firstLibrary_remove.mpr ⟨.inl rfl, rfl⟩
  have hpretty : (firstLibrary block form).pretty (firstSection form) = .ok block := firstLibrary_pretty.mpr ⟨rfl, rfl⟩
  have hmerged : dropSupersededWebhookKeys (Toml.overlay (.table (sectionOf Table.empty)) (.table form.toTable)) =
      .table (merged Table.empty form) := by
    rw [Table.overlay_table]
    rfl
  have hheld : existingSchedulerTable (firstLibrary block form) [] = .ok (.table (sectionOf Table.empty)) := by
    rw [existingSchedulerTable, hparse]
  have hrender : renderSchedulerSection (firstLibrary block form) form [] = .ok ('\n' :: block) := by
    refine bind_eq_ok.mpr ⟨_, hheld, ?_⟩
    dsimp only
    rw [hmerged, ← firstSection, hpretty]
  rw [writeSchedulerConfig, hremove]
  exact bind_eq_ok.mpr ⟨_, hrender, rfl⟩

end

theorem save_of_write {toml : Library} {existing text : Chars} (h : writeSchedulerConfig toml existing firstForm = .ok text) :
    saveSchedulerConfig toml existing firstForm = .ok text := h

/-- A section with a webhook written by hand, which the form shows with its URL and format. -/
def pagerEndpoint : Table :=
  .of [("name".toList, .string "pager".toList), ("url".toList, .string "https://hooks.example/x".toList),
    ("format".toList, .string "slack".toList),
    ("headers".toList, .table (Table.of [("Authorization".toList, .string "Bearer x".toList)]))]

def pagerSection : Table :=
  .of [("notifications".toList, .table (Table.of [("webhooks".toList, .table (Table.of
    [("enabled".toList, .boolean true), ("endpoints".toList, .array [.table pagerEndpoint])]))]))]

end LinuxHardener.Desktop.Scheduler
