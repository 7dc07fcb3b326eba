import LinuxHardener.Core.Plugin

/-
  The services plugin's apply and preview.

  Correspondence (Rust ↔ Lean):
    `UNNECESSARY_SERVICES`, by name      ↔ `unnecessaryServices`
    `unit_name`, `mask_link_paths`       ↔ `unitName`, `maskLinkPaths`
    `is_service_exists`, `is_service_enabled`, `is_service_active` ↔ the same in camel case
    `stop_service`, `disable_service`, `mask_service` ↔ the same in camel case, each `systemctl` with its verb
    `ServicesHardeningPlugin::apply`     ↔ `applyPlugin`, one round of its loop `applyService`
    `ServicesHardeningPlugin::validate`  ↔ `validate`, one round of its loop `previewService`
-/
namespace LinuxHardener.Services

open LineText Plugins Dialogue
open Core (ApplyResult ValidationIssue ValidationReport exceptionPreviewLine)

def unnecessaryServices : List Chars :=
  ["bluetooth".toList, "cups".toList, "avahi-daemon".toList, "ModemManager".toList, "xinetd".toList]

def adminUnitDir : Chars := "/etc/systemd/system"

def unitName (service : Chars) : Chars := service ++ ".service".toList

def maskLinkPaths (services : List Chars) : List Chars := services.map fun s => adminUnitDir ++ '/' :: unitName s

/-! ## Probes -/

/-- Whether a listing names the unit. -/
def listedResult (service : Chars) : Except Chars CommandOutput → Except Chars Bool
  | .error e => .error e
  | .ok output => .ok (contains output.stdout (unitName service))

def isServiceExists (service : Chars) : Session (Except Chars Bool) := do
  return listedResult service (← execute "systemctl" ["list-unit-files", unitName service])

/-- The exit status alone. -/
def statusResult : Except Chars CommandOutput → Except Chars Bool
  | .error e => .error e
  | .ok output => .ok output.success

def systemctlSays (verb service : Chars) : Session (Except Chars Bool) := do
  return statusResult (← execute "systemctl" [verb, service])

def isServiceEnabled : Chars → Session (Except Chars Bool) := systemctlSays "is-enabled"

def isServiceActive : Chars → Session (Except Chars Bool) := systemctlSays "is-active"

/-- `unwrap_or(false)` -/
def unwrapOrFalse : Except Chars Bool → Bool
  | .ok b => b
  | .error _ => false

/-! ## Commands -/

/-- The text names `stop` whatever the verb was. -/
def commandResult (service : Chars) : Except Chars CommandOutput → Except Chars Unit
  | .error e => .error e
  | .ok output =>
    if output.success then .ok ()
    else .error ("Plugin error: systemctl stop ".toList ++ service ++ " failed: ".toList ++ LineText.trim output.stderr)

def systemctl (verb service : Chars) : Session (Except Chars Unit) := do
  return commandResult service (← execute "systemctl" [verb, service])

def stopService : Chars → Session (Except Chars Unit) := systemctl "stop"

def disableService : Chars → Session (Except Chars Unit) := systemctl "disable"

def maskService : Chars → Session (Except Chars Unit) := systemctl "mask"

/-- What is reported of a command. -/
def serviceChange (done failed service : Chars) : Except Chars Unit → Change
  | .ok () => .made .service (done ++ service)
  | .error e => .failed .service (failed ++ service) e

def stopChange : Chars → Except Chars Unit → Change := serviceChange "Stopped service " "Failed to stop service "

def disableChange : Chars → Except Chars Unit → Change := serviceChange "Disabled service " "Failed to disable service "

def maskChange : Chars → Except Chars Unit → Change := serviceChange "Masked service " "Failed to mask service "

def skippedChange (service reason : Chars) : Change :=
  .made .skipped (service ++ ": skipped (exception: ".toList ++ reason ++ [')'])

/-! ## Apply -/

def installedServices (services : List Chars) : Session (List Chars) := do
  let found ← services.mapM isServiceExists
  return (services.zip found).filterMap fun (service, listed) => if unwrapOrFalse listed then some service else none

def disableIfEnabled (service : Chars) (isEnabled : Bool) : Session (List Change) :=
  if isEnabled then do return [disableChange service (← disableService service)] else return []

/-- Disables and masks; a running service has been stopped before. -/
def disableAndMask (service : Chars) (isEnabled : Bool) : Session (List Change) := do
  let disabled ← disableIfEnabled service isEnabled
  let masked ← maskService service
  return disabled ++ [maskChange service masked]

def applyService (config : PluginConfig) (service : Chars) : Session (List Change) :=
  match config.hasValidException service with
  | some exception => return [skippedChange service exception.reason]
  | none => do
    let isEnabled := unwrapOrFalse (← isServiceEnabled service)
    let isActive := unwrapOrFalse (← isServiceActive service)
    if !isEnabled && !isActive then return []
    else if isActive then
      match ← stopService service with
      | .error e => return [stopChange service (.error e)]
      | .ok () => return stopChange service (.ok ()) :: (← disableAndMask service isEnabled)
    else disableAndMask service isEnabled

def applyServices (config : PluginConfig) (services : List Chars) : Session (List Change) := do
  let changes ← services.mapM (applyService config)
  return changes.flatten

def pluginId : Compliance.PluginId := ⟨"service-minimisation"⟩

def resultOf (changes : List Change) (checkpointId : Option Chars) : ApplyResult where
  pluginId := pluginId
  success := changes.all Change.success
  changes := changes
  checkpointId := checkpointId
  error := none

def applyPlugin (ctx : Context) (config : PluginConfig) : Session (Except Chars ApplyResult) := do
  let installed ← installedServices unnecessaryServices
  match ← createCheckpointForApply ctx "service-minimisation-pre-apply" (adminUnitDir :: maskLinkPaths installed) with
  | .error e => return .error e
  | .ok id =>
    let changes ← applyServices config installed
    return .ok (resultOf (checkpointChange id ++ changes) id)

/-! ## Preview -/

structure Preview where
  estimatedChanges : List Chars
  exceptions : List Chars
  deriving DecidableEq, Repr

def announcement (service : Chars) : Chars := "Disable and mask service: ".toList ++ service

def previewService (config : PluginConfig) (service : Chars) : Session Preview := do
  if unwrapOrFalse (← isServiceExists service) then
    match config.hasValidException service with
    | some exception => return ⟨[], [exceptionPreviewLine service "unchanged" exception.reason]⟩
    | none =>
      let isEnabled := unwrapOrFalse (← isServiceEnabled service)
      let isActive := unwrapOrFalse (← isServiceActive service)
      return ⟨if isEnabled || isActive then [announcement service] else [], []⟩
  else return ⟨[], []⟩

def previewServices (config : PluginConfig) (services : List Chars) : Session Preview := do
  let previews ← services.mapM (previewService config)
  return ⟨previews.flatMap Preview.estimatedChanges, previews.flatMap Preview.exceptions⟩

def systemctlMissing : ValidationIssue :=
  ⟨.critical, "systemctl command not found - this plugin requires systemd", none⟩

def reportOf (preview : Preview) (issues : List ValidationIssue) : ValidationReport where
  pluginId := pluginId
  isValid := issues.isEmpty
  issues := issues
  estimatedChanges := preview.estimatedChanges
  compliantCount := 0
  exceptions := preview.exceptions

def validate (config : PluginConfig) : Session (Except Chars ValidationReport) := do
  match ← commandExists "systemctl" with
  | .error e => return .error e
  | .ok true => return .ok (reportOf (← previewServices config unnecessaryServices) [])
  | .ok false => return .ok (reportOf ⟨[], []⟩ [systemctlMissing])

end LinuxHardener.Services
