import LinuxHardener.Audit.Rules
import LinuxHardener.Core.Plugin

/-
  The audit plugin's apply, and the reload it ends in.

  Correspondence (Rust ↔ Lean):
    `probe_auditd`, `is_auditd_enabled`, `is_auditd_running`, `write_audit_rules_file`,
      `set_audit_rules_mode`, `reload_audit_rules`, `is_audit_config_immutable` ↔ the same in camel case
    `AuditHardeningPlugin::apply` ↔ `applyPlugin`, cut into `enablePhase`, `startPhase` and `rulesPhase`

  The time and the nonce in a backup's name are the parameter `stamp`.
-/
namespace LinuxHardener.Audit

open LineText Plugins Dialogue
open Core (ApplyResult joinFailureReasons)

/-! ## auditd -/

inductive AuditdPresence where
  | installed
  | absent
  | indeterminate (reason : Chars)
  deriving DecidableEq, Repr

def probeAuditd : Session AuditdPresence := do
  match ← commandExists "auditd" with
  | .ok true => return .installed
  | .ok false => return .absent
  | .error e => return .indeterminate e

def isAuditdEnabled : Session (Except Chars Bool) := do
  match ← execute "systemctl" ["is-enabled", "auditd"] with
  | .error e => return .error e
  | .ok output => return .ok (LineText.trim output.stdout == "enabled".toList)

def isAuditdRunning : Session (Except Chars Bool) := do
  match ← execute "systemctl" ["is-active", "auditd"] with
  | .error e => return .error e
  | .ok output => return .ok output.success

/-- `systemctl verb auditd`, and what is reported of it. -/
def askSystemctl (verb done failed error : Chars) : Session (List Change) := do
  match ← execute "systemctl" [verb, "auditd"] with
  | .ok output => return [if output.success then .made .service done else .failed .service failed error]
  | .error _ => return [.failed .service failed error]

def enablePhase : Session (List Change) := do
  match ← isAuditdEnabled with
  | .ok true => return []
  | _ => askSystemctl "enable" "Enabled auditd service" "Failed to enable auditd service" "systemctl enable failed"

def startPhase : Session (List Change) := do
  match ← isAuditdRunning with
  | .ok true => return []
  | _ => askSystemctl "start" "Started auditd service" "Failed to start auditd" "systemctl start failed"

/-! ## The rules file -/

def auditBackupStem : Chars := auditRulesPath ++ ".backup.".toList

/-- A copy of what may stand at the rules path; only a confirmed absence needs none. -/
def backUpRulesFile (stamp : Chars) : Session (Except Chars (Option Chars)) := do
  match ← pathExists auditRulesPath with
  | .ok false => return .ok none
  | _ =>
    match ← execute "cp" ["-p", "--no-dereference", auditRulesPath, auditBackupStem ++ stamp] with
    | .error e => return .error e
    | .ok output =>
      if output.success then
        pruneTimestampedBackups auditBackupStem backupsKept
        return .ok (some (auditBackupStem ++ stamp))
      else
        return .error ("Plugin error: Failed to back up ".toList ++ auditRulesPath ++ " to ".toList ++ auditBackupStem ++ stamp ++
          ": cp exited ".toList ++ (toString output.exitCode).toList ++ " (".toList ++ LineText.trim output.stderr ++ [')'])

def writeAuditRulesFile (stamp content : Chars) : Session (Except Chars (Option Chars)) := do
  match ← backUpRulesFile stamp with
  | .error e => return .error e
  | .ok backup =>
    match ← writeFile auditRulesPath content with
    | .error e => return .error e
    | .ok () => return .ok backup

def auditRulesMode : Chars := "0640"

def modeFailure (reason : Chars) : Change :=
  .failed .configFile
    ("Wrote ".toList ++ auditRulesPath ++ " but could not set its mode to ".toList ++ auditRulesMode ++
      "; the rules are in force and the file is readable more widely than intended".toList)
    reason

def setAuditRulesMode : Session (List Change) := do
  match ← execute "chmod" [auditRulesMode, auditRulesPath] with
  | .ok output =>
    if output.success then return []
    else
      return [modeFailure ("chmod exited ".toList ++ (toString output.exitCode).toList ++ ": ".toList ++
        LineText.trim output.stderr)]
  | .error e => return [modeFailure e]

/-- The write, unless the directory could not be made. -/
def attemptWrite (stamp content : Chars) (rulesDirError : Option Chars) : Session (Except Chars (Option Chars)) :=
  match rulesDirError with
  | some reason => return .error reason
  | none => writeAuditRulesFile stamp content

def writePhase (stamp content : Chars) (rulesDirError : Option Chars) : Session (List Change) := do
  match ← attemptWrite stamp content rulesDirError with
  | .error reason => return [.failed .configFile "Failed to write audit rules" reason]
  | .ok backup =>
    let description : Chars :=
      match backup with
      | some path => "Created audit rules file (backup: ".toList ++ path ++ [')']
      | none => "Created audit rules file (no previous file to back up)"
    let mode ← setAuditRulesMode
    return .made .configFile description :: mode

/-! ## The reload -/

def reloadFailure (flushed : Bool) : Chars :=
  "Plugin error: Failed to reload audit rules (augenrules --load and systemctl restart both failed)".toList ++
    if flushed then
      ("; the kernel rule set was flushed before the failed retry, so audit " ++
        "rules may currently be unloaded: reload them with " ++ "`auditctl -R /etc/audit/audit.rules` or reboot").toList
    else "; previously loaded audit rules are still active".toList

/-- The last resort. -/
def restartAuditd (flushed : Bool) : Session (Except Chars Unit) := do
  match ← execute "systemctl" ["restart", "auditd"] with
  | .error e => return .error e
  | .ok output => if output.success then return .ok () else return .error (reloadFailure flushed)

def saysRuleExists (output : CommandOutput) : Bool :=
  contains output.stdout "Rule exists" || contains output.stderr "Rule exists"

/-- Loads once more behind a flush. -/
def retryFlushed : Session (Except Chars Unit) := do
  let _ ← execute "auditctl" ["-D"]
  match ← execute "augenrules" ["--load"] with
  | .error e => return .error e
  | .ok retry => if retry.success then return .ok () else restartAuditd true

def reloadAuditRules : Session (Except Chars Unit) := do
  match ← commandExists "augenrules" with
  | .ok true =>
    match ← execute "augenrules" ["--load"] with
    | .error e => return .error e
    | .ok output =>
      if output.success then return .ok ()
      else if saysRuleExists output then retryFlushed
      else restartAuditd false
  | _ => restartAuditd false

def isAuditConfigImmutable : Session Bool := do
  match ← execute "auditctl" ["-s"] with
  | .error _ => return false
  | .ok output =>
    return output.success && (lines output.stdout).any fun line => words line == ["enabled".toList, "2".toList]

def lockedChange : Change :=
  .made .skipped
    ("Audit rule reload skipped: config is locked " ++
      "(-e 2); a reboot is required for rule changes to take effect").toList

def loadedChange : Change := .made .service "Loaded audit rules into running daemon"

def reloadPhase : Session (List Change) := do
  match ← reloadAuditRules with
  | .ok () => return [loadedChange]
  | .error e =>
    let immutable ← isAuditConfigImmutable
    return [if immutable then lockedChange else .failed .service "Failed to reload audit rules" e]

/-! ## The apply -/

def upToDateChange : Change := .made .skipped "Audit rules already up to date - unchanged"

def writeAndReload (stamp content : Chars) (rulesDirError : Option Chars) : Session (List Change) := do
  let written ← writePhase stamp content rulesDirError
  let reloaded ← reloadPhase
  return written ++ reloaded

/-- Writes and reloads, unless the file on disk is the wanted one already. -/
def rulesPhase (config : PluginConfig) (stamp : Chars) (rulesDirError : Option Chars) : Session (List Change) := do
  match ← readFile auditRulesPath with
  | .ok current =>
    if current = (renderedRulesFile config).1 then return [upToDateChange]
    else writeAndReload stamp (renderedRulesFile config).1 rulesDirError
  | .error _ => writeAndReload stamp (renderedRulesFile config).1 rulesDirError

def skippedChange (config : PluginConfig) (category : Chars) : Change :=
  .made .skipped ("Audit category ".toList ++ category ++ ": skipped (exception: ".toList ++
    ((config.hasValidException category).elim [] PolicyException.reason) ++ [')'])

def auditCheckpointPaths : List Chars :=
  ["/etc/audit/auditd.conf", auditRulesDir, auditRulesPath, "/etc/audit/audit.rules", "/etc/audit/audit.rules.prev"]

/-- What an apply reports of its changes. -/
def resultOf (changes : List Change) (checkpointId : Option Chars) : ApplyResult where
  pluginId := ⟨"audit-hardening"⟩
  success := changes.all Change.success
  changes := changes
  checkpointId := checkpointId
  error := if changes.all Change.success then none else (joinFailureReasons changes).or (some "Some changes failed".toList)

def refusalResult (description error applyError : Chars) : ApplyResult where
  pluginId := ⟨"audit-hardening"⟩
  success := false
  changes := [.failed .service description error]
  checkpointId := none
  error := some applyError

/-- The changes themselves, behind the checkpoint. -/
def changesPhase (config : PluginConfig) (stamp : Chars) (rulesDirError : Option Chars) : Session (List Change) := do
  let enabled ← enablePhase
  let started ← startPhase
  let rules ← rulesPhase config stamp rulesDirError
  return enabled ++ started ++ (renderedRulesFile config).2.map (skippedChange config) ++ rules

/-- An apply on a host that has auditd. -/
def applyInstalled (ctx : Context) (config : PluginConfig) (stamp : Chars) : Session (Except Chars ApplyResult) := do
  let rulesDirError ← ensureDirectory auditRulesDir
  pruneTimestampedBackups auditBackupStem backupsKept
  match ← createCheckpointForApply ctx "audit-hardening-pre-apply" auditCheckpointPaths with
  | .error e => return .error e
  | .ok id =>
    let changes ← changesPhase config stamp rulesDirError
    return .ok (resultOf (checkpointChange id ++ changes) id)

def applyPlugin (ctx : Context) (config : PluginConfig) (stamp : Chars) : Session (Except Chars ApplyResult) := do
  match ← probeAuditd with
  | .installed => applyInstalled ctx config stamp
  | .absent =>
    return .ok (refusalResult "Auditd not installed - cannot apply rules" "auditd package not found" "Auditd is not installed")
  | .indeterminate reason =>
    return .ok (refusalResult "Could not determine whether auditd is installed - not applying rules"
      ("probing for auditd failed: ".toList ++ reason) "Whether auditd is installed could not be determined")

end LinuxHardener.Audit
