import LinuxHardener.Core.Plugin
import LinuxHardener.Plugins.Backups

/-
  The apply of the SSH plugin, from what it has planned on (`ssh/apply.rs`, `ssh/dropin.rs`).

  Correspondence (Rust ↔ Lean):
    `backup_prefix`, `sshd_validate_scratch_path`, `validate_sshd_config`,
      `restart_ssh_service`, `verify_dropin_precedence` ↔ the same in camel case
    `dropin::{render, write_dropin, remove_dropin}`     ↔ `render`, `writeDropin`, `removeDropin`
    the first prune and Steps 3 to 7 of `apply`         ↔ `apply`

  Steps 1 and 2 only read: what they leave to be written is a `Plan`. The clock and the
  process id are the parameters `stamp` and `pid`; `reader` is the host as the resolver
  reads it once the fragment is written.
-/
namespace LinuxHardener.Ssh

open LineText Plugins Dialogue
open Core (ApplyResult)

/-! ## The files -/

inductive ConfigLayer where
  | admin
  | vendor
  deriving DecidableEq, Repr

def sshdAdminConfigPath : Chars := "/etc/ssh/sshd_config"

/-- The configuration in force, as the layered read names it. -/
def ConfigLayer.configPath : ConfigLayer → Chars
  | .admin => sshdAdminConfigPath
  | .vendor => "/usr/etc/ssh/sshd_config"

def dropinPath : Chars := "/etc/ssh/sshd_config.d/00-hardener.conf"

def dropinDir : Chars := "/etc/ssh/sshd_config.d"

def dropinMode : Chars := "0600"

def dropinHeader : Chars :=
  "# Managed by linux-hardener. Edits here are overwritten on the next
# apply, and this file is removed when it is no longer needed. sshd reads this
# directory before the main configuration, which is why the directives below
# live here rather than in sshd_config.
"

def backupPrefix (configPath : Chars) : Chars := configPath ++ ".backup.".toList

/-! ## The fragment -/

structure Directive where
  keyword : Chars
  value : Chars
  note : Chars
  deriving DecidableEq, Repr

/-- The fragment's content, sorted by keyword. -/
def render (directives : List Directive) : Chars :=
  (directives.insertionSort fun a b => a.keyword ≤ b.keyword).foldl
    (fun rendered directive => rendered ++ directive.keyword ++ ' ' :: (directive.value ++ ['\n'])) dropinHeader

def removeDropin : Session (Except Chars Unit) := do
  match ← pathExists dropinPath with
  | .ok false => return .ok ()
  | _ =>
    match ← execute "rm" ["-f", dropinPath] with
    | .error e => return .error ("Plugin error: Failed to remove ".toList ++ dropinPath ++ ": ".toList ++ e)
    | .ok removed =>
      if removed.success then return .ok ()
      else
        return .error ("Plugin error: Failed to remove ".toList ++ dropinPath ++ ": ".toList ++ LineText.trim removed.stderr)

/-- The fragment is written, or removed when no directive needs it. Its mode is only logged. -/
def writeDropin (directives : List Directive) : Session (Except Chars Unit) :=
  if directives = [] then removeDropin
  else do
    match ← ensureDirectory dropinDir with
    | some reason => return .error ("Plugin error: ".toList ++ reason)
    | none =>
      match ← writeFile dropinPath (render directives) with
      | .error e => return .error ("Plugin error: Failed to write ".toList ++ dropinPath ++ ": ".toList ++ e)
      | .ok () =>
        let _ ← execute "chmod" [dropinMode, dropinPath]
        return .ok ()

/-- What is reported of a directive in the fragment, by the file that now answers it. -/
def precedenceChange (mainPath : Chars) (directive : Directive) (effective : Option EffectiveValue) : Change :=
  match effective with
  | some effective =>
    if effective.source = dropinPath then
      .made .configFile (directive.keyword ++ ": set to '".toList ++ directive.value ++ "' in ".toList ++ dropinPath ++
        ", which sshd reads before ".toList ++ mainPath ++ directive.note)
    else
      .failed .configFile (directive.keyword ++ ": written to ".toList ++ dropinPath ++ " but ".toList ++ effective.source ++
        " still supplies '".toList ++ effective.value ++ "', and sshd reads it first".toList)
        ("still overridden by ".toList ++ effective.source)
  | none =>
    .failed .configFile (directive.keyword ++ ": written to ".toList ++ dropinPath ++
      " but no file supplies it, so sshd does not read that fragment".toList)
      (dropinPath ++ " is not included by ".toList ++ mainPath)

def verifyDropinPrecedence (reader : Reader) (mainPath : Chars) (directives : List Directive) (mainContent : Chars) :
    List Change :=
  match resolve reader mainPath mainContent with
  | .error e => [.failed .configFile ("Wrote ".toList ++ dropinPath ++ " but could not confirm it takes precedence".toList) e.toList]
  | .ok resolved => directives.map fun directive => precedenceChange mainPath directive (resolved.effective directive.keyword)

/-! ## The test -/

def sshdValidateScratchPath (pid : Nat) : Chars :=
  "/tmp/linux-hardener-sshd-validate-".toList ++ (toString pid).toList ++ ".conf".toList

/-- What `sshd -t` says of a copy of the candidate. Neither the copy's mode nor its removal
decides anything. -/
def validateSshdConfig (pid : Nat) (candidate : Chars) : Session (Except Chars Unit) := do
  let scratch := sshdValidateScratchPath pid
  match ← writeFile scratch candidate with
  | .error e => return .error ("Plugin error: Failed to write temp sshd_config for validation: ".toList ++ e)
  | .ok () =>
    let _ ← execute "chmod" ["600", scratch]
    let result ← execute "sshd" ["-t", "-f", scratch]
    let _ ← execute "rm" ["-f", scratch]
    match result with
    | .error e => return .error ("Plugin error: Failed to execute `sshd -t`: ".toList ++ e)
    | .ok output =>
      if output.success then return .ok ()
      else return .error ("Plugin error: sshd -t rejected candidate config: ".toList ++ LineText.trim output.stderr)

/-! ## The restart -/

/-- What a failed attempt is remembered as. -/
def serviceAttempt (unit : Chars) (r : Except Chars CommandOutput) : Chars :=
  "`service ".toList ++ unit ++ " restart`: ".toList ++
    match r with
    | .ok output => output.stderr
    | .error e => e

def commandSucceeded (r : Except Chars CommandOutput) : Bool :=
  match r with
  | .ok output => output.success
  | .error _ => false

/-- The `service` command, under the names still to be tried. -/
def restartByService (attempts : List Chars) : List Chars → Session (Except Chars Unit)
  | [] =>
    return .error ("Plugin error: Failed to restart SSH service: ".toList ++ "; ".toList.intercalate attempts)
  | unit :: units => do
    let r ← execute "service" [unit, "restart"]
    if commandSucceeded r then return .ok () else restartByService (attempts ++ [serviceAttempt unit r]) units

def restartSshService : Session (Except Chars Unit) := do
  let r ← execute "systemctl" ["restart", "sshd"]
  if commandSucceeded r then return .ok () else restartByService [] ["sshd", "ssh"]

/-! ## The apply -/

/-- What the loops over the directives leave to be written. -/
structure Plan where
  layer : ConfigLayer
  originalContent : Chars
  configContent : Chars
  changes : List Change
  toDropin : List Directive

namespace Plan

variable (plan : Plan)

def configPath : Chars := plan.layer.configPath

/-- The vendor's file is never edited. -/
def writingMain : Bool := plan.layer == .admin

def mainWriteNeeded : Bool := plan.writingMain && plan.configContent != plan.originalContent

def desiredDropin : Option Chars := if plan.toDropin = [] then none else some (render plan.toDropin)

def capturePaths : List Chars := if plan.writingMain then [plan.configPath, dropinPath] else [dropinPath]

/-- The fragment's body ahead of the main file: the first value wins. -/
def candidate : Chars :=
  match plan.desiredDropin with
  | some body => body ++ '\n' :: plan.configContent
  | none => plan.configContent

end Plan

def backupChange (configPath stamp : Chars) : Change :=
  .made .configFile ("Created backup: ".toList ++ backupPrefix configPath ++ stamp)

/-- A copy of the main file, where it is going to be written. -/
def createBackup (stamp : Chars) (plan : Plan) : Session (Except Chars (List Change)) :=
  if plan.mainWriteNeeded then do
    match ← execute "cp" ["-p", "--no-dereference", plan.configPath, backupPrefix plan.configPath ++ stamp] with
    | .error e => return .error ("Failed to create backup: ".toList ++ e)
    | .ok output =>
      if output.success then
        pruneTimestampedBackups (backupPrefix plan.configPath) backupsKept
        return .ok [backupChange plan.configPath stamp]
      else return .error ("Failed to create backup: ".toList ++ output.stderr)
  else return .ok []

def installMain (plan : Plan) : Session (List Change) :=
  if plan.mainWriteNeeded then do
    match ← writeFile plan.configPath plan.configContent with
    | .ok () => return [.made .configFile ("Updated ".toList ++ plan.configPath)]
    | .error e => return [.failed .configFile ("Failed to write ".toList ++ plan.configPath) e]
  else return []

def installDropin (reader : Reader) (plan : Plan) (currentDropin : Option Chars) : Session (List Change) :=
  if plan.desiredDropin = currentDropin then return []
  else do
    match ← writeDropin plan.toDropin with
    | .ok () => return verifyDropinPrecedence reader plan.configPath plan.toDropin plan.configContent
    | .error e => return [.failed .configFile ("Failed to write ".toList ++ dropinPath) e]

def restartPhase : Session Change := do
  match ← restartSshService with
  | .ok () => return .made .service "Restarted SSH service"
  | .error e => return .failed .service "Failed to restart SSH service" e

/-- Past the test: both files are written, and the service is restarted. -/
def install (reader : Reader) (plan : Plan) (currentDropin : Option Chars) : Session (List Change) := do
  let main ← installMain plan
  let dropin ← installDropin reader plan currentDropin
  let restarted ← restartPhase
  return main ++ dropin ++ [restarted]

def pluginId : Compliance.PluginId := ⟨"ssh-hardening"⟩

def compliantChange : Change :=
  .made .skipped "sshd_config already compliant - not rewritten, service not restarted"

def rejectedChange (e : Chars) : Change :=
  .failed .configFile "Candidate sshd_config rejected by `sshd -t`; no changes written, service not restarted" e

/-- A change that was planned and not made. -/
def asSkipped (change : Change) : Change := { change with type := .skipped }

/-- From the backup on, with a checkpoint taken. -/
def commit (reader : Reader) (pid : Nat) (stamp : Chars) (plan : Plan) (currentDropin : Option Chars)
    (checkpointId : Option Chars) : Session ApplyResult := do
  match ← createBackup stamp plan with
  | .error e => return ⟨pluginId, false, checkpointChange checkpointId, checkpointId, some e⟩
  | .ok backup =>
    let committed := checkpointChange checkpointId ++ backup
    match ← validateSshdConfig pid plan.candidate with
    | .error e =>
      return ⟨pluginId, false, committed ++ plan.changes.map asSkipped ++ [rejectedChange e], checkpointId,
        some ("sshd config validation failed: ".toList ++ e)⟩
    | .ok () =>
      let installed ← install reader plan currentDropin
      let committed := committed ++ plan.changes ++ installed
      return ⟨pluginId, committed.all Change.success, committed, checkpointId, none⟩

def apply (reader : Reader) (ctx : Context) (pid : Nat) (stamp : Chars) (plan : Plan) :
    Session (Except Chars ApplyResult) := do
  pruneTimestampedBackups (backupPrefix plan.configPath) backupsKept
  let currentDropin := (← readFile dropinPath).toOption
  if plan.configContent = plan.originalContent ∧ plan.desiredDropin = currentDropin then
    return .ok ⟨pluginId, true, plan.changes ++ [compliantChange], none, none⟩
  else
    match ← createCheckpointForApply ctx "ssh-hardening-pre-apply" plan.capturePaths with
    | .error e => return .error e
    | .ok checkpointId => return .ok (← commit reader pid stamp plan currentDropin checkpointId)

end LinuxHardener.Ssh
