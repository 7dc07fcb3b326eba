import LinuxHardener.Core.Plugin

/-
  The MAC plugin's apply.

  Correspondence (Rust ↔ Lean):
    `MacSystem`, `MacDetection`     ↔ `MacSystem`, `MacDetection`
    `detect_mac_system`, `get_selinux_mode`, `set_selinux_enforcing` ↔ the same in camel case
    `MacHardeningPlugin::apply`     ↔ `applyPlugin`, what follows the detection `applyDetected`
-/
namespace LinuxHardener.Mac

open LineText Plugins Dialogue
open Core (ApplyResult)

inductive MacSystem where
  | appArmor
  | seLinux
  deriving DecidableEq, Repr

inductive MacDetection where
  | found (system : MacSystem)
  | absent
  | indeterminate (reason : Chars)
  deriving DecidableEq, Repr

/-- The directory each system shows itself by, in the order they are looked for. -/
def macPaths : List (Chars × MacSystem) :=
  [("/sys/fs/selinux".toList, .seLinux), ("/sys/kernel/security/apparmor".toList, .appArmor)]

def detectAmong : List (Chars × MacSystem) → Session MacDetection
  | [] => return .absent
  | (path, system) :: rest => do
    match ← pathExists path with
    | .ok true => return .found system
    | .ok false => detectAmong rest
    | .error e => return .indeterminate ("probing ".toList ++ path ++ " failed: ".toList ++ e)

def detectMacSystem : Session MacDetection := detectAmong macPaths

def getSelinuxMode : Session (Except Chars Chars) := do
  match ← execute "getenforce" [] with
  | .error e => return .error ("Plugin error: Failed to execute getenforce: ".toList ++ e)
  | .ok output =>
    if output.success then return .ok (LineText.trim output.stdout)
    else return .error "Plugin error: getenforce command failed"

def alreadyEnforcing : Change := .made .skipped "SELinux already in enforcing mode"

def setEnforcing (mode : Chars) : Change :=
  .made .configFile ("Set SELinux mode from ".toList ++ mode ++ " to Enforcing".toList)

def setSelinuxEnforcing : Session (Except Chars Change) := do
  match ← getSelinuxMode with
  | .error e => return .error e
  | .ok mode =>
    if mode = "Enforcing".toList then return .ok alreadyEnforcing
    else
      match ← execute "setenforce" ["1"] with
      | .error e => return .error ("Plugin error: Failed to execute setenforce: ".toList ++ e)
      | .ok output =>
        return .ok (if output.success then setEnforcing mode
          else .failed .configFile "Failed to set SELinux to enforcing mode" output.stderr)

def exceptionSkip (what reason : Chars) : Change :=
  .made .skipped (what ++ " enforcement: skipped (exception: ".toList ++ reason ++ [')'])

def appArmorAdvice : Change :=
  .made .skipped "AppArmor detected - use aa-enforce to set specific profiles to enforce mode"

def undetermined (reason : Chars) : Change :=
  .failed .configFile "Could not determine whether a MAC system is present - nothing was changed" reason

def nothingToConfigure : Change := .made .skipped "No MAC system detected - nothing to configure (skipped)"

/-- The one change an apply makes, or the error it stops with. -/
def applyDetected (config : PluginConfig) : MacDetection → Session (Except Chars Change)
  | .found .seLinux =>
    match config.hasValidException "selinux-enforcing" with
    | some exception => return .ok (exceptionSkip "SELinux" exception.reason)
    | none => setSelinuxEnforcing
  | .found .appArmor =>
    match config.hasValidException "apparmor-enforce" with
    | some exception => return .ok (exceptionSkip "AppArmor" exception.reason)
    | none => return .ok appArmorAdvice
  | .indeterminate reason => return .ok (undetermined reason)
  | .absent => return .ok nothingToConfigure

def pluginId : Compliance.PluginId := ⟨"mac-hardening"⟩

def resultOf (changes : List Change) (checkpointId : Option Chars) : ApplyResult where
  pluginId := pluginId
  success := changes.all Change.success
  changes := changes
  checkpointId := checkpointId
  error := none

def stoppedResult (changes : List Change) (checkpointId : Option Chars) (e : Chars) : ApplyResult where
  pluginId := pluginId
  success := false
  changes := changes
  checkpointId := checkpointId
  error := some ("Failed to set SELinux enforcing: ".toList ++ e)

def checkpointPaths : List Chars := ["/etc/selinux/config", "/etc/apparmor", "/etc/apparmor.d"]

def applyPlugin (ctx : Context) (config : PluginConfig) : Session (Except Chars ApplyResult) := do
  match ← createCheckpointForApply ctx "mac-hardening-pre-apply" checkpointPaths with
  | .error e => return .error e
  | .ok id =>
    let detection ← detectMacSystem
    match ← applyDetected config detection with
    | .ok change => return .ok (resultOf (checkpointChange id ++ [change]) id)
    | .error e => return .ok (stoppedResult (checkpointChange id) id e)

end LinuxHardener.Mac
