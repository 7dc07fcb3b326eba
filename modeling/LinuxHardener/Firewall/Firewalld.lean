import LinuxHardener.Firewall.Rules

/-
  The firewalld backend (`firewall/firewalld.rs`).

  Correspondence (Rust ↔ Lean):
    `validate_zone_name`        ↔ `validateZoneName`
    `get_default_zone`          ↔ `getDefaultZone`
    `permanent_ports`           ↔ `permanentPorts`
    `permanent_target_is_drop`  ↔ `permanentTargetIsDrop`
    `FirewalldBackend::{checkpoint_paths, is_enabled, enable, apply_rules}` ↔ the same
-/
namespace LinuxHardener.Firewall

open Text hiding trim
open LineText Plugins Dialogue

/-- A zone name of safe characters; lengths are in bytes, which for these is the same. -/
def validateZoneName (name : Chars) : Except Chars Unit :=
  if name = [] ∨ 64 < name.length then .error "Configuration error: Invalid zone name length"
  else if !name.all fun c => c.isAlphanum || c == '-' || c == '_' then
    .error ("Configuration error: Zone name contains invalid characters: ".toList ++ name)
  else if name.head? = some '-' then .error "Configuration error: Zone name must not start with a dash"
  else .ok ()

def executeFirewallCmd (args : List Chars) : Session (Except Chars Chars) :=
  outputOf "firewall-cmd" args (fun e => pluginError ("Failed to execute firewall-cmd: ".toList ++ e))
    (fun stderr => pluginError ("firewall-cmd failed: ".toList ++ stderr))

def getDefaultZone : Session (Except Chars Chars) := do
  match ← executeFirewallCmd ["--get-default-zone"] with
  | .error e => return .error e
  | .ok output =>
    let zone := LineText.trim output
    match validateZoneName zone with
    | .error e => return .error e
    | .ok () => return .ok zone

/-- The ports already allowed; none when they cannot be read. -/
def permanentPorts (zone : Chars) : Session (List Chars) := do
  match ← executeFirewallCmd ["--permanent", "--zone", zone, "--list-ports"] with
  | .ok output => return words output
  | .error _ => return []

def permanentTargetIsDrop (zone : Chars) : Session Bool := do
  match ← executeFirewallCmd ["--permanent", "--zone", zone, "--get-target"] with
  | .ok output => return LineText.trim output == "DROP".toList
  | .error _ => return false

def portSpec (rule : Rule) : Chars := rule.port ++ '/' :: rule.protocol

/-- What a rule asks of firewalld. -/
inductive ZoneEdit where
  | setTarget
  | addPort (spec : Chars)
  deriving DecidableEq, Repr

/-- The edit a rule comes to; none for what firewalld handles itself and for other blocking rules. -/
def zoneEdit (rule : Rule) : Option ZoneEdit :=
  if contains rule.description "loopback" then none
  else if contains rule.description "established" then none
  else if rule.action = "drop".toList ∧ rule.port = "any".toList then some .setTarget
  else if rule.action = "accept".toList then some (.addPort (portSpec rule))
  else none

namespace Firewalld

def checkpointPaths : List Chars := ["/etc/firewalld"]

def isEnabled : Session (Except Chars Unit) := do
  match ← executeFirewallCmd ["--state"] with
  | .error e => return .error e
  | .ok output =>
    if LineText.trim output = "running".toList then return .ok () else return .error (pluginError "Firewalld is not running")

def enable : Session (Except Chars Unit) := do
  match ← execute "systemctl" ["start", "firewalld"] with
  | .error e => return .error (pluginError ("Failed to start firewalld: ".toList ++ e))
  | .ok output =>
    if !output.success then return .error (pluginError ("Failed to start firewalld: ".toList ++ output.stderr))
    else systemctlEnable "firewalld" "Failed to enable firewalld: "

/-- One rule of the list. -/
def applyRule (zone : Chars) (existingPorts : List Chars) (targetAlreadyDrop : Bool) (rule : Rule) :
    Session (List Change) := do
  match zoneEdit rule with
  | none => return []
  | some .setTarget =>
    if targetAlreadyDrop then
      return [Change.made .skipped ("Zone '".toList ++ zone ++ "' default target is already DROP".toList)]
    else
      let description : Chars := "Set zone '".toList ++ zone ++ "' default target to DROP".toList
      match ← executeFirewallCmd ["--permanent", "--zone", zone, "--set-target=DROP"] with
      | .ok _ => return [Change.made .firewallRule description]
      | .error e => return [Change.failed .firewallRule description e]
  | some (.addPort spec) =>
    if existingPorts.contains spec then
      return [Change.made .skipped ("Port ".toList ++ spec ++ " is already allowed in zone '".toList ++ zone ++ "'".toList)]
    else
      match ← executeFirewallCmd ["--permanent", "--zone", zone, "--add-port", spec] with
      | .ok _ =>
        return [Change.made .firewallRule ("Added port ".toList ++ spec ++ " to zone '".toList ++ zone ++ "'".toList)]
      | .error e =>
        return [Change.failed .firewallRule
          ("Failed to add port ".toList ++ spec ++ " to zone '".toList ++ zone ++ "'".toList) e]

def applyRules (rules : List Rule) : Session (Except RulesError (List Change)) := do
  match ← getDefaultZone with
  | .error e => return .error (.failed e)
  | .ok zone =>
    let existingPorts ← permanentPorts zone
    let targetAlreadyDrop ← permanentTargetIsDrop zone
    let changes := (← rules.mapM (applyRule zone existingPorts targetAlreadyDrop)).flatten
    if !changes.any fun change => !change.isSkipped && change.success then
      return .ok (changes ++
        [Change.made .skipped "Firewalld reload not needed: no permanent change was written"])
    else
      match ← executeFirewallCmd ["--reload"] with
      | .ok _ => return .ok (changes ++ [Change.made .firewallRule "Reloaded firewalld to activate changes"])
      | .error e => return .ok (changes ++ [Change.failed .firewallRule "Reloaded firewalld to activate changes" e])

end Firewalld

end LinuxHardener.Firewall
