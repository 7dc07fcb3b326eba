import LinuxHardener.Firewall.Apply
import LinuxHardener.Core.Plugin

/-
  The firewall plugin's preview.

  Correspondence (Rust ↔ Lean):
    `push_rule_estimate`              ↔ `ruleEstimate`
    `no_backend_issue`                ↔ `noBackendIssue`
    `FirewallHardeningPlugin::validate` ↔ `validate`, its arms for a winner `previewWinner`
-/
namespace LinuxHardener.Firewall

open LineText Plugins Dialogue
open Core (ValidationIssue ValidationReport exceptionPreviewLine)

/-- What the preview has so far. -/
structure Preview where
  estimatedChanges : List Chars
  exceptions : List Chars
  issues : List ValidationIssue
  deriving DecidableEq, Repr

/-- The rules of the baseline that no exception waives. -/
def unwaivedRules (config : PluginConfig) : List Rule :=
  baselineRules.filter fun rule => (config.hasValidException (ruleId rule)).isNone

def waivedLines (config : PluginConfig) : List Chars :=
  baselineRules.filterMap fun rule =>
    (config.hasValidException (ruleId rule)).map fun exception => exceptionPreviewLine rule.description "not applied" exception.reason

def applyRulesLine (count : Nat) : Chars := "Apply ".toList ++ decimal count ++ " baseline firewall rules".toList

def ruleEstimate (config : PluginConfig) : List Chars :=
  if 0 < (unwaivedRules config).length then [applyRulesLine (unwaivedRules config).length] else []

def noBackendIssue (message : Chars) : ValidationIssue :=
  ⟨.critical, "No firewall backend available: ".toList ++ message, none⟩

def undeterminableIssue (unit : Chars) : ValidationIssue :=
  ⟨.medium, "`systemctl is-enabled ".toList ++ unit ++
    "` gave no answer this run can read, so whether the firewall starts at boot is unknown".toList, none⟩

def unverifiedIssue : ValidationIssue :=
  ⟨.medium, ("Firewall ruleset could not be verified without root - " ++
    "run with sudo (or a deep scan) for an accurate preview").toList, none⟩

def bootLine (unit : Chars) : Chars := "Enable the ".toList ++ unit ++ " unit to start the firewall at boot".toList

def enableLine (b : Backend) : Chars := "Enable ".toList ++ b.name ++ " firewall".toList

/-- What the answer about the next boot adds. -/
def bootPreview (unit : Chars) : BootPersistence → Preview
  | .notAtBoot _ => ⟨[bootLine unit], [], []⟩
  | .atBoot => ⟨[], [], []⟩
  | .undeterminable => ⟨[], [], [undeterminableIssue unit]⟩

def previewWinner (config : PluginConfig) (b : Backend) (activity : BackendActivity) (allInactive : Bool) : Session Preview := do
  match activity with
  | .verified =>
    let boot := bootPreview b.systemdUnit (← unitBootPersistence b.systemdUnit)
    return ⟨boot.estimatedChanges ++ ruleEstimate config, waivedLines config, boot.issues⟩
  | .inactive =>
    if allInactive then return ⟨enableLine b :: ruleEstimate config, waivedLines config, []⟩
    else return ⟨[], [], [unverifiedIssue]⟩
  | _ => return ⟨[], [], [unverifiedIssue]⟩

def reportOf (preview : Preview) : ValidationReport where
  pluginId := ⟨"firewall-hardening"⟩
  isValid := preview.issues.all fun issue => issue.severity != .critical
  issues := preview.issues
  estimatedChanges := preview.estimatedChanges
  compliantCount := 0
  exceptions := preview.exceptions

/-- The one a run would drive, with its activity. -/
def winnerOf (first : Backend × BackendActivity) (rest : List (Backend × BackendActivity)) : Backend × BackendActivity :=
  ((first :: rest).find? fun entry => entry.2 == .verified || entry.2 == .unitActiveUnverified).getD first

def validate (config : PluginConfig) : Session ValidationReport := do
  match ← classifyInstalled with
  | .error e => return reportOf ⟨[], [], [noBackendIssue e]⟩
  | .ok [] => return reportOf ⟨[], [], [noBackendIssue noBackendError]⟩
  | .ok (first :: rest) =>
    let winner := winnerOf first rest
    let allInactive := (first :: rest).all fun entry => entry.2 == .inactive
    return reportOf (← previewWinner config winner.1 winner.2 allInactive)

end LinuxHardener.Firewall
