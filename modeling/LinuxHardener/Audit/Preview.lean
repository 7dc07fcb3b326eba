import LinuxHardener.Audit.Apply
import LinuxHardener.Firewall.Apply

/-
  The audit plugin's preview.

  Correspondence (Rust ↔ Lean):
    `AuditRulesResult`, `read_current_audit_rules` ↔ `AuditRulesResult`, `readCurrentAuditRules`
    `rules_file_estimate`         ↔ `rulesFileEstimate`
    `AuditHardeningPlugin::validate` ↔ `validate`, its arm for an installed auditd `previewInstalled`

  The text of a failure nobody recognised is left out: the preview does not read it.
-/
namespace LinuxHardener.Audit

open LineText Plugins Dialogue
open Core (ValidationIssue ValidationReport exceptionPreviewLine)
open Firewall (messageIndicatesPermissionDenied)

inductive AuditRulesResult where
  | rules (loaded : List Chars)
  | permissionDenied
  | probeFailed (reason : Chars)
  | unrecognisedFailure
  deriving DecidableEq, Repr

/-- The rules in a listing. -/
def loadedRules (stdout : Chars) : List Chars :=
  ((lines stdout).map LineText.trim).filter fun line => !line.isEmpty && !"No rules".toList.isPrefixOf line

def readCurrentAuditRules : Session AuditRulesResult := do
  match ← execute "auditctl" ["-l"] with
  | .error e => return .probeFailed e
  | .ok output =>
    if output.success then return .rules (loadedRules output.stdout)
    else if messageIndicatesPermissionDenied output.stderr then return .permissionDenied
    else return .unrecognisedFailure

def rulesFileEstimate (desired : Chars) : Session (Option Chars) := do
  match ← pathExists auditRulesPath with
  -- an unanswered question is read as "exists"
  | .ok false => return some ("Create ".toList ++ auditRulesPath)
  | _ =>
    match ← readFile auditRulesPath with
    | .ok current => return if current = desired then none else some ("Rewrite ".toList ++ auditRulesPath)
    | .error e =>
      return some ("Rewrite ".toList ++ auditRulesPath ++ (" (an apply that cannot read the current file rewrites it; " ++
        "current content could not be read: ").toList ++ e ++ [')'])

/-- The excepted categories, each recorded once. -/
def categoryExceptions (config : PluginConfig) : List Chars :=
  auditRules.foldl (fun recorded rule =>
    match config.hasValidException rule.category with
    | some exception =>
      if recorded.any fun e => rule.category.isPrefixOf e then recorded
      else recorded ++ [exceptionPreviewLine rule.category "unchanged" exception.reason]
    | none => recorded) []

def missingRules (config : PluginConfig) (loaded : List Chars) : Nat :=
  auditRules.countP fun rule =>
    (config.hasValidException rule.category).isNone && !loaded.any fun current => contains current rule.category

structure LoadedPreview where
  estimatedChanges : List Chars
  exceptions : List Chars
  deriving DecidableEq, Repr

def addRules (count : Nat) : Chars := "Add ".toList ++ decimal count ++ " audit-rules".toList

/-- What the loaded rules say; a failure nobody recognised says that none are. -/
def loadedPreview (config : PluginConfig) : AuditRulesResult → LoadedPreview
  | .rules loaded => ⟨if 0 < missingRules config loaded then [addRules (missingRules config loaded)] else [], categoryExceptions config⟩
  | .unrecognisedFailure => ⟨if 0 < missingRules config [] then [addRules (missingRules config [])] else [], categoryExceptions config⟩
  | .permissionDenied | .probeFailed _ => ⟨[], []⟩

/-- A line for a probe that answered no; nothing for one that failed. -/
def lineIfNot (line : Chars) : Except Chars Bool → List Chars
  | .ok false => [line]
  | _ => []

def previewInstalled (config : PluginConfig) : Session (List Chars × List Chars) := do
  let enabled ← isAuditdEnabled
  let running ← isAuditdRunning
  let loaded ← readCurrentAuditRules
  let file ← rulesFileEstimate (renderedRulesFile config).1
  return (lineIfNot "Enable auditd service" enabled ++ lineIfNot "Start auditd service" running ++
    (loadedPreview config loaded).estimatedChanges ++ file.toList, (loadedPreview config loaded).exceptions)

def reportOf (estimated exceptions : List Chars) (issues : List ValidationIssue) : ValidationReport where
  pluginId := ⟨"audit-hardening"⟩
  isValid := issues.isEmpty
  issues := issues
  estimatedChanges := estimated
  compliantCount := 0
  exceptions := exceptions

def validate (config : PluginConfig) : Session ValidationReport := do
  match ← probeAuditd with
  | .installed =>
    let preview ← previewInstalled config
    return reportOf preview.1 preview.2 []
  | .absent =>
    return reportOf [] [] [⟨.critical, "auditd is not installed - this plugin requires auditd", none⟩]
  | .indeterminate reason =>
    return reportOf [] [] [⟨.high, "Failed to check auditd installation status: ".toList ++ reason, none⟩]

end LinuxHardener.Audit
