import LinuxHardener.Core.Plugin

/-
  `hardener apply` on one host: every selected plugin is asked in turn, and what they
  answered becomes one result and one verdict.

  Correspondence (Rust ↔ Lean):
    the body of `apply_host`'s loop  ↔ `runPlugin` (what the plugin did) and `record` (what is kept of it)
    `apply_host`                     ↔ `applyHost`
    `ApplyHostResult::{nothing_ran, skipped_list}` ↔ `ApplyHostResult.{nothingRan, skippedList}`
    `run`, from the result on        ↔ `verdict`

  What is proved: `applyHost_eq` reads all four fields of the result off what the plugins
  did, and `verdict_isError_iff` says when the command fails.
-/
namespace LinuxHardener.Commands

open LineText (Chars)
open Compliance (PluginId PluginMetadata)
open Core

variable {σ : Type}

/-- What one selected plugin did. -/
inductive PluginRun where
  | missing (id : PluginId)
  | disabled (id : PluginId)
  | errored (metadata : PluginMetadata) (e : Chars)
  | validated (report : ValidationReport)
  | applied (metadata : PluginMetadata) (result : ApplyResult)
  deriving DecidableEq, Repr

namespace PluginRun

/-- The plugin left neither a result nor a report. -/
def isBroken : PluginRun → Bool
  | missing _ | errored _ _ => true
  | _ => false

/-- The plugin left a result or a report that says it failed. -/
def isFailed : PluginRun → Bool
  | validated report => report.hasBlockingIssue
  | applied _ result => !result.success
  | _ => false

def result? : PluginRun → Option (PluginMetadata × ApplyResult)
  | applied metadata result => some (metadata, result)
  | _ => none

def report? : PluginRun → Option ValidationReport
  | validated report => some report
  | _ => none

def skipped? : PluginRun → Option PluginId
  | disabled id => some id
  | _ => none

end PluginRun

def runPlugin (registry : PluginRegistry σ) (config : HardenerConfig) (dryRun : Bool) (id : PluginId) (s : σ) :
    PluginRun × σ :=
  match registry.get id with
  | none => (.missing id, s)
  | some plugin =>
    if !config.isPluginEnabled id then (.disabled id, s)
    else if dryRun then
      match plugin.validate (config.getPluginConfig id).toPluginConfig s with
      | (.ok report, s') => (.validated report, s')
      | (.error e, s') => (.errored plugin.metadata e, s')
    else
      match plugin.apply (config.getPluginConfig id).toPluginConfig s with
      | (.ok result, s') => (.applied plugin.metadata result, s')
      | (.error e, s') => (.errored plugin.metadata e, s')

/-- The plugins one after the other, each on what the ones before it left. -/
def pluginRuns (registry : PluginRegistry σ) (config : HardenerConfig) (dryRun : Bool) : List PluginId → σ → List PluginRun × σ
  | [], s => ([], s)
  | id :: ids, s =>
    let run := runPlugin registry config dryRun id s
    let rest := pluginRuns registry config dryRun ids run.2
    (run.1 :: rest.1, rest.2)

structure ApplyHostResult where
  results : List (PluginMetadata × ApplyResult)
  validationReports : List ValidationReport
  hadFailure : Bool
  skipped : List PluginId
  deriving DecidableEq, Repr

namespace ApplyHostResult

/-- The config disabled every plugin that was selected. -/
def nothingRan (result : ApplyHostResult) : Bool :=
  !result.skipped.isEmpty && result.results.isEmpty && result.validationReports.isEmpty && !result.hadFailure

def skippedList (result : ApplyHostResult) : Chars :=
  ", ".toList.intercalate (result.skipped.map fun id => id.value.toList)

end ApplyHostResult

def record (acc : ApplyHostResult) : PluginRun → ApplyHostResult
  | .missing _ => { acc with hadFailure := true }
  | .disabled id => { acc with skipped := acc.skipped ++ [id] }
  | .errored _ _ => { acc with hadFailure := true }
  | .validated report =>
    { acc with
      hadFailure := acc.hadFailure || report.hasBlockingIssue
      validationReports := acc.validationReports ++ [report] }
  | .applied metadata result => { acc with results := acc.results ++ [(metadata, result)] }

def applyHost (registry : PluginRegistry σ) (config : HardenerConfig) (dryRun : Bool) (ids : List PluginId) (s : σ) :
    ApplyHostResult × σ :=
  let runs := pluginRuns registry config dryRun ids s
  let acc := runs.1.foldl record ⟨[], [], false, []⟩
  ({ acc with hadFailure := acc.hadFailure || acc.results.any fun r => !r.2.success }, runs.2)

def nothingRanError (result : ApplyHostResult) : Chars :=
  "Config disabled every selected plugin (".toList ++ result.skippedList ++
    ("). Nothing was applied. Remove them from [global] disabled_plugins, set enabled = true in " ++
      "their own section, or select a plugin the config enables.").toList

/-- How the command ends once the plugins have run. -/
def verdict (result : ApplyHostResult) : Except Chars Unit :=
  if result.nothingRan then .error (nothingRanError result)
  else if result.hadFailure then .error "One or more plugins failed to apply".toList
  else .ok ()

/-! ## The result, read off the runs -/

theorem foldl_record (acc : ApplyHostResult) (runs : List PluginRun) :
    runs.foldl record acc =
      { results := acc.results ++ runs.filterMap PluginRun.result?
        validationReports := acc.validationReports ++ runs.filterMap PluginRun.report?
        hadFailure := acc.hadFailure || runs.any PluginRun.isBroken ||
          (runs.filterMap PluginRun.report?).any ValidationReport.hasBlockingIssue
        skipped := acc.skipped ++ runs.filterMap PluginRun.skipped? } := by
  induction runs generalizing acc with
  | nil => simp
  | cons run runs ih =>
    rw [List.foldl_cons, ih]
    cases run <;> simp [List.filterMap_cons, record, PluginRun.result?, PluginRun.report?, PluginRun.skipped?,
      PluginRun.isBroken, Bool.or_assoc, Bool.or_left_comm]

theorem any_isFailed (runs : List PluginRun) :
    runs.any PluginRun.isFailed =
      ((runs.filterMap PluginRun.report?).any ValidationReport.hasBlockingIssue ||
        (runs.filterMap PluginRun.result?).any fun r => !r.2.success) := by
  induction runs with
  | nil => rfl
  | cons run runs ih =>
    cases run <;> simp [List.filterMap_cons, ih, PluginRun.isFailed, PluginRun.report?, PluginRun.result?, Bool.or_assoc, Bool.or_left_comm]

theorem applyHost_eq (registry : PluginRegistry σ) (config : HardenerConfig) (dryRun : Bool) (ids : List PluginId) (s : σ) :
    (applyHost registry config dryRun ids s).1 =
      { results := (pluginRuns registry config dryRun ids s).1.filterMap PluginRun.result?
        validationReports := (pluginRuns registry config dryRun ids s).1.filterMap PluginRun.report?
        hadFailure := (pluginRuns registry config dryRun ids s).1.any PluginRun.isBroken ||
          (pluginRuns registry config dryRun ids s).1.any PluginRun.isFailed
        skipped := (pluginRuns registry config dryRun ids s).1.filterMap PluginRun.skipped? } := by
  simp only [applyHost, foldl_record, any_isFailed, List.nil_append, Bool.false_or, Bool.or_assoc]

/-- The command fails on a plugin that failed or never got that far, and where the config
left nothing to run. -/
theorem verdict_isError_iff (result : ApplyHostResult) :
    (verdict result).isOk = false ↔ result.nothingRan = true ∨ result.hadFailure = true := by
  unfold verdict
  split
  · next h => simp [Except.isOk, Except.toBool, h]
  · next h => split <;> simp_all [Except.isOk, Except.toBool]

/-! ## What an apply and a dry run leave -/

/-- An apply leaves no reports. -/
theorem report?_runPlugin {registry : PluginRegistry σ} {config : HardenerConfig} {id : PluginId} {s : σ} :
    (runPlugin registry config false id s).1.report? = none := by
  unfold runPlugin
  split
  · rfl
  · split
    · rfl
    · rw [if_neg Bool.false_ne_true]
      split <;> rfl

/-- A dry run leaves no results. -/
theorem result?_runPlugin {registry : PluginRegistry σ} {config : HardenerConfig} {id : PluginId} {s : σ} :
    (runPlugin registry config true id s).1.result? = none := by
  unfold runPlugin
  split
  · rfl
  · split
    · rfl
    · rw [if_pos rfl]
      split <;> rfl

theorem reports_pluginRuns (registry : PluginRegistry σ) (config : HardenerConfig) (ids : List PluginId) (s : σ) :
    (pluginRuns registry config false ids s).1.filterMap PluginRun.report? = [] := by
  induction ids generalizing s with
  | nil => rfl
  | cons id ids ih => rw [pluginRuns, List.filterMap_cons_none report?_runPlugin, ih]

theorem results_pluginRuns (registry : PluginRegistry σ) (config : HardenerConfig) (ids : List PluginId) (s : σ) :
    (pluginRuns registry config true ids s).1.filterMap PluginRun.result? = [] := by
  induction ids generalizing s with
  | nil => rfl
  | cons id ids ih => rw [pluginRuns, List.filterMap_cons_none result?_runPlugin, ih]

end LinuxHardener.Commands
