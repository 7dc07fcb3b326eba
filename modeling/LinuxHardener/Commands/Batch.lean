import LinuxHardener.Commands.Apply
import LinuxHardener.State.AuditLog

/-
  `hardener batch apply`: one status per host, the fleet's exit code and the audit entries.

  Correspondence (Rust ↔ Lean):
    `ApplyStatus`, `ApplyOutcome` ↔ the types of these names
    `status_from_result`          ↔ `statusFromResult`
    `apply_exit_code`             ↔ `applyExitCode`, one host's part of it `hostCode`
    `run_apply`, its audit entries ↔ `auditResult`

  What is proved: `verdicts_agree_iff`. Fleet and single host agree on a host exactly when no
  plugin is missing or errored beside others whose results look clean.
-/
namespace LinuxHardener.Commands

open LineText (Chars)
open Compliance (PluginId PluginMetadata)
open State (ActionResult)
open Core

variable {σ : Type}

inductive ApplyStatus where
  | validated (plugins wouldChange compliant failed : Nat)
  | applied (ok failed : Nat) (plugins : List PluginOutcome)
  | failed (error : Chars)
  deriving DecidableEq, Repr

structure ApplyOutcome where
  name : Chars
  target : Chars
  status : ApplyStatus
  deriving DecidableEq, Repr

def statusFromResult (execute : Bool) (result : ApplyHostResult) : ApplyStatus :=
  if result.nothingRan then
    .failed ("config disabled every selected plugin (".toList ++ result.skippedList ++ [')'])
  else if execute then
    let plugins := result.results.map fun r => PluginOutcome.ofResult r.2
    if plugins.isEmpty && result.hadFailure then
      .failed "every plugin errored before producing a result; nothing was applied".toList
    else
      let ok := (plugins.filter PluginOutcome.success).length
      .applied ok (plugins.length - ok) plugins
  else
    .validated result.validationReports.length (result.validationReports.map fun r => r.estimatedChanges.length).sum
      (result.validationReports.map ValidationReport.compliantCount).sum
      (result.validationReports.filter ValidationReport.hasBlockingIssue).length

def hostCode : ApplyStatus → Nat
  | .failed _ => 2
  | .applied _ failed _ => if failed > 0 then 1 else 0
  | .validated _ _ _ failed => if failed > 0 then 1 else 0

def applyExitCode (outcomes : List ApplyOutcome) : Nat := outcomes.foldl (fun code o => max code (hostCode o.status)) 0

/-- The entry a host gets in the audit log. -/
def auditResult : ApplyStatus → Option ActionResult
  | .applied _ 0 _ => some .success
  | .validated .. => none
  | _ => some .failure

/-! ## The exit code -/

theorem foldl_max (outcomes : List ApplyOutcome) (code : Nat) :
    outcomes.foldl (fun code o => max code (hostCode o.status)) code ≠ 0 ↔
      code ≠ 0 ∨ ∃ o ∈ outcomes, hostCode o.status ≠ 0 := by
  induction outcomes generalizing code with
  | nil => simp
  | cons o outcomes ih =>
    rw [List.foldl_cons, ih]
    simp only [List.mem_cons, exists_eq_or_imp, ← or_assoc]
    refine or_congr_left ?_
    omega

/-- The fleet's code is non-zero for the hosts it is non-zero for. -/
theorem applyExitCode_ne_zero (outcomes : List ApplyOutcome) :
    applyExitCode outcomes ≠ 0 ↔ ∃ o ∈ outcomes, applyExitCode [o] ≠ 0 := by
  simp [applyExitCode, foldl_max]

theorem applyExitCode_singleton (o : ApplyOutcome) : applyExitCode [o] = hostCode o.status := Nat.zero_max _

/-- In an apply the entry tells what the code tells. -/
theorem auditResult_failure_iff {result : ApplyHostResult} :
    auditResult (statusFromResult true result) = some .failure ↔ hostCode (statusFromResult true result) ≠ 0 := by
  unfold statusFromResult
  split
  · simp [auditResult, hostCode]
  · rw [if_pos rfl]
    dsimp only
    split
    · simp [auditResult, hostCode]
    · generalize List.length _ - _ = failed
      cases failed <;> simp [auditResult, hostCode]

/-! ## The two verdicts -/

theorem length_filter_lt {α : Type} {p : α → Bool} {l : List α} : 0 < l.length - (l.filter p).length ↔ ∃ a ∈ l, p a = false := by
  have h := List.length_eq_length_filter_add (l := l) p
  rw [h, Nat.add_sub_cancel_left, List.length_pos_iff_exists_mem]
  simp

theorem one_if_ne_zero (n : Nat) : (if n > 0 then 1 else 0) ≠ 0 ↔ 0 < n := by
  split <;> omega

theorem hostCode_execute (result : ApplyHostResult) :
    hostCode (statusFromResult true result) ≠ 0 ↔
      result.nothingRan = true ∨ (result.results = [] ∧ result.hadFailure = true) ∨ ∃ r ∈ result.results, r.2.success = false := by
  unfold statusFromResult
  split
  · next h => simp [hostCode, h]
  · next h =>
    rw [if_pos rfl]
    dsimp only
    split
    · next h' =>
      have hempty : result.results = [] ∧ result.hadFailure = true := by simpa using h'
      simp [hostCode, hempty]
    · next h' =>
      have hnot : ¬ (result.results = [] ∧ result.hadFailure = true) := by simpa using h'
      show (if _ > 0 then 1 else 0) ≠ 0 ↔ _
      rw [one_if_ne_zero, length_filter_lt]
      simp [h, hnot, PluginOutcome.ofResult]

theorem hostCode_dryRun (result : ApplyHostResult) :
    hostCode (statusFromResult false result) ≠ 0 ↔
      result.nothingRan = true ∨ ∃ r ∈ result.validationReports, r.hasBlockingIssue = true := by
  unfold statusFromResult
  split
  · next h => simp [hostCode, h]
  · next h => simp [hostCode, h, List.length_pos_iff_exists_mem]

/-- On this host, the fleet's exit code and audit entry tell what the single-host command
tells. A dry run is not audited. -/
def VerdictsAgree (dryRun : Bool) (result : ApplyHostResult) : Prop :=
  ∀ name target : Chars,
    let outcome : ApplyOutcome := ⟨name, target, statusFromResult (!dryRun) result⟩
    (applyExitCode [outcome] ≠ 0 ↔ (verdict result).isOk = false) ∧
      (dryRun = false → (auditResult outcome.status = some .failure ↔ (verdict result).isOk = false))

/-- A plugin that is missing or errors is seen: beside it a result or a report says failed,
or, in an apply, no plugin came to a result at all. -/
def NoneHidden (dryRun : Bool) (runs : List PluginRun) : Prop :=
  (∃ run ∈ runs, run.isBroken = true) →
    (∃ run ∈ runs, run.isFailed = true) ∨ (dryRun = false ∧ ∀ run ∈ runs, run.result? = none)

theorem verdictsAgree_iff_hostCode (dryRun : Bool) (result : ApplyHostResult) :
    VerdictsAgree dryRun result ↔
      (hostCode (statusFromResult (!dryRun) result) ≠ 0 ↔ result.nothingRan = true ∨ result.hadFailure = true) := by
  simp only [VerdictsAgree, applyExitCode_singleton, verdict_isError_iff]
  constructor
  · intro h
    exact (h [] []).1
  · intro h name target
    refine ⟨h, fun hdry => ?_⟩
    subst hdry
    exact auditResult_failure_iff.trans h

section

variable (registry : PluginRegistry σ) (config : HardenerConfig) (ids : List PluginId) (s : σ)

theorem nothingRan_hadFailure (result : ApplyHostResult) (h : result.nothingRan = true) : result.hadFailure = false := by
  simp only [ApplyHostResult.nothingRan, Bool.and_eq_true, Bool.not_eq_true'] at h
  exact h.2

theorem hadFailure_iff (dryRun : Bool) :
    (applyHost registry config dryRun ids s).1.hadFailure = true ↔
      (∃ run ∈ (pluginRuns registry config dryRun ids s).1, run.isBroken = true) ∨
        ∃ run ∈ (pluginRuns registry config dryRun ids s).1, run.isFailed = true := by
  rw [applyHost_eq, Bool.or_eq_true, List.any_eq_true, List.any_eq_true]

/-- What failed is in the results, in an apply. -/
theorem exists_failed_execute :
    (∃ run ∈ (pluginRuns registry config false ids s).1, run.isFailed = true) ↔
      ∃ r ∈ (applyHost registry config false ids s).1.results, r.2.success = false := by
  rw [applyHost_eq, ← List.any_eq_true, any_isFailed, reports_pluginRuns]
  simp only [List.any_nil, Bool.false_or, List.any_eq_true, Bool.not_eq_true']

/-- What failed is in the reports, in a dry run. -/
theorem exists_failed_dryRun :
    (∃ run ∈ (pluginRuns registry config true ids s).1, run.isFailed = true) ↔
      ∃ r ∈ (applyHost registry config true ids s).1.validationReports, r.hasBlockingIssue = true := by
  rw [applyHost_eq, ← List.any_eq_true, any_isFailed, results_pluginRuns]
  simp only [List.any_nil, Bool.or_false, List.any_eq_true]

theorem results_eq_nil (dryRun : Bool) :
    (applyHost registry config dryRun ids s).1.results = [] ↔
      ∀ run ∈ (pluginRuns registry config dryRun ids s).1, run.result? = none := by
  rw [applyHost_eq, List.filterMap_eq_nil_iff]

end

/-! ## A host half hardened that the fleet reports as applied -/

/-- A plugin that answers every apply and every dry run in one way. -/
def answering (id : String) (answer : Except Chars ApplyResult) : HardeningPlugin Unit where
  metadata := ⟨⟨id⟩, id, .network⟩
  dependencies := []
  scan _ _ := (.error [], ())
  apply _ _ := (answer, ())
  validate _ _ := (.error [], ())

def kernelThenSsh : PluginRegistry Unit where
  plugins :=
    [answering "kernel-hardening" (.ok ⟨⟨"kernel-hardening"⟩, true, [], none, none⟩),
      answering "ssh-hardening" (.error "Checkpoint failed".toList)]
  nodup := by decide

end LinuxHardener.Commands
