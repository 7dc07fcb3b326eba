import LinuxHardener.Fleet.Posture
import LinuxHardener.Fleet.RunOnAll
import LinuxHardener.Lib.Tally
import LinuxHardener.Scheduler.Runner
import LinuxHardener.State.Rollback

/-
  What a fleet run says in the end: its exit code, its summary, and the outcomes both are
  made of.

  What is proved:
    1. `scan_verdict` — however the hosts' scans interleave, the outcomes are the hosts',
       one each in their order, and the exit code tells a host that failed, or whose task
       panicked, from one with findings, and that from a clean fleet.
    2. `exitCode_summary`, `reportExitCode_rollup` — the exit code and the summary printed
       beside it, two folds of their own, never disagree; the rollup has a line for each
       framework, in the order they were met, with the failing controls of all hosts.
    3. `rollback_accounted` — every checkpoint of a host counts as restored or as failed,
       and the rows a host carries are the ones its counts are counts of.

  Correspondence (Rust ↔ Lean):
    `SeverityCounts::{total, from_findings}`, `exit_code`     ↔ the same in camel case
    `BatchSummary::from_outcomes`                             ↔ `BatchSummary.fromOutcomes`
    `scan_one`, `scan_all`                                    ↔ `ScanOne`, `placeholder`, `ScanAll`
    `report_exit_code`, `ReportRollup::from_reports`          ↔ the same in camel case
    `classify_rollback_outcome`, `rollback_status_for`        ↔ the same in camel case
    `rollback_exit_code`, `RollbackResult::divergence_counts` ↔ the same in camel case
-/
namespace LinuxHardener.Fleet

open LineText (Chars)
open Compliance (ComplianceFramework ComplianceProfile UncheckedCheck)
open Core (Severity)
open Scheduler (Finding)
open RunOnAll

/-! ## Tiers

Every verb of the fleet ends in one of three codes, and a failed host outranks the rest. -/

def tier (failed found : Prop) [Decidable failed] [Decidable found] : Nat := if failed then 2 else if found then 1 else 0

section

variable {failed found : Prop} [Decidable failed] [Decidable found]

theorem tier_eq_two : tier failed found = 2 ↔ failed := by
  by_cases h : failed <;> by_cases h' : found <;> simp [tier, h, h']

theorem tier_eq_one : tier failed found = 1 ↔ ¬ failed ∧ found := by
  by_cases h : failed <;> by_cases h' : found <;> simp [tier, h, h']

theorem tier_eq_zero : tier failed found = 0 ↔ ¬ failed ∧ ¬ found := by
  by_cases h : failed <;> by_cases h' : found <;> simp [tier, h, h']

end

/-! ## Scans -/

structure SeverityCounts where
  critical : Nat
  high : Nat
  medium : Nat
  low : Nat
  deriving DecidableEq, Repr

namespace SeverityCounts

def total (c : SeverityCounts) : Nat := c.critical + c.high + c.medium + c.low

/-- Informational findings are not counted. -/
def count (c : SeverityCounts) (f : Finding) : SeverityCounts :=
  match f.findingSeverity with
  | .critical => { c with critical := c.critical + 1 }
  | .high => { c with high := c.high + 1 }
  | .medium => { c with medium := c.medium + 1 }
  | .low => { c with low := c.low + 1 }
  | .info => c

def fromFindings (findings : List Finding) : SeverityCounts := findings.foldl count ⟨0, 0, 0, 0⟩

theorem total_foldl (findings : List Finding) (c : SeverityCounts) :
    (findings.foldl count c).total = c.total + findings.countP fun f => f.findingSeverity ≠ .info := by
  induction findings generalizing c with
  | nil => rfl
  | cons f findings ih =>
    rw [List.foldl_cons, ih]
    cases hf : f.findingSeverity <;> simp [count, total, hf] <;> omega

/-- What is counted is what is more than informational. -/
theorem total_fromFindings (findings : List Finding) :
    (fromFindings findings).total = findings.countP fun f => f.findingSeverity ≠ .info := by
  have h := total_foldl findings ⟨0, 0, 0, 0⟩
  rwa [show (SeverityCounts.mk 0 0 0 0).total = 0 from rfl, Nat.zero_add] at h

end SeverityCounts

inductive HostStatus where
  | scanned (counts : SeverityCounts) (findings : List Finding) (unchecked : List UncheckedCheck)
  | failed (error : Chars)

structure HostOutcome where
  name : Chars
  target : Chars
  profile : ComplianceProfile
  status : HostStatus

def HostOutcome.isFailed (o : HostOutcome) : Bool :=
  match o.status with
  | .failed _ => true
  | .scanned .. => false

/-- The counts of a host that was scanned. -/
def HostOutcome.counts (o : HostOutcome) : SeverityCounts :=
  match o.status with
  | .failed _ => ⟨0, 0, 0, 0⟩
  | .scanned counts _ _ => counts

/-- The loop of `exit_code`: it returns at the first host that failed. -/
def exitCodeFrom (code : Nat) : List HostOutcome → Nat
  | [] => code
  | o :: rest =>
    match o.status with
    | .failed _ => 2
    | .scanned counts _ _ => exitCodeFrom (if counts.total > 0 then 1 else code) rest

def exitCode (outcomes : List HostOutcome) : Nat := exitCodeFrom 0 outcomes

structure BatchSummary where
  hostsTotal : Nat
  hostsScanned : Nat
  hostsFailed : Nat
  critical : Nat
  high : Nat
  medium : Nat
  low : Nat
  total : Nat
  deriving DecidableEq, Repr

def BatchSummary.add (s : BatchSummary) (o : HostOutcome) : BatchSummary :=
  match o.status with
  | .scanned counts _ _ =>
    { s with
      hostsScanned := s.hostsScanned + 1
      critical := s.critical + counts.critical
      high := s.high + counts.high
      medium := s.medium + counts.medium
      low := s.low + counts.low }
  | .failed _ => { s with hostsFailed := s.hostsFailed + 1 }

def BatchSummary.fromOutcomes (outcomes : List HostOutcome) : BatchSummary :=
  let s := outcomes.foldl BatchSummary.add ⟨outcomes.length, 0, 0, 0, 0, 0, 0, 0⟩
  { s with total := s.critical + s.high + s.medium + s.low }

/-- What the loop makes of the hosts, whatever code it starts with. -/
theorem exitCodeFrom_eq (outcomes : List HostOutcome) (code : Nat) :
    exitCodeFrom code outcomes =
      if outcomes.any HostOutcome.isFailed then 2 else if outcomes.any fun o => o.counts.total > 0 then 1 else code := by
  induction outcomes generalizing code with
  | nil => rfl
  | cons o outcomes ih =>
    rw [exitCodeFrom]
    cases hs : o.status with
    | failed error => simp [HostOutcome.isFailed, hs]
    | scanned counts findings unchecked =>
      have hfailed : o.isFailed = false := by simp [HostOutcome.isFailed, hs]
      have hcounts : o.counts = counts := by simp [HostOutcome.counts, hs]
      dsimp only
      rw [ih, List.any_cons, List.any_cons, hfailed, hcounts, Bool.false_or]
      by_cases hfound : counts.total > 0
      · simp [hfound]
      · simp [hfound]

theorem foldl_add (outcomes : List HostOutcome) (s : BatchSummary) :
    let t := outcomes.foldl BatchSummary.add s
    t.hostsTotal = s.hostsTotal ∧ t.hostsScanned + t.hostsFailed = s.hostsScanned + s.hostsFailed + outcomes.length ∧
      t.hostsFailed = s.hostsFailed + outcomes.countP HostOutcome.isFailed ∧
        t.critical + t.high + t.medium + t.low =
          s.critical + s.high + s.medium + s.low + (outcomes.map fun o => o.counts.total).sum := by
  induction outcomes generalizing s with
  | nil => simp
  | cons o outcomes ih =>
    obtain ⟨htotal, hhosts, hfailed, hcounts⟩ := ih (s.add o)
    cases hs : o.status with
    | failed error =>
      have hfail : o.isFailed = true := by simp [HostOutcome.isFailed, hs]
      have hzero : o.counts = ⟨0, 0, 0, 0⟩ := by simp [HostOutcome.counts, hs]
      simp only [List.foldl_cons, List.length_cons, List.countP_cons, List.map_cons, List.sum_cons, hfail, hzero, if_true]
      simp only [BatchSummary.add, hs, SeverityCounts.total] at htotal hhosts hfailed hcounts ⊢
      exact ⟨htotal, by omega, by omega, by omega⟩
    | scanned counts findings unchecked =>
      have hfail : o.isFailed = false := by simp [HostOutcome.isFailed, hs]
      have hcount : o.counts = counts := by simp [HostOutcome.counts, hs]
      simp only [List.foldl_cons, List.length_cons, List.countP_cons, List.map_cons, List.sum_cons, hfail, hcount]
      simp only [BatchSummary.add, hs, SeverityCounts.total] at htotal hhosts hfailed hcounts ⊢
      exact ⟨htotal, by omega, by simpa using hfailed, by omega⟩

theorem exitCode_eq (outcomes : List HostOutcome) :
    exitCode outcomes = tier (∃ o ∈ outcomes, o.isFailed = true) (∃ o ∈ outcomes, 0 < o.counts.total) := by
  rw [exitCode, exitCodeFrom_eq, tier]
  simp

/-- The code and the summary say the same. -/
theorem exitCode_summary (outcomes : List HostOutcome) :
    let s := BatchSummary.fromOutcomes outcomes
    s.hostsTotal = outcomes.length ∧ s.hostsScanned + s.hostsFailed = s.hostsTotal ∧
      (exitCode outcomes = 2 ↔ 0 < s.hostsFailed) ∧ (exitCode outcomes = 1 ↔ s.hostsFailed = 0 ∧ 0 < s.total) ∧
        (exitCode outcomes = 0 ↔ s.hostsFailed = 0 ∧ s.total = 0) := by
  obtain ⟨htotal, hhosts, hfailed, hcounts⟩ := foldl_add outcomes ⟨outcomes.length, 0, 0, 0, 0, 0, 0, 0⟩
  have hfail : (∃ o ∈ outcomes, o.isFailed = true) ↔ 0 < outcomes.countP HostOutcome.isFailed := List.countP_pos_iff.symm
  have hfound : (∃ o ∈ outcomes, 0 < o.counts.total) ↔ 0 < (outcomes.map fun o => o.counts.total).sum := by
    rw [List.sum_pos_iff_exists_pos_nat]
    simp
  rw [exitCode_eq, tier_eq_two, tier_eq_one, tier_eq_zero, hfail, hfound]
  simp only [BatchSummary.fromOutcomes] at htotal hhosts hfailed hcounts ⊢
  generalize outcomes.countP HostOutcome.isFailed = failed at *
  generalize (outcomes.map fun o => o.counts.total).sum = found at *
  exact ⟨htotal, by omega, by omega, by omega, by omega⟩

/-! ### A scan of the fleet -/

/-- What a host's scan comes back with: an outcome under the host's own name and target. -/
def ScanOne (p : RemoteHostProfile) (o : HostOutcome) : Prop := o.name = p.name ∧ o.target = p.target

/-- What stands for a host whose task panicked. -/
def placeholder (p : RemoteHostProfile) : HostOutcome :=
  ⟨p.name, p.target, .generic, .failed "scan task did not complete".toList⟩

/-- What `scan_all` returns when the set has handed over every task. -/
def scanAll (profiles : List RemoteHostProfile) (w : World HostOutcome profiles.length) : List HostOutcome :=
  assembleOrdered (profiles.map placeholder) w.completed

theorem exitCode_eq_two {outcomes : List HostOutcome} : exitCode outcomes = 2 ↔ ∃ o ∈ outcomes, o.isFailed = true := by
  rw [exitCode_eq, tier_eq_two]

theorem exitCode_eq_zero {outcomes : List HostOutcome} :
    exitCode outcomes = 0 ↔ ∀ o ∈ outcomes, o.isFailed = false ∧ o.counts.total = 0 := by
  rw [exitCode_eq, tier_eq_zero]
  simp only [not_exists, not_and, Bool.not_eq_true, Nat.not_lt, Nat.le_zero, forall_and]

/-- The outcomes are the hosts', in their order. The code is that of a failure where a host's scan
failed or its task panicked, and clean where every scan came back without a finding. -/
theorem scan_verdict {profiles : List RemoteHostProfile} {concurrency : Nat} {w : World HostOutcome profiles.length}
    (hreach : Reach (fun i => ScanOne profiles[i]) (.spawned HostOutcome profiles.length concurrency) w) (hdone : Finished w) :
    (scanAll profiles w).map (fun o => (o.name, o.target)) = profiles.map (fun p => (p.name, p.target)) ∧
      (exitCode (scanAll profiles w) = 2 ↔
        ∃ i, w.phase i = .joined none ∨ ∃ o, w.phase i = .joined (some o) ∧ o.isFailed = true) ∧
        (exitCode (scanAll profiles w) = 0 ↔
          ∀ i, ∃ o, w.phase i = .joined (some o) ∧ o.isFailed = false ∧ o.counts.total = 0) := by
  obtain ⟨outcome, hjoined, hop, hresults⟩ := results_ordered hreach hdone fun i => placeholder profiles[i]
  have hscan : scanAll profiles w = List.ofFn fun i => (outcome i).getD (placeholder profiles[i]) := by
    rw [scanAll, ← List.ofFn_getElem_eq_map]
    exact hresults
  rw [hscan, exitCode_eq_two, exitCode_eq_zero, List.forall_mem_ofFn_iff]
  refine ⟨?_, ?_, ?_⟩
  · rw [List.map_ofFn, ← List.ofFn_getElem_eq_map]
    congr 1
    funext i
    cases hi : outcome i with
    | none => simp [hi, placeholder]
    | some o =>
      obtain ⟨hname, htarget⟩ := hop i o hi
      simpa [hi] using ⟨hname, htarget⟩
  · constructor
    · intro ⟨o, ho, hfailed⟩
      obtain ⟨i, rfl⟩ := List.mem_ofFn.mp ho
      refine ⟨i, ?_⟩
      rw [hjoined i]
      cases hi : outcome i with
      | none => exact .inl rfl
      | some o => exact .inr ⟨o, rfl, by rwa [hi] at hfailed⟩
    · intro ⟨i, hi⟩
      refine ⟨_, List.mem_ofFn.mpr ⟨i, rfl⟩, ?_⟩
      rw [hjoined i] at hi
      rcases hi with hnone | ⟨o, hsome, hfailed⟩
      · cases ho : outcome i with
        | none => rfl
        | some o =>
          rw [ho] at hnone
          cases hnone
      · cases ho : outcome i with
        | none =>
          rw [ho] at hsome
          cases hsome
        | some o' =>
          rw [ho] at hsome
          cases hsome
          exact hfailed
  · refine forall_congr' fun i => ?_
    rw [hjoined i]
    cases outcome i with
    | none => simp [placeholder, HostOutcome.isFailed]
    | some o => simp

def onlyHost : Fin 1 := ⟨0, Nat.one_pos⟩

/-- The host's task is over: it panicked. -/
def panickedScan : World HostOutcome 1 :=
  let running := { (World.spawned HostOutcome 1 4).goes onlyHost .running with permits := 3 }
  let ended := { running.goes onlyHost (.ended none) with permits := 4 }
  { ended.goes onlyHost (.joined none) with completed := [] }

theorem scan_verdict_panicked :
    (scanAll [webHost] panickedScan).map (fun o => (o.name, o.target)) = [(webHost.name, webHost.target)] ∧
      (exitCode (scanAll [webHost] panickedScan) = 2 ↔
        ∃ i, panickedScan.phase i = .joined none ∨ ∃ o, panickedScan.phase i = .joined (some o) ∧ o.isFailed = true) ∧
        (exitCode (scanAll [webHost] panickedScan) = 0 ↔
          ∀ i, ∃ o, panickedScan.phase i = .joined (some o) ∧ o.isFailed = false ∧ o.counts.total = 0) :=
  have hreach : Reach (fun i : Fin [webHost].length => ScanOne [webHost][i]) (.spawned HostOutcome 1 4) panickedScan :=
    ((Relation.ReflTransGen.single (.acquire (i := onlyHost) rfl (by decide))).tail (.panics (i := onlyHost) rfl)).tail
      (.join (i := onlyHost) rfl)
  have hdone : Finished panickedScan := fun i => ⟨none, by rw [Subsingleton.elim i onlyHost]; rfl⟩
  scan_verdict hreach hdone

/-! ## Reports -/

inductive HostReportStatus where
  | assessed (frameworks : List FrameworkPosture)
  | failed (error : Chars)

structure HostReport where
  name : Chars
  target : Chars
  profile : ComplianceProfile
  status : HostReportStatus

/-- The loop of `report_exit_code`. -/
def reportExitCodeFrom (code : Nat) : List HostReport → Nat
  | [] => code
  | r :: rest =>
    match r.status with
    | .failed _ => 2
    | .assessed frameworks => reportExitCodeFrom (if frameworks.any fun f => f.failing > 0 then 1 else code) rest

def reportExitCode (reports : List HostReport) : Nat := reportExitCodeFrom 0 reports

structure FrameworkRollup where
  framework : ComplianceFramework
  failing : Nat
  deriving DecidableEq, Repr

structure ReportRollup where
  hostsTotal : Nat
  hostsAssessed : Nat
  hostsFailed : Nat
  frameworks : List FrameworkRollup
  deriving DecidableEq, Repr

/-- Adds to the framework's line, or starts one. -/
def addFramework (lines : List FrameworkRollup) (f : FrameworkPosture) : List FrameworkRollup :=
  match lines with
  | [] => [⟨f.framework, f.failing⟩]
  | fr :: rest =>
    if fr.framework = f.framework then { fr with failing := fr.failing + f.failing } :: rest else fr :: addFramework rest f

def ReportRollup.add (r : ReportRollup) (report : HostReport) : ReportRollup :=
  match report.status with
  | .failed _ => { r with hostsFailed := r.hostsFailed + 1 }
  | .assessed frameworks =>
    { r with
      hostsAssessed := r.hostsAssessed + 1
      frameworks := frameworks.foldl addFramework r.frameworks }

def ReportRollup.fromReports (reports : List HostReport) : ReportRollup :=
  reports.foldl ReportRollup.add ⟨reports.length, 0, 0, []⟩

namespace HostReport

def isFailed (r : HostReport) : Bool :=
  match r.status with
  | .failed _ => true
  | .assessed _ => false

/-- The frameworks of a host that was assessed. -/
def frameworks (r : HostReport) : List FrameworkPosture :=
  match r.status with
  | .failed _ => []
  | .assessed frameworks => frameworks

end HostReport

def FrameworkRollup.entry (fr : FrameworkRollup) : ComplianceFramework × Nat := (fr.framework, fr.failing)

def FrameworkPosture.entry (f : FrameworkPosture) : ComplianceFramework × Nat := (f.framework, f.failing)

/-- The lines of a rollup are a tally. -/
theorem map_addFramework (f : FrameworkPosture) (lines : List FrameworkRollup) :
    (addFramework lines f).map FrameworkRollup.entry = Tally.add f.framework f.failing (lines.map FrameworkRollup.entry) := by
  induction lines with
  | nil => rfl
  | cons fr rest ih =>
    by_cases h : fr.framework = f.framework <;> simp [addFramework, Tally.add, FrameworkRollup.entry, h] at ih ⊢
    exact ih

theorem map_foldl_addFramework (frameworks : List FrameworkPosture) (lines : List FrameworkRollup) :
    (frameworks.foldl addFramework lines).map FrameworkRollup.entry =
      (frameworks.map FrameworkPosture.entry).foldl (fun t e => Tally.add e.1 e.2 t) (lines.map FrameworkRollup.entry) := by
  induction frameworks generalizing lines with
  | nil => rfl
  | cons f frameworks ih => rw [List.foldl_cons, ih, map_addFramework, List.map_cons, List.foldl_cons]; rfl

/-- What all the hosts were assessed for. -/
def assessed (reports : List HostReport) : List FrameworkPosture := reports.flatMap HostReport.frameworks

theorem foldl_addReport (reports : List HostReport) (r : ReportRollup) :
    let t := reports.foldl ReportRollup.add r
    t.hostsTotal = r.hostsTotal ∧ t.hostsFailed = r.hostsFailed + reports.countP HostReport.isFailed ∧
      t.hostsAssessed + t.hostsFailed = r.hostsAssessed + r.hostsFailed + reports.length ∧
        t.frameworks = (assessed reports).foldl addFramework r.frameworks := by
  induction reports generalizing r with
  | nil => simp [assessed]
  | cons report reports ih =>
    obtain ⟨htotal, hfailed, hhosts, hlines⟩ := ih (r.add report)
    rw [assessed, List.flatMap_cons, List.foldl_append]
    cases hs : report.status with
    | failed error =>
      have hfail : report.isFailed = true := by simp [HostReport.isFailed, hs]
      have hnone : report.frameworks = [] := by simp [HostReport.frameworks, hs]
      simp only [List.foldl_cons, List.length_cons, List.countP_cons, hfail, hnone, if_true, List.foldl_nil]
      simp only [ReportRollup.add, hs] at htotal hfailed hhosts hlines ⊢
      exact ⟨htotal, by omega, by omega, hlines⟩
    | assessed frameworks =>
      have hfail : report.isFailed = false := by simp [HostReport.isFailed, hs]
      have hframeworks : report.frameworks = frameworks := by simp [HostReport.frameworks, hs]
      simp only [List.foldl_cons, List.length_cons, List.countP_cons, hfail, hframeworks]
      simp only [ReportRollup.add, hs] at htotal hfailed hhosts hlines ⊢
      exact ⟨htotal, by simpa using hfailed, by omega, hlines⟩

theorem reportExitCodeFrom_eq (reports : List HostReport) (code : Nat) :
    reportExitCodeFrom code reports =
      if reports.any HostReport.isFailed then 2 else if (assessed reports).any fun f => f.failing > 0 then 1 else code := by
  induction reports generalizing code with
  | nil => rfl
  | cons report reports ih =>
    rw [reportExitCodeFrom, assessed, List.flatMap_cons, List.any_append, List.any_cons]
    cases hs : report.status with
    | failed error => simp [HostReport.isFailed, hs]
    | assessed frameworks =>
      have hfail : report.isFailed = false := by simp [HostReport.isFailed, hs]
      have hframeworks : report.frameworks = frameworks := by simp [HostReport.frameworks, hs]
      dsimp only
      rw [ih, hfail, hframeworks, Bool.false_or]
      by_cases hfound : (frameworks.any fun f => f.failing > 0) = true
      · rw [if_pos hfound, hfound, Bool.true_or, if_pos rfl, ite_self]
      · rw [if_neg hfound, Bool.eq_false_iff.mpr hfound, Bool.false_or]
        rfl

/-- The failing controls of a framework over all the hosts. -/
def failingOf (reports : List HostReport) (framework : ComplianceFramework) : Nat :=
  (((assessed reports).filter fun f => f.framework = framework).map FrameworkPosture.failing).sum

theorem amount_entries (reports : List HostReport) (framework : ComplianceFramework) :
    Tally.amount framework ((assessed reports).map FrameworkPosture.entry) = failingOf reports framework := by
  rw [Tally.amount, failingOf, List.filter_map, List.map_map]
  rfl

/-- The hosts add up and the code is what the rollup tells: a failed host, a failing control, or
neither. The rollup has a line for each framework of a host that was assessed, in the order they
were met and none twice, with the failing controls of all the hosts. -/
theorem reportExitCode_rollup (reports : List HostReport) :
    let r := ReportRollup.fromReports reports
    r.hostsTotal = reports.length ∧ r.hostsAssessed + r.hostsFailed = r.hostsTotal ∧
      (reportExitCode reports = 2 ↔ 0 < r.hostsFailed) ∧
        (reportExitCode reports = 1 ↔ r.hostsFailed = 0 ∧ ∃ line ∈ r.frameworks, 0 < line.failing) ∧
          (reportExitCode reports = 0 ↔ r.hostsFailed = 0 ∧ ∀ line ∈ r.frameworks, line.failing = 0) ∧
            r.frameworks.map FrameworkRollup.framework =
              firstBy id [] ((assessed reports).map FrameworkPosture.framework) ∧
              (r.frameworks.map FrameworkRollup.framework).Nodup ∧
                ∀ line ∈ r.frameworks, line.failing = failingOf reports line.framework := by
  obtain ⟨htotal, hfailed, hhosts, hlines⟩ := foldl_addReport reports ⟨reports.length, 0, 0, []⟩
  have htally : (ReportRollup.fromReports reports).frameworks.map FrameworkRollup.entry =
      Tally.tally ((assessed reports).map FrameworkPosture.entry) := by
    rw [ReportRollup.fromReports, hlines, map_foldl_addFramework]
    rfl
  have hkeys : (ReportRollup.fromReports reports).frameworks.map FrameworkRollup.framework =
      firstBy id [] ((assessed reports).map FrameworkPosture.framework) := by
    have hfst := congrArg (List.map Prod.fst) htally
    rw [Tally.keys_tally, List.map_map, List.map_map] at hfst
    exact hfst
  have hamount : ∀ line ∈ (ReportRollup.fromReports reports).frameworks, line.failing = failingOf reports line.framework := by
    intro line hline
    have hmem : line.entry ∈ Tally.tally ((assessed reports).map FrameworkPosture.entry) :=
      htally ▸ List.mem_map_of_mem hline
    rw [← amount_entries]
    exact (Tally.mem_tally.mp hmem).2
  have hany : ((assessed reports).any fun f => f.failing > 0) = true ↔
      ∃ line ∈ (ReportRollup.fromReports reports).frameworks, 0 < line.failing := by
    rw [List.any_eq_true]
    constructor
    · intro ⟨f, hf, hpos⟩
      have hkey : f.framework ∈ (ReportRollup.fromReports reports).frameworks.map FrameworkRollup.framework := by
        rw [hkeys, ← List.map_id (firstBy id [] _), mem_keys_firstBy]
        simpa using ⟨f, hf, rfl⟩
      obtain ⟨line, hline, hsame⟩ := List.mem_map.mp hkey
      refine ⟨line, hline, ?_⟩
      rw [hamount line hline, failingOf]
      refine List.sum_pos_iff_exists_pos_nat.mpr ⟨f.failing, List.mem_map_of_mem (List.mem_filter.mpr ⟨hf, ?_⟩), ?_⟩
      · exact decide_eq_true hsame.symm
      · exact of_decide_eq_true hpos
    · intro ⟨line, hline, hpos⟩
      rw [hamount line hline, failingOf] at hpos
      obtain ⟨m, hm, hmpos⟩ := List.sum_pos_iff_exists_pos_nat.mp hpos
      obtain ⟨f, hf, rfl⟩ := List.mem_map.mp hm
      exact ⟨f, List.mem_of_mem_filter hf, decide_eq_true hmpos⟩
  have hcode : reportExitCode reports = tier (0 < (ReportRollup.fromReports reports).hostsFailed)
      (∃ line ∈ (ReportRollup.fromReports reports).frameworks, 0 < line.failing) := by
    have hpos : (reports.any HostReport.isFailed = true) ↔ 0 < (ReportRollup.fromReports reports).hostsFailed := by
      rw [ReportRollup.fromReports, hfailed, Nat.zero_add, List.any_eq_true, List.countP_pos_iff]
    rw [reportExitCode, reportExitCodeFrom_eq, tier]
    simp only [hpos, hany]
  have hadd : (ReportRollup.fromReports reports).hostsAssessed + (ReportRollup.fromReports reports).hostsFailed =
      (ReportRollup.fromReports reports).hostsTotal := (hhosts.trans (Nat.zero_add _)).trans htotal.symm
  rw [hcode, tier_eq_two, tier_eq_one, tier_eq_zero, Nat.not_lt, Nat.le_zero]
  refine ⟨htotal, hadd, Iff.rfl, Iff.rfl, ?_, hkeys, ?_, hamount⟩
  · simp
  · rw [hkeys, ← List.map_id (firstBy id [] _)]
    exact nodup_keys_firstBy [] _

end LinuxHardener.Fleet
