import LinuxHardener.Scheduler.Alerts
import Mathlib.Data.List.Perm.Subperm
import Mathlib.Logic.Function.Basic

/-
  A host's history, written by scheduled runs and by scans from the command line.

  A scheduled run opens its session, scans, completes the session and is then compared
  with an earlier one. A scan from the command line opens its session, with the time it
  began at, once it is done, and keeps what its own selection and its own severity filter
  leave. The steps of all of them come in any order. The lookup reads the sessions alone,
  so their findings' rows are left out.

  Of an alert it matters which run was compared last before (`last`) and which have
  completed and are still to be compared (`waiting`); what a plugin reports of the host
  is numbered by the changes the host has gone through.
-/
namespace LinuxHardener.Scheduler

open LineText (Chars)
open Compliance (PluginId)
open Core (Severity)

/-! ## Scans -/

/-- What the plugins report of a host. -/
abbrev HostReport := PluginId → List Finding

structure ScanJob where
  plugins : List PluginId
  minSeverity : Severity
  failing : List PluginId
  deriving DecidableEq, Repr

namespace ScanJob

/-- A plugin whose scan fails has no findings. -/
def resultOf (job : ScanJob) (report : HostReport) (plugin : PluginId) : ScanResult :=
  if plugin ∈ job.failing then ⟨plugin, false, [], none⟩ else ⟨plugin, true, report plugin, none⟩

/-- The findings that a scan stores. -/
def found (job : ScanJob) (report : HostReport) : List ScanFinding :=
  processFindings job.minSeverity (job.plugins.map (job.resultOf report))

theorem found_eq (job : ScanJob) (report : HostReport) : job.found report =
    job.plugins.flatMap fun p => processFindings job.minSeverity [job.resultOf report p] := by
  unfold found processFindings
  rw [List.flatMap_map]
  simp

/-- A failing plugin takes findings away and adds none. -/
theorem found_sublist (plugins failing : List PluginId) (minSeverity : Severity) (report : HostReport) :
    ((⟨plugins, minSeverity, failing⟩ : ScanJob).found report).Sublist ((⟨plugins, minSeverity, []⟩ : ScanJob).found report) := by
  rw [found_eq, found_eq]
  induction plugins with
  | nil => exact List.Sublist.refl _
  | cons p plugins ih =>
    rw [List.flatMap_cons, List.flatMap_cons]
    refine List.Sublist.append ?_ ih
    by_cases hp : p ∈ failing
    · simp [resultOf, hp, processFindings]
    · simp [resultOf, hp]

end ScanJob

/-- What the daemon is set to run. -/
structure Schedule where
  host : Chars
  plugins : List PluginId
  minSeverity : Severity

/-- A scan that was made, when the host had changed so many times. -/
structure Scan where
  job : ScanJob
  epoch : Nat
  ofRun : Bool

/-! ## Steps -/

structure History where
  db : Db
  reports : Nat → HostReport
  epoch : Nat
  scans : String → Option Scan
  waiting : List String
  last : Option String

/-- Before any scan. Sessions may stand in the table already. -/
def History.start (db : Db) (report : HostReport) : History := ⟨db, fun _ => report, 0, fun _ => none, [], none⟩

inductive Step where
  | hostChanges (report : HostReport)
  | opens (id : String) (trigger host : Chars) (plugins : List PluginId) (startedAt : Int)
  | runScans (id : String) (failing : List PluginId)
  | cliScans (id : String) (job : ScanJob)
  | completes (id : String) (jsonPath hash : Option Chars) (now : Int)
  | fails (id : String) (error : Chars) (now : Int)
  | compares (id : String)

namespace History

variable (schedule : Schedule) (h : History)

/-- What the scan of a session found. -/
def found (id : String) : List ScanFinding :=
  match h.scans id with
  | none => []
  | some scan => scan.job.found (h.reports scan.epoch)

/-- A session is scanned for once. -/
def scanned (id : String) (scan : Scan) : History :=
  if (h.scans id).isNone then { h with scans := Function.update h.scans id (some scan) } else h

/-- A session that is running and scanned for, and that of a run under the schedule's host. -/
def ready (id : String) : Option Scan :=
  match h.db.getSession id, h.scans id with
  | some row, some scan =>
    if row.status = .running ∧ (scan.ofRun = true → row.hostIdentifier = schedule.host) then some scan else none
  | _, _ => none

def step : Step → History
  | .hostChanges report =>
    { h with reports := Function.update h.reports (h.epoch + 1) report, epoch := h.epoch + 1 }
  | .opens id trigger host plugins startedAt =>
    { h with db := h.db.createSession (.opened id trigger host plugins startedAt) }
  | .runScans id failing => h.scanned id ⟨⟨schedule.plugins, schedule.minSeverity, failing⟩, h.epoch, true⟩
  | .cliScans id job => h.scanned id ⟨job, h.epoch, false⟩
  | .completes id jsonPath hash now =>
    match h.ready schedule id with
    | none => h
    | some scan =>
      { h with
        db := h.db.completeRow id (.fromFindings (h.found id)) jsonPath hash now
        waiting := if scan.ofRun then id :: h.waiting else h.waiting }
  | .fails id error now =>
    match h.db.getSession id with
    | some row => if row.status = .running then { h with db := h.db.failSession id error now } else h
    | none => h
  | .compares id =>
    if id ∈ h.waiting then { h with waiting := h.waiting.erase id, last := some id } else h

def after (steps : List Step) : History := steps.foldl (fun h e => h.step schedule e) h

/-- The alert that the comparison of a run decides on. -/
def alert (mode : NotifyMode) (floor : Severity) (id : String) : Bool × Option RegressionInfo :=
  alertDecision mode floor (h.db.previousCompletedSession schedule.host id) (.fromFindings (h.found id))

/-- The host and its plugins are for the second run as they were for the first. -/
def Unchanged (p id : String) : Prop :=
  ∃ before now, h.scans p = some before ∧ h.scans id = some now ∧ before.epoch = now.epoch ∧ h.found p = h.found id

/-- A run is compared with nothing that started after it, and raises no alert where nothing has
changed since the run before. -/
structure Quiet (id : String) : Prop where
  earlier : ∀ b row, h.db.previousCompletedSession schedule.host id = some b → h.db.getSession id = some row →
    b.startedAt ≤ row.startedAt
  silent : ∀ p floor, h.last = some p → p ≠ id → h.Unchanged p id → h.alert schedule .regression floor id = (false, none)

/-! ## The steps that keep a history quiet -/

/-- A session stores all that the schedule would have found in the same scan. -/
def Covers (id : String) (scan : Scan) : Prop :=
  ((⟨schedule.plugins, schedule.minSeverity, []⟩ : ScanJob).found (h.reports scan.epoch)).Subperm (h.found id)

/-- What is stored beside the runs misses nothing of theirs, or stands before the last run
compared; a run is compared while it is the newest, and while what has started since the
last run saw the host as it did; and one run completes at a time. -/
def Orderly : Step → Prop
  | .completes id _ _ _ => ∀ scan row, h.ready schedule id = some scan → h.db.getSession id = some row →
      (h.found id).length < 2 ^ 31 ∧ (scan.ofRun = true → h.waiting = []) ∧
      (scan.ofRun = false → row.hostIdentifier = schedule.host → ∀ p, h.last = some p →
        h.Covers schedule id scan ∨ ∃ prow, h.db.getSession p = some prow ∧ h.db.NewerFirst prow row)
  | .compares id => id ∈ h.waiting → ∀ row, h.db.getSession id = some row →
      (∀ s, h.db.IsCompleted schedule.host s → h.db.NewerFirst row s) ∧
      ∀ p, h.last = some p → h.Unchanged p id → ∀ prow, h.db.getSession p = some prow →
        ∀ s scan, h.db.IsCompleted schedule.host s → s.id ≠ id → ¬ h.db.NewerFirst prow s → h.scans s.id = some scan →
          ∀ now, h.scans id = some now → scan.epoch = now.epoch
  | _ => True

end History

end LinuxHardener.Scheduler
