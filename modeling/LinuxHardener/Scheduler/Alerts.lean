import LinuxHardener.Scheduler.Runner

/-
  What a run is compared with, and when the comparison raises an alert.

  Correspondence (Rust ↔ Lean):
    `SessionFilter`, `list_sessions`      ↔ `SessionFilter`, `listSessions`
    `previous_completed_session`          ↔ `previousCompletedSession`
    `SeverityTuple`, `above_floor`, `is_worse` ↔ `SeverityTuple`, `aboveFloor`, `isWorse`
    `NotifyMode`, `RegressionInfo`        ↔ the types of these names
    `meets_severity_threshold`, `alert_decision` ↔ `meetsSeverityThreshold`, `alertDecision`

  What is proved: `not_isWorse` — a posture with no more of any severity is not worse;
  `previous_of_newest` — compared with is the newest of the other sessions, where the run
  itself is the newest of all.
-/
namespace LinuxHardener.Scheduler

open LineText (Chars)
open Core (Severity)

/-! ## Severity -/

/-- Counts by priority, critical first. -/
structure SeverityTuple where
  critical : Int
  high : Int
  medium : Int
  low : Int
  info : Int
  deriving DecidableEq, Repr

def ScanSession.severityTuple (s : ScanSession) : SeverityTuple :=
  ⟨s.criticalCount, s.highCount, s.mediumCount, s.lowCount, s.infoCount⟩

def SeverityCounts.severityTuple (counts : SeverityCounts) : SeverityTuple :=
  ⟨counts.critical, counts.high, counts.medium, counts.low, counts.info⟩

/-- Only the counts at or above the floor. -/
def aboveFloor (t : SeverityTuple) : Severity → SeverityTuple
  | .critical => ⟨t.critical, 0, 0, 0, 0⟩
  | .high => ⟨t.critical, t.high, 0, 0, 0⟩
  | .medium => ⟨t.critical, t.high, t.medium, 0, 0⟩
  | .low => ⟨t.critical, t.high, t.medium, t.low, 0⟩
  | .info => t

/-- The first count that differs decides. -/
def isWorse (prev cur : SeverityTuple) : Bool :=
  if cur.critical ≠ prev.critical then prev.critical < cur.critical
  else if cur.high ≠ prev.high then prev.high < cur.high
  else if cur.medium ≠ prev.medium then prev.medium < cur.medium
  else if cur.low ≠ prev.low then prev.low < cur.low
  else prev.info < cur.info

/-- No more of any severity. -/
structure NoMore (cur prev : SeverityTuple) : Prop where
  critical : cur.critical ≤ prev.critical
  high : cur.high ≤ prev.high
  medium : cur.medium ≤ prev.medium
  low : cur.low ≤ prev.low
  info : cur.info ≤ prev.info

theorem not_isWorse {prev cur : SeverityTuple} (h : NoMore cur prev) : isWorse prev cur = false := by
  obtain ⟨hcritical, hhigh, hmedium, hlow, hinfo⟩ := h
  unfold isWorse
  split
  · simp; omega
  · split
    · simp; omega
    · split
      · simp; omega
      · split
        · simp; omega
        · simp; omega

theorem NoMore.aboveFloor {cur prev : SeverityTuple} (h : NoMore cur prev) (floor : Severity) :
    NoMore (aboveFloor cur floor) (aboveFloor prev floor) := by
  have hzero : (0 : Int) ≤ 0 := Int.le_refl 0
  cases floor with
  | critical => exact ⟨h.critical, hzero, hzero, hzero, hzero⟩
  | high => exact ⟨h.critical, h.high, hzero, hzero, hzero⟩
  | medium => exact ⟨h.critical, h.high, h.medium, hzero, hzero⟩
  | low => exact ⟨h.critical, h.high, h.medium, h.low, hzero⟩
  | info => exact h

/-! ## The decision -/

inductive NotifyMode where
  | findings
  | regression
  | both
  deriving DecidableEq, Repr

structure RegressionInfo where
  previousStartedAt : Int
  previousTotal : Int
  deltaCritical : Int
  deltaHigh : Int
  deltaMedium : Int
  deltaLow : Int
  deriving DecidableEq, Repr

def RegressionInfo.new (previous : ScanSession) (current : SeverityCounts) : RegressionInfo where
  previousStartedAt := previous.startedAt
  previousTotal := previous.totalFindings
  deltaCritical := current.critical - previous.criticalCount
  deltaHigh := current.high - previous.highCount
  deltaMedium := current.medium - previous.mediumCount
  deltaLow := current.low - previous.lowCount

def meetsSeverityThreshold (current : SeverityCounts) : Severity → Bool
  | .critical => 0 < current.critical
  | .high => 0 < current.critical || 0 < current.high
  | .medium => 0 < current.critical || 0 < current.high || 0 < current.medium
  | .low => 0 < current.critical || 0 < current.high || 0 < current.medium || 0 < current.low
  | .info => 0 < current.total

/-- Whether the run is worse than the session it is compared with. -/
def regressed (mode : NotifyMode) (floor : Severity) (previous : Option ScanSession) (current : SeverityCounts) : Bool :=
  (mode == .regression || mode == .both) &&
    match previous with
    | none => false
    | some p => isWorse (aboveFloor p.severityTuple floor) (aboveFloor current.severityTuple floor)

/-- Whether to notify, and of which regression. -/
def alertDecision (mode : NotifyMode) (floor : Severity) (previous : Option ScanSession) (current : SeverityCounts) :
    Bool × Option RegressionInfo :=
  let absolute := (mode == .findings || mode == .both) && meetsSeverityThreshold current floor
  let worse := regressed mode floor previous current
  (absolute || worse, if worse then previous.map fun p => .new p current else none)

/-! ## The previous session -/

structure SessionFilter where
  host : Option Chars
  status : Option SessionStatus
  sinceTime : Option Int
  untilTime : Option Int
  limit : Option Nat

namespace Db

/-- The place of a row in the table. -/
def rowid (db : Db) (s : ScanSession) : Nat := db.ids.idxOf s.id

/-- Started later, or in the same second and inserted later. -/
def NewerFirst (db : Db) (a b : ScanSession) : Prop :=
  b.startedAt < a.startedAt ∨ (b.startedAt = a.startedAt ∧ db.rowid b ≤ db.rowid a)

instance (db : Db) : DecidableRel db.NewerFirst := fun _ _ => inferInstanceAs (Decidable (_ ∨ _))

instance (db : Db) : Std.Total db.NewerFirst where
  total a b := by
    unfold NewerFirst
    omega

instance (db : Db) : IsTrans ScanSession db.NewerFirst where
  trans a b c hab hbc := by
    unfold NewerFirst at hab hbc ⊢
    omega

def Selects (filter : SessionFilter) (s : ScanSession) : Bool :=
  filter.host.all (fun host => s.hostIdentifier == host) && filter.status.all (fun status => s.status == status) &&
    filter.sinceTime.all (fun since => decide (since ≤ s.startedAt)) &&
    filter.untilTime.all fun latest => decide (s.startedAt ≤ latest)

def listSessions (db : Db) (filter : SessionFilter) : List ScanSession :=
  let rows := (db.sessions.filter (Selects filter)).insertionSort db.NewerFirst
  match filter.limit with
  | none => rows
  | some limit => rows.take limit

/-- The first of the two newest completed sessions that is not the one excluded. -/
def previousCompletedSession (db : Db) (host : Chars) (excludeId : String) : Option ScanSession :=
  (db.listSessions ⟨some host, some .completed, none, none, some 2⟩).find? fun s => s.id != excludeId

/-- A completed session of the host. -/
def IsCompleted (db : Db) (host : Chars) (s : ScanSession) : Prop :=
  s ∈ db.sessions ∧ s.hostIdentifier = host ∧ s.status = .completed

variable {db : Db} {host : Chars} {run : ScanSession}

theorem eq_of_id_eq {a b : ScanSession} (ha : a ∈ db.sessions) (hb : b ∈ db.sessions) (h : a.id = b.id) : a = b :=
  List.inj_on_of_nodup_map db.nodup ha hb h

theorem eq_of_newerFirst {a b : ScanSession} (ha : a ∈ db.sessions) (hb : b ∈ db.sessions) (hab : db.NewerFirst a b)
    (hba : db.NewerFirst b a) : a = b := by
  have hrowid : db.rowid a = db.rowid b := by
    unfold NewerFirst at hab hba
    omega
  have hmem : a.id ∈ db.ids := List.mem_map_of_mem ha
  exact eq_of_id_eq ha hb ((List.idxOf_inj hmem).mp hrowid)

theorem mem_completed {s : ScanSession} : s ∈ db.sessions.filter (Selects ⟨some host, some .completed, none, none, some 2⟩) ↔
    db.IsCompleted host s := by
  rw [List.mem_filter]
  simp [Selects, IsCompleted]

/-- Where a run is the newest completed session, what it is compared with is the newest of
the others. -/
theorem previous_of_newest (hrun : db.IsCompleted host run) (hnewest : ∀ s, db.IsCompleted host s → db.NewerFirst run s) :
    (∀ s, db.IsCompleted host s → s = run) ∧ db.previousCompletedSession host run.id = none ∨
      ∃ b, db.previousCompletedSession host run.id = some b ∧ db.IsCompleted host b ∧ b ≠ run ∧
        ∀ s, db.IsCompleted host s → s ≠ run → db.NewerFirst b s := by
  unfold previousCompletedSession listSessions
  dsimp only
  have hsorted := List.pairwise_insertionSort db.NewerFirst
    (db.sessions.filter (Selects ⟨some host, some .completed, none, none, some 2⟩))
  have hmem : ∀ s, s ∈ (db.sessions.filter (Selects ⟨some host, some .completed, none, none, some 2⟩)).insertionSort db.NewerFirst ↔
      db.IsCompleted host s := by
    intro s
    rw [List.mem_insertionSort, mem_completed]
  have hnodup : ((db.sessions.filter (Selects ⟨some host, some .completed, none, none, some 2⟩)).insertionSort
      db.NewerFirst).Nodup :=
    (List.perm_insertionSort _ _).nodup_iff.mpr (db.nodup.of_map.filter _)
  generalize (db.sessions.filter (Selects ⟨some host, some .completed, none, none, some 2⟩)).insertionSort db.NewerFirst = rows
    at hsorted hmem hnodup ⊢
  cases rows with
  | nil => exact absurd ((hmem run).mpr hrun) List.not_mem_nil
  | cons first rest =>
    rw [List.pairwise_cons] at hsorted
    have hfirst : first = run := by
      have hcompleted := (hmem first).mp List.mem_cons_self
      rcases List.mem_cons.mp ((hmem run).mpr hrun) with h | h
      · exact h.symm
      · exact eq_of_newerFirst hcompleted.1 hrun.1 (hsorted.1 run h) (hnewest first hcompleted)
    subst hfirst
    cases rest with
    | nil =>
      refine .inl ⟨?_, by simp⟩
      intro s hs
      exact List.mem_singleton.mp ((hmem s).mpr hs)
    | cons b rest =>
      have hb := (hmem b).mp (List.mem_cons_of_mem _ List.mem_cons_self)
      have hother : ∀ s, db.IsCompleted host s → s ≠ first → db.NewerFirst b s := by
        intro s hs hne
        rcases List.mem_cons.mp ((hmem s).mpr hs) with h | h
        · exact absurd h hne
        · rcases List.mem_cons.mp h with h | h
          · rw [h]
            exact .inr ⟨rfl, Nat.le_refl _⟩
          · exact (List.pairwise_cons.mp hsorted.2).1 s h
      have hne : b ≠ first := by
        intro h
        rw [h] at hnodup
        exact (List.nodup_cons.mp hnodup).1 List.mem_cons_self
      have hid : b.id ≠ first.id := fun h => hne (eq_of_id_eq hb.1 hrun.1 h)
      exact .inr ⟨b, by simp [hid], hb, hne, hother⟩

end Db

end LinuxHardener.Scheduler
