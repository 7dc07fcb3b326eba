import LinuxHardener.Scheduler.Alerts
import LinuxHardener.State.Retention

/-
  Old sessions deleted from the scheduler's history (`hardener-scheduler`, `db.rs`), and the
  law of both stores.

  Correspondence (Rust ↔ Lean):
    `cleanup` ↔ `Db.cleanup`; what its `SELECT` answers is `listing`

  A log of notifications, whose rows go along with a session's too, is left out: nothing
  writes one here.

  What is proved:
    1. `keepsNewest_iff` — the sessions kept are those `list_sessions` puts first, however
       the engine orders ties, exactly where no second has sessions on both sides of the
       limit and the number deleted fits its type.
    2. `retention_iff` — both stores.
-/
namespace LinuxHardener.Scheduler

open LineText (Chars)
open State (limitRows)

namespace Db

/-- All sessions, in the order of `list_sessions`. -/
def allSessions (db : Db) : List ScanSession := db.listSessions ⟨none, none, none, none, none⟩

theorem allSessions_eq (db : Db) : db.allSessions = db.sessions.insertionSort db.NewerFirst := by
  have hall : db.sessions.filter (Selects ⟨none, none, none, none, none⟩) = db.sessions :=
    List.filter_eq_self.mpr fun _ _ => rfl
  rw [allSessions, listSessions, hall]

theorem descending_allSessions (db : Db) : Descending ScanSession.startedAt db.sessions db.allSessions := by
  rw [allSessions_eq]
  refine ⟨List.perm_insertionSort _ _, (List.pairwise_insertionSort db.NewerFirst db.sessions).imp fun {a b} h => ?_⟩
  unfold NewerFirst at h
  omega

/-- `DELETE FROM scan_sessions WHERE ..`, with the findings that go along. -/
def deleteWhere (db : Db) (gone : ScanSession → Bool) : Db where
  sessions := db.sessions.filter fun s => !gone s
  findings := db.findings.filter fun f => ((db.sessions.filter fun s => !gone s).map ScanSession.id).contains f.1
  nodup := db.nodup.sublist (List.filter_sublist.map _)
  owned := fun _ hf => List.contains_iff_mem.mp (List.mem_filter.mp hf).2

/-- Deletes sessions older than the retention period, or else beyond the retention count. -/
def cleanup (now : Int) (retentionDays retentionCount : Nat) (listing : List ScanSession) (db : Db) : Nat × Db :=
  let deleted (left : Db) : Nat × Db := ((db.sessions.length - left.sessions.length) % 2 ^ 32, left)
  if 0 < retentionDays then
    let cutoff := now - retentionDays * 86400
    deleted (db.deleteWhere fun s => s.startedAt < cutoff)
  else if 0 < retentionCount then
    deleted (db.deleteWhere fun s => !((limitRows retentionCount listing).map ScanSession.id).contains s.id)
  else (0, db)

end Db

variable {db left : Db} {now : Int} {keep : Nat} {listing : List ScanSession}

/-- The sessions with these ids are left, with their findings, and nothing else. -/
structure LeftWith (db : Db) (ids : List String) (left : Db) : Prop where
  sessions : left.sessions = db.sessions.filter fun s => ids.contains s.id
  findings : left.findings = db.findings.filter fun f => ids.contains f.1

/-- The ids of the sessions that the reader puts first. -/
def newestIds (db : Db) (keep : Nat) : List String := (db.allSessions.take keep).map ScanSession.id

/-- With no limit of days: however the engine orders ties, the newest sessions are left,
and the others counted. -/
def KeepsNewest (now : Int) (db : Db) (keep : Nat) : Prop :=
  ∀ listing, Descending ScanSession.startedAt db.sessions listing →
    (db.cleanup now 0 keep listing).1 = db.sessions.length - keep ∧ LeftWith db (newestIds db keep) (db.cleanup now 0 keep listing).2

theorem leftWith_deleteWhere {ids ids' : List String}
    (hsame : db.sessions.filter (fun s => ids.contains s.id) = db.sessions.filter fun s => ids'.contains s.id) :
    LeftWith db ids' (db.deleteWhere fun s => !ids.contains s.id) := by
  have hsessions : (db.sessions.filter fun s => !!ids.contains s.id) = db.sessions.filter fun s => ids'.contains s.id := by
    simpa using hsame
  refine ⟨hsessions, List.filter_congr fun f hf => ?_⟩
  obtain ⟨s, hs, he⟩ := List.mem_map.mp (db.owned f hf)
  rw [hsessions, ← he, Bool.eq_iff_iff, List.contains_iff_mem]
  constructor
  · intro h
    obtain ⟨s', hs', he'⟩ := List.mem_map.mp h
    exact he' ▸ (List.mem_filter.mp hs').2
  · exact fun h => List.mem_map_of_mem (List.mem_filter.mpr ⟨hs, h⟩)

theorem cleanup_count (now : Int) (listing : List ScanSession) (db : Db) (keep : Nat) :
    db.cleanup now 0 (keep + 1) listing =
      ((db.sessions.length - (db.deleteWhere fun s => !((listing.take (keep + 1)).map ScanSession.id).contains s.id).sessions.length) % 2 ^ 32,
        db.deleteWhere fun s => !((listing.take (keep + 1)).map ScanSession.id).contains s.id) := by
  rw [Db.cleanup, if_neg (Nat.lt_irrefl 0), if_pos (Nat.succ_pos keep), State.limitRows_nat]

/-- A limit of days alone leaves the sessions of those days. -/
theorem cleanup_days (now : Int) (listing : List ScanSession) (db : Db) (days count : Nat) :
    (db.cleanup now (days + 1) count listing).2 = db.deleteWhere fun s => s.startedAt < now - ((days + 1 : Nat) : Int) * 86400 := by
  rw [Db.cleanup, if_pos (Nat.succ_pos days)]

theorem length_deleteWhere (keep : Nat) (hl : Descending ScanSession.startedAt db.sessions listing) :
    (db.deleteWhere fun s => !((listing.take keep).map ScanSession.id).contains s.id).sessions.length =
      min keep db.sessions.length := by
  rw [(leftWith_deleteWhere rfl).sessions, length_filter_take db.nodup hl.perm]

/-- No second has sessions on both sides of the limit, and the number deleted fits its type. -/
structure Retainable (db : Db) (keep : Nat) : Prop where
  no_tie : NoTieAt ScanSession.startedAt db.allSessions keep
  counted : db.sessions.length - keep < 2 ^ 32

theorem keepsNewest_iff (now : Int) (db : Db) (keep : Nat) : KeepsNewest now db (keep + 1) ↔ Retainable db (keep + 1) := by
  have hcount : ∀ listing, Descending ScanSession.startedAt db.sessions listing →
      (db.cleanup now 0 (keep + 1) listing).1 = (db.sessions.length - (keep + 1)) % 2 ^ 32 := by
    intro listing hl
    have hlength := length_deleteWhere (keep + 1) hl
    rw [cleanup_count, hlength]
    omega
  constructor
  · intro h
    refine ⟨(filter_take_iff db.nodup db.descending_allSessions).mp fun l hl => ?_, ?_⟩
    · have hleft := (h l hl).2.sessions
      rw [cleanup_count] at hleft
      exact (leftWith_deleteWhere rfl).sessions.symm.trans hleft
    · have hsame := (h _ db.descending_allSessions).1
      rw [hcount _ db.descending_allSessions] at hsame
      exact hsame ▸ Nat.mod_lt _ (by decide)
  · intro h listing hl
    refine ⟨(hcount listing hl).trans (Nat.mod_eq_of_lt h.counted), ?_⟩
    rw [cleanup_count]
    exact leftWith_deleteWhere ((filter_take_iff db.nodup db.descending_allSessions).mpr h.no_tie listing hl)

/-- Retention keeps the newest sessions, in both stores, exactly under their conditions. -/
theorem retention_iff (maxParameters : Nat) (store : State.ScanStore) (now : Int) (db : Db) (keep kept : Nat) :
    (State.KeepsNewest maxParameters store keep ↔ State.Retainable maxParameters store keep) ∧
      (KeepsNewest now db (kept + 1) ↔ Retainable db (kept + 1)) :=
  ⟨State.cleanupOldSessions_iff maxParameters store keep, keepsNewest_iff now db kept⟩

/-! ## Two sessions of one second -/

def opened (id : String) : ScanSession := .opened id "manual" "web-01" [] 100

def twins : Db where
  sessions := [opened "a", opened "b"]
  findings := []
  nodup := by decide
  owned := by simp

def sessionRow (id : String) : State.SessionRow := ⟨id, 100, none, 0, 0, "completed"⟩

def storedTwins : State.ScanStore where
  sessions := [sessionRow "a", sessionRow "b"]
  results := []
  findings := []
  nodup := by decide
  results_owned := by simp
  findings_owned := by simp

/-- The engine may read the older of the two first, and the newer one is deleted; with
nothing to keep, nothing is. -/
theorem retention_tie : ¬ State.KeepsNewest 32766 storedTwins 1 ∧ ¬ KeepsNewest 0 twins 1 ∧ ¬ State.KeepsNewest 32766 storedTwins 0 := by
  have hstored : newestFirst State.SessionRow.startedAt storedTwins.sessions = [sessionRow "b", sessionRow "a"] :=
    newestFirst_of_ties (by decide)
  have htwins : twins.allSessions = [opened "b", opened "a"] := by decide
  refine ⟨fun h => ?_, fun h => ?_, fun h => ?_⟩
  · have hno := h.retainable.no_tie
    rw [NoTieAt, hstored] at hno
    exact hno (sessionRow "b") (by decide) (sessionRow "a") (by decide) rfl
  · have hno := ((keepsNewest_iff 0 twins 0).mp h).no_tie
    rw [NoTieAt, htwins] at hno
    exact hno (opened "b") (by decide) (opened "a") (by decide) rfl
  · exact absurd (h.retainable.keeps_some rfl) (by decide)

end LinuxHardener.Scheduler
