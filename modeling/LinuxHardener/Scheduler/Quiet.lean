import LinuxHardener.Scheduler.History

/-
  Regression alerts are quiet until the host changes, along histories whose steps are
  orderly.

  The invariant is about the last run compared: every completed session of the host is
  that run, or stands before it, or is still to be compared, or stores all that the
  schedule would have found. What is proved:
    1. `step_invariant` — every orderly step keeps the invariant.
    2. `quiet_of_invariant` — under it, an orderly comparison is quiet.
    3. `quiet_along` — so is every comparison of a history of orderly steps.
-/
namespace LinuxHardener.Scheduler

open LineText (Chars)
open Compliance (PluginId)
open Core (Severity)

/-! ## Rows after a statement -/

namespace Db

variable {db : Db} {host : Chars} {id : String} {a b row : ScanSession}

theorem getSession_eq_some : db.getSession id = some row ↔ row ∈ db.sessions ∧ row.id = id := by
  constructor
  · intro h
    exact ⟨List.mem_of_find?_eq_some h, beq_iff_eq.mp (List.find?_some (p := fun s : ScanSession => s.id == id) h)⟩
  · intro h
    obtain ⟨hmem, hid⟩ := h
    obtain ⟨other, hother⟩ := mem_ids_iff.mp (List.mem_map.mpr ⟨row, hmem, hid⟩ : id ∈ db.ids)
    have hsame : other.id = row.id := (beq_iff_eq.mp (List.find?_some (p := fun s : ScanSession => s.id == id) hother)).trans hid.symm
    rw [hother, eq_of_id_eq (List.mem_of_find?_eq_some hother) hmem hsame]

theorem newerFirst_refl (a : ScanSession) : db.NewerFirst a a := .inr ⟨rfl, Nat.le_refl _⟩

/-- The order of two rows is that of their times and ids, which no update changes. -/
theorem newerFirst_update {change : ScanSession → ScanSession} (hchange : ∀ s, (change s).id = s.id) {a' b' : ScanSession}
    (hida : a'.id = a.id) (hidb : b'.id = b.id) (htimea : a'.startedAt = a.startedAt) (htimeb : b'.startedAt = b.startedAt) :
    (db.update id change hchange).NewerFirst a' b' ↔ db.NewerFirst a b := by
  have hids : (db.update id change hchange).ids = db.ids := by
    show (db.sessions.map fun s => if s.id == id then change s else s).map ScanSession.id = db.sessions.map ScanSession.id
    rw [List.map_map]
    apply List.map_congr_left
    intro s _
    show (if s.id == id then change s else s).id = s.id
    split
    · exact hchange s
    · rfl
  unfold NewerFirst rowid
  rw [hids, hida, hidb, htimea, htimeb]

theorem newerFirst_createSession {session : ScanSession} (ha : a ∈ db.sessions) (hb : b ∈ db.sessions) :
    (db.createSession session).NewerFirst a b ↔ db.NewerFirst a b := by
  have hrowid : ∀ s ∈ db.sessions, (db.createSession session).rowid s = db.rowid s := by
    intro s hs
    unfold createSession
    split
    · rfl
    · show ((db.sessions ++ [session]).map ScanSession.id).idxOf s.id = _
      rw [List.map_append]
      exact List.idxOf_append_of_mem (List.mem_map_of_mem hs)
  unfold NewerFirst
  rw [hrowid a ha, hrowid b hb]

theorem mem_createSession {session : ScanSession} (h : a ∈ (db.createSession session).sessions) : a ∈ db.sessions ∨ a = session := by
  unfold createSession at h
  split at h
  · exact .inl h
  · rcases List.mem_append.mp h with h | h
    · exact .inl h
    · exact .inr (List.mem_singleton.mp h)

/-- A session that was just opened is not a completed one. -/
theorem isCompleted_createSession {trigger hostId : Chars} {plugins : List PluginId} {startedAt : Int}
    (h : (db.createSession (.opened id trigger hostId plugins startedAt)).IsCompleted host a) : db.IsCompleted host a := by
  rcases mem_createSession h.1 with hmem | hnew
  · exact ⟨hmem, h.2⟩
  · have := h.2.2
    rw [hnew] at this
    cases this

theorem mem_update {change : ScanSession → ScanSession} (hchange : ∀ s, (change s).id = s.id)
    (h : a ∈ (db.update id change hchange).sessions) :
    (a ∈ db.sessions ∧ a.id ≠ id) ∨ ∃ old, db.getSession id = some old ∧ a = change old := by
  obtain ⟨old, hold, heq⟩ := List.mem_map.mp h
  by_cases hid : old.id = id
  · rw [if_pos (beq_iff_eq.mpr hid)] at heq
    exact .inr ⟨old, getSession_eq_some.mpr ⟨hold, hid⟩, heq.symm⟩
  · rw [if_neg (by simpa using hid)] at heq
    rw [← heq]
    exact .inl ⟨hold, hid⟩

end Db

/-! ## What was found stays found -/

namespace History

variable {schedule : Schedule} {h : History}

theorem ready_eq_some {id : String} {scan : Scan} (hready : h.ready schedule id = some scan) :
    ∃ row, h.db.getSession id = some row ∧ h.scans id = some scan ∧ row.status = .running ∧
      (scan.ofRun = true → row.hostIdentifier = schedule.host) := by
  unfold ready at hready
  split at hready
  · next row scan' hrow hscan =>
    split at hready
    · next hcond =>
      obtain rfl := Option.some.inj hready
      exact ⟨row, hrow, hscan, hcond⟩
    · cases hready
  · cases hready

/-- A run that has completed: its row holds what its scan found. -/
def Done (schedule : Schedule) (h : History) (id : String) : Prop :=
  ∃ row scan, h.db.getSession id = some row ∧ h.db.IsCompleted schedule.host row ∧ h.scans id = some scan ∧ scan.ofRun = true ∧
    row.severityTuple = (SeverityCounts.fromFindings (h.found id)).severityTuple

/-- A session that stores all that the schedule would have found. -/
def Covered (schedule : Schedule) (h : History) (s : ScanSession) : Prop :=
  ∃ scan, h.scans s.id = some scan ∧ h.Covers schedule s.id scan ∧
    s.severityTuple = (SeverityCounts.fromFindings (h.found s.id)).severityTuple

structure Invariant (schedule : Schedule) (h : History) : Prop where
  /-- A scan saw the host as it has been. -/
  epochs : ∀ id scan, h.scans id = some scan → scan.epoch ≤ h.epoch
  /-- A run scans what it is scheduled to. -/
  jobs : ∀ id scan, h.scans id = some scan → scan.ofRun = true →
    scan.job.plugins = schedule.plugins ∧ scan.job.minSeverity = schedule.minSeverity
  waitingDone : ∀ id ∈ h.waiting, h.Done schedule id
  lastDone : ∀ p, h.last = some p → h.Done schedule p
  /-- One run at a time is to be compared. -/
  single : h.waiting.length ≤ 1
  covered : ∀ p prow, h.last = some p → h.db.getSession p = some prow → ∀ s, h.db.IsCompleted schedule.host s →
    s.id = p ∨ s.id ∈ h.waiting ∨ h.db.NewerFirst prow s ∨ h.Covered schedule s

theorem invariant_start (schedule : Schedule) (db : Db) (report : HostReport) : (start db report).Invariant schedule where
  epochs _ _ hscan := by cases hscan
  jobs _ _ hscan := by cases hscan
  waitingDone _ hid := by cases hid
  lastDone _ hlast := by cases hlast
  single := Nat.zero_le 1
  covered _ _ hlast := by cases hlast

/-! ## Steps that leave the sessions alone -/

theorem found_congr {h' : History} {id : String} (hscans : h'.scans id = h.scans id)
    (hreports : ∀ scan, h.scans id = some scan → h'.reports scan.epoch = h.reports scan.epoch) : h'.found id = h.found id := by
  unfold found
  rw [hscans]
  cases hscan : h.scans id with
  | none => rfl
  | some scan =>
    dsimp only
    rw [hreports scan hscan]

/-- A history with the same sessions, and the same scans of all that were scanned for. -/
structure SameSessions (h h' : History) : Prop where
  db : h'.db = h.db
  waiting : h'.waiting = h.waiting
  last : h'.last = h.last
  scans : ∀ id scan, h.scans id = some scan → h'.scans id = some scan
  reports : ∀ id scan, h.scans id = some scan → h'.reports scan.epoch = h.reports scan.epoch

namespace SameSessions

variable {h' : History} (hsame : SameSessions h h')
include hsame

theorem found {id : String} {scan : Scan} (hscan : h.scans id = some scan) : h'.found id = h.found id :=
  found_congr ((hsame.scans id scan hscan).trans hscan.symm) fun other hother => hsame.reports id other hother

theorem done {id : String} (hdone : h.Done schedule id) : h'.Done schedule id := by
  obtain ⟨row, scan, hrow, hcompleted, hscan, hrun, htuple⟩ := hdone
  refine ⟨row, scan, ?_, ?_, hsame.scans id scan hscan, hrun, ?_⟩
  · rw [hsame.db, hrow]
  · rw [hsame.db]
    exact hcompleted
  · rw [hsame.found hscan, htuple]

theorem covered {s : ScanSession} (hcovered : h.Covered schedule s) : h'.Covered schedule s := by
  obtain ⟨scan, hscan, hcovers, htuple⟩ := hcovered
  refine ⟨scan, hsame.scans _ scan hscan, ?_, ?_⟩
  · unfold Covers
    rw [hsame.reports _ scan hscan, hsame.found hscan]
    exact hcovers
  · rw [hsame.found hscan, htuple]

theorem invariant (hinv : h.Invariant schedule) (hepochs : ∀ id scan, h'.scans id = some scan → scan.epoch ≤ h'.epoch)
    (hjobs : ∀ id scan, h'.scans id = some scan → scan.ofRun = true →
      scan.job.plugins = schedule.plugins ∧ scan.job.minSeverity = schedule.minSeverity) : h'.Invariant schedule where
  epochs := hepochs
  jobs := hjobs
  waitingDone id hid := hsame.done (hinv.waitingDone id (hsame.waiting ▸ hid))
  lastDone p hlast := hsame.done (hinv.lastDone p (hsame.last ▸ hlast))
  single := by rw [hsame.waiting]; exact hinv.single
  covered p prow hlast hprow s hs := by
    rw [hsame.db] at hprow hs ⊢
    rw [hsame.waiting]
    obtain h | h | h | h := hinv.covered p prow (hsame.last ▸ hlast) hprow s hs
    · exact .inl h
    · exact .inr (.inl h)
    · exact .inr (.inr (.inl h))
    · exact .inr (.inr (.inr (hsame.covered h)))

end SameSessions

theorem invariant_hostChanges (hinv : h.Invariant schedule) (report : HostReport) :
    (h.step schedule (.hostChanges report)).Invariant schedule := by
  have hsame : SameSessions h (h.step schedule (.hostChanges report)) := by
    refine ⟨rfl, rfl, rfl, fun _ _ hscan => hscan, fun id scan hscan => ?_⟩
    have := hinv.epochs id scan hscan
    exact Function.update_of_ne (by omega) _ _
  refine hsame.invariant hinv (fun id scan hscan => ?_) hinv.jobs
  have := hinv.epochs id scan hscan
  show scan.epoch ≤ h.epoch + 1
  omega

theorem invariant_scanned (hinv : h.Invariant schedule) {id : String} {scan : Scan} (hepoch : scan.epoch = h.epoch)
    (hjob : scan.ofRun = true → scan.job.plugins = schedule.plugins ∧ scan.job.minSeverity = schedule.minSeverity) :
    (h.scanned id scan).Invariant schedule := by
  unfold scanned
  split
  · next hnone =>
    have hother : ∀ other old, h.scans other = some old → other ≠ id := by
      intro other old hold heq
      rw [← heq, hold] at hnone
      cases hnone
    have hsame : SameSessions h { h with scans := Function.update h.scans id (some scan) } := by
      refine ⟨rfl, rfl, rfl, fun other old hold => ?_, fun _ _ _ => rfl⟩
      exact (Function.update_of_ne (hother other old hold) _ _).trans hold
    have hscans : ∀ other new, Function.update h.scans id (some scan) other = some new → new = scan ∨ h.scans other = some new := by
      intro other new hnew
      by_cases heq : other = id
      · rw [heq, Function.update_self] at hnew
        exact .inl (Option.some.inj hnew).symm
      · rw [Function.update_of_ne heq] at hnew
        exact .inr hnew
    refine hsame.invariant hinv (fun other new hnew => ?_) fun other new hnew hrun => ?_
    · rcases hscans other new hnew with heq | hold
      · rw [heq, hepoch]
      · exact hinv.epochs other new hold
    · rcases hscans other new hnew with heq | hold
      · rw [heq] at hrun ⊢
        exact hjob hrun
      · exact hinv.jobs other new hold hrun
  · exact hinv

/-! ## Steps on the sessions -/

theorem invariant_opens (hinv : h.Invariant schedule) (id : String) (trigger host : Chars) (plugins : List PluginId)
    (startedAt : Int) : (h.step schedule (.opens id trigger host plugins startedAt)).Invariant schedule := by
  have hdone : ∀ other, h.Done schedule other → (h.step schedule (.opens id trigger host plugins startedAt)).Done schedule other := by
    intro other hother
    obtain ⟨row, scan, hrow, hcompleted, hrest⟩ := hother
    have hrow' := Db.getSession_createSession_of_some hrow (.opened id trigger host plugins startedAt)
    exact ⟨row, scan, hrow', ⟨(Db.getSession_eq_some.mp hrow').1, hcompleted.2⟩, hrest⟩
  refine ⟨hinv.epochs, hinv.jobs, fun w hw => hdone w (hinv.waitingDone w hw), fun p hp => hdone p (hinv.lastDone p hp),
    hinv.single, fun p prow hlast hprow s hs => ?_⟩
  have hs' : h.db.IsCompleted schedule.host s := Db.isCompleted_createSession hs
  obtain ⟨prow', _, hprow', hdone'⟩ := hinv.lastDone p hlast
  have hsame : prow = prow' :=
    Option.some.inj (hprow.symm.trans (Db.getSession_createSession_of_some hprow' (.opened id trigger host plugins startedAt)))
  rw [hsame]
  obtain hc | hc | hc | hc := hinv.covered p prow' hlast hprow' s hs'
  · exact .inl hc
  · exact .inr (.inl hc)
  · exact .inr (.inr (.inl ((Db.newerFirst_createSession (Db.getSession_eq_some.mp hprow').1 hs'.1).mpr hc)))
  · exact .inr (.inr (.inr hc))

section

variable {id : String} (change : ScanSession → ScanSession) (hchange : ∀ s, (change s).id = s.id) (waiting : List String)

/-- A row updated, and the runs that are to be compared. -/
def updated (h : History) (id : String) : History := { h with db := h.db.update id change hchange, waiting := waiting }

variable {row : ScanSession} (hrow : h.db.getSession id = some row) (hrunning : row.status = .running)
include hrow hrunning

/-- A run that is done keeps its row under the update of one that is running. -/
theorem done_updated {other : String} (hother : h.Done schedule other) :
    other ≠ id ∧ (updated change hchange waiting h id).Done schedule other := by
  obtain ⟨row', scan, hrow', hcompleted, hrest⟩ := hother
  have hne : other ≠ id := by
    intro heq
    rw [heq, hrow] at hrow'
    rw [Option.some.inj hrow', hcompleted.2.2] at hrunning
    cases hrunning
  have hget : (h.db.update id change hchange).getSession other = some row' := by
    rw [Db.getSession_update_ne hchange hne.symm, hrow']
  exact ⟨hne, row', scan, hget, ⟨(Db.getSession_eq_some.mp hget).1, hcompleted.2⟩, hrest⟩

/-- The update of a running row, with the run it may be waiting for. -/
theorem invariant_updated (hinv : h.Invariant schedule) (htime : ∀ s, (change s).startedAt = s.startedAt)
    (hsingle : waiting.length ≤ 1) (hkept : ∀ w ∈ h.waiting, w ∈ waiting)
    (hwaiting : ∀ w ∈ waiting, w ∈ h.waiting ∨ (updated change hchange waiting h id).Done schedule w)
    (hnew : ∀ p prow, h.last = some p → h.db.getSession p = some prow → (change row).hostIdentifier = schedule.host →
      (change row).status = .completed → id ∈ waiting ∨ h.db.NewerFirst prow row ∨
        (updated change hchange waiting h id).Covered schedule (change row)) :
    (updated change hchange waiting h id).Invariant schedule := by
  refine ⟨hinv.epochs, hinv.jobs, fun w hw => ?_,
    fun p hp => (done_updated change hchange waiting hrow hrunning (hinv.lastDone p hp)).2, hsingle, fun p prow hlast hprow s hs => ?_⟩
  · rcases hwaiting w hw with hold | hdone
    · exact (done_updated change hchange waiting hrow hrunning (hinv.waitingDone w hold)).2
    · exact hdone
  · have hne := (done_updated change hchange waiting hrow hrunning (hinv.lastDone p hlast)).1
    have hprow' : h.db.getSession p = some prow := (Db.getSession_update_ne hchange hne.symm).symm.trans hprow
    rcases Db.mem_update hchange hs.1 with ⟨hmem, hsid⟩ | ⟨old, hold, hs'⟩
    · obtain hc | hc | hc | hc := hinv.covered p prow hlast hprow' s ⟨hmem, hs.2⟩
      · exact .inl hc
      · exact .inr (.inl (hkept _ hc))
      · exact .inr (.inr (.inl ((Db.newerFirst_update hchange rfl rfl rfl rfl).mpr hc)))
      · exact .inr (.inr (.inr hc))
    · obtain rfl := Option.some.inj (hrow.symm.trans hold)
      have hid : (change row).id = id := (hchange row).trans (Db.getSession_eq_some.mp hrow).2
      subst hs'
      obtain hc | hc | hc := hnew p prow hlast hprow' hs.2.1 hs.2.2
      · exact .inr (.inl (hid ▸ hc))
      · exact .inr (.inr (.inl ((Db.newerFirst_update hchange rfl (hchange row) rfl (htime row)).mpr hc)))
      · exact .inr (.inr (.inr hc))

end

theorem invariant_fails (hinv : h.Invariant schedule) (id : String) (error : Chars) (now : Int) :
    (h.step schedule (.fails id error now)).Invariant schedule := by
  unfold step
  dsimp only
  split
  · next row hrow =>
    split
    · next hrunning =>
      refine invariant_updated (Db.failed error now) (fun _ => rfl) h.waiting hrow hrunning hinv (fun _ => rfl) hinv.single
        (fun _ hw => hw) (fun w hw => .inl hw) fun p prow _ _ _ hstatus => ?_
      cases hstatus
    · exact hinv
  · exact hinv

/-- The counters of a completed row, where they fit. -/
theorem severityTuple_completed {findings : List ScanFinding} (hlength : findings.length < 2 ^ 31) (jsonPath hash : Option Chars)
    (now : Int) (row : ScanSession) :
    (Db.completed (.fromFindings findings) jsonPath hash now row).severityTuple =
      (SeverityCounts.fromFindings findings).severityTuple := by
  have hcount : ∀ s, asI32 (countOf findings s) = countOf findings s := by
    intro s
    apply asI32_eq
    have : countOf findings s ≤ findings.length := List.countP_le_length
    omega
  unfold ScanSession.severityTuple SeverityCounts.severityTuple
  simp only [Db.completed, SeverityCounts.fromFindings, hcount]

theorem invariant_completes (hinv : h.Invariant schedule) {id : String} {jsonPath hash : Option Chars} {now : Int}
    (horderly : h.Orderly schedule (.completes id jsonPath hash now)) :
    (h.step schedule (.completes id jsonPath hash now)).Invariant schedule := by
  unfold step
  dsimp only
  cases hready : h.ready schedule id with
  | none => exact hinv
  | some scan =>
    dsimp only
    obtain ⟨row, hrow, hscan, hrunning, hhost⟩ := ready_eq_some hready
    obtain ⟨hlength, hrun, hcli⟩ := horderly scan row hready hrow
    have hid : row.id = id := (Db.getSession_eq_some.mp hrow).2
    have htuple := severityTuple_completed hlength jsonPath hash now row
    by_cases hof : scan.ofRun = true
    · -- a run: it is to be compared, and nothing else is
      have hnone := hrun hof
      rw [if_pos hof, hnone]
      refine invariant_updated (Db.completed (.fromFindings (h.found id)) jsonPath hash now) (fun _ => rfl) [id] hrow hrunning
        hinv (fun _ => rfl) (Nat.le_refl 1) (fun w hw => ?_) (fun w hw => ?_) fun p prow _ _ _ _ => ?_
      · rw [hnone] at hw
        cases hw
      · obtain rfl := List.mem_singleton.mp hw
        have hget := @Db.getSession_completeRow h.db w (.fromFindings (h.found w)) jsonPath hash now
        rw [hrow, Option.map_some] at hget
        refine .inr ⟨_, scan, hget, ⟨(Db.getSession_eq_some.mp hget).1, hhost hof, rfl⟩, hscan, hof, htuple⟩
      · exact .inl (List.mem_singleton.mpr rfl)
    · rw [if_neg hof]
      refine invariant_updated (Db.completed (.fromFindings (h.found id)) jsonPath hash now) (fun _ => rfl) h.waiting hrow
        hrunning hinv (fun _ => rfl) hinv.single (fun _ hw => hw) (fun _ hw => .inl hw) fun p prow hlast hprow hsession _ => ?_
      rcases hcli (eq_false_of_ne_true hof) hsession p hlast with hcovers | ⟨prow', hprow', hnewer⟩
      · refine .inr (.inr ⟨scan, ?_, ?_, ?_⟩)
        · show h.scans row.id = some scan
          rw [hid, hscan]
        · show h.Covers schedule row.id scan
          rw [hid]
          exact hcovers
        · show _ = (SeverityCounts.fromFindings (h.found row.id)).severityTuple
          rw [hid]
          exact htuple
      · obtain rfl := Option.some.inj (hprow.symm.trans hprow')
        exact .inr (.inl hnewer)

theorem invariant_compares (hinv : h.Invariant schedule) {id : String} (horderly : h.Orderly schedule (.compares id)) :
    (h.step schedule (.compares id)).Invariant schedule := by
  unfold step
  dsimp only
  split
  · next hwaiting =>
    have hdone := hinv.waitingDone id hwaiting
    refine ⟨hinv.epochs, hinv.jobs, fun w hw => hinv.waitingDone w (List.mem_of_mem_erase hw), fun p hp => ?_, ?_,
      fun p prow hp hprow s hs => ?_⟩
    · obtain rfl := Option.some.inj hp
      exact hdone
    · exact Nat.le_trans (List.length_erase_le) hinv.single
    · obtain rfl := Option.some.inj hp
      exact .inr (.inr (.inl ((horderly hwaiting prow hprow).1 s hs)))
  · exact hinv

/-- Every orderly step keeps the invariant. -/
theorem step_invariant (hinv : h.Invariant schedule) {e : Step} (horderly : h.Orderly schedule e) :
    (h.step schedule e).Invariant schedule := by
  cases e with
  | hostChanges report => exact invariant_hostChanges hinv report
  | opens id trigger host plugins startedAt => exact invariant_opens hinv id trigger host plugins startedAt
  | runScans id failing => exact invariant_scanned hinv rfl fun _ => ⟨rfl, rfl⟩
  | cliScans id job => exact invariant_scanned hinv rfl fun hrun => by cases hrun
  | completes id jsonPath hash now => exact invariant_completes hinv horderly
  | fails id error now => exact invariant_fails hinv id error now
  | compares id => exact invariant_compares hinv horderly

/-! ## The comparison -/

theorem countOf_le {found found' : List ScanFinding} (h : found.Subperm found') (s : Severity) : countOf found s ≤ countOf found' s :=
  h.countP_le _

theorem noMore_of_subperm {found found' : List ScanFinding} (h : found.Subperm found') :
    NoMore (SeverityCounts.fromFindings found).severityTuple (SeverityCounts.fromFindings found').severityTuple := by
  have hle : ∀ s, (countOf found s : Int) ≤ countOf found' s := fun s => Int.ofNat_le.mpr (countOf_le h s)
  exact ⟨hle _, hle _, hle _, hle _, hle _⟩

theorem alert_of_noMore {id : String} {b : ScanSession} (hprevious : h.db.previousCompletedSession schedule.host id = some b)
    (hnoMore : NoMore (SeverityCounts.fromFindings (h.found id)).severityTuple b.severityTuple) (floor : Severity) :
    h.alert schedule .regression floor id = (false, none) := by
  have hworse : regressed .regression floor (some b) (.fromFindings (h.found id)) = false := by
    show (true && isWorse _ _) = false
    rw [not_isWorse (hnoMore.aboveFloor floor)]
    rfl
  unfold alert alertDecision
  rw [hprevious, hworse]
  rfl

/-- An orderly comparison of a run that has completed is quiet. -/
theorem quiet_of_invariant (hinv : h.Invariant schedule) {id : String} (hwaiting : id ∈ h.waiting)
    (horderly : h.Orderly schedule (.compares id)) : h.Quiet schedule id := by
  obtain ⟨row, scan, hrow, hcompleted, hscan, _, _⟩ := hinv.waitingDone id hwaiting
  obtain ⟨hnewest, hbetween⟩ := horderly hwaiting row hrow
  have hid : row.id = id := (Db.getSession_eq_some.mp hrow).2
  have hprevious := Db.previous_of_newest hcompleted hnewest
  rw [hid] at hprevious
  refine ⟨fun b row' hb hrow' => ?_, fun p floor hlast hne hunchanged => ?_⟩
  · obtain rfl := Option.some.inj (hrow.symm.trans hrow')
    obtain ⟨_, hnone⟩ | ⟨b', hb', hcompleted', _, _⟩ := hprevious
    · rw [hnone] at hb
      cases hb
    · obtain rfl := Option.some.inj (hb'.symm.trans hb)
      have := hnewest b' hcompleted'
      unfold Db.NewerFirst at this
      omega
  · obtain ⟨prow, pscan, hprow, hpcompleted, hpscan, hprun, hptuple⟩ := hinv.lastDone p hlast
    have hpid : prow.id = p := (Db.getSession_eq_some.mp hprow).2
    have hprowNe : prow ≠ row := fun heq => hne (by rw [← hpid, heq, hid])
    have hunchanged' := hunchanged
    obtain ⟨before, now, hbefore, hnow, hepoch, hsame⟩ := hunchanged
    obtain rfl := Option.some.inj (hpscan.symm.trans hbefore)
    obtain ⟨hall, _⟩ | ⟨b, hb, hbcompleted, hbne, hbnewest⟩ := hprevious
    · exact absurd (hall prow hpcompleted) hprowNe
    · refine alert_of_noMore hb ?_ floor
      -- what it is compared with is the run before, or a session that stores as much
      by_cases hbp : b = prow
      · rw [hbp, hptuple, hsame]
        exact ⟨Int.le_refl _, Int.le_refl _, Int.le_refl _, Int.le_refl _, Int.le_refl _⟩
      · have hbid : b.id ≠ id := fun heq => hbne (Db.eq_of_id_eq hbcompleted.1 hcompleted.1 (heq.trans hid.symm))
        have hnotNewer : ¬ h.db.NewerFirst prow b := fun hnewer =>
          hbp (Db.eq_of_newerFirst hbcompleted.1 hpcompleted.1 (hbnewest prow hpcompleted hprowNe) hnewer)
        obtain hc | hc | hc | ⟨bscan, hbscan, hcovers, hbtuple⟩ := hinv.covered p prow hlast hprow b hbcompleted
        · exact absurd (Db.eq_of_id_eq hbcompleted.1 hpcompleted.1 (hc.trans hpid.symm)) hbp
        · exact absurd (waiting_unique hinv hc hwaiting) hbid
        · exact absurd hc hnotNewer
        · have hbepoch : bscan.epoch = pscan.epoch :=
            (hbetween p hlast hunchanged' prow hprow b bscan hbcompleted hbid hnotNewer hbscan now hnow).trans hepoch.symm
          have hfound : (h.found p).Sublist
              ((⟨schedule.plugins, schedule.minSeverity, []⟩ : ScanJob).found (h.reports pscan.epoch)) := by
            obtain ⟨hplugins, hseverity⟩ := hinv.jobs p pscan hpscan hprun
            have := ScanJob.found_sublist pscan.job.plugins pscan.job.failing pscan.job.minSeverity (h.reports pscan.epoch)
            rw [hplugins, hseverity] at this
            have hjob : pscan.job = ⟨schedule.plugins, schedule.minSeverity, pscan.job.failing⟩ := by
              rw [← hplugins, ← hseverity]
            unfold found
            rw [hpscan]
            dsimp only
            rw [hjob]
            exact this
          rw [hbtuple, ← hsame]
          unfold Covers at hcovers
          rw [hbepoch] at hcovers
          exact noMore_of_subperm (hfound.subperm.trans hcovers)
where
  waiting_unique {a b : String} (hinv : h.Invariant schedule) (ha : a ∈ h.waiting) (hb : b ∈ h.waiting) : a = b := by
    have hsingle := hinv.single
    match hw : h.waiting with
    | [] => rw [hw] at ha; cases ha
    | [w] =>
      rw [hw] at ha hb
      rw [List.mem_singleton.mp ha, List.mem_singleton.mp hb]
    | _ :: _ :: _ =>
      rw [hw] at hsingle
      simp at hsingle

/-! ## Histories -/

/-- Every step is orderly when it is taken. -/
def OrderlyAlong (schedule : Schedule) : History → List Step → Prop
  | _, [] => True
  | h, e :: steps => h.Orderly schedule e ∧ OrderlyAlong schedule (h.step schedule e) steps

/-- Every comparison of a completed run along the history is quiet. -/
def QuietAlong (schedule : Schedule) : History → List Step → Prop
  | _, [] => True
  | h, e :: steps => (∀ id, e = .compares id → id ∈ h.waiting → h.Quiet schedule id) ∧ QuietAlong schedule (h.step schedule e) steps

theorem quiet_of_orderly (hinv : h.Invariant schedule) {steps : List Step} (horderly : OrderlyAlong schedule h steps) :
    QuietAlong schedule h steps := by
  induction steps generalizing h with
  | nil => trivial
  | cons e steps ih =>
    refine ⟨fun id he hwaiting => ?_, ih (step_invariant hinv horderly.1) horderly.2⟩
    rw [he] at horderly
    exact quiet_of_invariant hinv hwaiting horderly.1

/-- In a history of orderly steps, whatever stood in the table before it, every comparison
is quiet. -/
theorem quiet_along (schedule : Schedule) (db : Db) (report : HostReport) (steps : List Step)
    (horderly : OrderlyAlong schedule (start db report) steps) : QuietAlong schedule (start db report) steps :=
  quiet_of_orderly (invariant_start schedule db report) horderly

/-- The comparison that ends a history. -/
theorem QuietAlong.last {steps : List Step} {id : String} (hquiet : QuietAlong schedule h (steps ++ [.compares id]))
    (hwaiting : id ∈ (h.after schedule steps).waiting) : (h.after schedule steps).Quiet schedule id := by
  induction steps generalizing h with
  | nil => exact hquiet.1 id rfl hwaiting
  | cons e steps ih => exact ih hquiet.2 hwaiting

/-! ## A scan of another plugin in between -/

def sshSchedule : Schedule := ⟨"web-01", [⟨"ssh-hardening"⟩], .medium⟩

/-- The ssh plugin reports that root may log in. -/
def rootLogin : HostReport := fun plugin =>
  if plugin.value = "ssh-hardening" then
    [⟨⟨"ssh_permitrootlogin", [], .notConfigured⟩, .critical, "PermitRootLogin", [], "yes", "no", .authentication⟩]
  else []

/-- A run, from its session to its end. -/
def runSteps (id : String) (startedAt : Int) : List Step :=
  [.opens id "scheduled" "web-01" [⟨"ssh-hardening"⟩] startedAt, .runScans id [], .completes id none none (startedAt + 5)]

/-- A scan from the command line of the kernel plugin alone. -/
def kernelScan : List Step :=
  [.cliScans "c1" ⟨[⟨"kernel-hardening"⟩], .info, []⟩, .opens "c1" "cli" "web-01" [⟨"kernel-hardening"⟩] 150,
    .completes "c1" none none 155]

def beforeComparison (between : List Step) : List Step :=
  runSteps "s1" 100 ++ [.compares "s1"] ++ between ++ runSteps "s2" 200

theorem orderly_twice : OrderlyAlong sshSchedule (start .empty rootLogin) (beforeComparison [] ++ [.compares "s2"]) := by
  refine ⟨trivial, trivial, ?_, ?_, trivial, trivial, ?_, ?_, trivial⟩
  · intro scan row hready _
    cases hready
    exact ⟨by decide, fun _ => rfl, fun hrun => by cases hrun⟩
  · intro _ row hrow
    cases hrow
    refine ⟨fun s hs => ?_, fun p hlast => by cases hlast⟩
    rw [List.mem_singleton.mp hs.1]
    exact Db.newerFirst_refl _
  · intro scan row hready _
    cases hready
    exact ⟨by decide, fun _ => rfl, fun hrun => by cases hrun⟩
  · intro _ row hrow
    cases hrow
    refine ⟨fun s hs => ?_, fun p hlast _ prow hprow s scan hs hne hnewer => ?_⟩
    · rcases List.mem_cons.mp hs.1 with rfl | hs
      · decide
      · rw [List.mem_singleton.mp hs]
        decide
    · -- only the first run's session is left, and it is no newer than itself
      cases hlast
      cases hprow
      rcases List.mem_cons.mp hs.1 with rfl | hs
      · exact absurd (Db.newerFirst_refl _) hnewer
      · rw [List.mem_singleton.mp hs] at hne
        exact absurd rfl hne

theorem quiet_twice : QuietAlong sshSchedule (start .empty rootLogin) (beforeComparison [] ++ [.compares "s2"]) :=
  quiet_along sshSchedule .empty rootLogin _ orderly_twice

/-- Nothing has changed on the host, and the second run raises an alert. -/
theorem alert_after_partial_scan :
    ¬ ∀ (schedule : Schedule) (db : Db) (report : HostReport) (steps : List Step), QuietAlong schedule (start db report) steps := by
  intro hclaim
  have hquiet := (hclaim sshSchedule .empty rootLogin (beforeComparison kernelScan ++ [.compares "s2"])).last (by decide)
  have hunchanged : ((start .empty rootLogin).after sshSchedule (beforeComparison kernelScan)).Unchanged "s1" "s2" :=
    ⟨_, _, rfl, rfl, rfl, rfl⟩
  have halert := hquiet.silent "s1" .critical rfl (by decide) hunchanged
  revert halert
  decide

end History

end LinuxHardener.Scheduler
