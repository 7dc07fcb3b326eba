import LinuxHardener.Scheduler.Runner

/-
  How a scheduled session ends.

  A session is truthful where it failed, or where it is completed with all the findings
  of its scan and counts that are theirs. What is proved:
    1. `recorded` — a run that has created its session leaves the row of that id with the
       plugins it was created for.
    2. `truthful_iff` — the session ends truthful exactly where no statement and no export
       failed after it was created, and its findings can be counted in 32 bits.
-/
namespace LinuxHardener.Scheduler

open LineText (Chars)
open Compliance (PluginId)
open Core (Severity HardenerConfig)
open Dialogue

/-! ## Frames -/

section

variable {db : Db} {id : String} {row : ScanSession}

/-- No answer changes which plugins a session is recorded for. -/
theorem getSession_react (hget : db.getSession id = some row) (e : Exchange) :
    ∃ row', (react db e).getSession id = some row' ∧ row'.pluginsScanned = row.pluginsScanned := by
  have hupdate : ∀ (target : String) (change : ScanSession → ScanSession) (hchange : ∀ s, (change s).id = s.id),
      (∀ s, (change s).pluginsScanned = s.pluginsScanned) →
      ∃ row', (db.update target change hchange).getSession id = some row' ∧ row'.pluginsScanned = row.pluginsScanned := by
    intro target change hchange hkeeps
    by_cases hid : target = id
    · subst hid
      exact ⟨change row, by rw [Db.getSession_update, hget, Option.map_some], hkeeps row⟩
    · exact ⟨row, by rw [Db.getSession_update_ne hchange hid, hget], rfl⟩
  unfold react
  split
  · exact ⟨row, Db.getSession_createSession_of_some hget _, rfl⟩
  · next target error now => exact hupdate target (Db.failed error now) (fun _ => rfl) fun _ => rfl
  · next target counts jsonPath hash now =>
    exact hupdate target (Db.completed counts jsonPath hash now) (fun _ => rfl) fun _ => rfl
  · exact ⟨row, by rw [Db.getSession_insertFinding, hget], rfl⟩
  · exact ⟨row, hget, rfl⟩

theorem getSession_after (hget : db.getSession id = some row) (es : List Exchange) :
    ∃ row', (after react db es).getSession id = some row' ∧ row'.pluginsScanned = row.pluginsScanned := by
  induction es generalizing db row with
  | nil => exact ⟨row, hget, rfl⟩
  | cons e es ih =>
    obtain ⟨row₁, hget₁, hplugins₁⟩ := getSession_react hget e
    obtain ⟨row', hget', hplugins'⟩ := ih hget₁
    exact ⟨row', hget', hplugins'.trans hplugins₁⟩

end

/-! ## A run with a session -/

/-- The session was created. -/
def Created (es : List Exchange) (id : String) : Prop :=
  ∃ trigger host plugins startedAt, (⟨.createSession trigger host plugins startedAt, .ok id⟩ : Exchange) ∈ es

/-- What is asked once a session stands: one scan, of its plugins, and no other session. -/
def asksRecord (plugins : List PluginId) : Request → Prop
  | .createSession _ _ _ _ => False
  | .executeScan selection => selection = plugins
  | _ => True

theorem asks_insertFindings (plugins : List PluginId) (id : String) (findings : List ScanFinding) :
    Asks (asksRecord plugins) (insertFindings id findings) := by
  induction findings with
  | nil => trivial
  | cons f findings ih =>
    refine ⟨trivial, fun r => ?_⟩
    cases r with
    | error e => trivial
    | ok u => exact ih

theorem asks_failSession (plugins : List PluginId) (id : String) (error : Chars) : Asks (asksRecord plugins) (failSession id error) :=
  ⟨trivial, fun _ => ⟨trivial, fun _ => trivial⟩⟩

theorem asks_completeSession (plugins : List PluginId) (id : String) (findings : List ScanFinding) (jsonPath hash : Option Chars) :
    Asks (asksRecord plugins) (completeSession id findings jsonPath hash) := by
  refine ⟨trivial, fun _ => ⟨trivial, fun r => ?_⟩⟩
  cases r with
  | error e => trivial
  | ok u => exact asks_insertFindings plugins id findings

theorem asks_recordScan (runner : ScanRunner) (plugins : List PluginId) (id : String) :
    Asks (asksRecord plugins) (runner.recordScan plugins id) := by
  refine ⟨rfl, fun r => ?_⟩
  cases r with
  | error e =>
    apply (asks_failSession plugins id e).bind
    intro r
    cases r <;> trivial
  | ok results =>
    refine ⟨trivial, fun r => ?_⟩
    cases r with
    | error e => trivial
    | ok file =>
      apply (asks_completeSession plugins id _ _ _).bind
      intro r
      cases r <;> trivial

/-- A run that created a session is: a look at the clock, the insert, and the scan recorded
under the new id. -/
theorem run_created {runner : ScanRunner} {config : HardenerConfig} {order : Except Chars (List PluginId)} {trigger : TriggerType}
    {es : List Exchange} {b : Except HardeningError ScanSummary} {id : String}
    (hrun : Run (runner.run config order trigger) es b) (hcreated : Created es id) :
    ∃ registered plugins now es', order = .ok registered ∧ pluginsToScan runner.plugins config registered = .ok plugins ∧
      es = ⟨.now, now⟩ :: ⟨.createSession trigger.asStr runner.host plugins now, .ok id⟩ :: es' ∧
      Run (runner.recordScan plugins id) es' b := by
  obtain ⟨trig, host, plugs, startedAt, hmem⟩ := hcreated
  unfold ScanRunner.run at hrun
  cases order with
  | error e =>
    obtain ⟨rfl, _⟩ := run_pure.mp hrun
    cases hmem
  | ok registered =>
    dsimp only at hrun
    cases hplugins : pluginsToScan runner.plugins config registered with
    | error e =>
      rw [hplugins] at hrun
      obtain ⟨rfl, _⟩ := run_pure.mp hrun
      cases hmem
    | ok plugins =>
      rw [hplugins] at hrun
      dsimp only at hrun
      obtain ⟨now, es₁, rfl, hrun₁⟩ := run_request.mp hrun
      obtain ⟨r, es₂, rfl, hrun₂⟩ := run_request.mp hrun₁
      clear hrun hrun₁
      cases r with
      | error e =>
        obtain ⟨rfl, _⟩ := run_pure.mp hrun₂
        simp at hmem
      | ok id' =>
        have hnone := (asks_recordScan runner plugins id').of_run hrun₂
        have hid : id' = id := by
          rcases List.mem_cons.mp hmem with h | hmem
          · cases h
          · rcases List.mem_cons.mp hmem with h | hmem
            · cases h
              rfl
            · exact (hnone _ hmem).elim
        exact ⟨registered, plugins, now, es₂, rfl, hplugins, by rw [hid], hid ▸ hrun₂⟩

/-- The row of a created session names the plugins that the scan was asked for. -/
theorem recorded {runner : ScanRunner} {config : HardenerConfig} {order : Except Chars (List PluginId)} {trigger : TriggerType}
    {es : List Exchange} {b : Except HardeningError ScanSummary} {id : String} {db : Db}
    (hrun : Run (runner.run config order trigger) es b) (hcreated : Created es id) (hfresh : id ∉ db.ids) :
    ∃ registered plugins row r, order = .ok registered ∧ pluginsToScan runner.plugins config registered = .ok plugins ∧
      (after react db es).getSession id = some row ∧ row.pluginsScanned = plugins ∧
      (⟨.executeScan plugins, r⟩ : Exchange) ∈ es := by
  obtain ⟨registered, plugins, now, es', horder, hplugins, rfl, hrecord⟩ := run_created hrun hcreated
  have hopened : (db.createSession (.opened id trigger.asStr runner.host plugins now)).getSession id =
      some (.opened id trigger.asStr runner.host plugins now) := Db.getSession_createSession hfresh
  obtain ⟨row, hrow, hscanned⟩ := getSession_after hopened es'
  obtain ⟨r, es₁, rfl, _⟩ := run_request.mp hrecord
  exact ⟨registered, plugins, row, r, horder, hplugins, hrow, hscanned, by simp⟩

/-! ## The findings -/

/-- A request that was carried out. What a scan answers is for the run to deal with. -/
def carriedOut : Exchange → Bool
  | ⟨.createSession _ _ _ _, r⟩ => r.isOk
  | ⟨.failSession _ _ _, r⟩ => r.isOk
  | ⟨.writeJson _ _, r⟩ => r.isOk
  | ⟨.completeRow _ _ _ _ _, r⟩ => r.isOk
  | ⟨.insertFinding _ _, r⟩ => r.isOk
  | _ => true

theorem run_insertFindings {id : String} {findings : List ScanFinding} {es : List Exchange} {b : Except HardeningError Unit}
    {db : Db} (hid : id ∈ db.ids) (hrun : Run (insertFindings id findings) es b) :
    (after react db es).getSession id = db.getSession id ∧
      ∃ n, (after react db es).getFindings id = db.getFindings id ++ findings.take n ∧
        ((∀ e ∈ es, carriedOut e = true) → findings.length ≤ n) ∧
        ((∃ e ∈ es, carriedOut e = false) → n < findings.length) := by
  induction findings generalizing es db with
  | nil =>
    obtain ⟨rfl, _⟩ := run_pure.mp hrun
    exact ⟨rfl, 0, by simp, fun _ => Nat.le_refl 0, by simp⟩
  | cons f findings ih =>
    obtain ⟨r, es', rfl, hnext⟩ := run_request.mp hrun
    cases r with
    | error e =>
      obtain ⟨rfl, _⟩ := run_pure.mp hnext
      refine ⟨rfl, 0, by simp [react], ?_, fun _ => Nat.succ_pos _⟩
      intro hall
      have := hall _ List.mem_cons_self
      cases this
    | ok u =>
      have hids : id ∈ (db.insertFinding id f).ids := by rw [Db.ids_insertFinding]; exact hid
      obtain ⟨hsession, n, hfindings, hall, hsome⟩ := ih hids hnext
      refine ⟨?_, n + 1, ?_, ?_, ?_⟩
      · rw [after_cons]
        exact hsession.trans (Db.getSession_insertFinding id f)
      · calc (after react db (⟨.insertFinding id f, .ok u⟩ :: es')).getFindings id
            = (db.insertFinding id f).getFindings id ++ findings.take n := hfindings
          _ = db.getFindings id ++ [f] ++ findings.take n := by rw [Db.getFindings_insertFinding hid]
          _ = db.getFindings id ++ (f :: findings).take (n + 1) := by simp
      · intro h
        have := hall fun e he => h e (List.mem_cons_of_mem _ he)
        show findings.length + 1 ≤ n + 1
        omega
      · intro h
        obtain ⟨e, he, hfalse⟩ := h
        rcases List.mem_cons.mp he with rfl | he
        · cases hfalse
        · have := hsome ⟨e, he, hfalse⟩
          show n + 1 < findings.length + 1
          omega

/-! ## How a session ends -/

/-- The counters of a row are those of the findings. -/
structure CountsMatch (row : ScanSession) (findings : List ScanFinding) : Prop where
  total : row.totalFindings = findings.length
  critical : row.criticalCount = countOf findings .critical
  high : row.highCount = countOf findings .high
  medium : row.mediumCount = countOf findings .medium
  low : row.lowCount = countOf findings .low
  info : row.infoCount = countOf findings .info

/-- Failed, or completed with the whole of what was found. -/
def Truthful (db : Db) (id : String) (found : List ScanFinding) : Prop :=
  ∃ row, db.getSession id = some row ∧
    (row.status = .failed ∨ (row.status = .completed ∧ db.getFindings id = found ∧ CountsMatch row found))

/-- What the scan of a run found, above the floor. -/
def foundBy (runner : ScanRunner) : List Exchange → List ScanFinding
  | [] => []
  | ⟨.executeScan _, .ok results⟩ :: _ => processFindings runner.minSeverity results
  | _ :: es => foundBy runner es

theorem countsMatch_completed {findings : List ScanFinding} (hlength : findings.length < 2 ^ 31) (jsonPath hash : Option Chars)
    (now : Int) (row : ScanSession) : CountsMatch (Db.completed (.fromFindings findings) jsonPath hash now row) findings := by
  have hcount : ∀ s, asI32 (countOf findings s) = countOf findings s := by
    intro s
    apply asI32_eq
    have : countOf findings s ≤ findings.length := List.countP_le_length
    omega
  exact ⟨asI32_eq hlength, hcount _, hcount _, hcount _, hcount _, hcount _⟩

/-- A truthful session, by how its statements went. -/
theorem truthful_recordScan {runner : ScanRunner} {plugins : List PluginId} {id : String} {es : List Exchange}
    {b : Except HardeningError ScanSummary} {db : Db} {row : ScanSession} (hrow : db.getSession id = some row)
    (hrunning : row.status = .running) (hnone : db.getFindings id = []) (hrun : Run (runner.recordScan plugins id) es b) :
    Truthful (after react db es) id (foundBy runner es) ↔
      (∀ e ∈ es, carriedOut e = true) ∧ (foundBy runner es).length < 2 ^ 31 := by
  have hunfinished : ∀ found, ¬ Truthful db id found := by
    intro found h
    obtain ⟨row', hrow', hstatus⟩ := h
    obtain rfl := Option.some.inj (hrow.symm.trans hrow')
    rw [hrunning] at hstatus
    simp at hstatus
  have hid : id ∈ db.ids := Db.mem_ids_iff.mpr ⟨row, hrow⟩
  obtain ⟨r, es₁, rfl, hscan⟩ := run_request.mp hrun
  cases r with
  | error e =>
    -- the scan failed: the session is failed, where that can be written down
    obtain ⟨es₂, r, es₃, rfl, hfail, hreturn⟩ := run_bind.mp hscan
    obtain ⟨now, es₄, rfl, hstatement⟩ := run_request.mp hfail
    obtain ⟨r', es₅, rfl, hdone⟩ := run_ask.mp hstatement
    obtain ⟨rfl, rfl⟩ := run_done.mp hdone
    have hes₃ : es₃ = [] := by
      cases r' <;> exact (run_pure.mp hreturn).1
    subst hes₃
    cases r' with
    | error e' =>
      constructor
      · intro h
        exact absurd h (hunfinished _)
      · intro h
        have := h.1 ⟨.failSession id e now, .error e'⟩ (by simp)
        cases this
    | ok u =>
      constructor
      · intro _
        refine ⟨by simp [carriedOut, Except.isOk, Except.toBool], ?_⟩
        show 0 < 2 ^ 31
        omega
      · intro _
        refine ⟨Db.failed e now row, ?_, .inl rfl⟩
        show (db.failSession id e now).getSession id = _
        rw [Db.getSession_failSession, hrow, Option.map_some]
  | ok results =>
    show Truthful (after react db es₁) id (processFindings runner.minSeverity results) ↔
      _ ∧ (processFindings runner.minSeverity results).length < 2 ^ 31
    dsimp only at hscan
    generalize processFindings runner.minSeverity results = found at hscan ⊢
    obtain ⟨r, es₂, rfl, hexport⟩ := run_request.mp hscan
    cases r with
    | error e =>
      obtain ⟨rfl, _⟩ := run_pure.mp hexport
      constructor
      · intro h
        exact absurd h (hunfinished _)
      · intro h
        have := h.1 ⟨.writeJson id (runner.buildJsonExport results found), .error e⟩ (by simp)
        cases this
    | ok file =>
      obtain ⟨jsonPath, jsonHash⟩ := file
      obtain ⟨es₃, r, es₄, rfl, hcomplete, hreturn⟩ := run_bind.mp hexport
      have hes₄ : es₄ = [] := by
        cases r <;> exact (run_pure.mp hreturn).1
      subst hes₄
      obtain ⟨now, es₅, rfl, hclock⟩ := run_request.mp hcomplete
      obtain ⟨r', es₆, rfl, hinsert⟩ := run_request.mp hclock
      cases r' with
      | error e =>
        obtain ⟨rfl, _⟩ := run_pure.mp hinsert
        constructor
        · intro h
          exact absurd h (hunfinished _)
        · intro h
          have := h.1 ⟨.completeRow id (.fromFindings found) (some jsonPath) (some jsonHash) now, .error e⟩ (by simp)
          cases this
      | ok u =>
        -- the row is completed, and then its findings are inserted one by one
        have hrow₁ : (db.completeRow id (.fromFindings found) (some jsonPath) (some jsonHash) now).getSession id =
            some (Db.completed (.fromFindings found) (some jsonPath) (some jsonHash) now row) := by
          rw [Db.getSession_completeRow, hrow, Option.map_some]
        obtain ⟨hsession, n, hfindings, hall, hsome⟩ := run_insertFindings (Db.mem_ids_iff.mpr ⟨_, hrow₁⟩) hinsert
        rw [hrow₁] at hsession
        have hstored : (after react (db.completeRow id (.fromFindings found) (some jsonPath) (some jsonHash) now) es₆).getFindings id =
            found.take n := by
          rw [hfindings]
          show db.getFindings id ++ _ = _
          rw [hnone, List.nil_append]
        simp only [List.append_nil, after_cons]
        show Truthful (after react (db.completeRow id (.fromFindings found) (some jsonPath) (some jsonHash) now) es₆) id found ↔ _
        constructor
        · intro h
          obtain ⟨row', hrow', hstatus⟩ := h
          obtain rfl := Option.some.inj (hsession.symm.trans hrow')
          obtain hfailed | ⟨_, hsame, hcounts⟩ := hstatus
          · cases hfailed
          · refine ⟨?_, ?_⟩
            · have hrest : ∀ e ∈ es₆, carriedOut e = true := by
                by_contra hnot
                simp only [not_forall, Bool.not_eq_true] at hnot
                obtain ⟨e, he, hfalse⟩ := hnot
                have hlt := hsome ⟨e, he, hfalse⟩
                have hlength := congrArg List.length (hstored.symm.trans hsame)
                rw [List.length_take] at hlength
                omega
              simpa [carriedOut, Except.isOk, Except.toBool] using hrest
            · have htotal : asI32 found.length = found.length := hcounts.total
              have := asI32_lt found.length
              omega
        · intro h
          have hrest : ∀ e ∈ es₆, carriedOut e = true := fun e he => h.1 e (by simp [he])
          refine ⟨_, hsession, .inr ⟨rfl, ?_, countsMatch_completed h.2 _ _ _ _⟩⟩
          rw [hstored, List.take_of_length_le (hall hrest)]

/-- Whatever each step answers, a session that was created ends truthful exactly where
every statement and the export were carried out. -/
theorem truthful_iff {runner : ScanRunner} {config : HardenerConfig} {order : Except Chars (List PluginId)} {trigger : TriggerType}
    {es : List Exchange} {b : Except HardeningError ScanSummary} {id : String} {db : Db}
    (hrun : Run (runner.run config order trigger) es b) (hcreated : Created es id) (hfresh : id ∉ db.ids) :
    Truthful (after react db es) id (foundBy runner es) ↔
      (∀ e ∈ es, carriedOut e = true) ∧ (foundBy runner es).length < 2 ^ 31 := by
  obtain ⟨registered, plugins, now, es', _, _, rfl, hrecord⟩ := run_created hrun hcreated
  have hopened : (db.createSession (.opened id trigger.asStr runner.host plugins now)).getSession id =
      some (.opened id trigger.asStr runner.host plugins now) := Db.getSession_createSession hfresh
  have hnone : (db.createSession (.opened id trigger.asStr runner.host plugins now)).getFindings id = [] := by
    rw [Db.getFindings_createSession]
    exact Db.getFindings_eq_nil hfresh
  have hiff := truthful_recordScan hopened rfl hnone hrecord
  have hopening : (∀ e ∈ (⟨.now, now⟩ :: ⟨.createSession trigger.asStr runner.host plugins now, .ok id⟩ :: es' : List Exchange),
      carriedOut e = true) ↔ ∀ e ∈ es', carriedOut e = true := by
    simp [carriedOut, Except.isOk, Except.toBool]
  rw [hopening]
  exact hiff

/-! ## An export that fails -/

def sshRunner : ScanRunner := ⟨.medium, [⟨"ssh-hardening"⟩], "web-01"⟩

/-- The scan is done and the disk is full. -/
def diskFull : List Exchange :=
  [⟨.now, (1700000000 : Int)⟩,
    ⟨.createSession "scheduled" "web-01" [⟨"ssh-hardening"⟩] 1700000000, .ok "s1"⟩,
    ⟨.executeScan [⟨"ssh-hardening"⟩], .ok []⟩,
    ⟨.writeJson "s1" (sshRunner.buildJsonExport [] []), .error (.database "Failed to write file: No space left on device")⟩]

theorem run_diskFull : Run (sshRunner.run .default (.ok [⟨"ssh-hardening"⟩]) .scheduled) diskFull
    (.error (.database "Failed to write file: No space left on device")) := by
  have hplugins : pluginsToScan sshRunner.plugins .default [⟨"ssh-hardening"⟩] = .ok [⟨"ssh-hardening"⟩] := by decide
  unfold ScanRunner.run
  dsimp only
  rw [hplugins]
  exact .ask (.ask (.ask (.ask .done)))

theorem created_diskFull : Created diskFull "s1" :=
  ⟨"scheduled", "web-01", [⟨"ssh-hardening"⟩], 1700000000, by simp [diskFull]⟩

theorem truthful_iff_diskFull : Truthful (after react .empty diskFull) "s1" (foundBy sshRunner diskFull) ↔
    (∀ e ∈ diskFull, carriedOut e = true) ∧ (foundBy sshRunner diskFull).length < 2 ^ 31 :=
  truthful_iff run_diskFull created_diskFull List.not_mem_nil

/-- The run returns, and its session stands as running. -/
theorem session_left_running :
    ¬ ∀ (runner : ScanRunner) (config : HardenerConfig) (order : Except Chars (List PluginId)) (trigger : TriggerType)
      (es : List Exchange) (b : Except HardeningError ScanSummary) (id : String) (db : Db),
      Run (runner.run config order trigger) es b → Created es id → id ∉ db.ids →
      Truthful (after react db es) id (foundBy runner es) := by
  intro hclaim
  obtain ⟨row, hrow, hstatus⟩ := hclaim _ _ _ _ _ _ _ Db.empty run_diskFull created_diskFull List.not_mem_nil
  have hrunning : (after react Db.empty diskFull).getSession "s1" =
      some (.opened "s1" "scheduled" "web-01" [⟨"ssh-hardening"⟩] 1700000000) := rfl
  obtain rfl := Option.some.inj (hrunning.symm.trans hrow)
  simp [ScanSession.opened] at hstatus

end LinuxHardener.Scheduler
