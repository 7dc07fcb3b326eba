import LinuxHardener.Commands.Apply
import LinuxHardener.State.AuditWriters

/-
  What `hardener apply` files in the audit log.

  The entries are written once all plugins have run, one `log_action` for each result;
  whatever a call returns is thrown away.

  Correspondence (Rust ↔ Lean):
    the last loop of `apply_host` ↔ `auditResults`
    `apply_host` with its log     ↔ `auditedApply`

  What is proved: `auditsApplies_iff` — the log accounts for the applies of a run exactly
  when all of them succeeded.
-/
namespace LinuxHardener.Commands

open Compliance (PluginId PluginMetadata)
open Core State

variable {σ : Type}

/-! ## The run -/

/-- The circumstances of one append: its time, the order its map is iterated in, and what became
of it. -/
structure Append where
  now : Timestamp
  order : Nat
  written : Written

/-- The entries of a run's results, one call after the other, by the logger `logger`. -/
def auditResults (j : SerdeJson) (logger : Nat) (user : String) :
    List (PluginMetadata × ApplyResult) → (Nat → Append) → Writers → Writers
  | [], _, log => log
  | (metadata, result) :: results, io, log =>
    let actionResult := if result.success then ActionResult.success else .failure
    auditResults j logger user results (fun n => io (n + 1))
      (State.step j log (.log logger (.action .apply user metadata.pluginName actionResult) (io 0).now (io 0).order (io 0).written))

/-- `apply_host`, and what it leaves of the log; without a logger that stays as it is. -/
def auditedApply (j : SerdeJson) (registry : PluginRegistry σ) (config : HardenerConfig) (dryRun : Bool) (ids : List PluginId)
    (s : σ) (audit : Option Nat) (user : String) (io : Nat → Append) (log : Writers) : ApplyHostResult × σ × Writers :=
  let run := applyHost registry config dryRun ids s
  (run.1, run.2, match audit with
    | none => log
    | some logger => auditResults j logger user run.1.results io log)

/-! ## What the log owes -/

namespace PluginRun

/-- The name under which a plugin whose `apply` was invoked is logged. -/
def invokedName? : PluginRun → Option String
  | errored metadata _ | applied metadata _ => some metadata.pluginName
  | _ => none

/-- The plugin's `apply` was called on the host, in a run that is no dry run. -/
def isInvoked (run : PluginRun) : Bool := run.invokedName?.isSome

/-- The apply returned an outcome that says it succeeded. -/
def succeeded : PluginRun → Bool
  | applied _ result => result.success
  | _ => false

end PluginRun

/-- The runs that invoked an `apply` on the host; a dry run invokes none. -/
def invoked (dryRun : Bool) (runs : List PluginRun) : List PluginRun :=
  if dryRun then [] else runs.filter PluginRun.isInvoked

/-- An entry records what became of an apply. -/
def Records (run : PluginRun) (e : AuditEntry) : Prop :=
  e.entryActionType = .apply ∧ run.invokedName? = some e.entryTarget ∧ (e.entryResult = .success ↔ run.succeeded = true)

/-- A run adds to the log one Apply entry for each apply it invoked, and nothing else. -/
def AuditsApplies (j : SerdeJson) (registry : PluginRegistry σ) (config : HardenerConfig) (dryRun : Bool) (ids : List PluginId)
    (s : σ) (audit : Option Nat) (user : String) (io : Nat → Append) (log : Writers) : Prop :=
  ∃ entries, (auditedApply j registry config dryRun ids s audit user io log).2.2.returned = log.returned ++ entries ∧
    List.Forall₂ Records (invoked dryRun (pluginRuns registry config dryRun ids s).1) entries

/-! ## What the log gets -/

section

variable (j : SerdeJson) {logger : Nat} (user : String)

/-- One call leaves every logger there, and adds an entry only for a success that is written. -/
theorem step_action {log : Writers} {chain : HashChain} (hlogger : log.loggers[logger]? = some chain) (target : String)
    (success : Bool) (a : Append) :
    ∃ chain' entries, (State.step j log (.log logger (.action .apply user target (if success then .success else .failure))
        a.now a.order a.written)).loggers[logger]? = some chain' ∧
      (State.step j log (.log logger (.action .apply user target (if success then .success else .failure))
        a.now a.order a.written)).returned = log.returned ++ entries ∧
      ((success = true ∧ a.written = .complete ∧ ∃ e, entries = [e] ∧ e.entryActionType = .apply ∧ e.entryTarget = target ∧
          e.entryResult = .success) ∨
        (¬ (success = true ∧ a.written = .complete) ∧ entries = [])) := by
  cases success with
  | false =>
    refine ⟨chain, [], ?_, ?_, .inr ⟨fun h => Bool.false_ne_true h.1, rfl⟩⟩
    · simp [State.step, hlogger, LogCall.entry, logAction]
    · simp [State.step, hlogger, LogCall.entry, logAction]
  | true =>
    have hentry : ∃ e, (LogCall.action .apply user target .success).entry j chain a.now = .ok e ∧ e.entryActionType = .apply ∧
        e.entryTarget = target ∧ e.entryResult = .success := ⟨_, rfl, rfl, rfl, rfl⟩
    obtain ⟨e, he, htype, htarget, hresult⟩ := hentry
    cases hw : a.written with
    | complete =>
      rw [if_pos rfl, State.step_complete hlogger he]
      refine ⟨chain.update e.entryHash, [e], ?_, rfl, .inl ⟨rfl, rfl, e, rfl, htype, htarget, hresult⟩⟩
      have hlt : logger < log.loggers.length := (List.getElem?_eq_some_iff.mp hlogger).1
      exact List.getElem?_set_self hlt
    | torn n =>
      rw [if_pos rfl, State.step_torn hlogger he]
      exact ⟨chain, [], hlogger, (List.append_nil _).symm, .inr ⟨fun h => Written.noConfusion h.2, rfl⟩⟩

/-- What a run's results add: at most one entry each, and one each only when all of them succeeded
and were written. -/
theorem returned_auditResults (results : List (PluginMetadata × ApplyResult)) (io : Nat → Append) {log : Writers}
    {chain : HashChain} (hlogger : log.loggers[logger]? = some chain) :
    ∃ entries, (auditResults j logger user results io log).returned = log.returned ++ entries ∧ entries.length ≤ results.length ∧
      (entries.length = results.length → ∀ n (h : n < results.length), (results[n]).2.success = true ∧ (io n).written = .complete) ∧
      ((∀ n (h : n < results.length), (results[n]).2.success = true ∧ (io n).written = .complete) →
        List.Forall₂ (fun r e => Records (.applied r.1 r.2) e) results entries) := by
  induction results generalizing io log chain with
  | nil => exact ⟨[], (List.append_nil _).symm, Nat.le_refl 0, fun _ n h => absurd h (Nat.not_lt_zero n), fun _ => .nil⟩
  | cons r results ih =>
    obtain ⟨metadata, result⟩ := r
    obtain ⟨chain', first, hlogger', hreturned, hfirst⟩ := step_action j user hlogger metadata.pluginName result.success (io 0)
    obtain ⟨rest, hrest, hle, hall, hrecords⟩ := ih (fun n => io (n + 1)) hlogger'
    refine ⟨first ++ rest, ?_, ?_, ?_, ?_⟩
    · rw [auditResults, hrest, hreturned, List.append_assoc]
    · obtain ⟨-, -, e, rfl, -⟩ | ⟨-, rfl⟩ := hfirst <;> simp <;> omega
    · intro hlength n hn
      obtain ⟨hsuccess, hwritten, e, rfl, -⟩ | ⟨-, rfl⟩ := hfirst
      · cases n with
        | zero => exact ⟨hsuccess, hwritten⟩
        | succ n =>
          simp only [List.singleton_append, List.length_cons, Nat.add_right_cancel_iff] at hlength
          exact hall hlength n (Nat.lt_of_succ_lt_succ hn)
      · simp only [List.nil_append, List.length_cons] at hlength
        omega
    · intro hgood
      obtain ⟨hsuccess, hwritten⟩ := hgood 0 (Nat.succ_pos _)
      obtain ⟨-, -, e, rfl, htype, htarget, hresult⟩ | ⟨hbad, -⟩ := hfirst
      · refine .cons ⟨htype, ?_, ?_⟩ (hrecords fun n hn => hgood (n + 1) (Nat.succ_lt_succ hn))
        · rw [htarget]
          rfl
        · exact ⟨fun _ => hsuccess, fun _ => hresult⟩
      · exact absurd ⟨hsuccess, hwritten⟩ hbad

end

/-! ## The applies of a run -/

variable {j : SerdeJson} {logger : Nat} {user : String}

/-- Each result is of an invoked apply, and where there are as many of them, of every one. -/
theorem length_result?_le (runs : List PluginRun) :
    (runs.filterMap PluginRun.result?).length ≤ (runs.filter PluginRun.isInvoked).length ∧
      ((runs.filterMap PluginRun.result?).length = (runs.filter PluginRun.isInvoked).length →
        runs.filter PluginRun.isInvoked = (runs.filterMap PluginRun.result?).map fun r => .applied r.1 r.2) := by
  induction runs with
  | nil => exact ⟨Nat.le_refl _, fun _ => rfl⟩
  | cons run runs ih =>
    obtain ⟨hle, heq⟩ := ih
    cases run with
    | applied metadata result =>
      have hname : (PluginRun.applied metadata result).isInvoked = true := rfl
      have hresult : (PluginRun.applied metadata result).result? = some (metadata, result) := rfl
      rw [List.filterMap_cons_some hresult, List.filter_cons_of_pos hname, List.length_cons, List.length_cons, List.map_cons]
      exact ⟨Nat.succ_le_succ hle, fun h => by rw [heq (Nat.succ.inj h)]⟩
    | errored metadata e =>
      have hname : (PluginRun.errored metadata e).isInvoked = true := rfl
      rw [List.filterMap_cons_none rfl, List.filter_cons_of_pos hname, List.length_cons]
      exact ⟨Nat.le_succ_of_le hle, fun h => absurd h (by omega)⟩
    | missing id => exact ⟨hle, heq⟩
    | disabled id => exact ⟨hle, heq⟩
    | validated report => exact ⟨hle, heq⟩

/-- An apply that succeeded left a result. -/
theorem length_result?_eq {runs : List PluginRun} (h : ∀ run ∈ runs.filter PluginRun.isInvoked, run.succeeded = true) :
    (runs.filterMap PluginRun.result?).length = (runs.filter PluginRun.isInvoked).length := by
  induction runs with
  | nil => rfl
  | cons run runs ih =>
    cases run with
    | applied metadata result =>
      have hname : (PluginRun.applied metadata result).isInvoked = true := rfl
      have hresult : (PluginRun.applied metadata result).result? = some (metadata, result) := rfl
      rw [List.filter_cons_of_pos hname] at h ⊢
      rw [List.filterMap_cons_some hresult, List.length_cons, List.length_cons, ih fun run hrun => h run (List.mem_cons_of_mem _ hrun)]
    | errored metadata e =>
      have hname : (PluginRun.errored metadata e).isInvoked = true := rfl
      rw [List.filter_cons_of_pos hname] at h
      exact absurd (h _ List.mem_cons_self) Bool.false_ne_true
    | missing id => exact ih h
    | disabled id => exact ih h
    | validated report => exact ih h

/-- The results of the applies of a run: no more than it invoked, and of all of them where they
are as many. -/
theorem results_invoked (registry : PluginRegistry σ) (config : HardenerConfig) (dryRun : Bool) (ids : List PluginId) (s : σ) :
    (applyHost registry config dryRun ids s).1.results.length ≤ (invoked dryRun (pluginRuns registry config dryRun ids s).1).length ∧
      ((applyHost registry config dryRun ids s).1.results.length = (invoked dryRun (pluginRuns registry config dryRun ids s).1).length →
        invoked dryRun (pluginRuns registry config dryRun ids s).1 =
          (applyHost registry config dryRun ids s).1.results.map fun r => .applied r.1 r.2) := by
  rw [applyHost_eq]
  dsimp only
  cases dryRun with
  | true =>
    rw [results_pluginRuns]
    exact ⟨Nat.le_refl _, fun _ => rfl⟩
  | false => exact length_result?_le _

/-- A logger that was never opened files nothing. -/
theorem auditResults_unopened (results : List (PluginMetadata × ApplyResult)) (io : Nat → Append) {log : Writers}
    (hlogger : log.loggers[logger]? = none) : auditResults j logger user results io log = log := by
  induction results generalizing io with
  | nil => rfl
  | cons r results ih =>
    obtain ⟨metadata, result⟩ := r
    have hstep : State.step j log (.log logger (.action .apply user metadata.pluginName
        (if result.success then ActionResult.success else .failure)) (io 0).now (io 0).order (io 0).written) = log := by
      rw [State.step, hlogger]
    rw [auditResults, hstep, ih]

section

variable {registry : PluginRegistry σ} {config : HardenerConfig} {dryRun : Bool} {ids : List PluginId} {s : σ}
  {audit : Option Nat} {io : Nat → Append} {log : Writers}

/-- Where nothing was invoked, nothing is owed and nothing is filed. -/
theorem auditsApplies_of_none (h : invoked dryRun (pluginRuns registry config dryRun ids s).1 = []) :
    AuditsApplies j registry config dryRun ids s audit user io log := by
  have hresults : (applyHost registry config dryRun ids s).1.results = [] := by
    have hle := (results_invoked registry config dryRun ids s).1
    rw [h] at hle
    exact List.eq_nil_of_length_eq_zero (Nat.le_zero.mp hle)
  refine ⟨[], ?_, by rw [h]; exact .nil⟩
  unfold auditedApply
  dsimp only
  rw [hresults, List.append_nil]
  cases audit <;> rfl

/-- Where something was invoked, an apply that failed or an append that tore is missing. -/
theorem succeeded_of_auditsApplies (h : AuditsApplies j registry config dryRun ids s audit user io log)
    (hsome : invoked dryRun (pluginRuns registry config dryRun ids s).1 ≠ []) :
    (∀ run ∈ invoked dryRun (pluginRuns registry config dryRun ids s).1, run.succeeded = true) ∧
      ∃ logger chain, audit = some logger ∧ log.loggers[logger]? = some chain ∧
        ∀ n < (invoked dryRun (pluginRuns registry config dryRun ids s).1).length, (io n).written = .complete := by
  obtain ⟨entries, hreturned, hrecords⟩ := h
  obtain ⟨hle, hall⟩ := results_invoked registry config dryRun ids s
  have hlength := hrecords.length_eq
  have hnonempty : entries ≠ [] := by
    rintro rfl
    exact hsome (List.eq_nil_of_length_eq_zero hlength)
  cases audit with
  | none => exact absurd (List.self_eq_append_right.mp hreturned) hnonempty
  | some logger =>
    change (auditResults j logger user (applyHost registry config dryRun ids s).1.results io log).returned = log.returned ++ entries at hreturned
    cases hlogger : log.loggers[logger]? with
    | none =>
      rw [auditResults_unopened _ io hlogger] at hreturned
      exact absurd (List.self_eq_append_right.mp hreturned) hnonempty
    | some chain =>
      obtain ⟨added, hadded, hfew, hgood, -⟩ := returned_auditResults j user
        (applyHost registry config dryRun ids s).1.results io hlogger
      obtain rfl := List.append_cancel_left (hadded.symm.trans hreturned)
      have hsame : (applyHost registry config dryRun ids s).1.results.length =
          (invoked dryRun (pluginRuns registry config dryRun ids s).1).length := by omega
      have hgood := hgood (by omega)
      refine ⟨fun run hrun => ?_, logger, chain, rfl, hlogger, fun n hn => (hgood n (by omega)).2⟩
      rw [hall hsame] at hrun
      obtain ⟨r, hr, rfl⟩ := List.mem_map.mp hrun
      obtain ⟨n, hn, rfl⟩ := List.getElem_of_mem hr
      exact (hgood n hn).1

end

/-- The log accounts for the applies of a run exactly where none was invoked, or all of them
succeeded and every entry was written. -/
theorem auditsApplies_iff (j : SerdeJson) (registry : PluginRegistry σ) (config : HardenerConfig) (dryRun : Bool)
    (ids : List PluginId) (s : σ) (audit : Option Nat) (user : String) (io : Nat → Append) (log : Writers) :
    AuditsApplies j registry config dryRun ids s audit user io log ↔
      invoked dryRun (pluginRuns registry config dryRun ids s).1 = [] ∨
        (∀ run ∈ invoked dryRun (pluginRuns registry config dryRun ids s).1, run.succeeded = true) ∧
          ∃ logger chain, audit = some logger ∧ log.loggers[logger]? = some chain ∧
            ∀ n < (invoked dryRun (pluginRuns registry config dryRun ids s).1).length, (io n).written = .complete := by
  constructor
  · intro h
    by_cases hnone : invoked dryRun (pluginRuns registry config dryRun ids s).1 = []
    · exact .inl hnone
    · exact .inr (succeeded_of_auditsApplies h hnone)
  · rintro (hnone | ⟨hsucceeded, logger, chain, rfl, hlogger, hwritten⟩)
    · exact auditsApplies_of_none hnone
    · have hlength : (applyHost registry config dryRun ids s).1.results.length =
          (invoked dryRun (pluginRuns registry config dryRun ids s).1).length := by
        rw [applyHost_eq]
        cases dryRun with
        | true => exact congrArg List.length (results_pluginRuns registry config ids s)
        | false => exact length_result?_eq hsucceeded
      have hresults := (results_invoked registry config dryRun ids s).2 hlength
      rw [hresults] at hsucceeded
      obtain ⟨entries, hreturned, -, -, hrecords⟩ := returned_auditResults j user
        (applyHost registry config dryRun ids s).1.results io hlogger
      refine ⟨entries, hreturned, ?_⟩
      rw [hresults, List.forall₂_map_left_iff]
      refine hrecords fun n hn => ⟨?_, hwritten n (hlength ▸ hn)⟩
      exact hsucceeded _ (List.mem_map_of_mem (List.getElem_mem hn))

/-! ## An apply that failed -/

/-- A plugin whose apply reports a failure. -/
def failingPlugin : HardeningPlugin Unit where
  metadata := ⟨⟨"ssh-hardening"⟩, "SSH Hardening", .network⟩
  dependencies := []
  scan _ s := (.error [], s)
  apply _ s := (.ok ⟨⟨"ssh-hardening"⟩, false, [], none, none⟩, s)
  validate _ s := (.error [], s)

/-- The call that should record the failure is refused, and no one looks at its answer. -/
theorem failed_apply_unaudited :
    ¬ AuditsApplies SerdeJson.compact ⟨[failingPlugin], List.nodup_singleton _⟩ .default false [⟨"ssh-hardening"⟩] () (some 0) "root"
      (fun _ => ⟨⟨0, 0⟩, 0, .complete⟩) (State.step SerdeJson.compact .start .open) := by
  rintro ⟨entries, hreturned, hrecords⟩
  have hinvoked : invoked false (pluginRuns ⟨[failingPlugin], List.nodup_singleton _⟩ .default false [⟨"ssh-hardening"⟩] ()).1 =
      [.applied failingPlugin.metadata ⟨⟨"ssh-hardening"⟩, false, [], none, none⟩] := by decide
  have hnone : ([] : List AuditEntry) = entries := hreturned
  rw [hinvoked, ← hnone] at hrecords
  cases hrecords

end LinuxHardener.Commands
