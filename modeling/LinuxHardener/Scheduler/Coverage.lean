import LinuxHardener.Scheduler.Sessions

/-
  Whether the plugins a session is recorded for are the plugins that ran.

  The recorded list is what the selection leaves once the configuration has narrowed it;
  the manager is handed that list and takes an empty one for every plugin. What is
  proved: `recorded_is_run_iff` — the two agree exactly where some selected plugin is
  enabled, or no registered plugin is.
-/
namespace LinuxHardener.Scheduler

open LineText (Chars)
open Compliance (PluginId)
open Core
open Dialogue Graphs

variable {σ : Type}

section

variable {plugins registered recordedIds : List PluginId} {config : HardenerConfig}

/-- What is recorded is registered, selected and enabled. -/
theorem mem_recordedIds (h : pluginsToScan plugins config registered = .ok recordedIds) (id : PluginId) :
    id ∈ recordedIds ↔ id ∈ registered ∧ Selected plugins id ∧ config.isPluginEnabled id = true := by
  unfold pluginsToScan scannablePlugins at h
  cases hfind : (if plugins.isEmpty then registered else plugins).find? fun id => !registered.any fun known => known == id with
  | some unknown =>
    rw [hfind] at h
    cases h
  | none =>
    rw [hfind] at h
    cases h
    have hknown : ∀ id ∈ (if plugins.isEmpty then registered else plugins), id ∈ registered := by
      intro id hid
      have := List.find?_eq_none.mp hfind id hid
      simpa using this
    rw [List.mem_filter]
    have hselected : id ∈ (if plugins.isEmpty then registered else plugins) ↔ id ∈ registered ∧ Selected plugins id := by
      constructor
      · intro hid
        refine ⟨hknown id hid, ?_⟩
        by_cases hempty : plugins = []
        · exact .inl hempty
        · rw [if_neg (by simpa using hempty)] at hid
          exact .inr hid
      · intro hid
        obtain ⟨hregistered, hempty | hmem⟩ := hid
        · rw [hempty]
          exact hregistered
        · rw [if_neg (by simpa using List.ne_nil_of_mem hmem)]
          exact hmem
    rw [hselected, and_assoc]

end

section

variable {registry : PluginRegistry σ} {petgraph : Petgraph} {manager : PluginManager σ}

/-- The graph a manager has been resolved to was found free of cycles. -/
theorem resolved_not_cyclic (hmanager : resolveDependencies petgraph (.new registry) = .ok manager) :
    petgraph.isCyclicDirected manager.graph = false := by
  unfold resolveDependencies at hmanager
  split at hmanager
  · cases hmanager
  · dsimp only at hmanager
    split at hmanager
    · cases hmanager
    · next hcyclic =>
      cases hmanager
      exact eq_false_of_ne_true hcyclic

theorem acyclic_dependsOn (hmanager : resolveDependencies petgraph (.new registry) = .ok manager)
    (hacyclic : Acyclic manager.graph.Edge) : Acyclic (DependsOn registry) := by
  obtain ⟨_, _, hedge, _⟩ := resolveDependencies_ok hmanager
  intro a hcycle
  apply hacyclic a
  rw [← Relation.transGen_swap]
  exact Relation.TransGen.mono (fun x y hxy => (hedge y x).mpr hxy) _ _ hcycle

/-- The plugins a session is recorded for are those that the scan asked for in its run
invokes. -/
def SaysWhatRan (petgraph : Petgraph) (manager : PluginManager σ) (config : HardenerConfig) (s : σ) (db : Db)
    (es : List Exchange) (id : String) : Prop :=
  ∃ row selection r, db.getSession id = some row ∧ (⟨.executeScan selection, r⟩ : Exchange) ∈ es ∧
    ∀ plugin, plugin ∈ row.pluginsScanned ↔
      plugin ∈ (executeScan petgraph manager config (selection.map PluginId.value) s).invoked

/-- A scan that is selected no plugin, or one that is enabled. -/
def SelectionRuns (registry : PluginRegistry σ) (config : HardenerConfig) (selection : List PluginId) : Prop :=
  (∃ id, Registered registry id ∧ Selected selection id ∧ config.isPluginEnabled id = true) ∨
    ∀ id, Registered registry id → config.isPluginEnabled id = false

/-- A run asks for one scan only. -/
theorem selection_unique {runner : ScanRunner} {config : HardenerConfig} {order : Except Chars (List PluginId)}
    {trigger : TriggerType} {es : List Exchange} {b : Except HardeningError ScanSummary} {id : String}
    (hrun : Run (runner.run config order trigger) es b) (hcreated : Created es id) :
    ∃ registered plugins, order = .ok registered ∧ pluginsToScan runner.plugins config registered = .ok plugins ∧
      ∀ selection r, (⟨.executeScan selection, r⟩ : Exchange) ∈ es → selection = plugins := by
  obtain ⟨registered, plugins, now, es', horder, hplugins, rfl, hrecord⟩ := run_created hrun hcreated
  refine ⟨registered, plugins, horder, hplugins, fun selection r hmem => ?_⟩
  have hasks := (asks_recordScan runner plugins id).of_run hrecord
  simp only [List.mem_cons] at hmem
  obtain h | h | h := hmem
  · cases h
  · cases h
  · exact hasks _ h

/-- The history says what ran exactly where the selection runs. -/
theorem recorded_is_run_iff (hmanager : resolveDependencies petgraph (.new registry) = .ok manager)
    (hcyclic : petgraph.isCyclicDirected manager.graph = false → Acyclic manager.graph.Edge)
    (htopo : Acyclic manager.graph.Edge → TopologicalOrder manager.graph.Edge manager.graph.nodes (petgraph.topo manager.graph))
    (config : HardenerConfig) (s : σ) {runner : ScanRunner} {trigger : TriggerType} {es : List Exchange}
    {b : Except HardeningError ScanSummary} {id : String} {db : Db}
    (hrun : Run (runner.run config (executionOrder petgraph manager) trigger) es b) (hcreated : Created es id)
    (hfresh : id ∉ db.ids) :
    SaysWhatRan petgraph manager config s (after react db es) es id ↔ SelectionRuns registry config runner.plugins := by
  have hacyclic := hcyclic (resolved_not_cyclic hmanager)
  obtain ⟨registered, plugins, row, r, horder, hplugins, hrow, hscanned, hasked⟩ := recorded hrun hcreated hfresh
  have hregistered : ∀ id, id ∈ registered ↔ Registered registry id := by
    intro id
    obtain ⟨_, hnodes, _, _⟩ := resolveDependencies_ok hmanager
    unfold executionOrder at horder
    split at horder
    · cases horder
    · cases horder
      rw [(htopo hacyclic).mem_iff, hnodes]
      rfl
  obtain ⟨order, hordered, _, hinvoked⟩ :=
    invoked_along_order config plugins s hmanager (acyclic_dependsOn hmanager hacyclic) htopo
  have hmem : ∀ id, id ∈ plugins ↔ Registered registry id ∧ Selected runner.plugins id ∧ config.isPluginEnabled id = true := by
    intro id
    rw [mem_recordedIds hplugins, hregistered]
  have hran : ∀ id, id ∈ (executeScan petgraph manager config (plugins.map PluginId.value) s).invoked ↔
      Registered registry id ∧ Selected plugins id ∧ config.isPluginEnabled id = true := by
    intro id
    rw [hinvoked, hordered.mem_iff]
    rfl
  constructor
  · intro h
    obtain ⟨row', selection, r', hrow', hasked', hsame⟩ := h
    obtain rfl := Option.some.inj (hrow.symm.trans hrow')
    obtain ⟨registered', plugins', horder', hplugins', hunique⟩ := selection_unique hrun hcreated
    obtain rfl := Except.ok.inj (horder.symm.trans horder')
    obtain rfl := Except.ok.inj (hplugins.symm.trans hplugins')
    obtain rfl := hunique selection r' hasked'
    by_cases hempty : selection = []
    · -- an empty list is every plugin to the manager
      apply Or.inr
      intro id hid
      by_contra hon
      have hruns := (hran id).mpr ⟨hid, .inl hempty, eq_true_of_ne_false hon⟩
      have hnone := (hsame id).mpr hruns
      rw [hscanned, hempty] at hnone
      cases hnone
    · obtain ⟨id, hid⟩ := List.exists_mem_of_ne_nil _ hempty
      exact .inl ⟨id, (hmem id).mp hid⟩
  · intro h
    refine ⟨row, plugins, r, hrow, hasked, fun id => ?_⟩
    rw [hscanned, hran]
    constructor
    · intro hid
      have := (hmem id).mp hid
      exact ⟨this.1, .inr hid, this.2.2⟩
    · intro hid
      obtain ⟨hregistered', hempty | hmember, hon⟩ := hid
      · obtain ⟨id', hid'⟩ | hoff := h
        · have := (hmem id').mpr hid'
          rw [hempty] at this
          cases this
        · rw [hoff id hregistered'] at hon
          cases hon
      · exact hmember

end

/-! ## A schedule of a disabled plugin -/

/-- Only the audit plugin is scheduled. -/
def auditRunner : ScanRunner := ⟨.info, [⟨"audit-hardening"⟩], "web-01"⟩

def auditDisabled : HardenerConfig := { HardenerConfig.default with disabledPlugins := [⟨"audit-hardening"⟩] }

/-- A run that all goes well in: the session of these plugins, its scan without findings, and its end. -/
def quietRun (plugins : List PluginId) : List Exchange :=
  [⟨.now, (1700000000 : Int)⟩,
    ⟨.createSession "scheduled" "web-01" plugins 1700000000, .ok "s1"⟩,
    ⟨.executeScan plugins, .ok []⟩,
    ⟨.writeJson "s1" (auditRunner.buildJsonExport [] []), .ok ("/var/lib/hardener/scan.json", "e3b0")⟩,
    ⟨.now, (1700000001 : Int)⟩,
    ⟨.completeRow "s1" (.fromFindings []) (some "/var/lib/hardener/scan.json") (some "e3b0") 1700000001, .ok ()⟩]

def quietSummary (plugins : List PluginId) : ScanSummary :=
  ⟨"s1", "web-01", plugins, .fromFindings [], some "/var/lib/hardener/scan.json", some "e3b0", false⟩

theorem run_quietRun {config : HardenerConfig} {registered plugins : List PluginId}
    (hplugins : pluginsToScan auditRunner.plugins config registered = .ok plugins) :
    Run (auditRunner.run config (.ok registered) .scheduled) (quietRun plugins) (.ok (quietSummary plugins)) := by
  unfold ScanRunner.run
  dsimp only
  rw [hplugins]
  exact .ask (.ask (.ask (.ask (.ask (.ask .done)))))

theorem created_quietRun (plugins : List PluginId) : Created (quietRun plugins) "s1" :=
  ⟨"scheduled", "web-01", plugins, 1700000000, by simp [quietRun]⟩

theorem order_auditThenKernel : executionOrder inNodeOrder auditThenKernelManager =
    .ok [⟨"audit-hardening"⟩, ⟨"kernel-hardening"⟩] := rfl

theorem recorded_is_run_enabled : SaysWhatRan inNodeOrder auditThenKernelManager .default ()
      (after react .empty (quietRun [⟨"audit-hardening"⟩])) (quietRun [⟨"audit-hardening"⟩]) "s1" ↔
    SelectionRuns auditThenKernel .default auditRunner.plugins := by
  have hrun : Run (auditRunner.run .default (executionOrder inNodeOrder auditThenKernelManager) .scheduled)
      (quietRun [⟨"audit-hardening"⟩]) (.ok (quietSummary [⟨"audit-hardening"⟩])) := by
    rw [order_auditThenKernel]
    exact run_quietRun (by decide)
  exact recorded_is_run_iff resolve_auditThenKernel
    (fun _ => acyclic_edge resolve_auditThenKernel acyclic_auditThenKernel) (fun _ => topological_auditThenKernel)
    .default () hrun (created_quietRun _) List.not_mem_nil

/-- The history says that nothing ran, and the kernel plugin did. -/
theorem unrecorded_plugin_ran :
    ¬ ∀ (σ : Type) (registry : PluginRegistry σ) (petgraph : Petgraph) (manager : PluginManager σ) (config : HardenerConfig)
      (s : σ) (runner : ScanRunner) (trigger : TriggerType) (es : List Exchange) (b : Except HardeningError ScanSummary)
      (id : String) (db : Db), resolveDependencies petgraph (.new registry) = .ok manager → Acyclic manager.graph.Edge →
      TopologicalOrder manager.graph.Edge manager.graph.nodes (petgraph.topo manager.graph) →
      Run (runner.run config (executionOrder petgraph manager) trigger) es b → Created es id → id ∉ db.ids →
      SaysWhatRan petgraph manager config s (after react db es) es id := by
  intro hclaim
  have hrun : Run (auditRunner.run auditDisabled (executionOrder inNodeOrder auditThenKernelManager) .scheduled)
      (quietRun []) (.ok (quietSummary [])) := by
    rw [order_auditThenKernel]
    exact run_quietRun (by decide)
  obtain ⟨row, selection, r, hrow, hasked, hsame⟩ := hclaim Unit auditThenKernel inNodeOrder auditThenKernelManager auditDisabled
    () auditRunner .scheduled _ _ "s1" .empty resolve_auditThenKernel
    (acyclic_edge resolve_auditThenKernel acyclic_auditThenKernel) topological_auditThenKernel hrun (created_quietRun [])
    List.not_mem_nil
  have hselection : selection = [] := by
    simp [quietRun] at hasked
    exact hasked.1
  have hran : (⟨"kernel-hardening"⟩ : PluginId) ∈
      (executeScan inNodeOrder auditThenKernelManager auditDisabled (selection.map PluginId.value) ()).invoked := by
    rw [hselection]
    decide
  have hnone : row.pluginsScanned = [] := by
    have : (after react Db.empty (quietRun [])).getSession "s1" = some (Db.completed (.fromFindings [])
      (some "/var/lib/hardener/scan.json") (some "e3b0") 1700000001 (.opened "s1" "scheduled" "web-01" [] 1700000000)) := rfl
    rw [this] at hrow
    cases hrow
    rfl
  have hrecorded := (hsame _).mpr hran
  rw [hnone] at hrecorded
  cases hrecorded

end LinuxHardener.Scheduler
