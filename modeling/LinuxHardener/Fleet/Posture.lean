import LinuxHardener.Compliance.Verdicts
import LinuxHardener.Core.PluginManager
import LinuxHardener.Fleet.Remote

/-
  A host of a fleet scored by the desktop's fleet scan and by the command line's batch report.

  Both scan over one connection to one host, so a plugin's answer is taken of one state
  of it. The desktop runs each selected plugin with no configuration of its own; the
  batch report runs the enabled ones, each with its section. What is proved:
  `fleet_scored_alike_iff` — the two give the same statuses and scores exactly where those
  answers, and the identities the exclusions are matched against, come to the same.

  Correspondence (Rust ↔ Lean):
    `plugin_id_named_by`, `recorded_scan`  ↔ `pluginIdNamedBy`, `recordedScan`
    `remote::scan_with_executor`           ↔ `scanWithExecutor`
    `FLEET_FRAMEWORKS`, `fleet_report_generator`, `posture_for_findings` ↔ the same in camel case
    `GroupedScan`, `scan_grouped`, `GroupedScan::evidence` ↔ `GroupedScan`, `scanGrouped`, `.evidence`
    `assess_outcomes`, `host_report`, `posture_from_report` ↔ `hostReport`, `postureFromReport`
    `plugin_inventory`                     ↔ `pluginInventory`
-/
namespace LinuxHardener.Fleet

open LineText
open Core Compliance
open Plugins (PluginConfig)

variable {σ : Type}

/-- The controller's configuration, as far as the two pipelines read it. -/
structure ControllerConfig extends HardenerConfig where
  compliance : ComplianceConfig

/-! ## Scanning -/

def recordedScan (id : PluginId) (outcome : Except Chars ScanResult) : ScanResult :=
  match outcome with
  | .ok result => result
  | .error e => scanFailure id e

def pluginIdNamedBy (pluginId entry : Chars) : Bool :=
  match stripStart entry pluginId with
  | some rest => rest.isEmpty || rest.head? == some '-'
  | none => false

/-- An empty list selects every plugin. -/
def isSelected (pluginIds : Option (List Chars)) (id : PluginId) : Bool :=
  match pluginIds with
  | some entries => entries.isEmpty || entries.any (pluginIdNamedBy id.value.toList)
  | none => true

def noConfig : PluginConfig := ⟨fun _ => none, fun _ => none⟩

def scanWithExecutor (registry : PluginRegistry σ) (pluginIds : Option (List Chars)) (s : σ) : List ScanResult :=
  registry.list.filterMap fun m =>
    if isSelected pluginIds m.pluginId then
      (registry.get m.pluginId).map fun plugin => recordedScan m.pluginId (plugin.scan noConfig s).1
    else none

structure GroupedScan where
  results : List (PluginMetadata × ScanResult)
  skipped : List PluginMetadata

def GroupedScan.evidence (grouped : GroupedScan) : List ScanResult × List PluginId :=
  (grouped.results.map Prod.snd, grouped.skipped.map PluginMetadata.pluginId)

def scanGrouped (registry : PluginRegistry σ) (config : HardenerConfig) (s : σ) : GroupedScan where
  results := (registry.list.filter fun m => config.isPluginEnabled m.pluginId).filterMap fun m =>
    (registry.get m.pluginId).map fun plugin =>
      (m, recordedScan m.pluginId (plugin.scan (config.getPluginConfig m.pluginId).toPluginConfig s).1)
  skipped := registry.list.filter fun m => !config.isPluginEnabled m.pluginId

/-! ## Scoring -/

def pluginInventory (registry : PluginRegistry σ) (coverageFor : String → Option (List ComplianceMapping)) : PluginInventory :=
  .known (registry.list.map fun m => ⟨m, (coverageFor m.pluginId.value).getD []⟩)

structure ControlOutcome where
  controlId : String
  controlTitle : String
  controlSection : String
  controlStatus : ControlStatus
  deriving DecidableEq, Repr

def ControlOutcome.ofResult (r : ControlResult) : ControlOutcome :=
  ⟨r.controlId, r.controlTitle, r.controlSection, r.controlStatus⟩

structure FleetFrameworkPosture where
  framework : ComplianceFramework
  summary : ComplianceSummary
  controls : List ControlOutcome

def fleetFrameworks : List ComplianceFramework :=
  [.cis, .stig, .nist, .pcidss, .hipaa, .gdpr, .soc2, .nist800171, .fedRAMP]

def fleetReportGenerator (profile : ComplianceProfile) (inventory : PluginInventory) (exclusions : ComplianceConfig)
    (host : RemoteHostProfile) : ReportGenerator where
  config := ⟨.custom fleetFrameworks, profile⟩
  inventory := inventory
  exclusions := exclusions
  host := some (String.ofList host.target, String.ofList host.hostname, String.ofList host.name)

def postureForFindings (generator : ReportGenerator) (env : Environment) (results : List ScanResult) :
    List FleetFrameworkPosture :=
  (generator.generate env results []).map fun r =>
    ⟨r.reportFramework, r.reportSummary, r.reportControls.map ControlOutcome.ofResult⟩

/-- What the desktop attaches to a host it has scanned. -/
def fleetPosture (registry : PluginRegistry σ) (coverageFor : String → Option (List ComplianceMapping))
    (config : ControllerConfig) (pluginIds : Option (List Chars)) (host : RemoteHostProfile) (profile : ComplianceProfile)
    (env : Environment) (s : σ) : List FleetFrameworkPosture :=
  postureForFindings (fleetReportGenerator profile (pluginInventory registry coverageFor) config.compliance host) env
    (scanWithExecutor registry pluginIds s)

structure FrameworkPosture where
  framework : ComplianceFramework
  score : ℚ
  passing : Nat
  failing : Nat
  manualReview : Nat
  notApplicable : Nat
  total : Nat
  controls : List ControlOutcome

def postureFromReport (report : ComplianceReport) : FrameworkPosture where
  framework := report.reportFramework
  score := report.reportSummary.summaryScorePercentage
  passing := report.reportSummary.summaryPassing
  failing := report.reportSummary.summaryFailing
  manualReview := report.reportSummary.summaryManualReview
  notApplicable := report.reportSummary.summaryNotApplicable
  total := report.reportSummary.summaryTotalControls
  controls := report.reportControls.map ControlOutcome.ofResult

/-- The hostname is read back from the target. -/
def batchGenerator (scenario : Scenario) (profile : ComplianceProfile) (inventory : PluginInventory)
    (exclusions : ComplianceConfig) (host : RemoteHostProfile) : ReportGenerator where
  config := ⟨scenario, profile⟩
  inventory := inventory
  exclusions := exclusions
  host := some (String.ofList host.target,
    String.ofList (RemoteHostProfile.fromTarget host.target 22 none true).hostname, String.ofList host.name)

/-- What the batch report says of a host it has scanned. -/
def hostReport (registry : PluginRegistry σ) (coverageFor : String → Option (List ComplianceMapping))
    (config : ControllerConfig) (scenario : Scenario) (host : RemoteHostProfile) (profile : ComplianceProfile)
    (env : Environment) (s : σ) : List FrameworkPosture :=
  let (results, skipped) := (scanGrouped registry config.toHardenerConfig s).evidence
  ((batchGenerator scenario profile (pluginInventory registry coverageFor) config.compliance host).generate env
    results skipped).map postureFromReport

/-- Each of the desktop's frameworks has the same statuses and the same score in a batch report on it. -/
def ScoredAlike (registry : PluginRegistry σ) (coverageFor : String → Option (List ComplianceMapping))
    (config : ControllerConfig) (pluginIds : Option (List Chars)) (host : RemoteHostProfile) (profile : ComplianceProfile)
    (env : Environment) (s : σ) : Prop :=
  ∀ scenario, ∀ d ∈ fleetPosture registry coverageFor config pluginIds host profile env s,
    ∀ b ∈ hostReport registry coverageFor config scenario host profile env s, d.framework = b.framework →
      (∀ c status, (∃ o ∈ d.controls, o.controlId = c ∧ o.controlStatus = status) ↔
        ∃ o ∈ b.controls, o.controlId = c ∧ o.controlStatus = status) ∧
      d.summary.summaryScorePercentage = b.score

/-! ## Scans as settings -/

/-- The results of the registered plugins, each run with the configuration it is given or not at all. -/
def resultsOf (registry : PluginRegistry σ) (runs : PluginId → Option PluginConfig) (s : σ) : List ScanResult :=
  registry.ids.filterMap fun id => (runs id).bind fun config =>
    (registry.get id).map fun plugin => recordedScan id (plugin.scan config s).1

def desktopRuns (pluginIds : Option (List Chars)) (id : PluginId) : Option PluginConfig :=
  if isSelected pluginIds id then some noConfig else none

def batchRuns (config : HardenerConfig) (id : PluginId) : Option PluginConfig :=
  if config.isPluginEnabled id then some (config.getPluginConfig id).toPluginConfig else none

theorem scanWithExecutor_eq (registry : PluginRegistry σ) (pluginIds : Option (List Chars)) (s : σ) :
    scanWithExecutor registry pluginIds s = resultsOf registry (desktopRuns pluginIds) s := by
  unfold scanWithExecutor resultsOf PluginRegistry.ids desktopRuns
  rw [List.filterMap_map]
  apply List.filterMap_congr
  intro m _
  simp only [Function.comp_apply]
  split <;> rfl

theorem scanGrouped_eq (registry : PluginRegistry σ) (config : HardenerConfig) (s : σ) :
    (scanGrouped registry config s).evidence.1 = resultsOf registry (batchRuns config) s := by
  unfold scanGrouped GroupedScan.evidence resultsOf PluginRegistry.ids batchRuns
  rw [List.filterMap_map, List.map_filterMap, List.filterMap_filter]
  apply List.filterMap_congr
  intro m _
  simp only [Function.comp_apply, Option.map_map]
  split <;> rfl

/-- A plugin's own results carry its id. -/
def OwnResults (registry : PluginRegistry σ) : Prop :=
  ∀ plugin ∈ registry.plugins, ∀ config s result, (plugin.scan config s).1 = .ok result → result.scanPluginId = plugin.id

section

variable {registry : PluginRegistry σ} {coverageFor : String → Option (List ComplianceMapping)}
  {runs : PluginId → Option PluginConfig} {s : σ} {profile : ComplianceProfile} {framework : ComplianceFramework}
  {c : String}

theorem mem_resultsOf {r : ScanResult} : r ∈ resultsOf registry runs s ↔
    ∃ id plugin config, registry.get id = some plugin ∧ runs id = some config ∧
      r = recordedScan id (plugin.scan config s).1 := by
  unfold resultsOf
  rw [List.mem_filterMap]
  constructor
  · intro h
    obtain ⟨id, -, h⟩ := h
    obtain ⟨config, hruns, h⟩ := Option.bind_eq_some_iff.mp h
    obtain ⟨plugin, hget, rfl⟩ := Option.map_eq_some_iff.mp h
    exact ⟨id, plugin, config, hget, hruns, rfl⟩
  · intro h
    obtain ⟨id, plugin, config, hget, hruns, rfl⟩ := h
    exact ⟨id, PluginRegistry.mem_ids_iff.mpr ⟨plugin, hget⟩, by simp [hruns, hget]⟩

theorem result_mem (s : σ) {id : PluginId} {plugin : HardeningPlugin σ} {config : PluginConfig}
    (hget : registry.get id = some plugin) (hruns : runs id = some config) :
    recordedScan id (plugin.scan config s).1 ∈ resultsOf registry runs s :=
  mem_resultsOf.mpr ⟨id, plugin, config, hget, hruns, rfl⟩

theorem id_recordedScan (s : σ) (hown : OwnResults registry) {id : PluginId} {plugin : HardeningPlugin σ}
    (hget : registry.get id = some plugin) (config : PluginConfig) :
    (recordedScan id (plugin.scan config s).1).scanPluginId = id := by
  have hid := PluginRegistry.id_of_get hget
  cases hscan : (plugin.scan config s).1 with
  | error e => rfl
  | ok r => exact (hown plugin (List.mem_of_find?_eq_some hget) config s r hscan).trans hid

/-! ## What a plugin's answer says of a control -/

/-- The answer has a live finding for it. -/
def Finds (profile : ComplianceProfile) (framework : ComplianceFramework) (c : String)
    (outcome : Except Chars ScanResult) : Prop :=
  ∃ r, outcome = .ok r ∧ r.scanSkipped = none ∧
    ∃ f ∈ r.scanFindings, f.isLive = true ∧ Names profile framework f.findingCompliance c

/-- The answer leaves it open: a check of it was not made, or the plugin covers it and did not finish. -/
def LeavesOpen (profile : ComplianceProfile) (framework : ComplianceFramework) (c : String)
    (coverage : List ComplianceMapping) (outcome : Except Chars ScanResult) : Prop :=
  match outcome with
  | .ok r => (r.scanSkipped = none ∧ Names profile framework (uncheckedMappings r.scanUnchecked) c) ∨
      (r.Silent ∧ Names profile framework coverage c)
  | .error _ => Names profile framework coverage c

/-- Some plugin, run as set, finds it. -/
def Failing (registry : PluginRegistry σ) (runs : PluginId → Option PluginConfig) (s : σ) (profile : ComplianceProfile)
    (framework : ComplianceFramework) (c : String) : Prop :=
  ∃ id plugin config, registry.get id = some plugin ∧ runs id = some config ∧
    Finds profile framework c (plugin.scan config s).1

/-- Some plugin leaves it open: run as set, or not run and covering it. -/
def Unsettled (registry : PluginRegistry σ) (coverageFor : String → Option (List ComplianceMapping))
    (runs : PluginId → Option PluginConfig) (s : σ) (profile : ComplianceProfile) (framework : ComplianceFramework)
    (c : String) : Prop :=
  ∃ id plugin, registry.get id = some plugin ∧
    match runs id with
    | some config => LeavesOpen profile framework c ((coverageFor id.value).getD []) (plugin.scan config s).1
    | none => Names profile framework ((coverageFor id.value).getD []) c

variable {g : ReportGenerator} {skipped : List PluginId}

theorem live_resultsOf : Live g framework c (flatten g.inventory (resultsOf registry runs s) skipped).1 ↔
    Failing registry runs s g.config.profile framework c := by
  rw [live_flatten]
  constructor
  · intro h
    obtain ⟨r, hr, hskipped, hfinding⟩ := h
    obtain ⟨id, plugin, config, hget, hruns, rfl⟩ := mem_resultsOf.mp hr
    refine ⟨id, plugin, config, hget, hruns, ?_⟩
    cases hscan : (plugin.scan config s).1 with
    | ok r =>
      rw [hscan] at hskipped hfinding
      exact ⟨r, rfl, hskipped, hfinding⟩
    | error e =>
      rw [hscan] at hfinding
      obtain ⟨f, hf, -⟩ := hfinding
      cases hf
  · intro h
    obtain ⟨id, plugin, config, hget, hruns, r, hscan, hskipped, hfinding⟩ := h
    refine ⟨r, mem_resultsOf.mpr ⟨id, plugin, config, hget, hruns, ?_⟩, hskipped, hfinding⟩
    rw [hscan]
    rfl

theorem plugins_pluginInventory : (pluginInventory registry coverageFor).plugins =
    registry.list.map fun m => ⟨m, (coverageFor m.pluginId.value).getD []⟩ := rfl

/-- A plugin that is covered is one that can be had. -/
theorem mem_plugins_iff {p : PluginCoverage} (h : p ∈ (pluginInventory registry coverageFor).plugins) :
    p.coverage = (coverageFor p.pluginMeta.pluginId.value).getD [] ∧
      ∃ plugin, registry.get p.pluginMeta.pluginId = some plugin := by
  rw [plugins_pluginInventory] at h
  obtain ⟨m, hm, rfl⟩ := List.mem_map.mp h
  exact ⟨rfl, PluginRegistry.mem_ids_iff.mp (List.mem_map_of_mem hm)⟩

theorem plugin?_of_get (coverageFor : String → Option (List ComplianceMapping)) {id : PluginId} {plugin : HardeningPlugin σ} (hget : registry.get id = some plugin) :
    ∃ p, p ∈ (pluginInventory registry coverageFor).plugins ∧ (pluginInventory registry coverageFor).plugin? id = some p ∧
      p.pluginMeta.pluginId = id ∧ p.coverage = (coverageFor id.value).getD [] := by
  obtain ⟨m, hm, hid⟩ := List.mem_map.mp (PluginRegistry.mem_ids_iff.mpr ⟨plugin, hget⟩)
  subst hid
  have hmem : (⟨m, (coverageFor m.pluginId.value).getD []⟩ : PluginCoverage) ∈
      (pluginInventory registry coverageFor).plugins := by
    rw [plugins_pluginInventory]
    exact List.mem_map.mpr ⟨m, hm, rfl⟩
  refine ⟨_, hmem, ?_, rfl, rfl⟩
  have hnodup : ((pluginInventory registry coverageFor).plugins.map (·.pluginMeta.pluginId)).Nodup := by
    rw [plugins_pluginInventory, List.map_map]
    exact PluginRegistry.nodup_ids registry
  exact plugin?_self hnodup hmem

theorem unchecked_resultsOf (hown : OwnResults registry) (hinventory : g.inventory = pluginInventory registry coverageFor) :
    Unchecked g framework c (flatten g.inventory (resultsOf registry runs s) skipped).2 ↔
      Unsettled registry coverageFor runs s g.config.profile framework c := by
  rw [unchecked_flatten, hinventory]
  constructor
  · intro h
    obtain ⟨r, hr, hskipped, hnames⟩ | ⟨r, hr, hsilent, p, hp, hnames⟩ | ⟨p, hp, habsent, hnames⟩ := h
    · obtain ⟨id, plugin, config, hget, hruns, rfl⟩ := mem_resultsOf.mp hr
      refine ⟨id, plugin, hget, ?_⟩
      rw [hruns]
      show LeavesOpen g.config.profile framework c _ (plugin.scan config s).1
      cases hscan : (plugin.scan config s).1 with
      | ok r =>
        rw [hscan] at hskipped hnames
        exact Or.inl ⟨hskipped, hnames⟩
      | error e =>
        rw [hscan] at hnames
        obtain ⟨m, hm, -⟩ := names_iff_exists.mp hnames
        cases hm
    · obtain ⟨id, plugin, config, hget, hruns, rfl⟩ := mem_resultsOf.mp hr
      obtain ⟨q, -, hq, -, hcoverage⟩ := plugin?_of_get coverageFor hget
      rw [id_recordedScan s hown hget, hq] at hp
      cases hp
      refine ⟨id, plugin, hget, ?_⟩
      rw [hruns]
      rw [hcoverage] at hnames
      show LeavesOpen g.config.profile framework c _ (plugin.scan config s).1
      cases hscan : (plugin.scan config s).1 with
      | ok r =>
        rw [hscan] at hsilent
        exact Or.inr ⟨hsilent, hnames⟩
      | error e => exact hnames
    · obtain ⟨hcoverage, plugin, hget⟩ := mem_plugins_iff hp
      refine ⟨p.pluginMeta.pluginId, plugin, hget, ?_⟩
      rw [hcoverage] at hnames
      cases hruns : runs p.pluginMeta.pluginId with
      | none => exact hnames
      | some config =>
        -- a plugin that ran has a result of its own
        exact absurd (id_recordedScan s hown hget config) (habsent _ (result_mem s hget hruns))
  · intro h
    obtain ⟨id, plugin, hget, h⟩ := h
    obtain ⟨p, hp, hplugin, hid, hcoverage⟩ := plugin?_of_get coverageFor hget
    cases hruns : runs id with
    | none =>
      rw [hruns] at h
      refine .inr (.inr ⟨p, hp, ?_, by rw [hcoverage]; exact h⟩)
      intro r hr heq
      obtain ⟨id', plugin', config, hget', hruns', rfl⟩ := mem_resultsOf.mp hr
      rw [id_recordedScan s hown hget', hid] at heq
      rw [heq, hruns] at hruns'
      cases hruns'
    | some config =>
      rw [hruns] at h
      change LeavesOpen g.config.profile framework c _ (plugin.scan config s).1 at h
      have hr := result_mem s hget hruns
      have hown_id := id_recordedScan s hown hget config
      cases hscan : (plugin.scan config s).1 with
      | error e =>
        rw [hscan] at h hr hown_id
        refine .inr (.inl ⟨_, hr, .inr rfl, p, ?_, by rw [hcoverage]; exact h⟩)
        rw [hown_id]
        exact hplugin
      | ok r =>
        rw [hscan] at h hr hown_id
        obtain h | ⟨hsilent, hnames⟩ := h
        · exact .inl ⟨r, hr, h⟩
        · refine .inr (.inl ⟨r, hr, hsilent, p, ?_, by rw [hcoverage]; exact hnames⟩)
          rw [show r.scanPluginId = id from hown_id]
          exact hplugin

end

/-! ## The two pipelines -/

section

variable (registry : PluginRegistry σ) (coverageFor : String → Option (List ComplianceMapping)) (config : ControllerConfig)
  (host : RemoteHostProfile) (profile : ComplianceProfile) (env : Environment) (s : σ) (framework : ComplianceFramework)

def desktopGenerator : ReportGenerator :=
  fleetReportGenerator profile (pluginInventory registry coverageFor) config.compliance host

/-- The generator of a batch report on one framework. -/
def frameworkGenerator : ReportGenerator :=
  batchGenerator (.custom [framework]) profile (pluginInventory registry coverageFor) config.compliance host

/-- What the desktop leaves for review of the controls it does not fail. -/
def DesktopReview (c : String) : Prop :=
  Unsettled registry coverageFor (fun _ => some noConfig) s profile framework c ∨
    (¬ Assessed (desktopGenerator registry coverageFor config host profile) framework c ∧
      ¬ Excluded (desktopGenerator registry coverageFor config host profile) framework c env)

/-- What the batch report leaves for review of them. -/
def BatchReview (c : String) : Prop :=
  Unsettled registry coverageFor (batchRuns config.toHardenerConfig) s profile framework c ∨
    (¬ Assessed (desktopGenerator registry coverageFor config host profile) framework c ∧
      ¬ Excluded (frameworkGenerator registry coverageFor config host profile framework) framework c env)

/-- The answers under no configuration, of every plugin, and those under the controller's, of
the plugins it enables, come to the same for every control; and so do the exclusions in
force for the host's own hostname and for the one read back from its target. -/
structure SamePolicy : Prop where
  failing : ∀ c, Failing registry (fun _ => some noConfig) s profile framework c ↔
    Failing registry (batchRuns config.toHardenerConfig) s profile framework c
  review : ∀ c ∈ (desktopGenerator registry coverageFor config host profile).catalogueIds framework,
    ¬ Failing registry (fun _ => some noConfig) s profile framework c →
      (DesktopReview registry coverageFor config host profile env s framework c ↔
        BatchReview registry coverageFor config host profile env s framework c)

end

section

variable {registry : PluginRegistry σ} {coverageFor : String → Option (List ComplianceMapping)} {config : ControllerConfig}
  {pluginIds : Option (List Chars)} {host : RemoteHostProfile} {profile : ComplianceProfile} {env : Environment} {s : σ}

theorem resultsOf_congr {runs runs' : PluginId → Option PluginConfig} (h : ∀ id ∈ registry.ids, runs id = runs' id) :
    resultsOf registry runs s = resultsOf registry runs' s := by
  unfold resultsOf
  apply List.filterMap_congr
  intro id hid
  rw [h id hid]

theorem desktopResults (hselected : ∀ id ∈ registry.ids, isSelected pluginIds id = true) :
    scanWithExecutor registry pluginIds s = resultsOf registry (fun _ => some noConfig) s := by
  rw [scanWithExecutor_eq]
  apply resultsOf_congr
  intro id hid
  rw [desktopRuns, if_pos (hselected id hid)]

/-- For one framework, the two reports say the same exactly under the same policy. -/
theorem sameVerdicts_iff_samePolicy (hown : OwnResults registry) (scenario : Scenario) (skipped : List PluginId)
    (framework : ComplianceFramework) :
    SameVerdicts
      ((desktopGenerator registry coverageFor config host profile).reportFor env
        (flatten (pluginInventory registry coverageFor) (resultsOf registry (fun _ => some noConfig) s) []).1
        (flatten (pluginInventory registry coverageFor) (resultsOf registry (fun _ => some noConfig) s) []).2 framework)
      ((batchGenerator scenario profile (pluginInventory registry coverageFor) config.compliance host).reportFor env
        (flatten (pluginInventory registry coverageFor) (resultsOf registry (batchRuns config.toHardenerConfig) s) skipped).1
        (flatten (pluginInventory registry coverageFor) (resultsOf registry (batchRuns config.toHardenerConfig) s) skipped).2
        framework) ↔
      SamePolicy registry coverageFor config host profile env s framework := by
  refine Iff.trans (sameVerdicts_iff ?_ ?_) ?_
  · rfl
  · rfl
  have hlive : ∀ c, Live (desktopGenerator registry coverageFor config host profile) framework c
      (flatten (pluginInventory registry coverageFor) (resultsOf registry (fun _ => some noConfig) s) []).1 ↔
        Failing registry (fun _ => some noConfig) s profile framework c := fun _ => live_resultsOf
  have hlive' : ∀ c, Live (batchGenerator scenario profile (pluginInventory registry coverageFor) config.compliance host)
      framework c (flatten (pluginInventory registry coverageFor)
        (resultsOf registry (batchRuns config.toHardenerConfig) s) skipped).1 ↔
        Failing registry (batchRuns config.toHardenerConfig) s profile framework c := fun _ => live_resultsOf
  have hreview : ∀ c, Unchecked (desktopGenerator registry coverageFor config host profile) framework c
      (flatten (pluginInventory registry coverageFor) (resultsOf registry (fun _ => some noConfig) s) []).2 ↔
        Unsettled registry coverageFor (fun _ => some noConfig) s profile framework c := fun _ => unchecked_resultsOf hown rfl
  have hreview' : ∀ c, Unchecked (batchGenerator scenario profile (pluginInventory registry coverageFor) config.compliance host)
      framework c (flatten (pluginInventory registry coverageFor)
        (resultsOf registry (batchRuns config.toHardenerConfig) s) skipped).2 ↔
        Unsettled registry coverageFor (batchRuns config.toHardenerConfig) s profile framework c :=
    fun _ => unchecked_resultsOf hown rfl
  constructor
  · intro h
    refine ⟨fun c => (hlive c).symm.trans ((h.live c).trans (hlive' c)), fun c hc hnot => ?_⟩
    have := h.review c hc fun hl => hnot ((hlive c).mp hl)
    unfold ForReview at this
    rw [hreview, hreview'] at this
    exact this
  · intro h
    refine ⟨fun c => (hlive c).trans ((h.failing c).trans (hlive' c).symm), fun c hc hnot => ?_⟩
    have := h.review c hc fun hl => hnot ((hlive c).mpr hl)
    unfold ForReview
    rw [hreview, hreview']
    exact this

/-- The rows of a posture list what its report lists. -/
theorem outcome_iff {report : ComplianceReport} {c : String} {status : ControlStatus} :
    (∃ o ∈ report.reportControls.map ControlOutcome.ofResult, o.controlId = c ∧ o.controlStatus = status) ↔
      report.Lists c status := by
  unfold ComplianceReport.Lists
  simp only [List.mem_map, exists_exists_and_eq_and]
  rfl

/-- The report the desktop's posture on a framework is taken from. -/
def desktopReport (registry : PluginRegistry σ) (coverageFor : String → Option (List ComplianceMapping))
    (config : ControllerConfig) (host : RemoteHostProfile) (profile : ComplianceProfile) (env : Environment) (s : σ)
    (framework : ComplianceFramework) : ComplianceReport :=
  let flat := flatten (pluginInventory registry coverageFor) (resultsOf registry (fun _ => some noConfig) s) []
  (desktopGenerator registry coverageFor config host profile).reportFor env flat.1 flat.2 framework

/-- The report the batch report's posture on a framework is taken from. -/
def batchReport (registry : PluginRegistry σ) (coverageFor : String → Option (List ComplianceMapping))
    (config : ControllerConfig) (scenario : Scenario) (host : RemoteHostProfile) (profile : ComplianceProfile)
    (env : Environment) (s : σ) (framework : ComplianceFramework) : ComplianceReport :=
  let flat := flatten (pluginInventory registry coverageFor)
    (resultsOf registry (batchRuns config.toHardenerConfig) s) (scanGrouped registry config.toHardenerConfig s).evidence.2
  (batchGenerator scenario profile (pluginInventory registry coverageFor) config.compliance host).reportFor env
    flat.1 flat.2 framework

theorem mem_fleetPosture (hselected : ∀ id ∈ registry.ids, isSelected pluginIds id = true) {d : FleetFrameworkPosture} :
    d ∈ fleetPosture registry coverageFor config pluginIds host profile env s ↔ ∃ framework ∈ fleetFrameworks,
      d = ⟨framework, (desktopReport registry coverageFor config host profile env s framework).reportSummary,
        (desktopReport registry coverageFor config host profile env s framework).reportControls.map
          ControlOutcome.ofResult⟩ := by
  unfold fleetPosture postureForFindings
  rw [List.mem_map, desktopResults hselected]
  constructor
  · intro h
    obtain ⟨report, hreport, rfl⟩ := h
    obtain ⟨framework, hmem, rfl⟩ := mem_generate.mp hreport
    exact ⟨framework, hmem, rfl⟩
  · intro h
    obtain ⟨framework, hmem, rfl⟩ := h
    exact ⟨_, mem_generate.mpr ⟨framework, hmem, rfl⟩, rfl⟩

theorem mem_hostReport {scenario : Scenario} {b : FrameworkPosture} :
    b ∈ hostReport registry coverageFor config scenario host profile env s ↔ ∃ framework ∈ scenario.frameworks,
      b = postureFromReport (batchReport registry coverageFor config scenario host profile env s framework) := by
  unfold hostReport
  simp only [scanGrouped_eq]
  rw [List.mem_map]
  constructor
  · intro h
    obtain ⟨report, hreport, rfl⟩ := h
    obtain ⟨framework, hmem, rfl⟩ := mem_generate.mp hreport
    exact ⟨framework, hmem, rfl⟩
  · intro h
    obtain ⟨framework, hmem, rfl⟩ := h
    exact ⟨_, mem_generate.mpr ⟨framework, hmem, rfl⟩, rfl⟩

/-- The postures agree where the reports they are taken from say the same. -/
theorem scoredAlike_iff_sameVerdicts (hselected : ∀ id ∈ registry.ids, isSelected pluginIds id = true) :
    ScoredAlike registry coverageFor config pluginIds host profile env s ↔
      ∀ scenario, ∀ framework ∈ fleetFrameworks, framework ∈ scenario.frameworks →
        SameVerdicts (desktopReport registry coverageFor config host profile env s framework)
          (batchReport registry coverageFor config scenario host profile env s framework) := by
  constructor
  · intro h scenario framework hfleet hscenario
    have hboth := h scenario _ ((mem_fleetPosture hselected).mpr ⟨framework, hfleet, rfl⟩) _
      (mem_hostReport.mpr ⟨framework, hscenario, rfl⟩) rfl
    refine ⟨fun c status => ?_, hboth.2⟩
    rw [← outcome_iff, ← outcome_iff]
    exact hboth.1 c status
  · intro h scenario d hd b hb hsame
    obtain ⟨framework, hfleet, rfl⟩ := (mem_fleetPosture hselected).mp hd
    obtain ⟨framework', hscenario, rfl⟩ := mem_hostReport.mp hb
    obtain rfl : framework = framework' := hsame
    have hverdicts := h scenario framework hfleet hscenario
    refine ⟨fun c status => ?_, hverdicts.score⟩
    have := hverdicts.controls c status
    rwa [← outcome_iff, ← outcome_iff] at this

theorem scoredAlike_iff_samePolicy (hown : OwnResults registry) (hselected : ∀ id ∈ registry.ids, isSelected pluginIds id = true) :
    ScoredAlike registry coverageFor config pluginIds host profile env s ↔
      ∀ framework ∈ fleetFrameworks, SamePolicy registry coverageFor config host profile env s framework := by
  rw [scoredAlike_iff_sameVerdicts hselected]
  constructor
  · intro h framework hfleet
    exact (sameVerdicts_iff_samePolicy hown _ _ framework).mp
      (h (.custom [framework]) framework hfleet List.mem_cons_self)
  · intro h scenario framework hfleet _
    exact (sameVerdicts_iff_samePolicy hown scenario _ framework).mpr (h framework hfleet)

end

/-! ## Where nothing is configured -/

section

variable {registry : PluginRegistry σ} {coverageFor : String → Option (List ComplianceMapping)} {config : ControllerConfig}
  {host : RemoteHostProfile} {profile : ComplianceProfile} {env : Environment} {s : σ} {framework : ComplianceFramework}

/-- Where every plugin is enabled and answers under its section as under none, and the
hostname is read back as it is, the host is scored under one policy. -/
theorem samePolicy_of_plain (henabled : ∀ id ∈ registry.ids, config.isPluginEnabled id = true)
    (hsections : ∀ plugin ∈ registry.plugins,
      (plugin.scan (config.getPluginConfig plugin.id).toPluginConfig s).1 = (plugin.scan noConfig s).1)
    (hhost : (RemoteHostProfile.fromTarget host.target 22 none true).hostname = host.hostname) :
    SamePolicy registry coverageFor config host profile env s framework := by
  have hruns : ∀ {id : PluginId} {plugin : HardeningPlugin σ}, registry.get id = some plugin →
      batchRuns config.toHardenerConfig id = some (config.getPluginConfig id).toPluginConfig ∧
        (plugin.scan (config.getPluginConfig id).toPluginConfig s).1 = (plugin.scan noConfig s).1 := by
    intro id plugin hget
    have hid := PluginRegistry.id_of_get hget
    refine ⟨if_pos (henabled id (PluginRegistry.mem_ids_iff.mpr ⟨plugin, hget⟩)), ?_⟩
    rw [← hid]
    exact hsections plugin (List.mem_of_find?_eq_some hget)
  have hunsettled : ∀ c, Unsettled registry coverageFor (fun _ => some noConfig) s profile framework c ↔
      Unsettled registry coverageFor (batchRuns config.toHardenerConfig) s profile framework c := by
    intro c
    unfold Unsettled
    apply exists_congr
    intro id
    apply exists_congr
    intro plugin
    apply and_congr_right
    intro hget
    rw [(hruns hget).1]
    simp only [(hruns hget).2]
  have hgenerators : desktopGenerator registry coverageFor config host profile =
      { frameworkGenerator registry coverageFor config host profile framework with config := ⟨.custom fleetFrameworks, profile⟩ } := by
    simp only [desktopGenerator, fleetReportGenerator, frameworkGenerator, batchGenerator, hhost]
  refine ⟨fun c => ?_, fun c _ _ => ?_⟩
  · unfold Failing
    apply exists_congr
    intro id
    apply exists_congr
    intro plugin
    constructor
    · intro h
      obtain ⟨config', hget, hruns', hfinds⟩ := h
      cases hruns'
      exact ⟨_, hget, (hruns hget).1, (hruns hget).2 ▸ hfinds⟩
    · intro h
      obtain ⟨config', hget, hruns', hfinds⟩ := h
      rw [(hruns hget).1] at hruns'
      cases hruns'
      exact ⟨noConfig, hget, rfl, (hruns hget).2 ▸ hfinds⟩
  · unfold DesktopReview BatchReview
    rw [hunsettled c, hgenerators]
    rfl

end

/-- A host is given the same statuses and scores by the desktop's scan of every plugin and by the batch report exactly
where its answers and identities come to the same for every control of each framework. -/
theorem fleet_scored_alike_iff (registry : PluginRegistry σ) (coverageFor : String → Option (List ComplianceMapping))
    (config : ControllerConfig) (pluginIds : Option (List Chars)) (host : RemoteHostProfile) (profile : ComplianceProfile)
    (env : Environment) (s : σ) (hown : OwnResults registry)
    (hselected : ∀ id ∈ registry.ids, isSelected pluginIds id = true) :
    ScoredAlike registry coverageFor config pluginIds host profile env s ↔
      ∀ framework ∈ fleetFrameworks, SamePolicy registry coverageFor config host profile env s framework :=
  scoredAlike_iff_samePolicy hown hselected

/-! ## A plugin the controller has disabled -/

def auditCoverage (id : String) : Option (List ComplianceMapping) :=
  if id = "kernel-hardening" then some [au2] else none

def webHost : RemoteHostProfile where
  name := "web".toList
  hostname := "10.0.0.1".toList
  user := none
  port := 22
  keyFile := none
  hostKeyChecking := true

theorem ownResults_auditThenKernel : OwnResults auditThenKernel := by
  intro plugin hplugin config s result hscan
  simp only [auditThenKernel, List.mem_cons, List.not_mem_nil, or_false] at hplugin
  obtain rfl | rfl := hplugin
  · cases hscan
    rfl
  · cases hscan
    rfl

theorem fleet_scored_alike_audit :
    ScoredAlike auditThenKernel auditCoverage ⟨.default, ⟨[]⟩⟩ none webHost .generic civilEnvironment () ↔
      ∀ framework ∈ fleetFrameworks,
        SamePolicy auditThenKernel auditCoverage ⟨.default, ⟨[]⟩⟩ webHost .generic civilEnvironment () framework :=
  fleet_scored_alike_iff auditThenKernel auditCoverage ⟨.default, ⟨[]⟩⟩ none webHost .generic civilEnvironment ()
    ownResults_auditThenKernel (fun _ _ => rfl)

/-- The plugins' scans find nothing and leave nothing open, under any configuration. -/
theorem scan_auditThenKernel {id : PluginId} {plugin : HardeningPlugin Unit} (hget : auditThenKernel.get id = some plugin)
    (config : PluginConfig) : ∃ r : ScanResult, (plugin.scan config ()).1 = .ok r ∧ r.scanFindings = [] ∧
      r.scanUnchecked = [] ∧ ¬ r.Silent := by
  have hmem : plugin ∈ auditThenKernel.plugins := List.mem_of_find?_eq_some hget
  simp only [auditThenKernel, List.mem_cons, List.not_mem_nil, or_false] at hmem
  obtain rfl | rfl := hmem
  · exact ⟨_, rfl, rfl, rfl, by simp [ScanResult.Silent]⟩
  · exact ⟨_, rfl, rfl, rfl, by simp [ScanResult.Silent]⟩

/-- The kernel plugin is disabled: the desktop passes the control it covers, the batch report leaves it for review. -/
theorem disabled_plugin_scored_apart : ¬ ∀ (σ : Type) (registry : PluginRegistry σ)
    (coverageFor : String → Option (List ComplianceMapping)) (config : ControllerConfig) (pluginIds : Option (List Chars))
    (host : RemoteHostProfile) (profile : ComplianceProfile) (env : Environment) (s : σ), OwnResults registry →
    (∀ id ∈ registry.ids, isSelected pluginIds id = true) →
    ScoredAlike registry coverageFor config pluginIds host profile env s := by
  intro hclaim
  let config : ControllerConfig := ⟨{ HardenerConfig.default with disabledPlugins := [⟨"kernel-hardening"⟩] }, ⟨[]⟩⟩
  have hscored := hclaim Unit auditThenKernel auditCoverage config none webHost .generic civilEnvironment ()
    ownResults_auditThenKernel (fun _ _ => rfl)
  have hpolicy := (scoredAlike_iff_samePolicy ownResults_auditThenKernel (fun _ _ => rfl)).mp hscored .nist (by decide)
  have hkernel : auditThenKernel.get ⟨"kernel-hardening"⟩ = some (idle "kernel-hardening" [⟨"audit-hardening"⟩]) := by
    simp [PluginRegistry.get, auditThenKernel, idle, HardeningPlugin.id]
  have hcovered : Names .generic .nist ((auditCoverage "kernel-hardening").getD []) "AU-2" := by decide
  have hassessed : Assessed (desktopGenerator auditThenKernel auditCoverage config webHost .generic) .nist "AU-2" := by
    obtain ⟨p, hp, -, -, hcoverage⟩ := plugin?_of_get auditCoverage hkernel
    exact ⟨p, hp, by rw [hcoverage]; exact hcovered⟩
  have hclean : ¬ Failing auditThenKernel (fun _ => some noConfig) () .generic .nist "AU-2" := by
    intro h
    obtain ⟨id, plugin, _, hget, -, r, hscan, -, f, hf, -⟩ := h
    obtain ⟨r', hscan', hnone, -⟩ := scan_auditThenKernel hget _
    rw [hscan] at hscan'
    cases hscan'
    rw [hnone] at hf
    cases hf
  have hsettled : ¬ DesktopReview auditThenKernel auditCoverage config webHost .generic civilEnvironment () .nist "AU-2" := by
    intro h
    obtain ⟨id, plugin, hget, hopen⟩ | ⟨huncovered, -⟩ := h
    · obtain ⟨r, hscan, -, hnone, hloud⟩ := scan_auditThenKernel hget noConfig
      change LeavesOpen .generic .nist "AU-2" _ (plugin.scan noConfig ()).1 at hopen
      rw [hscan] at hopen
      obtain ⟨-, hnames⟩ | ⟨hsilent, -⟩ := hopen
      · rw [hnone] at hnames
        obtain ⟨m, hm, -⟩ := names_iff_exists.mp hnames
        cases hm
      · exact hloud hsilent
    · exact huncovered hassessed
  have hbatch : BatchReview auditThenKernel auditCoverage config webHost .generic civilEnvironment () .nist "AU-2" := by
    refine .inl ⟨_, _, hkernel, ?_⟩
    have hoff : batchRuns config.toHardenerConfig ⟨"kernel-hardening"⟩ = none := by decide
    rw [hoff]
    exact hcovered
  exact hsettled ((hpolicy.review "AU-2" (mem_catalogueIds.mpr (.inr hassessed)) hclean).mpr hbatch)

end LinuxHardener.Fleet
