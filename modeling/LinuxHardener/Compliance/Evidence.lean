import LinuxHardener.Compliance.Frameworks
import LinuxHardener.Lib.FirstBy

/-
  From scan results to what a report is scored from: the findings, and the checks that
  were not made, with a stand-in for every plugin that gave no evidence.

  Correspondence (Rust ↔ Lean):
    `hardener_types::{Finding, UncheckedCheck, ScanResult, PluginInventory}` ↔ the types of these
      names, with the fields a report reads
    `PluginInventory::{assessed_controls, plugins}` ↔ `.assessedControls`, `.plugins`
    `scan_evidence::flatten` ↔ `flatten`; the body of its first loop is `resultFindings` and
      `resultUnchecked`
-/
namespace LinuxHardener.Compliance

/-! ## Scan results -/

structure PluginId where
  value : String
  deriving DecidableEq, Repr

/-- What the configuration says about a finding. -/
inductive ExceptionOutcome where
  | notConfigured
  | applied (reason : String)
  | declined (reason : String)
  deriving DecidableEq, Repr

structure Finding where
  findingId : String
  findingCompliance : List ComplianceMapping
  findingException : ExceptionOutcome
  deriving DecidableEq, Repr

inductive FindingCategory where
  | audit | authentication | cryptography | fileSystem | kernel | mandatoryAccessControl | network | services
  deriving DecidableEq, Repr

inductive UncheckedBlocker where
  | privilege | environment | unknown
  deriving DecidableEq, Repr

structure UncheckedCheck where
  uncheckedCheckId : String
  uncheckedTitle : String
  uncheckedCategory : FindingCategory
  uncheckedReason : String
  uncheckedBlocker : UncheckedBlocker
  uncheckedCompliance : List ComplianceMapping
  deriving DecidableEq, Repr

inductive SkipReason where
  | disabledByConfig
  deriving DecidableEq, Repr

structure ScanResult where
  scanPluginId : PluginId
  scanSuccess : Bool
  scanFindings : List Finding
  scanUnchecked : List UncheckedCheck
  scanError : Option String
  scanSkipped : Option SkipReason
  deriving DecidableEq, Repr

/-! ## The plugins -/

structure PluginMetadata where
  pluginId : PluginId
  pluginName : String
  pluginCategory : FindingCategory
  deriving DecidableEq, Repr

structure PluginCoverage where
  pluginMeta : PluginMetadata
  coverage : List ComplianceMapping
  deriving DecidableEq, Repr

inductive PluginInventory where
  | known (plugins : List PluginCoverage)
  | unavailable (reason : String)

/-- A control, by framework and id. -/
def ComplianceMapping.key (m : ComplianceMapping) : ComplianceFramework × String :=
  (m.complianceFramework, m.complianceControlId)

def PluginInventory.plugins : PluginInventory → List PluginCoverage
  | .known plugins => plugins
  | .unavailable _ => []

/-- The union of what the plugins cover, each control once. -/
def PluginInventory.assessedControls : PluginInventory → List ComplianceMapping
  | .known plugins => firstBy ComplianceMapping.key [] (plugins.flatMap (·.coverage))
  | .unavailable _ => []

/-- The plugin registered under an id. -/
def PluginInventory.plugin? (inventory : PluginInventory) (id : PluginId) : Option PluginCoverage :=
  inventory.plugins.find? (fun p => p.pluginMeta.pluginId == id)

/-! ## Flattening -/

/-- Why a plugin contributed no evidence. -/
inductive Unassessed where
  | scanIncomplete (error : Option String)
  | disabledByConfig
  | notCovered

def registryUnavailableCheck (reason : String) : UncheckedCheck where
  uncheckedCheckId := "plugin-registry-unavailable"
  uncheckedTitle := "Plugin registry could not be enumerated"
  uncheckedCategory := .audit
  uncheckedReason := "the plugins this run would have assessed could not be listed (" ++ reason ++
    "), so no control may be reported as satisfied"
  uncheckedBlocker := .environment
  uncheckedCompliance := []

/-- The entry standing in for a plugin, with its whole coverage. -/
def unassessedCheck (plugin : PluginCoverage) (why : Unassessed) : UncheckedCheck where
  uncheckedCheckId := plugin.pluginMeta.pluginId.value ++
    match why with
    | .scanIncomplete _ => "-scan-incomplete"
    | .disabledByConfig | .notCovered => "-not-assessed"
  uncheckedTitle := plugin.pluginMeta.pluginName ++
    match why with
    | .scanIncomplete _ => " scan did not complete"
    | .disabledByConfig | .notCovered => " did not run"
  uncheckedCategory := plugin.pluginMeta.pluginCategory
  uncheckedReason :=
    match why with
    | .scanIncomplete error => error.getD "reason not reported"
    | .disabledByConfig => "disabled by configuration, so the controls it covers were not assessed"
    | .notCovered => "this scan did not cover it, so the controls it covers were not assessed"
  uncheckedBlocker :=
    match why with
    | .scanIncomplete _ => .unknown
    | .disabledByConfig | .notCovered => .environment
  uncheckedCompliance := plugin.coverage

/-- The stand-in for the plugin a result names; none for one that is not registered. -/
def standIn (inventory : PluginInventory) (id : PluginId) (why : Unassessed) : List UncheckedCheck :=
  (inventory.plugin? id).toList.map (unassessedCheck · why)

/-- A skip marker's own findings are not read. -/
def resultFindings (result : ScanResult) : List Finding :=
  match result.scanSkipped with
  | some _ => []
  | none => result.scanFindings

def resultUnchecked (inventory : PluginInventory) (result : ScanResult) : List UncheckedCheck :=
  match result.scanSkipped with
  | some .disabledByConfig => standIn inventory result.scanPluginId .disabledByConfig
  | none =>
    result.scanUnchecked ++
      if result.scanSuccess then [] else standIn inventory result.scanPluginId (.scanIncomplete result.scanError)

def flatten (inventory : PluginInventory) (results : List ScanResult) (skipped : List PluginId) :
    List Finding × List UncheckedCheck :=
  let unavailable := match inventory with
    | .known _ => []
    | .unavailable reason => [registryUnavailableCheck reason]
  let absent := inventory.plugins.filter (fun p => !results.any (fun r => r.scanPluginId == p.pluginMeta.pluginId))
  (results.flatMap resultFindings,
    unavailable ++ results.flatMap (resultUnchecked inventory) ++
      absent.map (fun p => unassessedCheck p
        (if p.pluginMeta.pluginId ∈ skipped then .disabledByConfig else .notCovered)))

/-! ## What flattening lets through -/

/-- What a list of checks that were not made maps to. -/
def uncheckedMappings (checks : List UncheckedCheck) : List ComplianceMapping :=
  checks.flatMap (·.uncheckedCompliance)

@[simp] theorem uncheckedMappings_append (a b : List UncheckedCheck) :
    uncheckedMappings (a ++ b) = uncheckedMappings a ++ uncheckedMappings b := by
  simp [uncheckedMappings]

theorem mem_uncheckedMappings {checks : List UncheckedCheck} {m : ComplianceMapping} :
    m ∈ uncheckedMappings checks ↔ ∃ u ∈ checks, m ∈ u.uncheckedCompliance := List.mem_flatMap

@[simp] theorem unassessedCheck_compliance (plugin : PluginCoverage) (why : Unassessed) :
    (unassessedCheck plugin why).uncheckedCompliance = plugin.coverage := rfl

theorem mem_standIn {inventory : PluginInventory} {id : PluginId} {why : Unassessed} {m : ComplianceMapping} :
    m ∈ uncheckedMappings (standIn inventory id why) ↔ ∃ p, inventory.plugin? id = some p ∧ m ∈ p.coverage := by
  unfold standIn uncheckedMappings
  cases inventory.plugin? id with
  | none => simp
  | some p => simp

/-- A result that is no scan, or none that completed. -/
def ScanResult.Silent (r : ScanResult) : Prop := r.scanSkipped ≠ none ∨ r.scanSuccess = false

theorem mem_resultUnchecked {inventory : PluginInventory} {r : ScanResult} {m : ComplianceMapping} :
    m ∈ uncheckedMappings (resultUnchecked inventory r) ↔
      (r.scanSkipped = none ∧ m ∈ uncheckedMappings r.scanUnchecked) ∨
      (r.Silent ∧ ∃ p, inventory.plugin? r.scanPluginId = some p ∧ m ∈ p.coverage) := by
  unfold resultUnchecked ScanResult.Silent
  cases hs : r.scanSkipped with
  | some reason =>
    cases reason
    simp [mem_standIn]
  | none =>
    cases hok : r.scanSuccess with
    | true => simp
    | false => simp [mem_standIn]

/-- What the checks not made map to: a scan's own, and the coverage of each plugin whose
result is silent or missing. -/
theorem mem_flatten_unchecked {inventory : PluginInventory} {results : List ScanResult} {skipped : List PluginId}
    {m : ComplianceMapping} :
    m ∈ uncheckedMappings (flatten inventory results skipped).2 ↔
      (∃ r ∈ results, r.scanSkipped = none ∧ m ∈ uncheckedMappings r.scanUnchecked) ∨
      (∃ r ∈ results, r.Silent ∧ ∃ p, inventory.plugin? r.scanPluginId = some p ∧ m ∈ p.coverage) ∨
      (∃ p ∈ inventory.plugins, (∀ r ∈ results, r.scanPluginId ≠ p.pluginMeta.pluginId) ∧ m ∈ p.coverage) := by
  have hunavailable : ∀ inventory : PluginInventory, m ∉ uncheckedMappings (match inventory with
      | .known _ => []
      | .unavailable reason => [registryUnavailableCheck reason]) := by
    intro inventory
    cases inventory <;> simp [uncheckedMappings, registryUnavailableCheck]
  have hresults : m ∈ uncheckedMappings (results.flatMap (resultUnchecked inventory)) ↔
      ∃ r ∈ results, m ∈ uncheckedMappings (resultUnchecked inventory r) := by
    simp only [uncheckedMappings, List.flatMap_assoc, List.mem_flatMap]
  have habsent : ∀ why : PluginCoverage → Unassessed, m ∈ uncheckedMappings
      ((inventory.plugins.filter (fun p => !results.any (fun r => r.scanPluginId == p.pluginMeta.pluginId))).map
        (fun p => unassessedCheck p (why p))) ↔
      ∃ p ∈ inventory.plugins, (∀ r ∈ results, r.scanPluginId ≠ p.pluginMeta.pluginId) ∧ m ∈ p.coverage := by
    intro why
    rw [mem_uncheckedMappings]
    simp [and_assoc]
  unfold flatten
  simp only [uncheckedMappings_append, List.mem_append, hunavailable, false_or, hresults, habsent,
    mem_resultUnchecked]
  constructor
  · rintro (⟨r, hr, ⟨hs, hm⟩ | hsilent⟩ | hmissing)
    · exact .inl ⟨r, hr, hs, hm⟩
    · exact .inr (.inl ⟨r, hr, hsilent⟩)
    · exact .inr (.inr hmissing)
  · rintro (⟨r, hr, hs, hm⟩ | ⟨r, hr, hsilent⟩ | hmissing)
    · exact .inl ⟨r, hr, .inl ⟨hs, hm⟩⟩
    · exact .inl ⟨r, hr, .inr hsilent⟩
    · exact .inr hmissing

/-- A finding that reaches the report: one of a scan that ran. -/
theorem mem_flatten_findings {inventory : PluginInventory} {results : List ScanResult} {skipped : List PluginId}
    {f : Finding} :
    f ∈ (flatten inventory results skipped).1 ↔ ∃ r ∈ results, r.scanSkipped = none ∧ f ∈ r.scanFindings := by
  unfold flatten
  simp only [List.mem_flatMap]
  refine exists_congr fun r => and_congr_right fun _ => ?_
  unfold resultFindings
  cases r.scanSkipped <;> simp

/-- Each control any plugin covers is assessed. -/
theorem mem_keys_assessedControls {inventory : PluginInventory} {k : ComplianceFramework × String} :
    k ∈ inventory.assessedControls.map ComplianceMapping.key ↔
      ∃ p ∈ inventory.plugins, k ∈ p.coverage.map ComplianceMapping.key := by
  cases inventory with
  | known plugins =>
    rw [PluginInventory.assessedControls, mem_keys_firstBy, PluginInventory.plugins, List.map_flatMap, List.mem_flatMap]
    simp
  | unavailable reason => simp [PluginInventory.assessedControls, PluginInventory.plugins]

/-- The plugin registered under an id has it. -/
theorem plugin?_id {inventory : PluginInventory} {id : PluginId} {p : PluginCoverage}
    (h : inventory.plugin? id = some p) : p ∈ inventory.plugins ∧ p.pluginMeta.pluginId = id := by
  refine ⟨List.mem_of_find?_eq_some h, ?_⟩
  simpa using List.find?_some h

/-- Where ids are distinct, a plugin is the one registered under its id. -/
theorem plugin?_self {inventory : PluginInventory} (hd : (inventory.plugins.map (·.pluginMeta.pluginId)).Nodup)
    {p : PluginCoverage} (hp : p ∈ inventory.plugins) : inventory.plugin? p.pluginMeta.pluginId = some p := by
  cases h : inventory.plugin? p.pluginMeta.pluginId with
  | none =>
    have hnone := List.find?_eq_none.mp h p hp
    simp at hnone
  | some q =>
    obtain ⟨hq, hid⟩ := plugin?_id h
    exact congrArg some (List.inj_on_of_nodup_map hd hq hp hid)

end LinuxHardener.Compliance
