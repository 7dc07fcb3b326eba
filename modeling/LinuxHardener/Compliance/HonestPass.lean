import LinuxHardener.Compliance.Status

/-
  What a report's passes and failures stand for.

  A skip marker is a result that says a plugin was not run; `flatten` reads nothing else
  of it. So both results speak of the findings and checks of the other results.

  What is proved:
    1. `pass_honest` — a control passes only where every plugin that covers it was scanned
       with success, and nothing any scan found or left unchecked names it.
    2. `findings_reported` — every live finding of a scan fails each control it names, is
       listed under it, and no control is reported twice.
-/
namespace LinuxHardener.Compliance

/-! ## The evidence, from the results -/

section

variable {g : ReportGenerator} {framework : ComplianceFramework} {c : String} {results : List ScanResult}
  {skipped : List PluginId}

theorem live_flatten : Live g framework c (flatten g.inventory results skipped).1 ↔
    ∃ r ∈ results, r.scanSkipped = none ∧ ∃ f ∈ r.scanFindings, f.isLive = true ∧
      Names g.config.profile framework f.findingCompliance c := by
  unfold Live
  simp only [mem_flatten_findings]
  constructor
  · rintro ⟨f, ⟨r, hr, hs, hf⟩, h⟩
    exact ⟨r, hr, hs, f, hf, h⟩
  · rintro ⟨r, hr, hs, f, hf, h⟩
    exact ⟨f, ⟨r, hr, hs, hf⟩, h⟩

theorem unchecked_flatten : Unchecked g framework c (flatten g.inventory results skipped).2 ↔
    (∃ r ∈ results, r.scanSkipped = none ∧ Names g.config.profile framework (uncheckedMappings r.scanUnchecked) c) ∨
    (∃ r ∈ results, r.Silent ∧ ∃ p, g.inventory.plugin? r.scanPluginId = some p ∧
      Names g.config.profile framework p.coverage c) ∨
    (∃ p ∈ g.inventory.plugins, (∀ r ∈ results, r.scanPluginId ≠ p.pluginMeta.pluginId) ∧
      Names g.config.profile framework p.coverage c) := by
  unfold Unchecked
  simp only [names_iff_exists, mem_flatten_unchecked]
  constructor
  · rintro ⟨m, ⟨r, hr, hs, hm⟩ | ⟨r, hr, hs, p, hp, hm⟩ | ⟨p, hp, hr, hm⟩, hc⟩
    · exact .inl ⟨r, hr, hs, m, hm, hc⟩
    · exact .inr (.inl ⟨r, hr, hs, p, hp, m, hm, hc⟩)
    · exact .inr (.inr ⟨p, hp, hr, m, hm, hc⟩)
  · rintro (⟨r, hr, hs, m, hm, hc⟩ | ⟨r, hr, hs, p, hp, m, hm, hc⟩ | ⟨p, hp, hr, m, hm, hc⟩)
    · exact ⟨m, .inl ⟨r, hr, hs, hm⟩, hc⟩
    · exact ⟨m, .inr (.inl ⟨r, hr, hs, p, hp, hm⟩), hc⟩
    · exact ⟨m, .inr (.inr ⟨p, hp, hr, hm⟩), hc⟩

end

theorem mem_generate {g : ReportGenerator} {env : Environment} {results : List ScanResult} {skipped : List PluginId}
    {report : ComplianceReport} : report ∈ g.generate env results skipped ↔
      ∃ framework ∈ g.config.scenario.frameworks, report = g.reportFor env (flatten g.inventory results skipped).1
        (flatten g.inventory results skipped).2 framework := by
  unfold ReportGenerator.generate
  simp only [score_eq, List.mem_map, eq_comm]

/-! ## Passes -/

/-- What a pass of a control stands for. -/
structure HonestPass (g : ReportGenerator) (results : List ScanResult) (framework : ComplianceFramework)
    (c : String) : Prop where
  /-- Some plugin that covers the control was scanned. -/
  scanned : ∃ p ∈ g.inventory.plugins, Names g.config.profile framework p.coverage c ∧
    ∃ r ∈ results, r.scanPluginId = p.pluginMeta.pluginId ∧ r.scanSkipped = none
  /-- Every plugin that covers it has results, all of them successful and none a skip marker. -/
  covered : ∀ p ∈ g.inventory.plugins, Names g.config.profile framework p.coverage c →
    (∃ r ∈ results, r.scanPluginId = p.pluginMeta.pluginId) ∧
    ∀ r ∈ results, r.scanPluginId = p.pluginMeta.pluginId → r.scanSuccess = true ∧ r.scanSkipped = none
  /-- No check that a scan did not make maps to it. -/
  checked : ∀ r ∈ results, r.scanSkipped = none → ∀ u ∈ r.scanUnchecked,
    ¬ Names g.config.profile framework u.uncheckedCompliance c
  /-- No live finding of a scan maps to it. -/
  clean : ∀ r ∈ results, r.scanSkipped = none → ∀ f ∈ r.scanFindings, f.isLive = true →
    ¬ Names g.config.profile framework f.findingCompliance c

/-- A control passes only on evidence. -/
theorem pass_honest (g : ReportGenerator) (env : Environment) (results : List ScanResult) (skipped : List PluginId)
    (hd : (g.inventory.plugins.map (·.pluginMeta.pluginId)).Nodup) :
    ∀ report ∈ g.generate env results skipped, ∀ control ∈ report.reportControls,
      control.controlStatus = .pass → HonestPass g results report.reportFramework control.controlId := by
  intro report hreport control hcontrol hpass
  obtain ⟨framework, _, rfl⟩ := mem_generate.mp hreport
  change HonestPass g results framework control.controlId
  rw [(mem_reportControls hcontrol).1, statusOf_pass] at hpass
  obtain ⟨hlive, hun, p, hp, hnames⟩ := hpass
  rw [live_flatten] at hlive
  rw [unchecked_flatten, not_or, not_or] at hun
  obtain ⟨hown, hsilent, hmissing⟩ := hun
  have hcovered : ∀ p ∈ g.inventory.plugins, Names g.config.profile framework p.coverage control.controlId →
      (∃ r ∈ results, r.scanPluginId = p.pluginMeta.pluginId) ∧
      ∀ r ∈ results, r.scanPluginId = p.pluginMeta.pluginId → r.scanSuccess = true ∧ r.scanSkipped = none := by
    intro p hp hnames
    constructor
    · by_contra hnone
      exact hmissing ⟨p, hp, fun r hr he => hnone ⟨r, hr, he⟩, hnames⟩
    · intro r hr hid
      have hloud : ¬ r.Silent := fun hs => hsilent ⟨r, hr, hs, p, hid ▸ plugin?_self hd hp, hnames⟩
      unfold ScanResult.Silent at hloud
      rw [not_or, not_not] at hloud
      exact ⟨by simpa using hloud.2, hloud.1⟩
  refine ⟨?_, hcovered, ?_, ?_⟩
  · obtain ⟨⟨r, hr, hid⟩, hall⟩ := hcovered p hp hnames
    exact ⟨p, hp, hnames, r, hr, hid, (hall r hr hid).2⟩
  · intro r hr hs u hu hn
    exact hown ⟨r, hr, hs, names_flatMap.mpr ⟨u, hu, hn⟩⟩
  · intro r hr hs f hf hl hn
    exact hlive ⟨r, hr, hs, f, hf, hl, hn⟩

/-- `AU-2` of NIST 800-53. -/
def au2 : ComplianceMapping := ⟨.nist, "AU-2", "Event Logging", none⟩

/-- A generator for NIST 800-53 alone, with one plugin, which covers `AU-2`. -/
def auditGenerator : ReportGenerator where
  config := ⟨.custom [.nist], .generic⟩
  inventory := .known [⟨⟨⟨"audit-logging"⟩, "Audit Logging", .audit⟩, [au2]⟩]
  exclusions := ⟨[]⟩
  host := none

/-- The plugin scanned, with success and nothing found. -/
def auditScanned : ScanResult := ⟨⟨"audit-logging"⟩, true, [], [], none, none⟩

/-- A skip marker that carries a check and a finding of its own. -/
def loadedMarker : ScanResult where
  scanPluginId := ⟨"audit-rules"⟩
  scanSuccess := true
  scanFindings := [⟨"audit_rules", [au2], .notConfigured⟩]
  scanUnchecked := [⟨"audit_rules", "Audit rules", .audit, "not run", .environment, [au2]⟩]
  scanError := none
  scanSkipped := some .disabledByConfig

/-- The one report for some results, given what it lists. -/
theorem report_of_auditGenerator {results : List ScanResult} {controls : List ControlResult}
    (h : (auditGenerator.generate civilEnvironment results []).map
      (fun report => (report.reportFramework, report.reportControls)) = [(.nist, controls)]) :
    ∃ report ∈ auditGenerator.generate civilEnvironment results [], report.reportFramework = .nist ∧
      report.reportControls = controls := by
  have hmem : (ComplianceFramework.nist, controls) ∈ (auditGenerator.generate civilEnvironment results []).map
      (fun report => (report.reportFramework, report.reportControls)) := h ▸ List.mem_cons_self
  obtain ⟨report, hreport, he⟩ := List.mem_map.mp hmem
  exact ⟨report, hreport, (Prod.mk.inj he).1, (Prod.mk.inj he).2⟩

/-- With the loaded marker beside it, the control passes. -/
theorem report_loadedMarker :
    ∃ report ∈ auditGenerator.generate civilEnvironment [auditScanned, loadedMarker] [],
      report.reportFramework = .nist ∧
      report.reportControls = [⟨"AU-2", "Event Logging", "General", .pass, []⟩] :=
  report_of_auditGenerator (by decide +kernel)

/-- What a skip marker carries is not read, and its control passes. -/
theorem pass_honest_counterexample :
    ¬ (∀ (g : ReportGenerator) (env : Environment) (results : List ScanResult) (skipped : List PluginId),
      (g.inventory.plugins.map (·.pluginMeta.pluginId)).Nodup →
      ∀ report ∈ g.generate env results skipped, ∀ control ∈ report.reportControls, control.controlStatus = .pass →
        ∀ r ∈ results, ∀ u ∈ r.scanUnchecked,
          ¬ Names g.config.profile report.reportFramework u.uncheckedCompliance control.controlId) := by
  intro hall
  obtain ⟨report, hreport, hframework, hcontrols⟩ := report_loadedMarker
  refine hall auditGenerator civilEnvironment [auditScanned, loadedMarker] [] (by decide) report hreport
    ⟨"AU-2", "Event Logging", "General", .pass, []⟩ (hcontrols ▸ List.mem_cons_self) rfl loadedMarker (by simp) _
    List.mem_cons_self ?_
  rw [hframework]
  decide +kernel

/-- The scanned plugin's control passes on evidence. -/
theorem pass_honest_audit : HonestPass auditGenerator [auditScanned] .nist "AU-2" := by
  have hreports : (auditGenerator.generate civilEnvironment [auditScanned] []).map
      (fun report => (report.reportFramework, report.reportControls)) =
      [(.nist, [⟨"AU-2", "Event Logging", "General", .pass, []⟩])] := by decide +kernel
  obtain ⟨report, hreport, hframework, hcontrols⟩ := report_of_auditGenerator hreports
  rw [← hframework]
  exact pass_honest auditGenerator civilEnvironment [auditScanned] [] (by decide) report hreport
    ⟨"AU-2", "Event Logging", "General", .pass, []⟩ (hcontrols ▸ List.mem_cons_self) rfl

/-! ## Findings -/

/-- What a report owes a live finding, and how often it lists a control. -/
structure FindingsReported (g : ReportGenerator) (results : List ScanResult) (report : ComplianceReport) : Prop where
  /-- A control that a live finding of a scan names is there, failed, with the finding. -/
  failed : ∀ r ∈ results, r.scanSkipped = none → ∀ f ∈ r.scanFindings, f.isLive = true → ∀ c,
    Names g.config.profile report.reportFramework f.findingCompliance c →
    ∃ control ∈ report.reportControls, control.controlId = c ∧ control.controlStatus = .fail ∧
      f.rendered g.config.profile ∈ control.controlFindings
  once : (report.reportControls.map (·.controlId)).Nodup

/-- No live finding is lost, and no control is listed twice. -/
theorem findings_reported (g : ReportGenerator) (env : Environment) (results : List ScanResult)
    (skipped : List PluginId) :
    ∀ report ∈ g.generate env results skipped, FindingsReported g results report := by
  intro report hreport
  obtain ⟨framework, _, rfl⟩ := mem_generate.mp hreport
  refine ⟨fun r hr hs f hf hl c hc => ?_, nodup_reportControls⟩
  have hlive : Live g framework c (flatten g.inventory results skipped).1 :=
    live_flatten.mpr ⟨r, hr, hs, f, hf, hl, hc⟩
  obtain ⟨control, hcontrol, hid⟩ := List.mem_map.mp ((mem_reportIds ..).mpr (.inr hlive))
  obtain ⟨hstatus, hfindings⟩ := mem_reportControls hcontrol
  refine ⟨control, hcontrol, hid, ?_, ?_⟩
  · rw [hstatus, hid, statusOf_fail]
    exact hlive
  · rw [hfindings, hid, mem_relatedFindings]
    exact ⟨List.mem_map_of_mem (mem_flatten_findings.mpr ⟨r, hr, hs, hf⟩), hc⟩

/-- The plugin's result with a finding for the control it covers. -/
def auditFailed : ScanResult := ⟨⟨"audit-logging"⟩, true, [⟨"audit_rules", [au2], .notConfigured⟩], [], none, none⟩

/-- That finding is reported. -/
theorem findings_reported_audit :
    ∃ report ∈ auditGenerator.generate civilEnvironment [auditFailed] [],
      FindingsReported auditGenerator [auditFailed] report := by
  have hreports : (auditGenerator.generate civilEnvironment [auditFailed] []).map
      (fun report => (report.reportFramework, report.reportControls)) =
      [(.nist, [⟨"AU-2", "Event Logging", "General", .fail, auditFailed.scanFindings⟩])] := by decide +kernel
  obtain ⟨report, hreport, _⟩ := report_of_auditGenerator hreports
  exact ⟨report, hreport, findings_reported auditGenerator civilEnvironment [auditFailed] [] report hreport⟩

/-- A finding that a skip marker carries is lost. -/
theorem findings_reported_counterexample :
    ¬ (∀ (g : ReportGenerator) (env : Environment) (results : List ScanResult) (skipped : List PluginId),
      ∀ report ∈ g.generate env results skipped, ∀ r ∈ results, ∀ f ∈ r.scanFindings, f.isLive = true →
        ∀ c, Names g.config.profile report.reportFramework f.findingCompliance c →
          ∃ control ∈ report.reportControls, control.controlId = c ∧ control.controlStatus = .fail) := by
  intro hall
  obtain ⟨report, hreport, hframework, hcontrols⟩ := report_loadedMarker
  obtain ⟨control, hcontrol, _, hfail⟩ := hall auditGenerator civilEnvironment [auditScanned, loadedMarker] []
    report hreport loadedMarker (by simp) _ List.mem_cons_self rfl "AU-2" (by rw [hframework]; decide +kernel)
  rw [hcontrols] at hcontrol
  rw [List.mem_singleton.mp hcontrol] at hfail
  cases hfail

end LinuxHardener.Compliance
