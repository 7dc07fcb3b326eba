import LinuxHardener.Compliance.Report

/-
  What a report says of a control, in terms of the scan results.

  The generator joins five lists on translated ids. Here each join is a predicate on
  what went in: a live finding names the control (`Live`), a check that was not made does
  (`Unchecked`), a plugin's coverage does (`Assessed`).

  What is proved:
    1. `controlStatus_spec` — the status of a control follows from these and the exclusion
       in force, in that order.
    2. `mem_reportControls`, `nodup_reportControls`, `mem_reportIds` — a report has the
       status and findings of each control once, for the catalogue and every control a live
       finding names.
-/
namespace LinuxHardener.Compliance

/-! ## Naming a control -/

theorem mem_controlIds {framework : ComplianceFramework} {mappings : List ComplianceMapping} {c : String} :
    c ∈ controlIds framework mappings ↔
      ∃ m ∈ mappings, m.complianceFramework = framework ∧ m.complianceControlId = c := by
  unfold controlIds
  simp only [List.mem_map, List.mem_filter, beq_iff_eq, and_assoc]

/-- A list of canonical mappings names a control under a profile's ids. -/
def Names (profile : ComplianceProfile) (framework : ComplianceFramework) (mappings : List ComplianceMapping)
    (c : String) : Prop :=
  c ∈ controlIds framework (translateAll profile mappings)

instance (profile : ComplianceProfile) (framework : ComplianceFramework) (mappings : List ComplianceMapping)
    (c : String) : Decidable (Names profile framework mappings c) :=
  inferInstanceAs (Decidable (c ∈ controlIds _ _))

section

variable {profile : ComplianceProfile} {framework : ComplianceFramework} {c : String}

theorem names_iff_exists {mappings : List ComplianceMapping} :
    Names profile framework mappings c ↔ ∃ m ∈ mappings, c ∈ controlIds framework (translate profile m) := by
  unfold Names translateAll
  simp only [mem_controlIds, List.mem_flatMap]
  constructor
  · rintro ⟨m', ⟨m, hm, hm'⟩, h⟩
    exact ⟨m, hm, m', hm', h⟩
  · rintro ⟨m, hm, m', hm', h⟩
    exact ⟨m', ⟨m, hm, hm'⟩, h⟩

/-- Which ids a mapping is rendered under depends on its framework and id alone. -/
theorem controlIds_translate_congr {m m' : ComplianceMapping} (h : m.key = m'.key) :
    controlIds framework (translate profile m) = controlIds framework (translate profile m') := by
  obtain ⟨hf, hi⟩ := Prod.mk.inj h
  have hkeep : ∀ m : ComplianceMapping, controlIds framework (translate profile m) =
      if m.complianceFramework = framework then (translate profile m).map (·.complianceControlId) else [] := by
    intro m
    unfold controlIds
    split
    · next hm =>
      congr 1
      refine List.filter_eq_self.mpr fun m' hm' => ?_
      rw [translate_framework hm', hm]
      exact beq_self_eq_true framework
    · next hm =>
      rw [List.map_eq_nil_iff, List.filter_eq_nil_iff]
      intro m' hm' hc
      rw [translate_framework hm'] at hc
      exact hm (beq_iff_eq.mp hc)
  rw [hkeep, hkeep, hf, translate_ids hf hi]

/-- So a list names what another names whose keys it has. -/
theorem Names.of_keys {a b : List ComplianceMapping} (h : Names profile framework a c)
    (hk : ∀ m ∈ a, m.key ∈ b.map ComplianceMapping.key) : Names profile framework b c := by
  obtain ⟨m, hm, hc⟩ := names_iff_exists.mp h
  obtain ⟨m', hm', he⟩ := List.mem_map.mp (hk m hm)
  exact names_iff_exists.mpr ⟨m', hm', controlIds_translate_congr he ▸ hc⟩

theorem Names.mono {a b : List ComplianceMapping} (h : Names profile framework a c) (hs : a ⊆ b) :
    Names profile framework b c :=
  h.of_keys fun _ hm => List.mem_map_of_mem (hs hm)

theorem names_flatMap {α : Type} {l : List α} {f : α → List ComplianceMapping} :
    Names profile framework (l.flatMap f) c ↔ ∃ a ∈ l, Names profile framework (f a) c := by
  simp only [names_iff_exists, List.mem_flatMap]
  constructor
  · rintro ⟨m, ⟨a, ha, hm⟩, h⟩
    exact ⟨a, ha, m, hm, h⟩
  · rintro ⟨a, ha, m, hm, h⟩
    exact ⟨m, ⟨a, ha, hm⟩, h⟩

end

/-! ## The evidence about a control -/

section

variable (g : ReportGenerator) (framework : ComplianceFramework) (c : String)

/-- A live finding that is to be reported names the control. -/
def Live (findings : List Finding) : Prop :=
  ∃ f ∈ findings, f.isLive = true ∧ Names g.config.profile framework f.findingCompliance c

/-- A check that was not made names it. -/
def Unchecked (checks : List UncheckedCheck) : Prop :=
  Names g.config.profile framework (uncheckedMappings checks) c

/-- A plugin's coverage names it. -/
def Assessed : Prop := ∃ p ∈ g.inventory.plugins, Names g.config.profile framework p.coverage c

/-- The exclusion found for it counts. -/
def Excluded (env : Environment) : Prop :=
  ∃ e, g.exclusions.excluded framework c = some e ∧ g.inForce env framework e = true

end

section

variable {g : ReportGenerator} {framework : ComplianceFramework} {c : String} {env : Environment}
  {findings : List Finding} {checks : List UncheckedCheck}

theorem mem_relatedFindings {f : Finding} :
    f ∈ relatedFindings findings framework c ↔ f ∈ findings ∧ c ∈ controlIds framework f.findingCompliance := by
  unfold relatedFindings
  rw [List.mem_filter, mem_controlIds]
  simp only [List.any_eq_true, Bool.and_eq_true, beq_iff_eq]

theorem hasLiveFinding_rendered :
    hasLiveFinding (relatedFindings (findings.map (Finding.rendered g.config.profile)) framework c) = true ↔
      Live g framework c findings := by
  unfold hasLiveFinding Live
  rw [List.any_eq_true]
  constructor
  · rintro ⟨f', hf', hlive⟩
    obtain ⟨hmem, hc⟩ := mem_relatedFindings.mp hf'
    obtain ⟨f, hf, rfl⟩ := List.mem_map.mp hmem
    exact ⟨f, hf, hlive, hc⟩
  · rintro ⟨f, hf, hlive, hc⟩
    exact ⟨f.rendered g.config.profile, mem_relatedFindings.mpr ⟨List.mem_map_of_mem hf, hc⟩, hlive⟩

theorem uncheckedMappings_rendered (profile : ComplianceProfile) :
    uncheckedMappings (checks.map (UncheckedCheck.rendered profile)) = translateAll profile (uncheckedMappings checks) := by
  simp only [uncheckedMappings, translateAll, List.flatMap_map, List.flatMap_assoc]
  rfl

theorem mem_controlIds_unchecked :
    c ∈ controlIds framework (uncheckedMappings (checks.map (UncheckedCheck.rendered g.config.profile))) ↔
      Unchecked g framework c checks := by
  rw [uncheckedMappings_rendered]
  exact Iff.rfl

theorem mem_controlIds_coverage :
    c ∈ controlIds framework (translateAll g.config.profile g.inventory.assessedControls) ↔
      Assessed g framework c := by
  constructor
  · intro h
    obtain ⟨m, hm, hc⟩ := names_iff_exists.mp h
    obtain ⟨p, hp, hk⟩ := mem_keys_assessedControls.mp (List.mem_map_of_mem hm)
    refine ⟨p, hp, ?_⟩
    obtain ⟨m', hm', he⟩ := List.mem_map.mp hk
    exact names_iff_exists.mpr ⟨m', hm', controlIds_translate_congr he ▸ hc⟩
  · rintro ⟨p, hp, hn⟩
    exact hn.of_keys fun m hm => mem_keys_assessedControls.mpr ⟨p, hp, List.mem_map_of_mem hm⟩

/-- The status a report gives, on what flattening left. -/
def ReportGenerator.statusOf (g : ReportGenerator) (env : Environment) (framework : ComplianceFramework)
    (findings : List Finding) (checks : List UncheckedCheck) (c : String) : ControlStatus :=
  g.controlStatus env framework (findings.map (Finding.rendered g.config.profile))
    (checks.map (UncheckedCheck.rendered g.config.profile))
    (translateAll g.config.profile g.inventory.assessedControls) c

/-- The status of a control: the first of the four cases that applies. -/
theorem controlStatus_spec (g : ReportGenerator) (env : Environment) (framework : ComplianceFramework)
    (findings : List Finding) (checks : List UncheckedCheck) (c : String) :
    (Live g framework c findings ∧ g.statusOf env framework findings checks c = .fail) ∨
    (¬ Live g framework c findings ∧ Unchecked g framework c checks ∧
      g.statusOf env framework findings checks c = .manualReview) ∨
    (¬ Live g framework c findings ∧ ¬ Unchecked g framework c checks ∧ Assessed g framework c ∧
      g.statusOf env framework findings checks c = .pass) ∨
    (¬ Live g framework c findings ∧ ¬ Unchecked g framework c checks ∧ ¬ Assessed g framework c ∧
      ((Excluded g framework c env ∧ g.statusOf env framework findings checks c = .notApplicable) ∨
        (¬ Excluded g framework c env ∧ g.statusOf env framework findings checks c = .manualReview))) := by
  unfold ReportGenerator.statusOf ReportGenerator.controlStatus
  by_cases hlive : Live g framework c findings
  · rw [if_pos (hasLiveFinding_rendered.mpr hlive)]
    exact .inl ⟨hlive, rfl⟩
  · rw [if_neg (fun h => hlive (hasLiveFinding_rendered.mp h))]
    by_cases hun : Unchecked g framework c checks
    · rw [if_pos (mem_controlIds_unchecked.mpr hun)]
      exact .inr (.inl ⟨hlive, hun, rfl⟩)
    · rw [if_neg (fun h => hun (mem_controlIds_unchecked.mp h))]
      by_cases hass : Assessed g framework c
      · rw [if_pos (mem_controlIds_coverage.mpr hass)]
        exact .inr (.inr (.inl ⟨hlive, hun, hass, rfl⟩))
      · rw [if_neg (fun h => hass (mem_controlIds_coverage.mp h))]
        refine .inr (.inr (.inr ⟨hlive, hun, hass, ?_⟩))
        cases he : g.exclusions.excluded framework c with
        | none =>
          refine .inr ⟨?_, rfl⟩
          rintro ⟨e, he', _⟩
          rw [he] at he'
          cases he'
        | some e =>
          simp only
          cases hf : g.inForce env framework e with
          | true => exact .inl ⟨⟨e, he, hf⟩, rfl⟩
          | false =>
            refine .inr ⟨?_, rfl⟩
            rintro ⟨e', he', hf'⟩
            rw [he] at he'
            cases he'
            rw [hf] at hf'
            cases hf'

theorem statusOf_fail : g.statusOf env framework findings checks c = .fail ↔ Live g framework c findings := by
  rcases controlStatus_spec g env framework findings checks c with
    ⟨h, hs⟩ | ⟨h, _, hs⟩ | ⟨h, _, _, hs⟩ | ⟨h, _, _, ⟨_, hs⟩ | ⟨_, hs⟩⟩ <;> simp [hs, h]

theorem statusOf_pass : g.statusOf env framework findings checks c = .pass ↔
    ¬ Live g framework c findings ∧ ¬ Unchecked g framework c checks ∧ Assessed g framework c := by
  rcases controlStatus_spec g env framework findings checks c with
    ⟨h, hs⟩ | ⟨h, h', hs⟩ | ⟨h, h', h'', hs⟩ | ⟨h, h', h'', ⟨_, hs⟩ | ⟨_, hs⟩⟩ <;> simp [*]

theorem statusOf_notApplicable : g.statusOf env framework findings checks c = .notApplicable ↔
    ¬ Live g framework c findings ∧ ¬ Unchecked g framework c checks ∧ ¬ Assessed g framework c ∧
      Excluded g framework c env := by
  rcases controlStatus_spec g env framework findings checks c with
    ⟨h, hs⟩ | ⟨h, h', hs⟩ | ⟨h, h', h'', hs⟩ | ⟨h, h', h'', ⟨_, hs⟩ | ⟨_, hs⟩⟩ <;> simp [*]

end

/-! ## The controls of a report -/

/-- The report for a framework, on what flattening left. -/
def ReportGenerator.reportFor (g : ReportGenerator) (env : Environment) (findings : List Finding)
    (checks : List UncheckedCheck) (framework : ComplianceFramework) : ComplianceReport :=
  g.generateForFramework env (findings.map (Finding.rendered g.config.profile))
    (checks.map (UncheckedCheck.rendered g.config.profile))
    (translateAll g.config.profile g.inventory.assessedControls) framework

theorem score_eq (g : ReportGenerator) (env : Environment) (findings : List Finding) (checks : List UncheckedCheck) :
    g.score env findings checks = g.config.scenario.frameworks.map (g.reportFor env findings checks) := rfl

section

variable {g : ReportGenerator} {framework : ComplianceFramework} {c : String} {env : Environment}
  {findings : List Finding} {checks : List UncheckedCheck}

/-- The ids of the catalogue do not depend on the results. -/
def ReportGenerator.catalogueIds (g : ReportGenerator) (framework : ComplianceFramework) : List String :=
  (g.catalogue framework (translateAll g.config.profile g.inventory.assessedControls)).map (·.complianceControlId)

theorem mem_catalogueIds : c ∈ g.catalogueIds framework ↔
    Names g.config.profile framework ((curatedControls framework).getD []) c ∨ Assessed g framework c := by
  have hcurated : ∀ m ∈ translateAll g.config.profile ((curatedControls framework).getD []),
      m.complianceFramework = framework := by
    intro m hm
    obtain ⟨m', hm', hmem⟩ := List.mem_flatMap.mp hm
    rw [translate_framework hmem]
    exact curatedControls_framework hm'
  unfold ReportGenerator.catalogueIds ReportGenerator.catalogue
  rw [mem_keys_firstBy, List.map_append, List.mem_append, ← mem_controlIds_coverage]
  simp only [List.not_mem_nil, not_false_eq_true, and_true]
  refine or_congr ?_ Iff.rfl
  unfold Names
  rw [mem_controlIds, List.mem_map]
  constructor
  · rintro ⟨m, hm, rfl⟩
    exact ⟨m, hm, hcurated m hm, rfl⟩
  · rintro ⟨m, hm, _, rfl⟩
    exact ⟨m, hm, rfl⟩

/-- Each control has the status its evidence gives it, and the findings that name it. -/
theorem mem_reportControls {r : ControlResult} (h : r ∈ (g.reportFor env findings checks framework).reportControls) :
    r.controlStatus = g.statusOf env framework findings checks r.controlId ∧
      r.controlFindings = relatedFindings (findings.map (Finding.rendered g.config.profile)) framework r.controlId := by
  rcases List.mem_append.mp h with h | h
  · obtain ⟨m, _, rfl⟩ := List.mem_map.mp h
    exact ⟨rfl, rfl⟩
  · obtain ⟨m, hm, rfl⟩ := List.mem_map.mp h
    have hlive := (List.mem_filter.mp hm).2
    refine ⟨?_, rfl⟩
    exact (statusOf_fail.mpr (hasLiveFinding_rendered.mp hlive)).symm

/-- The controls added for findings alone: those a live finding names and the catalogue has not. -/
theorem mem_uncatalogued {seen : List String} :
    c ∈ (uncataloguedControls framework (findings.map (Finding.rendered g.config.profile)) seen).map
      (·.controlId) ↔ Live g framework c findings ∧ c ∉ seen := by
  unfold uncataloguedControls
  rw [List.map_map]
  constructor
  · intro h
    obtain ⟨m, hm, rfl⟩ := List.mem_map.mp h
    obtain ⟨hkept, hlive⟩ := List.mem_filter.mp hm
    exact ⟨hasLiveFinding_rendered.mp hlive, (mem_keys_firstBy.mp (List.mem_map_of_mem hkept)).2⟩
  · rintro ⟨hlive, hseen⟩
    have hfound := hlive
    obtain ⟨f, hf, _, hn⟩ := hfound
    obtain ⟨m, hm, hfw, hid⟩ := mem_controlIds.mp hn
    -- the finding's mapping is one of those gone through, so its id is kept
    have hkept : c ∈ (firstBy (·.complianceControlId) seen
        (((findings.map (Finding.rendered g.config.profile)).flatMap (·.findingCompliance)).filter
          (fun m => m.complianceFramework == framework))).map (·.complianceControlId) := by
      refine mem_keys_firstBy.mpr ⟨?_, hseen⟩
      refine List.mem_map.mpr ⟨m, List.mem_filter.mpr ⟨?_, by simp [hfw]⟩, hid⟩
      exact List.mem_flatMap.mpr ⟨f.rendered g.config.profile, List.mem_map_of_mem hf, hm⟩
    obtain ⟨m', hm', hid'⟩ := List.mem_map.mp hkept
    refine List.mem_map.mpr ⟨m', List.mem_filter.mpr ⟨hm', ?_⟩, hid'⟩
    rw [hid']
    exact hasLiveFinding_rendered.mpr hlive

theorem ids_catalogueControls {coverage : List ComplianceMapping} :
    (g.catalogueControls env framework findings checks coverage).map (·.controlId) =
      (g.catalogue framework coverage).map (·.complianceControlId) := by
  unfold ReportGenerator.catalogueControls
  rw [List.map_map]
  rfl

/-- No control is reported twice. -/
theorem nodup_reportControls :
    ((g.reportFor env findings checks framework).reportControls.map (·.controlId)).Nodup := by
  unfold ReportGenerator.reportFor ReportGenerator.generateForFramework
  simp only [List.map_append, ids_catalogueControls]
  refine List.Nodup.append (nodup_keys_firstBy _ _) ?_ ?_
  · unfold uncataloguedControls
    rw [List.map_map]
    exact (nodup_keys_firstBy _ _).sublist (List.filter_sublist.map _)
  · intro c hc hc'
    exact (mem_uncatalogued.mp hc').2 hc

/-- What is reported: the catalogue, and every control a live finding names. -/
theorem mem_reportIds (g : ReportGenerator) (env : Environment) (framework : ComplianceFramework)
    (findings : List Finding) (checks : List UncheckedCheck) (c : String) : c ∈ (g.reportFor env findings checks framework).reportControls.map (·.controlId) ↔
    c ∈ g.catalogueIds framework ∨ Live g framework c findings := by
  unfold ReportGenerator.reportFor ReportGenerator.generateForFramework
  simp only [List.map_append, List.mem_append, ids_catalogueControls, mem_uncatalogued]
  unfold ReportGenerator.catalogueIds
  tauto

end

end LinuxHardener.Compliance
