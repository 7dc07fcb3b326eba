import LinuxHardener.Compliance.HonestPass
import LinuxHardener.Compliance.Silencing

/-
  When two reports on one framework say the same: the same statuses, and one score.

  The two may come from different evidence and be about a host under different names.
  What is proved: `sameVerdicts_iff` — they say the same exactly where the same controls
  have a live finding, and, of the others, the same ones are left for review.
-/
namespace LinuxHardener.Compliance

/-- A report lists a control with a status. -/
def ComplianceReport.Lists (report : ComplianceReport) (c : String) (status : ControlStatus) : Prop :=
  ∃ r ∈ report.reportControls, r.controlId = c ∧ r.controlStatus = status

structure SameVerdicts (a b : ComplianceReport) : Prop where
  controls : ∀ c status, a.Lists c status ↔ b.Lists c status
  score : a.reportSummary.summaryScorePercentage = b.reportSummary.summaryScorePercentage

/-- A control without a live finding that is neither passed nor declared away: a check of it
was not made, or no plugin covers it and no exclusion counts. -/
def ForReview (g : ReportGenerator) (env : Environment) (framework : ComplianceFramework) (c : String)
    (checks : List UncheckedCheck) : Prop :=
  Unchecked g framework c checks ∨ (¬ Assessed g framework c ∧ ¬ Excluded g framework c env)

/-- The evidence of two reports, as far as it decides a status. -/
structure SameEvidence (g g' : ReportGenerator) (env : Environment) (framework : ComplianceFramework)
    (findings findings' : List Finding) (checks checks' : List UncheckedCheck) : Prop where
  live : ∀ c, Live g framework c findings ↔ Live g' framework c findings'
  review : ∀ c ∈ g.catalogueIds framework, ¬ Live g framework c findings →
    (ForReview g env framework c checks ↔ ForReview g' env framework c checks')

variable {g g' : ReportGenerator} {env : Environment} {framework : ComplianceFramework}
  {findings findings' : List Finding} {checks checks' : List UncheckedCheck} {c : String}

theorem statusOf_manualReview : g.statusOf env framework findings checks c = .manualReview ↔
    ¬ Live g framework c findings ∧ ForReview g env framework c checks := by
  unfold ForReview
  obtain ⟨h, hs⟩ | ⟨h, h', hs⟩ | ⟨h, h', h'', hs⟩ | ⟨h, h', h'', ⟨he, hs⟩ | ⟨he, hs⟩⟩ :=
    controlStatus_spec g env framework findings checks c <;> simp [*]

/-- Given what the plugins cover, two facts of the evidence decide the status. -/
theorem statusOf_congr (hassessed : Assessed g framework c ↔ Assessed g' framework c)
    (hlive : Live g framework c findings ↔ Live g' framework c findings')
    (hreview : ¬ Live g framework c findings →
      (ForReview g env framework c checks ↔ ForReview g' env framework c checks')) :
    g.statusOf env framework findings checks c = g'.statusOf env framework findings' checks' c := by
  by_cases h : Live g framework c findings
  · rw [statusOf_fail.mpr h, statusOf_fail.mpr (hlive.mp h)]
  · have h' : ¬ Live g' framework c findings' := fun hl => h (hlive.mpr hl)
    by_cases hr : ForReview g env framework c checks
    · rw [statusOf_manualReview.mpr ⟨h, hr⟩, statusOf_manualReview.mpr ⟨h', (hreview h).mp hr⟩]
    · have hr' : ¬ ForReview g' env framework c checks' := fun hr' => hr ((hreview h).mpr hr')
      unfold ForReview at hr hr'
      by_cases hass : Assessed g framework c
      · rw [statusOf_pass.mpr ⟨h, fun hu => hr (.inl hu), hass⟩,
          statusOf_pass.mpr ⟨h', fun hu => hr' (.inl hu), hassessed.mp hass⟩]
      · have hass' : ¬ Assessed g' framework c := fun ha => hass (hassessed.mpr ha)
        rw [statusOf_notApplicable.mpr ⟨h, fun hu => hr (.inl hu), hass, not_not.mp fun he => hr (.inr ⟨hass, he⟩)⟩,
          statusOf_notApplicable.mpr ⟨h', fun hu => hr' (.inl hu), hass', not_not.mp fun he => hr' (.inr ⟨hass', he⟩)⟩]

/-- A report lists its catalogue and what live findings name, each with the status of its evidence. -/
theorem lists_iff {status : ControlStatus} : (g.reportFor env findings checks framework).Lists c status ↔
    (c ∈ g.catalogueIds framework ∨ Live g framework c findings) ∧
      g.statusOf env framework findings checks c = status := by
  rw [← mem_reportIds g env framework findings checks c, List.mem_map]
  constructor
  · intro h
    obtain ⟨r, hr, hid, hstatus⟩ := h
    exact ⟨⟨r, hr, hid⟩, by rw [← hid, ← (mem_reportControls hr).1, hstatus]⟩
  · intro h
    obtain ⟨⟨r, hr, hid⟩, hstatus⟩ := h
    exact ⟨r, hr, hid, by rw [(mem_reportControls hr).1, hid, hstatus]⟩

/-- The counts of a report, and so its score, follow from what it lists. -/
theorem score_of_lists
    (h : ∀ c status, (g.reportFor env findings checks framework).Lists c status ↔
      (g'.reportFor env findings' checks' framework).Lists c status) :
    (g.reportFor env findings checks framework).reportSummary.summaryScorePercentage =
      (g'.reportFor env findings' checks' framework).reportSummary.summaryScorePercentage := by
  have hstatus : ∀ c ∈ (g.reportFor env findings checks framework).reportControls.map (·.controlId),
      g.statusOf env framework findings checks c = g'.statusOf env framework findings' checks' c := by
    intro c hc
    rw [mem_reportIds] at hc
    exact (lists_iff.mp ((h c _).mp (lists_iff.mpr ⟨hc, rfl⟩))).2.symm
  have hperm : ((g.reportFor env findings checks framework).reportControls.map (·.controlId)).Perm
      ((g'.reportFor env findings' checks' framework).reportControls.map (·.controlId)) := by
    apply (List.perm_ext_iff_of_nodup nodup_reportControls nodup_reportControls).mpr
    intro c
    rw [mem_reportIds, mem_reportIds]
    constructor
    · intro hc
      exact (lists_iff.mp ((h c _).mp (lists_iff.mpr ⟨hc, rfl⟩))).1
    · intro hc
      exact (lists_iff.mp ((h c _).mpr (lists_iff.mpr ⟨hc, rfl⟩))).1
  have hcount : ∀ status, countStatus (g.reportFor env findings checks framework).reportControls status =
      countStatus (g'.reportFor env findings' checks' framework).reportControls status := by
    intro status
    unfold countStatus
    rw [length_filter_status findings checks fun s => decide (s = status),
      length_filter_status findings' checks' fun s => decide (s = status)]
    rw [List.filter_congr fun c hc => by rw [hstatus c hc]]
    exact (hperm.filter _).length_eq
  have hlength := hperm.length_eq
  rw [List.length_map, List.length_map] at hlength
  rw [summaryScore_eq, summaryScore_eq, hlength, hcount, hcount]

/-- Two reports under one profile and one set of plugins say the same exactly on the same evidence. -/
theorem sameVerdicts_iff (hprofile : g'.config.profile = g.config.profile) (hinventory : g'.inventory = g.inventory) :
    SameVerdicts (g.reportFor env findings checks framework) (g'.reportFor env findings' checks' framework) ↔
      SameEvidence g g' env framework findings findings' checks checks' := by
  have hassessed : ∀ c, Assessed g framework c ↔ Assessed g' framework c := by
    intro c
    unfold Assessed
    rw [hprofile, hinventory]
  have hcatalogue : g'.catalogueIds framework = g.catalogueIds framework := by
    unfold ReportGenerator.catalogueIds ReportGenerator.catalogue
    rw [hprofile, hinventory]
  constructor
  · intro h
    have hlive : ∀ c, Live g framework c findings ↔ Live g' framework c findings' := by
      intro c
      have hc := h.controls c .fail
      rw [lists_iff, lists_iff, statusOf_fail, statusOf_fail] at hc
      tauto
    refine ⟨hlive, fun c hc hnot => ?_⟩
    have hr := h.controls c .manualReview
    rw [lists_iff, lists_iff, statusOf_manualReview, statusOf_manualReview, hcatalogue, ← hlive c] at hr
    simpa [hc, hnot] using hr
  · intro h
    have hlists : ∀ c status, (g.reportFor env findings checks framework).Lists c status ↔
        (g'.reportFor env findings' checks' framework).Lists c status := by
      intro c status
      rw [lists_iff, lists_iff, hcatalogue, h.live c]
      apply and_congr_right
      intro hlisted
      rw [statusOf_congr (hassessed c) (h.live c)]
      intro hnot
      obtain hc | hc := hlisted
      · exact h.review c hc hnot
      · exact absurd ((h.live c).mpr hc) hnot
    exact ⟨hlists, score_of_lists hlists⟩

end LinuxHardener.Compliance
