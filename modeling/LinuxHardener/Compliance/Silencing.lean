import Mathlib.Algebra.Order.Field.Rat
import Mathlib.Tactic.Positivity
import LinuxHardener.Compliance.HonestPass

/-
  Silencing a plugin never improves the report.

  Where every finding and check maps within what its plugin covers, the controls that count
  towards the score are fixed by the inventory and the exclusions. So a plugin that falls
  silent can only take a pass away.

  What is proved:
    1. `score_le` — fewer passes among no fewer applicable controls is no higher score, for
       every rounding.
    2. `evidence_silenced`, `evidence_added` — what becomes of a control's evidence when a
       plugin is silenced, or a finding or a check not made is added.
    3. `silencing_never_improves` — no control passes that did not, and no score rises.
-/
namespace LinuxHardener.Compliance

/-! ## The score -/

theorem percentage_zero (fp : Binary64) (applicable : Nat) : percentage fp 0 applicable = 0 := by
  simp [percentage, fp.zero]

theorem percentage_nonneg (fp : Binary64) (passing applicable : Nat) : 0 ≤ percentage fp passing applicable := by
  have hround : ∀ q : ℚ, 0 ≤ q → 0 ≤ fp.round q := by
    intro q hq
    have h := fp.mono hq
    rwa [fp.zero] at h
  unfold percentage
  have hdiv : 0 ≤ fp.round passing / fp.round applicable :=
    div_nonneg (hround _ (Nat.cast_nonneg passing)) (hround _ (Nat.cast_nonneg applicable))
  exact hround _ (mul_nonneg (hround _ hdiv) (by norm_num))

/-- More passes, or fewer controls that apply, make no lower share. -/
theorem percentage_le (fp : Binary64) {p p' a a' : Nat} (ha : 0 < a) (hp : p' ≤ p) (haa : a ≤ a') :
    percentage fp p' a' ≤ percentage fp p a := by
  unfold percentage
  refine fp.mono (mul_le_mul_of_nonneg_right (fp.mono ?_) (by norm_num))
  have hp' : fp.round p' ≤ fp.round p := fp.mono (by exact_mod_cast hp)
  have ha' : fp.round a ≤ fp.round a' := fp.mono (by exact_mod_cast haa)
  have hnonneg : 0 ≤ fp.round (p : ℚ) := by
    rw [← fp.zero]
    exact fp.mono (Nat.cast_nonneg p)
  exact div_le_div₀ hnonneg hp' (fp.pos a ha) ha'

/-- The score of a list of controls, from three counts. -/
def scoreOf (fp : Binary64) (total notApplicable passing : Nat) : ℚ :=
  let applicable := total - notApplicable
  if applicable > 0 then percentage fp passing applicable else if total > 0 then 0 else 100

/-- No more passes, no fewer applicable controls and no fewer controls make no higher score. -/
theorem scoreOf_le (fp : Binary64) {t n p t' n' p' : Nat} (hpass : p ≤ t - n) (hp : p' ≤ p) (ha : t - n ≤ t' - n')
    (ht : t ≤ t') : scoreOf fp t' n' p' ≤ scoreOf fp t n p := by
  unfold scoreOf
  simp only
  by_cases hpos : 0 < t - n
  · rw [if_pos hpos, if_pos (lt_of_lt_of_le hpos ha)]
    exact percentage_le fp hpos hp ha
  · -- nothing applied before, so nothing passed and nothing passes
    obtain rfl : p' = 0 := by omega
    have hscore : (if t' - n' > 0 then percentage fp 0 (t' - n') else if t' > 0 then 0 else 100) ≤
        (if t' > 0 then (0 : ℚ) else 100) := by
      split
      · rw [percentage_zero]
        split <;> norm_num
      · exact le_refl _
    rw [if_neg hpos]
    refine hscore.trans ?_
    split
    · split <;> norm_num
    · rw [if_neg (by omega)]

/-! ## The counts -/

section

variable {g : ReportGenerator} {env : Environment} {framework : ComplianceFramework}

/-- How many controls have a status of a kind, from their ids. -/
theorem length_filter_status (findings : List Finding) (checks : List UncheckedCheck) (P : ControlStatus → Bool) :
    ((g.reportFor env findings checks framework).reportControls.filter (fun r => P r.controlStatus)).length =
      (((g.reportFor env findings checks framework).reportControls.map (·.controlId)).filter
        (fun c => P (g.statusOf env framework findings checks c))).length := by
  rw [List.filter_map, List.length_map]
  refine congrArg List.length (List.filter_congr fun r hr => ?_)
  rw [(mem_reportControls hr).1, Function.comp_apply]

theorem length_le_of_nodup_subset {α : Type} {l l' : List α} (hd : l.Nodup) (hs : l ⊆ l') : l.length ≤ l'.length :=
  (List.subperm_of_subset hd hs).length_le

/-- The controls that apply are all but those that do not. -/
theorem applicable_eq (controls : List ControlResult) :
    controls.length - countStatus controls .notApplicable =
      (controls.filter (fun r => !decide (r.controlStatus = .notApplicable))).length := by
  have h := List.length_eq_length_filter_add (l := controls) (fun r => decide (r.controlStatus = .notApplicable))
  unfold countStatus
  omega

theorem passing_le_applicable (controls : List ControlResult) :
    countStatus controls .pass ≤ controls.length - countStatus controls .notApplicable := by
  rw [applicable_eq]
  refine (List.monotone_filter_right controls fun r hr => ?_).length_le
  have hpass : r.controlStatus = .pass := by simpa using hr
  simp [hpass]

variable {findings findings' : List Finding} {checks checks' : List UncheckedCheck}

/-- The ids a report lists. -/
def ReportGenerator.reportIds (g : ReportGenerator) (framework : ComplianceFramework) (findings : List Finding) :
    Set String := {c | c ∈ g.catalogueIds framework ∨ Live g framework c findings}

/-- What makes a report no better than another: it lists what the other lists, what applies in
the other applies in it, and what passes in it passes in the other. -/
structure Worse (g : ReportGenerator) (env : Environment) (framework : ComplianceFramework)
    (findings findings' : List Finding) (checks checks' : List UncheckedCheck) : Prop where
  listed : ∀ c, Live g framework c findings → c ∈ g.reportIds framework findings'
  applies : ∀ c, g.statusOf env framework findings checks c ≠ .notApplicable →
    g.statusOf env framework findings' checks' c ≠ .notApplicable
  passes : ∀ c, g.statusOf env framework findings' checks' c = .pass → g.statusOf env framework findings checks c = .pass

theorem summaryScore_eq (g : ReportGenerator) (env : Environment) (framework : ComplianceFramework)
    (findings : List Finding) (checks : List UncheckedCheck) :
    (g.reportFor env findings checks framework).reportSummary.summaryScorePercentage =
      scoreOf env.fp (g.reportFor env findings checks framework).reportControls.length
        (countStatus (g.reportFor env findings checks framework).reportControls .notApplicable)
        (countStatus (g.reportFor env findings checks framework).reportControls .pass) := rfl

/-- Then its score is no higher. -/
theorem Worse.score_le (h : Worse g env framework findings findings' checks checks') :
    (g.reportFor env findings' checks' framework).reportSummary.summaryScorePercentage ≤
      (g.reportFor env findings checks framework).reportSummary.summaryScorePercentage := by
  have hids : (g.reportFor env findings checks framework).reportControls.map (·.controlId) ⊆
      (g.reportFor env findings' checks' framework).reportControls.map (·.controlId) := by
    intro c hc
    rw [mem_reportIds] at hc ⊢
    rcases hc with hc | hc
    · exact .inl hc
    · exact h.listed c hc
  rw [summaryScore_eq, summaryScore_eq]
  refine scoreOf_le env.fp (passing_le_applicable _) ?_ ?_ ?_
  · -- what passes now is assessed, so it was listed, and passed
    unfold countStatus
    rw [length_filter_status _ _ (fun s => decide (s = .pass)), length_filter_status _ _ (fun s => decide (s = .pass))]
    refine length_le_of_nodup_subset (nodup_reportControls.sublist List.filter_sublist) fun c hc => ?_
    have hpass : g.statusOf env framework findings' checks' c = .pass := by
      simpa using (List.mem_filter.mp hc).2
    have hbefore := h.passes c hpass
    have hlisted := (mem_reportIds g env framework findings checks c).mpr
      (.inl (mem_catalogueIds.mpr (.inr (statusOf_pass.mp hbefore).2.2)))
    exact List.mem_filter.mpr ⟨hlisted, by simpa using hbefore⟩
  · rw [applicable_eq, applicable_eq, length_filter_status _ _ (fun s => !decide (s = .notApplicable)),
      length_filter_status _ _ (fun s => !decide (s = .notApplicable))]
    refine length_le_of_nodup_subset (nodup_reportControls.sublist List.filter_sublist) fun c hc => ?_
    obtain ⟨hlisted, happlies⟩ := List.mem_filter.mp hc
    refine List.mem_filter.mpr ⟨hids hlisted, ?_⟩
    have hstatus := h.applies c (by simpa using happlies)
    simpa using hstatus
  · have hlength := length_le_of_nodup_subset nodup_reportControls hids
    rwa [List.length_map, List.length_map] at hlength

end

/-! ## What a perturbation does to the evidence -/

/-- What a result's findings and checks map to. -/
def ScanResult.mappings (r : ScanResult) : List ComplianceMapping :=
  r.scanFindings.flatMap (·.findingCompliance) ++ uncheckedMappings r.scanUnchecked

/-- Each plugin's findings and checks map within its declared coverage. -/
def Within (inventory : PluginInventory) (results : List ScanResult) : Prop :=
  ∀ r ∈ results, ∀ m ∈ r.mappings, ∃ p, inventory.plugin? r.scanPluginId = some p ∧
    m.key ∈ p.coverage.map ComplianceMapping.key

/-- All results of some plugins are removed, made failures or made skip markers. -/
inductive Silenced (plugins : PluginId → Prop) : List ScanResult → List ScanResult → Prop where
  | nil : Silenced plugins [] []
  | keep {r : ScanResult} {a b : List ScanResult} (h : ¬ plugins r.scanPluginId) (hab : Silenced plugins a b) :
      Silenced plugins (r :: a) (r :: b)
  | remove {r : ScanResult} {a b : List ScanResult} (h : plugins r.scanPluginId) (hab : Silenced plugins a b) :
      Silenced plugins (r :: a) b
  | silence {r r' : ScanResult} {a b : List ScanResult} (h : plugins r.scanPluginId)
      (hid : r'.scanPluginId = r.scanPluginId) (hs : r'.Silent) (hf : r'.scanFindings ⊆ r.scanFindings)
      (hu : r'.scanUnchecked ⊆ r.scanUnchecked) (hab : Silenced plugins a b) : Silenced plugins (r :: a) (r' :: b)

/-- A finding, or a check that was not made, is added to a result. -/
inductive Added : List ScanResult → List ScanResult → Prop where
  | finding {a b : List ScanResult} {r : ScanResult} {before after : List Finding} (f : Finding)
      (hr : r.scanFindings = before ++ after) :
      Added (a ++ r :: b) (a ++ { r with scanFindings := before ++ f :: after } :: b)
  | unchecked {a b : List ScanResult} {r : ScanResult} {before after : List UncheckedCheck} (u : UncheckedCheck)
      (hr : r.scanUnchecked = before ++ after) :
      Added (a ++ r :: b) (a ++ { r with scanUnchecked := before ++ u :: after } :: b)

section

variable {plugins : PluginId → Prop} {a b : List ScanResult}

/-- What is left of the results: those of the other plugins, and silent ones. -/
theorem Silenced.of_mem (h : Silenced plugins a b) {r : ScanResult} (hr : r ∈ b) :
    (r ∈ a ∧ ¬ plugins r.scanPluginId) ∨ (r.Silent ∧ plugins r.scanPluginId ∧
      ∃ r₀ ∈ a, r₀.scanPluginId = r.scanPluginId) := by
  induction h with
  | nil => cases hr
  | @keep r₀ a b hp _ ih =>
    rcases List.mem_cons.mp hr with rfl | hr
    · exact .inl ⟨List.mem_cons_self, hp⟩
    · rcases ih hr with ⟨hm, hn⟩ | ⟨hs, hn, r₀, hm, hid⟩
      · exact .inl ⟨List.mem_cons_of_mem _ hm, hn⟩
      · exact .inr ⟨hs, hn, r₀, List.mem_cons_of_mem _ hm, hid⟩
  | @remove r₀ a b _ _ ih =>
    rcases ih hr with ⟨hm, hn⟩ | ⟨hs, hn, r₀, hm, hid⟩
    · exact .inl ⟨List.mem_cons_of_mem _ hm, hn⟩
    · exact .inr ⟨hs, hn, r₀, List.mem_cons_of_mem _ hm, hid⟩
  | @silence r₀ r' a b hp hid hs _ _ _ ih =>
    rcases List.mem_cons.mp hr with rfl | hr
    · exact .inr ⟨hs, hid ▸ hp, r₀, List.mem_cons_self, hid.symm⟩
    · rcases ih hr with ⟨hm, hn⟩ | ⟨hs, hn, r₀, hm, hid⟩
      · exact .inl ⟨List.mem_cons_of_mem _ hm, hn⟩
      · exact .inr ⟨hs, hn, r₀, List.mem_cons_of_mem _ hm, hid⟩

/-- The results of the other plugins stay. -/
theorem Silenced.mem (h : Silenced plugins a b) {r : ScanResult} (hr : r ∈ a) (hn : ¬ plugins r.scanPluginId) :
    r ∈ b := by
  induction h with
  | nil => cases hr
  | keep _ _ ih =>
    rcases List.mem_cons.mp hr with rfl | hr
    · exact List.mem_cons_self
    · exact List.mem_cons_of_mem _ (ih hr)
  | remove hp _ ih =>
    rcases List.mem_cons.mp hr with rfl | hr
    · exact absurd hp hn
    · exact ih hr
  | silence hp _ _ _ _ _ ih =>
    rcases List.mem_cons.mp hr with rfl | hr
    · exact absurd hp hn
    · exact List.mem_cons_of_mem _ (ih hr)

variable {g : ReportGenerator} {framework : ComplianceFramework} {c : String} {skipped skipped' : List PluginId}

/-- What a result's own findings or checks name, its plugin covers. -/
theorem Within.covers {results : List ScanResult} (hw : Within g.inventory results) {r : ScanResult}
    (hr : r ∈ results) (hn : Names g.config.profile framework r.mappings c) :
    ∃ p, g.inventory.plugin? r.scanPluginId = some p ∧ Names g.config.profile framework p.coverage c := by
  obtain ⟨m, hm, hc⟩ := names_iff_exists.mp hn
  obtain ⟨p, hp, hk⟩ := hw r hr m hm
  obtain ⟨m', hm', he⟩ := List.mem_map.mp hk
  exact ⟨p, hp, names_iff_exists.mpr ⟨m', hm', controlIds_translate_congr he ▸ hc⟩⟩

theorem names_finding {r : ScanResult} {f : Finding} (hf : f ∈ r.scanFindings)
    (hn : Names g.config.profile framework f.findingCompliance c) : Names g.config.profile framework r.mappings c :=
  hn.mono fun _ hm => List.mem_append_left _ (List.mem_flatMap.mpr ⟨f, hf, hm⟩)

theorem names_unchecked {r : ScanResult} (hn : Names g.config.profile framework (uncheckedMappings r.scanUnchecked) c) :
    Names g.config.profile framework r.mappings c :=
  hn.mono (List.subset_append_right _ _)

theorem assessed_of_plugin? {id : PluginId} {p : PluginCoverage} (hp : g.inventory.plugin? id = some p)
    (hn : Names g.config.profile framework p.coverage c) : Assessed g framework c :=
  ⟨p, (plugin?_id hp).1, hn⟩

/-- Under `Within`, evidence against a control is about a control the engine assesses. -/
theorem Within.assessed_of_live {results : List ScanResult} (hw : Within g.inventory results)
    (h : Live g framework c (flatten g.inventory results skipped).1) : Assessed g framework c := by
  obtain ⟨r, hr, _, f, hf, _, hn⟩ := live_flatten.mp h
  obtain ⟨p, hp, hcov⟩ := hw.covers hr (names_finding hf hn)
  exact assessed_of_plugin? hp hcov

theorem Within.assessed_of_unchecked {results : List ScanResult} (hw : Within g.inventory results)
    (h : Unchecked g framework c (flatten g.inventory results skipped).2) : Assessed g framework c := by
  rcases unchecked_flatten.mp h with ⟨r, hr, _, hn⟩ | ⟨r, _, _, p, hp, hn⟩ | ⟨p, hp, _, hn⟩
  · obtain ⟨p, hp, hcov⟩ := hw.covers hr (names_unchecked hn)
    exact assessed_of_plugin? hp hcov
  · exact assessed_of_plugin? hp hn
  · exact ⟨p, hp, hn⟩

/-- A silenced plugin's coverage is unchecked: its results are silent, or it has none. -/
theorem Silenced.unchecked (h : Silenced plugins a b) {id : PluginId} (hs : plugins id) {p : PluginCoverage}
    (hp : g.inventory.plugin? id = some p) (hn : Names g.config.profile framework p.coverage c) :
    Unchecked g framework c (flatten g.inventory b skipped').2 := by
  rw [unchecked_flatten]
  by_cases hex : ∃ r ∈ b, r.scanPluginId = id
  · obtain ⟨r, hr, hid⟩ := hex
    rcases h.of_mem hr with ⟨_, hns⟩ | ⟨hsilent, _, _⟩
    · exact absurd (hid ▸ hs) hns
    · exact .inr (.inl ⟨r, hr, hsilent, p, hid ▸ hp, hn⟩)
  · obtain ⟨hmem, hid⟩ := plugin?_id hp
    exact .inr (.inr ⟨p, hmem, fun r hr he => hex ⟨r, hr, he.trans hid⟩, hn⟩)

/-- Evidence against a control is not lost when plugins are silenced. -/
theorem evidence_silenced (hw : Within g.inventory a) (h : Silenced plugins a b)
    (hev : Live g framework c (flatten g.inventory a skipped).1 ∨
      Unchecked g framework c (flatten g.inventory a skipped).2) :
    Live g framework c (flatten g.inventory b skipped').1 ∨
      Unchecked g framework c (flatten g.inventory b skipped').2 := by
  rw [live_flatten, unchecked_flatten] at hev
  rcases hev with ⟨r, hr, hs, f, hf, hl, hn⟩ | ⟨r, hr, hs, hn⟩ | ⟨r, hr, hs, p, hp, hn⟩ | ⟨p, hp, hr, hn⟩
  · by_cases hsil : plugins r.scanPluginId
    · obtain ⟨p, hp, hcov⟩ := hw.covers hr (names_finding hf hn)
      exact .inr (h.unchecked hsil hp hcov)
    · exact .inl (live_flatten.mpr ⟨r, h.mem hr hsil, hs, f, hf, hl, hn⟩)
  · by_cases hsil : plugins r.scanPluginId
    · obtain ⟨p, hp, hcov⟩ := hw.covers hr (names_unchecked hn)
      exact .inr (h.unchecked hsil hp hcov)
    · exact .inr (unchecked_flatten.mpr (.inl ⟨r, h.mem hr hsil, hs, hn⟩))
  · by_cases hsil : plugins r.scanPluginId
    · exact .inr (h.unchecked hsil hp hn)
    · exact .inr (unchecked_flatten.mpr (.inr (.inl ⟨r, h.mem hr hsil, hs, p, hp, hn⟩)))
  · -- a plugin without results gets none
    refine .inr (unchecked_flatten.mpr (.inr (.inr ⟨p, hp, fun r hrb he => ?_, hn⟩)))
    rcases h.of_mem hrb with ⟨hra, _⟩ | ⟨_, _, r₀, hra, hid⟩
    · exact hr r hra he
    · exact hr r₀ hra (hid.trans he)

/-- A result in which nothing is lost. -/
structure Grown (r r' : ScanResult) : Prop where
  id : r'.scanPluginId = r.scanPluginId
  skip : r'.scanSkipped = r.scanSkipped
  success : r'.scanSuccess = r.scanSuccess
  findings : r.scanFindings ⊆ r'.scanFindings
  unchecked : r.scanUnchecked ⊆ r'.scanUnchecked

theorem Grown.refl (r : ScanResult) : Grown r r := ⟨rfl, rfl, rfl, List.Subset.refl _, List.Subset.refl _⟩

theorem Added.grown (h : Added a b) : List.Forall₂ Grown a b := by
  have haround : ∀ {l l' : List ScanResult} {r r' : ScanResult}, Grown r r' →
      List.Forall₂ Grown (l ++ r :: l') (l ++ r' :: l') := by
    intro l l' r r' hg
    induction l with
    | nil => exact .cons hg (List.forall₂_same.mpr fun r _ => Grown.refl r)
    | cons r₀ l ih => exact .cons (Grown.refl r₀) ih
  cases h with
  | finding f hr =>
    refine haround ⟨rfl, rfl, rfl, ?_, List.Subset.refl _⟩
    rw [hr]
    exact fun x hx => by simp only [List.mem_append, List.mem_cons] at hx ⊢; tauto
  | unchecked u hr =>
    refine haround ⟨rfl, rfl, rfl, List.Subset.refl _, ?_⟩
    rw [hr]
    exact fun x hx => by simp only [List.mem_append, List.mem_cons] at hx ⊢; tauto

theorem forall₂_mem_left {R : ScanResult → ScanResult → Prop} (h : List.Forall₂ R a b) {r : ScanResult} (hr : r ∈ a) :
    ∃ r' ∈ b, R r r' := by
  induction h with
  | nil => cases hr
  | @cons x y a b hxy _ ih =>
    rcases List.mem_cons.mp hr with rfl | hr
    · exact ⟨y, List.mem_cons_self, hxy⟩
    · obtain ⟨r', hr', hR⟩ := ih hr
      exact ⟨r', List.mem_cons_of_mem _ hr', hR⟩

theorem forall₂_mem_right {R : ScanResult → ScanResult → Prop} (h : List.Forall₂ R a b) {r' : ScanResult}
    (hr : r' ∈ b) : ∃ r ∈ a, R r r' := by
  induction h with
  | nil => cases hr
  | @cons x y a b hxy _ ih =>
    rcases List.mem_cons.mp hr with rfl | hr
    · exact ⟨x, List.mem_cons_self, hxy⟩
    · obtain ⟨r, hr', hR⟩ := ih hr
      exact ⟨r, List.mem_cons_of_mem _ hr', hR⟩

/-- What is added takes no evidence away. -/
theorem evidence_added (h : Added a b) :
    (Live g framework c (flatten g.inventory a skipped).1 → Live g framework c (flatten g.inventory b skipped').1) ∧
    (Unchecked g framework c (flatten g.inventory a skipped).2 →
      Unchecked g framework c (flatten g.inventory b skipped').2) := by
  have hgrown := h.grown
  rw [live_flatten, live_flatten, unchecked_flatten, unchecked_flatten]
  constructor
  · rintro ⟨r, hr, hs, f, hf, hl, hn⟩
    obtain ⟨r', hr', hg⟩ := forall₂_mem_left hgrown hr
    exact ⟨r', hr', hg.skip.trans hs, f, hg.findings hf, hl, hn⟩
  · rintro (⟨r, hr, hs, hn⟩ | ⟨r, hr, hs, p, hp, hn⟩ | ⟨p, hp, hr, hn⟩)
    · obtain ⟨r', hr', hg⟩ := forall₂_mem_left hgrown hr
      refine .inl ⟨r', hr', hg.skip.trans hs, hn.mono fun m hm => ?_⟩
      obtain ⟨u, hu, hmu⟩ := mem_uncheckedMappings.mp hm
      exact mem_uncheckedMappings.mpr ⟨u, hg.unchecked hu, hmu⟩
    · obtain ⟨r', hr', hg⟩ := forall₂_mem_left hgrown hr
      refine .inr (.inl ⟨r', hr', ?_, p, hg.id ▸ hp, hn⟩)
      unfold ScanResult.Silent at hs ⊢
      rwa [hg.skip, hg.success]
    · refine .inr (.inr ⟨p, hp, fun r' hr' he => ?_, hn⟩)
      obtain ⟨r, hra, hg⟩ := forall₂_mem_right hgrown hr'
      exact hr r hra (hg.id ▸ he)

/-! ## The report -/

/-- A report that is no better than another: nothing passes that did not, and the score is
no higher. -/
structure NotBetter (report report' : ComplianceReport) : Prop where
  framework : report'.reportFramework = report.reportFramework
  passes : ∀ control' ∈ report'.reportControls, control'.controlStatus = .pass →
    ∃ control ∈ report.reportControls, control.controlId = control'.controlId ∧ control.controlStatus = .pass
  score : report'.reportSummary.summaryScorePercentage ≤ report.reportSummary.summaryScorePercentage

/-- The results of some plugins are silenced, or something is added to a result. -/
inductive Perturbed (results results' : List ScanResult) : Prop where
  | silenced (plugins : PluginId → Prop) (h : Silenced plugins results results')
  | added (h : Added results results')

theorem worse_of_perturbed {env : Environment} (hw : Within g.inventory a) (h : Perturbed a b) :
    Worse g env framework (flatten g.inventory a skipped).1 (flatten g.inventory b skipped').1
      (flatten g.inventory a skipped).2 (flatten g.inventory b skipped').2 := by
  -- evidence against a control stays, and where none stays the control is assessed as before
  have hpasses : (∀ c, Live g framework c (flatten g.inventory a skipped).1 ∨
      Unchecked g framework c (flatten g.inventory a skipped).2 →
      Live g framework c (flatten g.inventory b skipped').1 ∨
        Unchecked g framework c (flatten g.inventory b skipped').2) →
      ∀ c, g.statusOf env framework (flatten g.inventory b skipped').1 (flatten g.inventory b skipped').2 c = .pass →
        g.statusOf env framework (flatten g.inventory a skipped).1 (flatten g.inventory a skipped).2 c = .pass := by
    intro hev c hpass
    obtain ⟨hl, hu, hass⟩ := statusOf_pass.mp hpass
    have hnone := fun hc => (hev c hc).elim hl hu
    exact statusOf_pass.mpr ⟨fun hc => hnone (.inl hc), fun hc => hnone (.inr hc), hass⟩
  cases h with
  | silenced plugins h =>
    refine ⟨fun c hc => .inl (mem_catalogueIds.mpr (.inr (hw.assessed_of_live hc))), fun c hne hna => hne ?_,
      hpasses fun c hc => evidence_silenced hw h hc⟩
    obtain ⟨_, _, hass, hex⟩ := statusOf_notApplicable.mp hna
    exact statusOf_notApplicable.mpr
      ⟨fun hc => hass (hw.assessed_of_live hc), fun hc => hass (hw.assessed_of_unchecked hc), hass, hex⟩
  | added h =>
    refine ⟨fun c hc => .inr ((evidence_added h).1 hc), fun c hne hna => hne ?_,
      hpasses fun c hc => hc.imp (evidence_added h).1 (evidence_added h).2⟩
    obtain ⟨hl, hu, hass, hex⟩ := statusOf_notApplicable.mp hna
    exact statusOf_notApplicable.mpr
      ⟨fun hc => hl ((evidence_added h).1 hc), fun hc => hu ((evidence_added h).2 hc), hass, hex⟩

/-- Silencing plugins, or adding a finding or a check not made, never improves a report. -/
theorem silencing_never_improves (g : ReportGenerator) (env : Environment) (results results' : List ScanResult)
    (skipped skipped' : List PluginId) (hw : Within g.inventory results) (h : Perturbed results results') :
    List.Forall₂ NotBetter (g.generate env results skipped) (g.generate env results' skipped') := by
  unfold ReportGenerator.generate
  simp only [score_eq]
  rw [List.forall₂_map_left_iff, List.forall₂_map_right_iff, List.forall₂_same]
  intro framework _
  have hworse : Worse g env framework (flatten g.inventory results skipped).1 (flatten g.inventory results' skipped').1
      (flatten g.inventory results skipped).2 (flatten g.inventory results' skipped').2 := worse_of_perturbed hw h
  refine ⟨rfl, fun control' hcontrol' hpass => ?_, hworse.score_le⟩
  rw [(mem_reportControls hcontrol').1] at hpass
  have hbefore := hworse.passes _ hpass
  obtain ⟨control, hcontrol, hid⟩ := List.mem_map.mp ((mem_reportIds ..).mpr
    (.inl (mem_catalogueIds.mpr (.inr (statusOf_pass.mp hbefore).2.2))))
  refine ⟨control, hcontrol, hid, ?_⟩
  rw [(mem_reportControls hcontrol).1, hid]
  exact hbefore

end

/-- The plugin that found something is not run. -/
theorem silencing_never_improves_audit :
    List.Forall₂ NotBetter (auditGenerator.generate civilEnvironment [auditFailed] [])
      (auditGenerator.generate civilEnvironment [] [⟨"audit-logging"⟩]) := by
  have hw : Within auditGenerator.inventory [auditFailed] := by
    intro r hr m hm
    obtain rfl := List.mem_singleton.mp hr
    exact ⟨_, rfl, by revert m; decide⟩
  have hs : Silenced (· = ⟨"audit-logging"⟩) [auditFailed] [] := .remove rfl .nil
  exact silencing_never_improves auditGenerator civilEnvironment [auditFailed] [] [] [⟨"audit-logging"⟩] hw
    (.silenced _ hs)

end LinuxHardener.Compliance
