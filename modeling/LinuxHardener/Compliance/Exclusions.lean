import LinuxHardener.Compliance.HonestPass

/-
  What declaring controls not applicable changes in a report.

  What is proved:
    1. `exclusions_frame` — an exclusion only ever turns a manual review into a not
       applicable; nothing else of the report changes but the summary.
    2. `exclusions_frame_iff` — the report is the same for every order the exclusion map
       may be iterated in, exactly if no two framework keys give one undecided control
       exclusions of which one counts and the other does not.
-/
namespace LinuxHardener.Compliance

/-- The generator without exclusions. -/
def ReportGenerator.withExclusions (g : ReportGenerator) (exclusions : ComplianceConfig) : ReportGenerator :=
  { g with exclusions := exclusions }

/-- What a control may be with the exclusions, from what it is without them. -/
structure ExcludedOnly (g : ReportGenerator) (env : Environment) (framework : ComplianceFramework)
    (bare control : ControlResult) : Prop where
  id : control.controlId = bare.controlId
  title : control.controlTitle = bare.controlTitle
  compSection : control.controlSection = bare.controlSection
  findings : control.controlFindings = bare.controlFindings
  status : control.controlStatus = bare.controlStatus ∨
    (bare.controlStatus = .manualReview ∧ control.controlStatus = .notApplicable ∧
      ∃ e, (control.controlId, e) ∈ g.exclusions.forFramework framework ∧ g.inForce env framework e = true)

/-- With the exclusions, the reports list the same controls, and only manual reviews differ. -/
def ExclusionFrame (g : ReportGenerator) (env : Environment) (results : List ScanResult) (skipped : List PluginId) :
    Prop :=
  List.Forall₂ (fun bare report => report.reportFramework = bare.reportFramework ∧
      List.Forall₂ (ExcludedOnly g env bare.reportFramework) bare.reportControls report.reportControls)
    ((g.withExclusions ⟨[]⟩).generate env results skipped) (g.generate env results skipped)

/-- The reports do not depend on the order the map is iterated in. -/
def OrderIndependent (g : ReportGenerator) (env : Environment) (results : List ScanResult) (skipped : List PluginId) :
    Prop :=
  ∀ exclusions, g.exclusions.Reordered exclusions →
    (g.withExclusions exclusions).generate env results skipped = g.generate env results skipped

/-- A control that nothing but an exclusion decides. -/
def Undecided (g : ReportGenerator) (results : List ScanResult) (skipped : List PluginId)
    (framework : ComplianceFramework) (c : String) : Prop :=
  Names g.config.profile framework ((curatedControls framework).getD []) c ∧
    ¬ Live g framework c (flatten g.inventory results skipped).1 ∧
    ¬ Unchecked g framework c (flatten g.inventory results skipped).2 ∧ ¬ Assessed g framework c

/-- Exclusions of one undecided control, under whatever keys, all count or all do not. -/
def ExclusionsAgree (g : ReportGenerator) (env : Environment) (results : List ScanResult) (skipped : List PluginId) :
    Prop :=
  ∀ framework ∈ g.config.scenario.frameworks, ∀ c, Undecided g results skipped framework c →
    ∀ e e', (c, e) ∈ g.exclusions.forFramework framework → (c, e') ∈ g.exclusions.forFramework framework →
      g.inForce env framework e = g.inForce env framework e'

section

variable {g : ReportGenerator} {env : Environment} {framework : ComplianceFramework} {findings : List Finding}
  {checks : List UncheckedCheck} {results : List ScanResult} {skipped : List PluginId}

/-! ## The frame -/

/-- Exclusions enter the status alone. -/
theorem reportControls_withExclusions (exclusions : ComplianceConfig) {R : ControlResult → ControlResult → Prop}
    (h : ∀ c ∈ g.catalogueIds framework, ∀ title compSection fs,
      R ⟨c, title, compSection, (g.withExclusions exclusions).statusOf env framework findings checks c, fs⟩
        ⟨c, title, compSection, g.statusOf env framework findings checks c, fs⟩)
    (hrefl : ∀ c title compSection fs, R ⟨c, title, compSection, .fail, fs⟩ ⟨c, title, compSection, .fail, fs⟩) :
    List.Forall₂ R ((g.withExclusions exclusions).reportFor env findings checks framework).reportControls
      (g.reportFor env findings checks framework).reportControls := by
  have happend : ∀ {a a' b b' : List ControlResult}, List.Forall₂ R a a' → List.Forall₂ R b b' →
      List.Forall₂ R (a ++ b) (a' ++ b') := by
    intro a a' b b' ha hb
    induction ha with
    | nil => exact hb
    | cons hxy _ ih => exact .cons hxy ih
  refine happend ?_ ?_
  · unfold ReportGenerator.catalogueControls
    rw [List.forall₂_map_left_iff, List.forall₂_map_right_iff]
    exact List.forall₂_same.mpr fun m hm => h _ (List.mem_map_of_mem hm) _ _ _
  · rw [ids_catalogueControls, ids_catalogueControls]
    unfold uncataloguedControls
    rw [List.forall₂_map_left_iff, List.forall₂_map_right_iff]
    exact List.forall₂_same.mpr fun m _ => hrefl _ _ _ _

/-- The status without exclusions. -/
theorem statusOf_bare (c : String) :
    g.statusOf env framework findings checks c = (g.withExclusions ⟨[]⟩).statusOf env framework findings checks c ∨
    ((g.withExclusions ⟨[]⟩).statusOf env framework findings checks c = .manualReview ∧
      g.statusOf env framework findings checks c = .notApplicable ∧ Excluded g framework c env) := by
  have hbare : ¬ Excluded (g.withExclusions ⟨[]⟩) framework c env := by
    rintro ⟨e, he, _⟩
    cases he
  rcases controlStatus_spec g env framework findings checks c with
    ⟨hl, hs⟩ | ⟨hl, hu, hs⟩ | ⟨hl, hu, ha, hs⟩ | ⟨hl, hu, ha, hx⟩ <;>
  rcases controlStatus_spec (g.withExclusions ⟨[]⟩) env framework findings checks c with
    ⟨hl', hs'⟩ | ⟨hl', hu', hs'⟩ | ⟨hl', hu', ha', hs'⟩ | ⟨hl', hu', ha', ⟨hx', _⟩ | ⟨_, hs'⟩⟩
  all_goals first
    | exact absurd hl hl'
    | exact absurd hl' hl
    | exact absurd hu hu'
    | exact absurd hu' hu
    | exact absurd ha ha'
    | exact absurd ha' ha
    | exact absurd hx' hbare
    | exact .inl (hs.trans hs'.symm)
    | skip
  rcases hx with ⟨hx, hs⟩ | ⟨_, hs⟩
  · exact .inr ⟨hs', hs, hx⟩
  · exact .inl (hs.trans hs'.symm)

theorem exclusions_frame (g : ReportGenerator) (env : Environment) (results : List ScanResult)
    (skipped : List PluginId) : ExclusionFrame g env results skipped := by
  unfold ExclusionFrame ReportGenerator.generate
  simp only [score_eq]
  rw [List.forall₂_map_left_iff, List.forall₂_map_right_iff]
  refine List.forall₂_same.mpr fun framework _ => ⟨rfl, ?_⟩
  refine reportControls_withExclusions ⟨[]⟩ (fun c _ title compSection fs => ⟨rfl, rfl, rfl, rfl, ?_⟩)
    (fun c title compSection fs => ⟨rfl, rfl, rfl, rfl, .inl rfl⟩)
  rcases statusOf_bare c with hs | ⟨hbare, hs, e, he, hforce⟩
  · exact .inl hs
  · exact .inr ⟨hbare, hs, e, mem_of_excluded he, hforce⟩

/-! ## The order -/

/-- Where exclusions agree, another order finds one that counts for the same controls. -/
theorem excluded_reordered {exclusions : ComplianceConfig} (h : g.exclusions.Reordered exclusions) {c : String}
    (hagree : ∀ e e', (c, e) ∈ g.exclusions.forFramework framework → (c, e') ∈ g.exclusions.forFramework framework →
      g.inForce env framework e = g.inForce env framework e') :
    Excluded (g.withExclusions exclusions) framework c env ↔ Excluded g framework c env := by
  have hmem : ∀ e, (c, e) ∈ exclusions.forFramework framework ↔ (c, e) ∈ g.exclusions.forFramework framework :=
    fun e => (mem_forFramework_reordered h).symm
  have hfound : ∀ {x y : ComplianceConfig}, (∀ e, (c, e) ∈ x.forFramework framework →
      (c, e) ∈ y.forFramework framework) → ∀ e, x.excluded framework c = some e →
      ∃ e', y.excluded framework c = some e' := by
    intro x y hxy e he
    by_contra hnone
    rw [not_exists, ← Option.eq_none_iff_forall_ne_some] at hnone
    exact excluded_eq_none.mp hnone e (hxy e (mem_of_excluded he))
  constructor
  · rintro ⟨e, he, hforce⟩
    obtain ⟨e', he'⟩ := hfound (fun e => (hmem e).mp) e he
    refine ⟨e', he', ?_⟩
    rw [← hagree e e' ((hmem e).mp (mem_of_excluded he)) (mem_of_excluded he')]
    exact hforce
  · rintro ⟨e, he, hforce⟩
    obtain ⟨e', he'⟩ := hfound (fun e => (hmem e).mpr) e he
    refine ⟨e', he', ?_⟩
    change g.inForce env framework e' = true
    rw [hagree e' e ((hmem e').mp (mem_of_excluded he')) (mem_of_excluded he)]
    exact hforce

/-- A report is made from its controls. -/
theorem reportFor_congr {exclusions : ComplianceConfig}
    (h : ((g.withExclusions exclusions).reportFor env findings checks framework).reportControls =
      (g.reportFor env findings checks framework).reportControls) :
    (g.withExclusions exclusions).reportFor env findings checks framework =
      g.reportFor env findings checks framework := by
  have hmk : ∀ g : ReportGenerator, g.reportFor env findings checks framework =
      ⟨framework, g.config.profile, (g.reportFor env findings checks framework).reportControls,
        ComplianceSummary.fromControls env.fp (g.reportFor env findings checks framework).reportControls,
        uncheckedSummary (checks.map (UncheckedCheck.rendered g.config.profile))⟩ := fun _ => rfl
  rw [hmk, hmk g, h]
  rfl

theorem orderIndependent_of_agree (h : ExclusionsAgree g env results skipped) :
    OrderIndependent g env results skipped := by
  intro exclusions hre
  unfold ReportGenerator.generate
  simp only [score_eq]
  refine List.map_congr_left fun framework hframework => reportFor_congr ?_
  refine List.forall₂_eq_eq_eq ▸ reportControls_withExclusions exclusions (fun c hc title compSection fs => ?_)
    (fun _ _ _ _ => rfl)
  congr 1
  -- the status is read off the same evidence, and off an exclusion only where nothing else decides
  rcases controlStatus_spec g env framework (flatten g.inventory results skipped).1
      (flatten g.inventory results skipped).2 c with
    ⟨hl, hs⟩ | ⟨hl, hu, hs⟩ | ⟨hl, hu, ha, hs⟩ | ⟨hl, hu, ha, hx⟩ <;>
  rcases controlStatus_spec (g.withExclusions exclusions) env framework (flatten g.inventory results skipped).1
      (flatten g.inventory results skipped).2 c with
    ⟨hl', hs'⟩ | ⟨hl', hu', hs'⟩ | ⟨hl', hu', ha', hs'⟩ | ⟨hl', hu', ha', hx'⟩
  all_goals first
    | exact absurd hl hl'
    | exact absurd hl' hl
    | exact absurd hu hu'
    | exact absurd hu' hu
    | exact absurd ha ha'
    | exact absurd ha' ha
    | exact hs'.trans hs.symm
    | skip
  have hnames := (mem_catalogueIds.mp hc).resolve_right ha
  have hsame : Excluded (g.withExclusions exclusions) framework c env ↔ Excluded g framework c env :=
    excluded_reordered hre (fun e e' he he' => h framework hframework c ⟨hnames, hl, hu, ha⟩ e e' he he')
  rcases hx with ⟨hx, hs⟩ | ⟨hx, hs⟩ <;> rcases hx' with ⟨hx', hs'⟩ | ⟨hx', hs'⟩
  · exact hs'.trans hs.symm
  · exact absurd (hsame.mpr hx) hx'
  · exact absurd (hsame.mp hx') hx
  · exact hs'.trans hs.symm

/-- In a list with each key once, an entry is the one found under its key. -/
theorem find?_key {l : List (String × ScopeExclusion)} (hd : (l.map (·.1)).Nodup) {c : String} {e : ScopeExclusion}
    (h : (c, e) ∈ l) : l.find? (fun entry => entry.1 == c) = some (c, e) := by
  cases hf : l.find? (fun entry => entry.1 == c) with
  | none =>
    have hnone := List.find?_eq_none.mp hf _ h
    simp at hnone
  | some entry =>
    have hmem := List.mem_of_find?_eq_some hf
    have hkey : entry.1 = c := by simpa using List.find?_some hf
    exact congrArg some (List.inj_on_of_nodup_map hd hmem h hkey)

/-- Some order finds a given exclusion that names a control: its key comes last. -/
theorem exists_order_excluded {x : ComplianceConfig} (hk : x.Keyed) {c : String} {e : ScopeExclusion}
    (h : (c, e) ∈ x.forFramework framework) : ∃ x', x.Reordered x' ∧ x'.excluded framework c = some e := by
  obtain ⟨key, controls, hmem, hid, he⟩ := mem_forFramework.mp h
  obtain ⟨l, l', hsplit⟩ := List.append_of_mem hmem
  refine ⟨⟨l ++ l' ++ [(key, controls)]⟩, ⟨x.notApplicable, ?_, ?_⟩, ?_⟩
  · exact List.forall₂_same.mpr fun entry _ => ⟨rfl, List.Perm.refl _⟩
  · rw [hsplit]
    exact List.perm_middle.trans (List.perm_append_singleton _ _).symm
  · have hlast : (ComplianceConfig.forFramework ⟨l ++ l' ++ [(key, controls)]⟩ framework) =
        ComplianceConfig.forFramework ⟨l ++ l'⟩ framework ++ controls := by
      simp [ComplianceConfig.forFramework, hid]
    have hfind : controls.reverse.find? (fun entry => entry.1 == c) = some (c, e) := by
      refine find?_key ?_ (List.mem_reverse.mpr he)
      rw [List.map_reverse, List.nodup_reverse]
      exact hk.2 _ hmem
    unfold ComplianceConfig.excluded
    rw [hlast, List.reverse_append, List.find?_append, hfind]
    rfl

/-- For a map with each key once: the frame holds, and the reports are the same for every
order, exactly if the exclusions of each undecided control agree. -/
theorem exclusions_frame_iff (g : ReportGenerator) (env : Environment) (results : List ScanResult)
    (skipped : List PluginId) (hk : g.exclusions.Keyed) :
    (ExclusionFrame g env results skipped ∧ OrderIndependent g env results skipped) ↔
      ExclusionsAgree g env results skipped := by
  refine ⟨fun ⟨_, hind⟩ => ?_, fun h => ⟨exclusions_frame g env results skipped, orderIndependent_of_agree h⟩⟩
  intro framework hframework c hund e e' he he'
  obtain ⟨hnames, hl, hu, ha⟩ := hund
  -- in whichever order, the control has the status the same report gives it
  have hstatus : ∀ x', g.exclusions.Reordered x' →
      (g.withExclusions x').statusOf env framework (flatten g.inventory results skipped).1
        (flatten g.inventory results skipped).2 c =
      g.statusOf env framework (flatten g.inventory results skipped).1 (flatten g.inventory results skipped).2 c := by
    intro x' hre
    have hsame := hind x' hre
    unfold ReportGenerator.generate at hsame
    simp only [score_eq] at hsame
    have hreport := List.map_inj_left.mp hsame framework hframework
    obtain ⟨control, hcontrol, hid⟩ := List.mem_map.mp
      ((mem_reportIds (g.withExclusions x') env framework (flatten g.inventory results skipped).1
        (flatten g.inventory results skipped).2 c).mpr (.inl (mem_catalogueIds.mpr (.inl hnames))))
    have hleft := (mem_reportControls hcontrol).1
    have hright : control ∈ (g.reportFor env (flatten g.inventory results skipped).1
        (flatten g.inventory results skipped).2 framework).reportControls := by
      rw [← hreport]
      exact hcontrol
    rw [hid] at hleft
    rw [← hleft, (mem_reportControls hright).1, hid]
  have hforce : ∀ e, (c, e) ∈ g.exclusions.forFramework framework →
      (g.inForce env framework e = true ↔ g.statusOf env framework (flatten g.inventory results skipped).1
        (flatten g.inventory results skipped).2 c = .notApplicable) := by
    intro e he
    obtain ⟨x', hre, hex⟩ := exists_order_excluded hk he
    rw [← hstatus x' hre, statusOf_notApplicable]
    constructor
    · exact fun hf => ⟨hl, hu, ha, e, hex, hf⟩
    · rintro ⟨_, _, _, e₁, he₁, hf⟩
      change x'.excluded framework c = some e₁ at he₁
      rw [hex] at he₁
      cases he₁
      exact hf
  rw [Bool.eq_iff_iff, hforce e he, hforce e' he']

end

/-- An exclusion to be reviewed in five years, and one without any date. -/
def reviewed : ScopeExclusion := ⟨"no premises", none, some "2031-09-01", []⟩

def undated : ScopeExclusion := ⟨"no premises", none, none, []⟩

/-- A generator for ISO 27001 alone, with no plugin, and the given exclusions of `7.1`. -/
def premisesGenerator (exclusions : List (String × ScopeExclusion)) : ReportGenerator where
  config := ⟨.custom [.iso27001], .generic⟩
  inventory := .known []
  exclusions := ⟨exclusions.map (fun entry => (entry.1, [("7.1", entry.2)]))⟩
  host := none

/-- Two spellings of the framework: the exclusion that is gone through last decides. -/
theorem exclusions_order_counterexample :
    ¬ (∀ (g : ReportGenerator) (env : Environment) (results : List ScanResult) (skipped : List PluginId),
      g.exclusions.Keyed → ExclusionFrame g env results skipped ∧ OrderIndependent g env results skipped) := by
  intro hall
  have hkeyed : (premisesGenerator [("iso27001", reviewed), ("ISO27001", undated)]).exclusions.Keyed := by
    refine ⟨by decide, fun entry hentry => ?_⟩
    obtain ⟨entry', _, rfl⟩ := List.mem_map.mp hentry
    exact List.nodup_singleton _
  have hre : (premisesGenerator [("iso27001", reviewed), ("ISO27001", undated)]).exclusions.Reordered
      (premisesGenerator [("ISO27001", undated), ("iso27001", reviewed)]).exclusions :=
    ⟨_, List.forall₂_same.mpr fun _ _ => ⟨rfl, List.Perm.refl _⟩, List.Perm.swap _ _ _⟩
  have hsame := (hall _ civilEnvironment [] [] hkeyed).2 _ hre
  have hstatuses := congrArg (List.map fun report => countStatus report.reportControls .notApplicable) hsame
  revert hstatuses
  decide +kernel

/-- Under one spelling, the order does not matter. -/
theorem exclusions_frame_premises :
    ExclusionFrame (premisesGenerator [("iso27001", reviewed)]) civilEnvironment [] [] ∧
      OrderIndependent (premisesGenerator [("iso27001", reviewed)]) civilEnvironment [] [] := by
  have hkeyed : (premisesGenerator [("iso27001", reviewed)]).exclusions.Keyed := by
    refine ⟨by decide, fun entry hentry => ?_⟩
    obtain ⟨entry', _, rfl⟩ := List.mem_map.mp hentry
    exact List.nodup_singleton _
  refine (exclusions_frame_iff _ civilEnvironment [] [] hkeyed).mpr ?_
  intro framework hframework c _ e e' he he'
  have hall : ∀ entry ∈ (premisesGenerator [("iso27001", reviewed)]).exclusions.forFramework framework,
      entry.2 = reviewed := by
    obtain rfl : framework = .iso27001 := List.mem_singleton.mp hframework
    decide +kernel
  rw [show e = reviewed from hall _ he, show e' = reviewed from hall _ he']

end LinuxHardener.Compliance
