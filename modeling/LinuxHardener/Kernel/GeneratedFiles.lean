import LinuxHardener.Audit.Rules
import LinuxHardener.Kernel.Plan

/-
  The two files written whole: 99-hardener.conf and hardening.rules.

  Both put the reason of an exception in a comment, and neither grammar has a comment that
  outlasts its line. What is proved:
    1. `generated_files_iff` — the files hold what is planned, exactly where no reason of an
       exception in effect goes on, on a line of its own, with text that is not a comment.
-/
namespace LinuxHardener.Kernel

open LineText Plugins

section

variable (config : PluginConfig) (observed : Chars → Option Chars)

/-- The persistent file says what is planned: by its assignments, and line by line. -/
structure FileExact : Prop where
  values : (parseSysctl (desiredConfig config observed)).values = plannedValue config observed
  globs : (parseSysctl (desiredConfig config observed)).globPatterns = []
  lines : liveLines (desiredConfig config observed) = (plannedSettings config observed).map fun s => settingLine s.1 s.2

/-- The rules file says what is planned: the prelude, and the rules of every category that
no exception covers. -/
def RulesExact (config : PluginConfig) : Prop :=
  Audit.liveLines (Audit.renderedRulesFile config).1 =
    Audit.preludeLines ++ (Audit.ruleCategories.filter fun category => (config.hasValidException category).isNone).flatMap
      fun category => (Audit.rulesOf category).map Audit.AuditRuleDirective.content

/-- No line of the text but the first is read by the file's own reader. -/
def Quiet (live : Chars → Bool) (reason : Chars) : Prop := ∀ line ∈ strayLines reason, live line = false

instance (live : Chars → Bool) (reason : Chars) : Decidable (Quiet live reason) := List.decidableBAll _ _

def QuietExceptions : Prop :=
  ∀ p ∈ kernelParams, ∀ value, observed p.name = some value →
    ∀ e, config.matchingException p.name value = some e → Quiet isLive e.reason

def QuietCategories (config : PluginConfig) : Prop :=
  ∀ category ∈ Audit.ruleCategories, ∀ e, config.hasValidException category = some e → Quiet Audit.isLive e.reason

/-! ## Sections that may say too much -/

theorem length_flatMap_le {α β : Type} {l : List α} {f g : α → List β} (hle : ∀ a ∈ l, (g a).length ≤ (f a).length) :
    (l.flatMap g).length ≤ (l.flatMap f).length := by
  induction l with
  | nil => exact Nat.le_refl _
  | cons a l ih =>
    have ha := hle a List.mem_cons_self
    have hl := ih fun b hb => hle b (List.mem_cons_of_mem a hb)
    rw [List.flatMap_cons, List.flatMap_cons, List.length_append, List.length_append]
    omega

/-- Where each part of one list is as long as its counterpart at least, the wholes are only
equal if the parts are as long as each other. -/
theorem length_of_flatMap_eq {α β : Type} {l : List α} {f g : α → List β} (hle : ∀ a ∈ l, (g a).length ≤ (f a).length)
    (h : (l.flatMap f).length ≤ (l.flatMap g).length) : ∀ a ∈ l, (f a).length = (g a).length := by
  induction l with
  | nil => exact fun _ ha => absurd ha List.not_mem_nil
  | cons a l ih =>
    have hmono := length_flatMap_le fun b hb => hle b (List.mem_cons_of_mem a hb)
    have ha := hle a List.mem_cons_self
    rw [List.flatMap_cons, List.flatMap_cons, List.length_append, List.length_append] at h
    refine List.forall_mem_cons.mpr ⟨by omega, ?_⟩
    exact ih (fun b hb => hle b (List.mem_cons_of_mem a hb)) (by omega)

theorem quiet_iff {live : Chars → Bool} {reason : Chars} : Quiet live reason ↔ (strayLines reason).filter live = [] := by
  rw [List.filter_eq_nil_iff]
  exact forall₂_congr fun line _ => by rw [Bool.not_eq_true]

/-! ## The persistent file -/

/-- The line of a parameter that is set. -/
def plannedSection (p : KernelParameter) : List Chars :=
  match planParameter p config (observed p.name) with
  | .excepted _ _ => []
  | .setting target => [settingLine p.name target]

theorem plannedSettings_lines :
    (plannedSettings config observed).map (fun s => settingLine s.1 s.2) = kernelParams.flatMap (plannedSection config observed) := by
  unfold plannedSettings
  induction kernelParams with
  | nil => rfl
  | cons p ps ih =>
    rw [List.filterMap_cons, List.flatMap_cons, ← ih]
    unfold plannedSection
    cases planParameter p config (observed p.name) <;> rfl

variable {config observed}

theorem liveLines_planned_iff :
    liveLines (desiredConfig config observed) = (plannedSettings config observed).map (fun s => settingLine s.1 s.2) ↔
      QuietExceptions config observed := by
  rw [liveLines_desiredConfig, plannedSettings_lines]
  have hexcepted : ∀ p ∈ kernelParams, ∀ value reason, planParameter p config (observed p.name) = .excepted value reason →
      (plannedSection config observed p = [] ∧
        (planParameter p config (observed p.name)).liveSection p = (strayLines reason).filter isLive) := by
    intro p _ value reason hplan
    unfold plannedSection
    rw [hplan]
    exact ⟨rfl, rfl⟩
  constructor
  · intro heq p hp value hvalue e he
    have hle : ∀ p ∈ kernelParams, (plannedSection config observed p).length ≤
        ((planParameter p config (observed p.name)).liveSection p).length := by
      intro p _
      unfold plannedSection PlannedParameter.liveSection
      cases planParameter p config (observed p.name) with
      | excepted _ _ => exact Nat.zero_le _
      | setting _ => exact Nat.le_refl _
    have hplan : planParameter p config (observed p.name) = .excepted value e.reason :=
      planParameter_excepted.mpr ⟨hvalue, e, he, rfl⟩
    obtain ⟨hnone, hstray⟩ := hexcepted p hp value e.reason hplan
    have hlength := length_of_flatMap_eq hle (heq ▸ Nat.le_refl _) p hp
    rw [hnone, hstray] at hlength
    exact quiet_iff.mpr (List.length_eq_zero_iff.mp hlength)
  · intro hquiet
    refine List.flatMap_congr fun p hp => ?_
    cases hplan : planParameter p config (observed p.name) with
    | excepted value reason =>
      obtain ⟨hvalue, e, he, rfl⟩ := planParameter_excepted.mp hplan
      obtain ⟨hnone, _⟩ := hexcepted p hp value e.reason hplan
      rw [hnone]
      exact quiet_iff.mp (hquiet p hp value hvalue e he)
    | setting target =>
      unfold plannedSection
      rw [hplan]
      rfl

/-- What the lines of the plan assign. -/
theorem assignments_planned (f : SysctlLine → Option (Chars × Chars)) (hf : ∀ key value, f (.assigns key value) = some (key, value)) :
    ((plannedSettings config observed).map fun s => settingLine s.1 s.2).filterMap (fun line => f (sysctlLine line)) =
      kernelParams.filterMap fun p =>
        (planParameter p config (observed p.name)).target.map fun target => (procfsKey p.name, target) := by
  have hline : ∀ p ∈ kernelParams, ∀ target, planParameter p config (observed p.name) = .setting target →
      sysctlLine (settingLine p.name target) = .assigns (procfsKey p.name) target := by
    intro p hp target hplan
    obtain ⟨_, _, hnum, _⟩ := setting_spec (sound hp) hplan
    exact sysctlLine_settingLine (name_plain hp) (plain_numeral hnum)
  unfold plannedSettings
  rw [List.filterMap_map, List.filterMap_filterMap]
  refine List.filterMap_congr fun p hp => ?_
  cases hplan : planParameter p config (observed p.name) with
  | excepted value reason => rfl
  | setting target =>
    show f (sysctlLine (settingLine p.name target)) = some (procfsKey p.name, target)
    rw [hline p hp target hplan, hf]

theorem fileExact_iff : FileExact config observed ↔ QuietExceptions config observed := by
  refine ⟨fun h => liveLines_planned_iff.mp h.lines, fun hquiet => ?_⟩
  have hlines := liveLines_planned_iff.mpr hquiet
  refine ⟨?_, ?_, hlines⟩
  · funext key
    rw [parseSysctl_eq, ← assignments_live, hlines, assignments_planned SysctlLine.assignment fun _ _ => rfl]
    exact settle_filterMap nodup_procfsKey _ key
  · rw [parseSysctl_eq, ← globs_live, hlines]
    refine List.filterMap_eq_nil_iff.mpr fun line hline => ?_
    obtain ⟨s, hs, rfl⟩ := List.mem_map.mp hline
    obtain ⟨p, hp, hsome⟩ := List.mem_filterMap.mp hs
    cases hplan : planParameter p config (observed p.name) with
    | excepted value reason =>
      rw [hplan] at hsome
      cases hsome
    | setting target =>
      rw [hplan] at hsome
      cases hsome
      obtain ⟨_, _, hnum, _⟩ := setting_spec (sound hp) hplan
      rw [sysctlLine_settingLine (name_plain hp) (plain_numeral hnum)]
      rfl

end

/-! ## The rules file -/

theorem rulesExact_iff {config : PluginConfig} : RulesExact config ↔ QuietCategories config := by
  have hplanned : (Audit.ruleCategories.filter fun category => (config.hasValidException category).isNone).flatMap
      (fun category => (Audit.rulesOf category).map Audit.AuditRuleDirective.content) =
      Audit.ruleCategories.flatMap fun category =>
        if (config.hasValidException category).isNone then (Audit.rulesOf category).map Audit.AuditRuleDirective.content else [] := by
    induction Audit.ruleCategories with
    | nil => rfl
    | cons category categories ih =>
      rw [List.filter_cons, List.flatMap_cons, ← ih]
      split <;> rfl
  unfold RulesExact
  rw [Audit.liveLines_renderedRulesFile, hplanned, List.append_cancel_left_eq]
  constructor
  · intro heq category hcategory e he
    have hle : ∀ category ∈ Audit.ruleCategories,
        (if (config.hasValidException category).isNone then
          (Audit.rulesOf category).map Audit.AuditRuleDirective.content else []).length ≤
          (Audit.liveCategory config category).length := by
      intro category _
      unfold Audit.liveCategory
      cases config.hasValidException category with
      | none => exact Nat.le_refl _
      | some e => exact Nat.zero_le _
    have hlength := length_of_flatMap_eq hle (heq ▸ Nat.le_refl _) category hcategory
    unfold Audit.liveCategory at hlength
    rw [he] at hlength
    exact quiet_iff.mpr (List.length_eq_zero_iff.mp hlength)
  · intro hquiet
    refine List.flatMap_congr fun category hcategory => ?_
    unfold Audit.liveCategory
    cases he : config.hasValidException category with
    | none => rfl
    | some e => exact quiet_iff.mp (hquiet category hcategory e he)

/-! ## Both files -/

/-- The files hold exactly what is planned if and only if no exception in effect has a
reason that runs on to a live line. -/
theorem generated_files_iff (kernel audit : PluginConfig) (observed : Chars → Option Chars) :
    (FileExact kernel observed ∧ RulesExact audit) ↔ (QuietExceptions kernel observed ∧ QuietCategories audit) :=
  and_congr fileExact_iff rulesExact_iff

/-- A reason with an assignment on a line of its own. -/
def loudException : PolicyException := ⟨"0", true, "noisy\nkernel.randomize_va_space = 0\n#", false⟩

def loudConfig : PluginConfig where
  directives := fun _ => none
  exceptions := fun key => if key = "net.ipv4.conf.default.log_martians".toList then some loudException else none

/-- Every parameter is observed at 0. -/
def loudHost : Chars → Option Chars := fun _ => some "0"

theorem reason_becomes_assignment : ¬ ∀ (kernel audit : PluginConfig) (observed : Chars → Option Chars),
    FileExact kernel observed ∧ RulesExact audit := by
  intro hall
  have hquiet := fileExact_iff.mp (hall loudConfig loudConfig loudHost).1
  have hmem : (⟨"net.ipv4.conf.default.log_martians", "1", "Logs martian packets for new interfaces", .low, .atLeast⟩ :
      KernelParameter) ∈ kernelParams := by decide +kernel
  have hloud : ¬ Quiet isLive loudException.reason := by decide +kernel
  exact hloud (hquiet _ hmem "0" rfl loudException (by decide +kernel))

end LinuxHardener.Kernel
