import LinuxHardener.Kernel.Sysctl

/-
  What a run intends for each parameter, and the file that carries it over a reboot.

  Correspondence (Rust ↔ Lean):
    `SYSCTL_DROPIN_DIR`, `SYSCTL_HARDENER_CONF`, `SYSCTL_CONFIG_HEADER` ↔ the same in camel case
    `PlannedParameter`, `plan_parameter` ↔ `PlannedParameter`, `planParameter`
    `push_config_section`  ↔ `PlannedParameter.pushConfigSection`, what it appends `configSection`
    the content `apply` writes and `validate` predicts ↔ `desiredConfig`

  What is proved: `liveLines_desiredConfig` — the lines of the file that are not comments,
  those of an exception's reason included.
-/
namespace LinuxHardener.Kernel

open LineText Plugins

def sysctlDropinDir : Chars := "/etc/sysctl.d"

def sysctlHardenerConf : Chars := "/etc/sysctl.d/99-hardener.conf"

def sysctlConfigHeader : Chars :=
  "# Kernel hardening settings applied by Linux Hardener\n# This file is managed automatically - manual edits will be overwritten\n\n"

inductive PlannedParameter where
  | excepted (observed reason : Chars)
  | setting (targetValue : Chars)
  deriving DecidableEq, Repr

/-- An exception counts where it documents the value observed. Otherwise the target is
clamped against that value. -/
def planParameter (p : KernelParameter) (config : PluginConfig) (observed : Option Chars) : PlannedParameter :=
  match observed.bind fun value => (config.matchingException p.name value).map fun e => (value, e) with
  | some (value, e) => .excepted value e.reason
  | none => .setting (p.compare.clampTarget (resolvedTarget p config) observed)

namespace PlannedParameter

def configSection (planned : PlannedParameter) (p : KernelParameter) : Chars :=
  match planned with
  | excepted _ reason => "# ".toList ++ p.name ++ ": SKIPPED (exception: ".toList ++ reason ++ ")\n\n".toList
  | setting target => "# ".toList ++ p.description ++ "\n".toList ++ p.name ++ " = ".toList ++ target ++ "\n\n".toList

def pushConfigSection (planned : PlannedParameter) (p : KernelParameter) (content : Chars) : Chars :=
  content ++ planned.configSection p

/-- The value a run means the parameter to have. -/
def target : PlannedParameter → Option Chars
  | excepted _ _ => none
  | setting targetValue => some targetValue

end PlannedParameter

section

variable (config : PluginConfig) (observed : Chars → Option Chars)

def desiredConfig : Chars :=
  kernelParams.foldl (fun content p => (planParameter p config (observed p.name)).pushConfigSection p content) sysctlConfigHeader

/-- What is planned for the parameter behind a key. -/
def plannedValue (key : Chars) : Option Chars :=
  (kernelParams.find? fun p => procfsKey p.name = key).bind fun p => (planParameter p config (observed p.name)).target

/-- The parameters that are set, and to what. -/
def plannedSettings : List (Chars × Chars) :=
  kernelParams.filterMap fun p => (planParameter p config (observed p.name)).target.map fun target => (p.name, target)

end

/-! ## The plan for one parameter -/

section

variable {p : KernelParameter} {config : PluginConfig} {observed : Option Chars}

theorem planParameter_excepted {value reason : Chars} :
    planParameter p config observed = .excepted value reason ↔
      observed = some value ∧ ∃ e, config.matchingException p.name value = some e ∧ e.reason = reason := by
  unfold planParameter
  cases observed with
  | none => simp
  | some v =>
    cases he : config.matchingException p.name v with
    | none =>
      simp only [Option.bind_some, he, Option.map_none, reduceCtorEq, false_iff]
      rintro ⟨hv, e, he', _⟩
      cases hv
      rw [he] at he'
      cases he'
    | some e =>
      simp only [Option.bind_some, he, Option.map_some, PlannedParameter.excepted.injEq, Option.some.injEq]
      constructor
      · rintro ⟨rfl, rfl⟩
        exact ⟨rfl, e, he, rfl⟩
      · rintro ⟨rfl, e', he', rfl⟩
        rw [he] at he'
        cases he'
        exact ⟨rfl, rfl⟩

theorem planParameter_setting {target : Chars} (h : planParameter p config observed = .setting target) :
    target = p.compare.clampTarget (resolvedTarget p config) observed := by
  unfold planParameter at h
  split at h
  · cases h
  · exact (PlannedParameter.setting.inj h).symm

/-- What is set is a number, no weaker than the target and than what was observed. -/
theorem setting_spec (hp : Sound p) {target : Chars} (h : planParameter p config observed = .setting target) :
    ∃ t, p.compare.place target = some t ∧ Numeral target ∧ (∀ b, p.compare.place p.secureValue = some b → b.1 ≤ t.1) ∧
      ∀ c, observed.bind p.compare.place = some c → c.1 ≤ t.1 := by
  rw [planParameter_setting h]
  obtain ⟨r, hr, _, hbase⟩ := place_resolvedTarget hp config
  obtain ⟨t, ht, _, hle, hcandidate, hnum⟩ := place_clamped hp observed hr
  exact ⟨t, ht, hnum, fun b hb => Int.le_trans (hbase b hb) hle, hcandidate⟩

end

/-! ## The lines of the file -/

theorem whole_blank (s : Chars) : Whole (s ++ "\n\n".toList) := .inr (by rw [List.getLast?_append]; rfl)

theorem isLive_comment {l : Chars} (h : (trim l).head? = some '#') : isLive l = false := by
  unfold isLive
  cases ht : trim l with
  | nil => rfl
  | cons c s =>
    rw [ht] at h
    cases h
    rfl

theorem liveLines_append {s : Chars} (hs : Whole s) (t : Chars) : liveLines (s ++ t) = liveLines s ++ liveLines t := by
  rw [liveLines, lines_append hs, List.filter_append]
  rfl

theorem PlannedParameter.whole_configSection (planned : PlannedParameter) (p : KernelParameter) :
    Whole (planned.configSection p) := by
  cases planned with
  | excepted observed reason =>
    unfold configSection
    exact .inr (by rw [List.getLast?_append]; rfl)
  | setting target => exact whole_blank _

/-- The live lines of a parameter's section. -/
def PlannedParameter.liveSection (planned : PlannedParameter) (p : KernelParameter) : List Chars :=
  match planned with
  | excepted _ reason => (strayLines reason).filter isLive
  | setting target => [settingLine p.name target]

theorem liveLines_excepted {p : KernelParameter} (hp : p ∈ kernelParams) (observed reason : Chars) :
    liveLines ((PlannedParameter.excepted observed reason).configSection p) = (strayLines reason).filter isLive := by
  have hline : '\n' ∉ '#' :: (' ' :: p.name ++ ": SKIPPED (exception: ".toList) := by
    have hname := (name_plain hp).plain.no_newline
    simp only [List.mem_cons, List.mem_append, hname]
    decide
  have hne : reason ++ ")\n".toList ≠ [] := by simp
  obtain ⟨l, hl, hhead⟩ := lines_prepend (by decide) hline hne
  have hcut : (PlannedParameter.excepted observed reason).configSection p =
      (('#' :: (' ' :: p.name ++ ": SKIPPED (exception: ".toList)) ++ (reason ++ ")\n".toList)) ++ "\n".toList := by
    change "# ".toList ++ p.name ++ ": SKIPPED (exception: ".toList ++ reason ++ ")\n\n".toList = _
    simp only [List.append_assoc, List.cons_append]
    rfl
  have hwhole : Whole (('#' :: (' ' :: p.name ++ ": SKIPPED (exception: ".toList)) ++ (reason ++ ")\n".toList)) :=
    .inr (by rw [List.getLast?_append, List.getLast?_append]; rfl)
  have hblank : liveLines "\n".toList = [] := by decide
  rw [hcut, liveLines_append hwhole, hblank, List.append_nil, liveLines, hl, List.filter_cons, isLive_comment hhead]
  rfl

theorem liveLines_setting {p : KernelParameter} (hp : p ∈ kernelParams) {target : Chars} (ht : Plain target) :
    liveLines ((PlannedParameter.setting target).configSection p) = [settingLine p.name target] := by
  have hdescription : '\n' ∉ '#' :: ' ' :: p.description := by
    have hnone := description_line hp
    simp only [List.mem_cons, hnone, or_false]
    decide
  have hset : '\n' ∉ settingLine p.name target := by
    unfold settingLine
    have hname := (name_plain hp).plain.no_newline
    have htarget := ht.no_newline
    simp [hname, htarget]
  have hcut : (PlannedParameter.setting target).configSection p =
      ('#' :: ' ' :: p.description) ++ '\n' :: (settingLine p.name target ++ '\n' :: "\n".toList) := by
    change "# ".toList ++ p.description ++ "\n".toList ++ p.name ++ " = ".toList ++ target ++ "\n\n".toList = _
    simp only [settingLine, List.append_assoc, List.cons_append]
    rfl
  have hcomment : isLive (stripTerminator (('#' :: ' ' :: p.description) ++ ['\n'])) = false :=
    isLive_comment (by rw [trim_stripTerminator, trim_concat isWhitespace_newline]; exact head_trim_cons (by decide) _)
  have hstrip : stripTerminator (settingLine p.name target ++ ['\n']) = settingLine p.name target := by
    have hlast : (settingLine p.name target).getLast? ≠ some '\r' := by
      unfold settingLine
      rw [List.getLast?_append_of_ne_nil _ ht.ne_nil]
      intro h
      have := ht.no_blank _ (List.mem_of_getLast? h)
      rw [isWhitespace_carriage] at this
      cases this
    unfold stripTerminator
    rw [List.getLast?_concat, if_pos rfl, List.dropLast_concat, if_neg hlast]
  have hblank : (lines "\n".toList).filter isLive = [] := by decide
  rw [liveLines, hcut, lines_cons hdescription, lines_cons hset, List.filter_cons, hcomment, hstrip, List.filter_cons,
    isLive_settingLine (name_plain hp) ht, hblank]
  rfl

theorem liveLines_configSection {p : KernelParameter} (hp : p ∈ kernelParams) (config : PluginConfig) (observed : Option Chars) :
    liveLines ((planParameter p config observed).configSection p) = (planParameter p config observed).liveSection p := by
  cases hplan : planParameter p config observed with
  | excepted value reason => exact liveLines_excepted hp value reason
  | setting target =>
    obtain ⟨_, _, hnum, _⟩ := setting_spec (sound hp) hplan
    exact liveLines_setting hp (plain_numeral hnum)

section

variable (config : PluginConfig) (observed : Chars → Option Chars)

theorem desiredConfig_eq : desiredConfig config observed =
    sysctlConfigHeader ++ kernelParams.flatMap fun p => (planParameter p config (observed p.name)).configSection p := by
  have hfold : ∀ (ps : List KernelParameter) (content : Chars),
      ps.foldl (fun content p => (planParameter p config (observed p.name)).pushConfigSection p content) content =
        content ++ ps.flatMap fun p => (planParameter p config (observed p.name)).configSection p := by
    intro ps
    induction ps with
    | nil => simp
    | cons p ps ih =>
      intro content
      rw [List.foldl_cons, ih, PlannedParameter.pushConfigSection, List.flatMap_cons, List.append_assoc]
  exact hfold kernelParams sysctlConfigHeader

set_option maxRecDepth 1000 in
/-- The header is a comment. -/
theorem header_chars : ∃ s, sysctlConfigHeader = s ∧ Whole s ∧ liveLines s = [] := by
  have hchars : sysctlConfigHeader = (_ : Chars) := String.toList_ofList
  rw [hchars]
  exact ⟨_, rfl, by decide +kernel, by decide +kernel⟩

theorem liveLines_desiredConfig : liveLines (desiredConfig config observed) =
    kernelParams.flatMap fun p => (planParameter p config (observed p.name)).liveSection p := by
  obtain ⟨header, hheader, hwhole, hlive⟩ := header_chars
  have hsections : liveLines (kernelParams.flatMap fun p => (planParameter p config (observed p.name)).configSection p) =
      kernelParams.flatMap fun p => liveLines ((planParameter p config (observed p.name)).configSection p) := by
    rw [liveLines, lines_flatMap fun p _ => PlannedParameter.whole_configSection _ p, List.filter_flatMap]
    exact List.flatMap_congr fun p _ => rfl
  rw [desiredConfig_eq, hheader, liveLines_append hwhole, hlive, List.nil_append, hsections]
  exact List.flatMap_congr fun p hp => liveLines_configSection hp config (observed p.name)

end

end LinuxHardener.Kernel
