import LinuxHardener.Kernel.GeneratedFiles
import LinuxHardener.Kernel.Run

/-
  Whether the kernel apply loosens, whether it converges, and whether the preview told.

  What is proved:
    1. `runtimeNoLooser`, `fileNoLooser` — what is written is no weaker than the secure value
       and than what was observed, and no exception covers it.
    2. `converges` — after a success nothing is left to write, where what was written is read
       back and no exception documents it.
    3. `previewTells` — the preview announces the writes that are made.
    4. `apply_law` — all of these; `law_exceptions` — what they rest on, one host for each.
-/
namespace LinuxHardener.Kernel

open LineText Plugins Dialogue
open Core (ApplyResult)

/-- A value no weaker than the secure one and than what was observed. -/
def NoLooser (p : KernelParameter) (observed : Option Chars) (value : Chars) : Prop :=
  ∃ t, p.compare.place value = some t ∧ (∀ b, p.compare.place p.secureValue = some b → b.1 ≤ t.1) ∧
    ∀ c, observed.bind p.compare.place = some c → c.1 ≤ t.1

/-- The mode and the mount of a parameter's file say whether it can be written. -/
def Reflects (h : KernelHost) : Prop := ∀ p ∈ kernelParams, (h.write (procPath p)).isOk = seenWritable h p

/-- An exception documents the value a parameter is observed at. -/
def Excepted (config : PluginConfig) (h : KernelHost) (p : KernelParameter) : Prop :=
  ∃ value e, h.observed p.name = some value ∧ config.matchingException p.name value = some e

section

variable (ctx : Context) (config : PluginConfig) (h : KernelHost)

/-- The writes an apply asks for, in order. -/
def attempted : List (Chars × Chars) := (h.session (applyPlugin ctx config)).1.filterMap writeOf

/-- What an apply leaves written, by path. -/
def written : Chars → Option Chars := settle ((h.session (applyPlugin ctx config)).1.filterMap madeOf)

/-- What is written to a parameter: no exception covers it, and it is not loosened. -/
def RuntimeNoLooser : Prop :=
  ∀ w ∈ attempted ctx config h, w.1 ≠ sysctlHardenerConf →
    ∃ p ∈ kernelParams, w.1 = procPath p ∧ ¬ Excepted config h p ∧ NoLooser p (h.observed p.name) w.2

/-- What the persistent file is made to assign. -/
def FileNoLooser : Prop :=
  ∀ w ∈ attempted ctx config h, w.1 = sysctlHardenerConf → ∀ key value, (parseSysctl w.2).values key = some value →
    ∃ p ∈ kernelParams, procfsKey p.name = key ∧ ¬ Excepted config h p ∧ NoLooser p (h.observed p.name) value

/-- After an apply that reported success, a second one writes nothing. -/
def Converges : Prop :=
  ∀ result, (h.session (applyPlugin ctx config)).2 = .ok result → result.success = true →
    attempted ctx config (h.afterwards (applyPlugin ctx config)) = []

/-- The preview announces the parameters that are changed, and the persistent file where it is
written, or cannot be. -/
def PreviewTells (writable : Bool) : Prop :=
  ∃ toldConfig : Bool,
    (h.session (validate config)).2.estimatedChanges =
        (kernelParams.filterMap fun p => (written ctx config h (procPath p)).map (announcement p (h.observed p.name))) ++
          (if toldConfig then [configAnnouncement] else []) ∧
      (written ctx config h sysctlHardenerConf).isSome = (toldConfig && writable)

variable {ctx config h}

/-! ## Writes -/

theorem pendingWrite_eq_some {p : KernelParameter} {target : Chars} :
    pendingWrite config h p = some target ↔ planParameter p config (h.observed p.name) = .setting target ∧
      p.compare.violatedBy target (h.observed p.name) = true := by
  unfold pendingWrite
  cases planParameter p config (h.observed p.name) with
  | excepted value reason => simp
  | setting t =>
    dsimp only
    split
    · next hv =>
      simp only [Option.some.injEq, PlannedParameter.setting.injEq]
      exact ⟨fun heq => ⟨heq, heq ▸ hv⟩, And.left⟩
    · next hv =>
      simp only [reduceCtorEq, PlannedParameter.setting.injEq, false_iff]
      rintro ⟨rfl, hv'⟩
      exact hv hv'

theorem noLooser_setting {p : KernelParameter} (hp : p ∈ kernelParams) {target : Chars}
    (hplan : planParameter p config (h.observed p.name) = .setting target) : NoLooser p (h.observed p.name) target := by
  obtain ⟨t, ht, _, hbase, hobserved⟩ := setting_spec (sound hp) hplan
  exact ⟨t, ht, hbase, hobserved⟩

theorem mem_writes {w : Chars × Chars} (hw : w ∈ writes config h) :
    (∃ p ∈ kernelParams, w.1 = procPath p ∧ pendingWrite config h p = some w.2) ∨
      (w.1 = sysctlHardenerConf ∧ w.2 = wantedConfig config h) := by
  rcases List.mem_append.mp hw with hw | hw
  · obtain ⟨p, hp, hsome⟩ := List.mem_filterMap.mp hw
    obtain ⟨target, htarget, rfl⟩ := Option.map_eq_some_iff.mp hsome
    exact .inl ⟨p, hp, rfl, htarget⟩
  · split at hw
    · rw [List.mem_singleton.mp hw]
      exact .inr ⟨rfl, rfl⟩
    · cases hw

/-- The assignments of the persistent file are what is planned. -/
theorem planned_of_value (hquiet : QuietExceptions config h.observed) {key value : Chars}
    (hvalue : (parseSysctl (wantedConfig config h)).values key = some value) :
    ∃ p ∈ kernelParams, procfsKey p.name = key ∧ planParameter p config (h.observed p.name) = .setting value := by
  rw [wantedConfig, (fileExact_iff.mpr hquiet).values] at hvalue
  obtain ⟨p, hfind, htarget⟩ := Option.bind_eq_some_iff.mp hvalue
  refine ⟨p, List.mem_of_find?_eq_some hfind, by simpa using List.find?_some hfind, ?_⟩
  cases hplan : planParameter p config (h.observed p.name) with
  | excepted value reason =>
    rw [hplan] at htarget
    cases htarget
  | setting target =>
    rw [hplan] at htarget
    cases htarget
    rfl

/-- An apply that does not get its checkpoint asks for no write. -/
theorem mem_attempted {w : Chars × Chars} (hw : w ∈ attempted ctx config h) : w ∈ writes config h := by
  unfold attempted at hw
  by_cases hcheckpoint : Checkpoints h ctx
  · rwa [(session_applyPlugin hcheckpoint).1] at hw
  · rw [(session_applyPlugin_refused hcheckpoint).1] at hw
    cases hw

theorem not_excepted {p : KernelParameter} {target : Chars} (hplan : planParameter p config (h.observed p.name) = .setting target) :
    ¬ Excepted config h p := by
  rintro ⟨value, e, hvalue, he⟩
  rw [planParameter_excepted.mpr ⟨hvalue, e, he, rfl⟩] at hplan
  cases hplan

theorem runtimeNoLooser : RuntimeNoLooser ctx config h := by
  intro w hw hne
  rcases mem_writes (mem_attempted hw) with ⟨p, hp, hpath, hpending⟩ | ⟨hpath, _⟩
  · have hplan := (pendingWrite_eq_some.mp hpending).1
    exact ⟨p, hp, hpath, not_excepted hplan, noLooser_setting hp hplan⟩
  · exact absurd hpath hne

theorem fileNoLooser (hquiet : QuietExceptions config h.observed) : FileNoLooser ctx config h := by
  intro w hw hconf key value hvalue
  rcases mem_writes (mem_attempted hw) with ⟨p, _, hpath, _⟩ | ⟨_, hcontent⟩
  · exact absurd (hpath.symm.trans hconf) (procPath_ne_conf p)
  · rw [hcontent] at hvalue
    obtain ⟨p, hp, hkey, hplan⟩ := planned_of_value hquiet hvalue
    exact ⟨p, hp, hkey, not_excepted hplan, noLooser_setting hp hplan⟩

/-! ## A second apply -/

/-- What an apply reads and writes back can be read. -/
def Readable (h : KernelHost) : Prop :=
  (∀ p ∈ kernelParams, h.refuses (procPath p) = none) ∧ h.refuses sysctlHardenerConf = none

/-- No exception documents a value that apply is about to write. -/
def NoSelfException (config : PluginConfig) (h : KernelHost) : Prop :=
  ∀ p ∈ kernelParams, ∀ target, pendingWrite config h p = some target → config.matchingException p.name target = none

theorem read_hostAfter {p : KernelParameter} (hp : p ∈ kernelParams) :
    (hostAfter config h).read (procPath p) = tunedRead config h p := by
  have hloop := @read_foldl_tuned config h p _ (List.Subset.refl kernelParams) nodup_kernelParams hp
  unfold hostAfter
  split
  · rw [← hloop]
    unfold KernelHost.read KernelHost.store
    simp only [if_neg (procPath_ne_conf p)]
  · exact hloop

theorem trim_newline {s : Chars} (hs : Plain s) : LineText.trim (s ++ ['\n']) = s := by
  rw [trim_concat isWhitespace_newline, hs.trim_eq]

/-- What a run that settled everything leaves to be observed. -/
theorem observed_hostAfter {p : KernelParameter} (hp : p ∈ kernelParams) (hsettled : settlesParameter config h p = true)
    (hreads : h.refuses (procPath p) = none) :
    (hostAfter config h).observed p.name = ((pendingWrite config h p).or (h.observed p.name)) := by
  show ((hostAfter config h).read (procPath p)).toOption.map LineText.trim = _
  rw [read_hostAfter hp]
  unfold tunedRead
  unfold settlesParameter at hsettled
  cases hpending : pendingWrite config h p with
  | none => rfl
  | some target =>
    rw [hpending] at hsettled
    obtain ⟨_, _, hnum, _⟩ := setting_spec (sound hp) (pendingWrite_eq_some.mp hpending).1
    cases hwrite : h.write (procPath p) with
    | error e =>
      rw [hwrite] at hsettled
      cases hsettled
    | ok _ =>
      rw [hreads]
      show some (LineText.trim (target ++ ['\n'])) = some target
      rw [trim_newline (plain_numeral hnum)]

/-- The plan stands, and there is nothing left to write to the parameter. -/
theorem plan_hostAfter {p : KernelParameter} (hp : p ∈ kernelParams) (hsettled : settlesParameter config h p = true)
    (hreads : h.refuses (procPath p) = none)
    (hself : ∀ target, pendingWrite config h p = some target → config.matchingException p.name target = none) :
    planParameter p config ((hostAfter config h).observed p.name) = planParameter p config (h.observed p.name) ∧
      pendingWrite config (hostAfter config h) p = none := by
  have hobserved := observed_hostAfter hp hsettled hreads
  cases hpending : pendingWrite config h p with
  | none =>
    rw [hpending, Option.none_or] at hobserved
    rw [hobserved]
    refine ⟨rfl, ?_⟩
    rw [pendingWrite, hobserved, ← pendingWrite, hpending]
  | some target =>
    rw [hpending, Option.some_or] at hobserved
    obtain ⟨hplan, _⟩ := pendingWrite_eq_some.mp hpending
    obtain ⟨r, hr, _, _⟩ := place_resolvedTarget (sound hp) config
    obtain ⟨t, ht, _⟩ := setting_spec (sound hp) hplan
    have hagain : planParameter p config (some target) = .setting target := by
      unfold planParameter
      rw [Option.bind_some, hself target hpending, Option.map_none]
      show PlannedParameter.setting (p.compare.clampTarget (resolvedTarget p config) (some target)) = _
      rw [planParameter_setting hplan, Strictness.clampTarget_idem (sound hp).faithful hr]
    refine ⟨by rw [hobserved, hagain, hplan], ?_⟩
    unfold pendingWrite
    rw [hobserved, hagain]
    exact if_neg (by rw [Strictness.not_violatedBy_self ht]; exact Bool.false_ne_true)

theorem converges (hreadable : Readable h) (hself : NoSelfException config h) : Converges ctx config h := by
  intro result houtcome hsuccess
  have hcheckpoint : Checkpoints h ctx := by
    by_contra hnone
    obtain ⟨e, he⟩ := (@session_applyPlugin_refused config h ctx hnone).2.2
    rw [he] at houtcome
    cases houtcome
  obtain ⟨_, _, hafter, result', houtcome', hsucceeds⟩ := @session_applyPlugin config h ctx hcheckpoint
  rw [houtcome'] at houtcome
  cases houtcome
  rw [hsuccess] at hsucceeds
  have hboth := hsucceeds.symm
  unfold succeeds at hboth
  rw [Bool.and_eq_true, List.all_eq_true] at hboth
  obtain ⟨hsettled, hconfig⟩ := hboth
  have hplans : ∀ p ∈ kernelParams, planParameter p config ((hostAfter config h).observed p.name) =
      planParameter p config (h.observed p.name) ∧ pendingWrite config (hostAfter config h) p = none :=
    fun p hp => plan_hostAfter hp (hsettled p hp) (hreadable.1 p hp) (hself p hp)
  have hwanted : wantedConfig config (hostAfter config h) = wantedConfig config h := by
    unfold wantedConfig
    rw [desiredConfig_eq, desiredConfig_eq]
    exact congrArg (sysctlConfigHeader ++ ·) (List.flatMap_congr fun p hp => by rw [(hplans p hp).1])
  have hruntime : runtimeWrites config (hostAfter config h) = [] := by
    refine List.filterMap_eq_nil_iff.mpr fun p hp => ?_
    rw [(hplans p hp).2, Option.map_none]
  have hchanges : changesRuntime config (hostAfter config h) = false := by
    refine List.any_eq_false.mpr fun p hp => ?_
    rw [changesParameter, (hplans p hp).2]
    exact Bool.false_ne_true
  have hfile : ((hostAfter config h).read sysctlHardenerConf).toOption = some (wantedConfig config h) := by
    obtain ⟨_, hrefuses, hread⟩ := @frame_foldl_tuned config h kernelParams
    unfold hostAfter
    cases hrewrites : rewritesConfig config h with
    | false =>
      rw [Bool.false_and, if_neg Bool.false_ne_true, hread]
      unfold rewritesConfig needsConfig at hrewrites
      simpa using (Bool.or_eq_false_iff.mp hrewrites).2
    | true =>
      rw [hrewrites, Bool.not_true, Bool.false_or] at hconfig
      rw [hconfig, Bool.and_true, if_pos rfl]
      unfold KernelHost.read KernelHost.store KernelHost.stored
      simp only [hrefuses, hreadable.2, if_true]
      rfl
  have hrewrites : rewritesConfig config (hostAfter config h) = false := by
    rw [rewritesConfig, needsConfig, hchanges, hwanted, hfile, Bool.false_or, bne_self_eq_false]
  rw [hafter, List.eq_nil_iff_forall_not_mem]
  intro w hw
  have := mem_attempted hw
  rw [writes, hruntime, hrewrites, Bool.false_and, if_neg Bool.false_ne_true] at this
  cases this

/-! ## The preview -/

/-- What the loop leaves written to a parameter. -/
def tunedTo (config : PluginConfig) (h : KernelHost) (p : KernelParameter) : Option Chars :=
  if (h.write (procPath p)).isOk then pendingWrite config h p else none

theorem nodup_procPath : (kernelParams.map procPath).Nodup :=
  nodup_kernelParams.map_on fun _ hp _ hq heq => procPath_inj hp hq heq

theorem filter_runtimeWrites : (runtimeWrites config h).filter (fun w => (h.write w.1).isOk) =
    kernelParams.filterMap fun p => (tunedTo config h p).map fun target => (procPath p, target) := by
  unfold runtimeWrites tunedTo
  rw [List.filter_filterMap]
  refine List.filterMap_congr fun p _ => ?_
  cases pendingWrite config h p with
  | none => rw [ite_self]; rfl
  | some target =>
    show Option.filter _ (some (procPath p, target)) = _
    rw [Option.filter_some]
    dsimp only
    split <;> rfl

theorem written_eq (hcheckpoint : Checkpoints h ctx) : written ctx config h =
    overlay (settle (kernelParams.filterMap fun p => (tunedTo config h p).map fun target => (procPath p, target)))
      (settle (if rewritesConfig config h && configWritable h (dirError h) then [(sysctlHardenerConf, wantedConfig config h)] else [])) := by
  unfold written
  rw [(session_applyPlugin hcheckpoint).2.1, madeWrites, settle_append, filter_runtimeWrites]

theorem written_parameter (hcheckpoint : Checkpoints h ctx) {p : KernelParameter} (hp : p ∈ kernelParams) :
    written ctx config h (procPath p) = tunedTo config h p := by
  have hconf : settle (if rewritesConfig config h && configWritable h (dirError h) then
      [(sysctlHardenerConf, wantedConfig config h)] else []) (procPath p) = none := by
    refine settle_eq_none.mpr fun w hw => ?_
    split at hw
    · rw [List.mem_singleton.mp hw]
      exact (procPath_ne_conf p).symm
    · cases hw
  have hfind : (kernelParams.find? fun q => procPath q = procPath p) = some p := by
    obtain ⟨q, hq⟩ := Option.isSome_iff_exists.mp
      (List.find?_isSome.mpr ⟨p, hp, decide_eq_true rfl⟩ : (kernelParams.find? fun q => procPath q = procPath p).isSome)
    have hpath : procPath q = procPath p := by simpa using List.find?_some hq
    rw [hq, procPath_inj (List.mem_of_find?_eq_some hq) hp hpath]
  rw [written_eq hcheckpoint, overlay, hconf, Option.none_or, settle_filterMap nodup_procPath, hfind, Option.bind_some]

theorem written_conf (hcheckpoint : Checkpoints h ctx) :
    (written ctx config h sysctlHardenerConf).isSome = (rewritesConfig config h && configWritable h (dirError h)) := by
  have hruntime : settle (kernelParams.filterMap fun p => (tunedTo config h p).map fun target => (procPath p, target))
      sysctlHardenerConf = none := by
    refine settle_eq_none.mpr fun w hw => ?_
    obtain ⟨p, _, hsome⟩ := List.mem_filterMap.mp hw
    obtain ⟨target, _, rfl⟩ := Option.map_eq_some_iff.mp hsome
    exact procPath_ne_conf p
  rw [written_eq hcheckpoint, overlay, hruntime, Option.or_none]
  split
  · next hmade => rw [hmade]; rfl
  · next hmade => rw [eq_false_of_ne_true hmade]; rfl

theorem announced_eq (hreflects : Reflects h) {p : KernelParameter} (hp : p ∈ kernelParams) :
    announced config h p = (tunedTo config h p).map (announcement p (h.observed p.name)) := by
  unfold announced tunedTo
  rw [hreflects p hp]
  split <;> rfl

theorem announcesConfig_eq (hreflects : Reflects h) : announcesConfig config h = rewritesConfig config h := by
  have hany : (kernelParams.any fun p => (announced config h p).isSome) = changesRuntime config h := by
    unfold changesRuntime
    rw [Bool.eq_iff_iff, List.any_eq_true, List.any_eq_true]
    refine exists_congr fun p => and_congr_right fun hp => ?_
    rw [announced_eq hreflects hp, Option.isSome_map, tunedTo, changesParameter, Bool.and_comm]
    cases (h.write (procPath p)).isOk <;> simp
  rw [announcesConfig, hany, rewritesConfig]

theorem estimatedChanges_eq (hreflects : Reflects h) (hcheckpoint : Checkpoints h ctx) :
    (h.session (validate config)).2.estimatedChanges =
      (kernelParams.filterMap fun p => (written ctx config h (procPath p)).map (announcement p (h.observed p.name))) ++
        if rewritesConfig config h then [configAnnouncement] else [] := by
  rw [session_validate, announcesConfig_eq hreflects]
  refine congrArg (· ++ _) (List.filterMap_congr fun p hp => ?_)
  rw [announced_eq hreflects hp, written_parameter hcheckpoint hp]

theorem previewTells (hreflects : Reflects h) (hcheckpoint : Checkpoints h ctx) :
    PreviewTells ctx config h (configWritable h (dirError h)) :=
  ⟨rewritesConfig config h, estimatedChanges_eq hreflects hcheckpoint, written_conf hcheckpoint⟩

/-! ## The law -/

/-- What an apply writes, what is left to a second one, and what the preview told. -/
theorem apply_law (ctx : Context) (config : PluginConfig) (h : KernelHost) (hreflects : Reflects h) :
    RuntimeNoLooser ctx config h ∧
      (QuietExceptions config h.observed → FileNoLooser ctx config h) ∧
      (Readable h → NoSelfException config h → Converges ctx config h) ∧
      (Checkpoints h ctx → PreviewTells ctx config h (configWritable h (dirError h))) :=
  ⟨runtimeNoLooser, fileNoLooser, converges, previewTells hreflects⟩

end

/-! ## Hosts -/

/-- Everything reads 0 and can be written; there is no drop-in yet. -/
def openHost : KernelHost where
  file := fun path => if path = sysctlHardenerConf then none else some "0\n"
  refuses := fun _ => none
  write := fun _ => .ok ()
  metadata := fun _ => .ok ⟨true, true, false, BitVec.ofNat 32 0o644, BitVec.ofNat 64 2, BitVec.ofNat 32 0, BitVec.ofNat 32 0⟩
  mount := fun _ => .ok ⟨"rw,relatime\n", [], 0⟩
  dropinDir := .ok true
  mkdir := .ok ⟨[], [], 0⟩
  checkpoint := .ok "1"

def noConfig : PluginConfig := ⟨fun _ => none, fun _ => none⟩

theorem absent_open : (openHost.read sysctlHardenerConf).toOption = none := by decide

theorem seenWritable_open (p : KernelParameter) : seenWritable openHost p = true := by
  unfold seenWritable
  dsimp only [openHost]
  decide

theorem reflects_open : Reflects openHost := fun p _ => (seenWritable_open p).symm

/-- A host with nothing in its way, and no exceptions. -/
theorem apply_law_open : RuntimeNoLooser ⟨false, true⟩ noConfig openHost ∧ Converges ⟨false, true⟩ noConfig openHost := by
  obtain ⟨hruntime, _, hconverges, _⟩ := apply_law ⟨false, true⟩ noConfig openHost reflects_open
  exact ⟨hruntime, hconverges ⟨fun _ _ => rfl, rfl⟩ fun _ _ _ _ => rfl⟩

/-! ## What the law rests on -/

section

variable {config : PluginConfig} {h : KernelHost}

theorem settles_of_writable (hwrite : ∀ path, h.write path = .ok ()) (p : KernelParameter) :
    settlesParameter config h p = true := by
  rw [settlesParameter, hwrite]
  exact Bool.or_true _

theorem dirError_of_present (hdir : h.dropinDir = .ok true) : dirError h = none := by
  unfold dirError ensureDirectory pathExists
  rw [KernelHost.session_bind, KernelHost.session_ask]
  simp only [show ∀ path, h.respond (.pathExists path) = h.dropinDir from fun _ => rfl, hdir]
  rfl

theorem configWritable_of_writable (hwrite : ∀ path, h.write path = .ok ()) (hdir : h.dropinDir = .ok true) :
    configWritable h (dirError h) = true := by
  rw [configWritable, dirError_of_present hdir, hwrite]
  rfl

theorem succeeds_of_writable (hwrite : ∀ path, h.write path = .ok ()) (hdir : h.dropinDir = .ok true) :
    succeeds config h = true := by
  rw [succeeds, List.all_eq_true.mpr fun p _ => settles_of_writable hwrite p, configWritable_of_writable hwrite hdir]
  exact Bool.or_true _

theorem dropinDir_hostAfter : (hostAfter config h).dropinDir = h.dropinDir := by
  have hreact : ∀ (h : KernelHost) (e : Exchange), (h.react e).dropinDir = h.dropinDir := by
    intro h e
    unfold KernelHost.react
    split <;> rfl
  have hloop : ∀ (ps : List KernelParameter) (h : KernelHost), (ps.foldl (tuned config) h).dropinDir = h.dropinDir := by
    intro ps
    induction ps with
    | nil => exact fun _ => rfl
    | cons p ps ih =>
      intro h
      rw [List.foldl_cons, ih]
      unfold tuned
      split
      · exact hreact h _
      · rfl
  unfold hostAfter
  split
  · exact hloop kernelParams h
  · exact hloop kernelParams h

theorem refuses_hostAfter : (hostAfter config h).refuses = h.refuses := by
  obtain ⟨_, hrefuses, _⟩ := @frame_foldl_tuned config h kernelParams
  unfold hostAfter
  split
  · exact hrefuses
  · exact hrefuses

theorem read_conf_hostAfter (hreads : h.refuses sysctlHardenerConf = none)
    (hmade : (rewritesConfig config h && configWritable h (dirError h)) = true) :
    ((hostAfter config h).read sysctlHardenerConf).toOption = some (wantedConfig config h) := by
  have hrefused : (hostAfter config h).refuses sysctlHardenerConf = none := by rw [refuses_hostAfter, hreads]
  unfold KernelHost.read
  rw [hrefused]
  unfold hostAfter
  rw [hmade, if_pos rfl]
  unfold KernelHost.store KernelHost.stored
  simp only [if_true]
  rfl

theorem rewritesConfig_of_absent (hread : (h.read sysctlHardenerConf).toOption = none) : rewritesConfig config h = true := by
  rw [rewritesConfig, needsConfig, hread]
  exact Bool.or_true _

theorem conf_mem_attempted {ctx : Context} (hcheckpoint : Checkpoints h ctx) (hdir : h.dropinDir = .ok true)
    (hread : (h.read sysctlHardenerConf).toOption = none) :
    (sysctlHardenerConf, wantedConfig config h) ∈ attempted ctx config h := by
  have hrewrites : rewritesConfig config h = true := rewritesConfig_of_absent hread
  rw [attempted, (session_applyPlugin hcheckpoint).1, writes, hrewrites, dirError_of_present hdir]
  exact List.mem_append_right _ (List.mem_singleton.mpr rfl)

theorem wantedConfig_of_quiet (hquiet : rewritesConfig config h = false) :
    (h.read sysctlHardenerConf).toOption = some (wantedConfig config h) := by
  rw [rewritesConfig, needsConfig, Bool.or_eq_false_iff] at hquiet
  exact bne_eq_false_iff_eq.mp hquiet.2

end

def dmesgRestrict : KernelParameter :=
  ⟨"kernel.dmesg_restrict", "1", "Restricts dmesg access to privileged users only", .medium, .atLeast⟩

theorem dmesgRestrict_mem : dmesgRestrict ∈ kernelParams := by decide

theorem writes_ne_nil {config : PluginConfig} {h : KernelHost} {p : KernelParameter} (hp : p ∈ kernelParams) {target : Chars}
    (hpending : pendingWrite config h p = some target) : writes config h ≠ [] := by
  have hmem : (procPath p, target) ∈ runtimeWrites config h := List.mem_filterMap.mpr ⟨p, hp, by rw [hpending, Option.map_some]⟩
  exact List.append_ne_nil_of_left_ne_nil (List.ne_nil_of_mem hmem) _

/-- Where writes go through, a second apply that writes nothing had nothing to write. -/
theorem writes_hostAfter {config : PluginConfig} {h : KernelHost} (hwrite : ∀ path, h.write path = .ok ())
    (hdir : h.dropinDir = .ok true) (hconverges : Converges ⟨false, false⟩ config h) : writes config (hostAfter config h) = [] := by
  have hcheckpoint : ∀ h : KernelHost, Checkpoints h ⟨false, false⟩ := fun _ hm => by cases hm
  obtain ⟨_, _, hafter, result, houtcome, hsuccess⟩ := @session_applyPlugin config h ⟨false, false⟩ (hcheckpoint h)
  have hnothing := hconverges result houtcome (hsuccess.trans (succeeds_of_writable hwrite hdir))
  rwa [hafter, attempted, (session_applyPlugin (hcheckpoint _)).1] at hnothing

/-- A parameter that cannot be read is written by every apply. -/
def blindHost : KernelHost :=
  { openHost with refuses := fun path => if path = procPath dmesgRestrict then some "Permission denied" else none }

theorem not_converges_blind : ¬ Converges ⟨false, false⟩ noConfig blindHost := by
  intro hconverges
  have hobserved : (hostAfter noConfig blindHost).observed dmesgRestrict.name = none := by
    have hrefused : blindHost.refuses (procPath dmesgRestrict) = some "Permission denied".toList := by
      dsimp only [blindHost]
      exact if_pos rfl
    show ((hostAfter noConfig blindHost).read (procPath dmesgRestrict)).toOption.map LineText.trim = none
    unfold KernelHost.read
    rw [refuses_hostAfter, hrefused]
    rfl
  have hpending : pendingWrite noConfig (hostAfter noConfig blindHost) dmesgRestrict = some "1" := by
    unfold pendingWrite
    rw [hobserved]
    decide
  exact writes_ne_nil dmesgRestrict_mem hpending (writes_hostAfter (fun _ => rfl) rfl hconverges)

/-- An exception for the value that the parameter is about to be set to. -/
def selfException : PluginConfig where
  directives := fun _ => none
  exceptions := fun key => if key = dmesgRestrict.name then some ⟨"1", true, "measured", false⟩ else none

theorem quiet_self (observed : Chars → Option Chars) : QuietExceptions selfException observed := by
  intro p _ value _ e he
  have hreason : e.reason = "measured".toList := by
    obtain ⟨he, _⟩ := Option.filter_eq_some_iff.mp he
    obtain ⟨he, _⟩ := Option.filter_eq_some_iff.mp he
    change (if p.name = dmesgRestrict.name then some _ else none) = some e at he
    split at he
    · cases he
      rfl
    · cases he
  rw [hreason]
  decide

theorem plannedValue_of_mem {config : PluginConfig} {observed : Chars → Option Chars} {p : KernelParameter} (hp : p ∈ kernelParams) :
    plannedValue config observed (procfsKey p.name) = (planParameter p config (observed p.name)).target := by
  obtain ⟨q, hq⟩ := Option.isSome_iff_exists.mp (List.find?_isSome.mpr ⟨p, hp, decide_eq_true rfl⟩ :
    (kernelParams.find? fun q => procfsKey q.name = procfsKey p.name).isSome)
  have hkey : procfsKey q.name = procfsKey p.name := by simpa using List.find?_some hq
  obtain rfl := List.inj_on_of_nodup_map nodup_procfsKey (List.mem_of_find?_eq_some hq) hp hkey
  rw [plannedValue, hq, Option.bind_some]

/-- The first apply sets the parameter; the second finds it excepted and takes it out of the
file. -/
theorem not_converges_self : ¬ Converges ⟨false, false⟩ selfException openHost := by
  intro hconverges
  have hnothing := writes_hostAfter (fun _ => rfl) rfl hconverges
  have hpending : pendingWrite selfException openHost dmesgRestrict = some "1" := by decide
  have hobserved : (hostAfter selfException openHost).observed dmesgRestrict.name = some "1" := by
    rw [observed_hostAfter dmesgRestrict_mem (settles_of_writable (fun _ => rfl) _) rfl, hpending]
    rfl
  have hrewrites : rewritesConfig selfException openHost = true := rewritesConfig_of_absent absent_open
  have hfile : ((hostAfter selfException openHost).read sysctlHardenerConf).toOption =
      some (wantedConfig selfException openHost) := by
    refine read_conf_hostAfter rfl ?_
    rw [hrewrites, configWritable_of_writable (fun _ => rfl) rfl]
    rfl
  have hvalue : ∀ observed : Chars → Option Chars, (parseSysctl (desiredConfig selfException observed)).values
      (procfsKey dmesgRestrict.name) = (planParameter dmesgRestrict selfException (observed dmesgRestrict.name)).target := by
    intro observed
    rw [(fileExact_iff.mpr (quiet_self observed)).values, plannedValue_of_mem dmesgRestrict_mem]
  have hsame : wantedConfig selfException (hostAfter selfException openHost) = wantedConfig selfException openHost := by
    have hquiet : rewritesConfig selfException (hostAfter selfException openHost) = false := by
      have hdir : dirError (hostAfter selfException openHost) = none := dirError_of_present dropinDir_hostAfter
      have hnone := (List.append_eq_nil_iff.mp hnothing).2
      rw [hdir] at hnone
      by_contra htrue
      rw [Bool.not_eq_false] at htrue
      rw [htrue] at hnone
      cases hnone
    have hread := wantedConfig_of_quiet hquiet
    rw [hfile] at hread
    exact (Option.some.inj hread).symm
  have hfirst := hvalue openHost.observed
  have hsecond := hvalue (hostAfter selfException openHost).observed
  rw [← wantedConfig, (pendingWrite_eq_some.mp hpending).1] at hfirst
  rw [← wantedConfig, hsame, hfirst, hobserved] at hsecond
  revert hsecond
  decide

def logMartians : KernelParameter :=
  ⟨"net.ipv4.conf.default.log_martians", "1", "Logs martian packets for new interfaces", .low, .atLeast⟩

/-- The line that an exception's reason smuggles in stands behind the file's own. -/
theorem value_loud : (parseSysctl (wantedConfig loudConfig openHost)).values "kernel/randomize_va_space" = some "0" := by
  have hsplit : kernelParams = kernelParams.dropLast ++ [logMartians] :=
    (List.dropLast_append_getLast (List.cons_ne_nil _ _)).symm
  have hlast : (planParameter logMartians loudConfig (openHost.observed logMartians.name)).liveSection logMartians =
      ["kernel.randomize_va_space = 0".toList] := by decide
  have hline : ["kernel.randomize_va_space = 0".toList].filterMap (fun line => (sysctlLine line).assignment) =
      [("kernel/randomize_va_space".toList, "0".toList)] := by decide
  rw [parseSysctl_eq, ← assignments_live, wantedConfig, liveLines_desiredConfig, hsplit, List.flatMap_append,
    List.flatMap_singleton, hlast, List.filterMap_append, hline]
  show settle (_ ++ [_]) _ = _
  rw [settle_concat]
  exact if_pos rfl

/-- A file that turns address space randomisation off is looser than the baseline. -/
theorem not_fileNoLooser {ctx : Context} {config : PluginConfig} {h : KernelHost} {content : Chars}
    (hmem : (sysctlHardenerConf, content) ∈ attempted ctx config h)
    (hvalue : (parseSysctl content).values "kernel/randomize_va_space" = some "0") : ¬ FileNoLooser ctx config h := by
  intro hlaw
  obtain ⟨p, hp, hkey, _, t, ht, hbase, _⟩ := hlaw _ hmem rfl _ _ hvalue
  have hfirst : (⟨"kernel.randomize_va_space", "2", "Enable full address space layout randomisation (ASLR)", .high, .atLeast⟩ :
      KernelParameter) ∈ kernelParams := List.mem_cons_self
  obtain rfl := List.inj_on_of_nodup_map nodup_procfsKey hp hfirst (hkey.trans (by decide))
  have hzero : Strictness.atLeast.place "0" = some ((0 : Int), "0".toList) := by decide
  have htwo : Strictness.atLeast.place "2" = some ((2 : Int), "2".toList) := by decide
  have hle := hbase _ htwo
  rw [hzero] at ht
  cases ht
  revert hle
  decide

theorem not_fileNoLooser_loud : ¬ FileNoLooser ⟨false, false⟩ loudConfig openHost :=
  not_fileNoLooser (conf_mem_attempted (fun hm => by cases hm) rfl absent_open) value_loud

section

variable {ctx : Context} {config : PluginConfig} {h : KernelHost}

theorem told_eq {a b : Bool} {line : Chars} (heq : (if a then [line] else []) = if b then [line] else []) : a = b := by
  cases a <;> cases b <;> simp at heq ⊢

/-- What the preview tells of the persistent file settles what may be asked of it. -/
theorem writable_of_previewTells (hreflects : Reflects h) (hcheckpoint : Checkpoints h ctx) {writable : Bool}
    (htells : PreviewTells ctx config h writable) :
    (rewritesConfig config h && configWritable h (dirError h)) = (rewritesConfig config h && writable) := by
  obtain ⟨toldConfig, hchanges, hconf⟩ := htells
  rw [estimatedChanges_eq hreflects hcheckpoint, List.append_cancel_left_eq] at hchanges
  rw [← written_conf hcheckpoint, hconf, told_eq hchanges]

end

/-- The drop-in cannot be written. -/
def sealedHost : KernelHost :=
  { openHost with write := fun path => if path = sysctlHardenerConf then .error "Read-only file system" else .ok () }

theorem reflects_sealed : Reflects sealedHost := by
  intro p _
  have hwrite : sealedHost.write (procPath p) = .ok () := by
    dsimp only [sealedHost]
    exact if_neg (procPath_ne_conf p)
  rw [hwrite]
  exact (seenWritable_open p).symm

theorem not_previewTells_sealed : ¬ PreviewTells ⟨false, false⟩ noConfig sealedHost true := by
  intro htells
  have hrewrites : rewritesConfig noConfig sealedHost = true := rewritesConfig_of_absent absent_open
  have hwrite : (sealedHost.write sysctlHardenerConf).isOk = false := by decide
  have hwritable := writable_of_previewTells reflects_sealed (fun hm => by cases hm) htells
  rw [hrewrites, configWritable, hwrite, Bool.and_false] at hwritable
  cases hwritable

/-- No checkpoint can be taken. -/
def uncheckedHost : KernelHost := { openHost with checkpoint := .error "database is locked" }

theorem not_previewTells_unchecked : ¬ PreviewTells ⟨false, true⟩ noConfig uncheckedHost true := by
  rintro ⟨toldConfig, hchanges, hconf⟩
  have hrefused : ¬ Checkpoints uncheckedHost ⟨false, true⟩ := by
    intro hcheckpoint
    obtain ⟨id, hid⟩ := hcheckpoint rfl
    cases hid
  have hwritten : written ⟨false, true⟩ noConfig uncheckedHost = fun _ => none := by
    rw [written, (session_applyPlugin_refused hrefused).2.1, settle_nil]
  have htold : toldConfig = false := by
    rw [hwritten, Bool.and_true] at hconf
    exact hconf.symm
  have hreflects : Reflects uncheckedHost := fun p _ => (seenWritable_open p).symm
  have hrewrites : rewritesConfig noConfig uncheckedHost = true := rewritesConfig_of_absent absent_open
  have hnone : (kernelParams.filterMap fun p => (written ⟨false, true⟩ noConfig uncheckedHost (procPath p)).map
      (announcement p (uncheckedHost.observed p.name))) = [] := by
    refine List.filterMap_eq_nil_iff.mpr fun p _ => ?_
    rw [hwritten, Option.map_none]
  rw [session_validate, announcesConfig_eq hreflects, hrewrites, hnone, htold] at hchanges
  exact List.append_ne_nil_of_right_ne_nil _ (List.cons_ne_nil _ _) hchanges

/-- Without each of its conditions, the law fails on some host. -/
theorem law_exceptions :
    (¬ ∀ ctx config h, Reflects h → FileNoLooser ctx config h) ∧
      (¬ ∀ ctx config h, Reflects h → NoSelfException config h → Converges ctx config h) ∧
      (¬ ∀ ctx config h, Reflects h → Readable h → Converges ctx config h) ∧
      (¬ ∀ ctx config h, Reflects h → Checkpoints h ctx → PreviewTells ctx config h true) ∧
      ¬ ∀ ctx config h, Reflects h → PreviewTells ctx config h (configWritable h (dirError h)) := by
  refine ⟨fun hall => ?_, fun hall => ?_, fun hall => ?_, fun hall => ?_, fun hall => ?_⟩
  · exact not_fileNoLooser_loud (hall _ _ _ reflects_open)
  · exact not_converges_blind (hall _ _ _ (fun p _ => (seenWritable_open p).symm) fun _ _ _ _ => rfl)
  · exact not_converges_self (hall _ _ _ reflects_open ⟨fun _ _ => rfl, rfl⟩)
  · exact not_previewTells_sealed (hall _ _ _ reflects_sealed fun hm => by cases hm)
  · have htells := hall ⟨false, true⟩ noConfig uncheckedHost fun p _ => (seenWritable_open p).symm
    rw [@configWritable_of_writable uncheckedHost (fun _ => rfl) rfl] at htells
    exact not_previewTells_unchecked htells

end LinuxHardener.Kernel
