import LinuxHardener.Kernel.Host

/-
  An apply as a whole, and the preview as a whole, on a host.

  What is proved:
    1. `session_applyPlugin` — an apply as its writes, its outcome and the host it leaves.
    2. `session_validate` — what the preview announces.
-/
namespace LinuxHardener.Kernel

open LineText Plugins Dialogue
open Core (ApplyResult ValidationReport)

section

variable (config : PluginConfig) (h : KernelHost)

/-! ## An apply as a whole -/

/-- Why the drop-in directory could not be made, if it could not. -/
def dirError : Option Chars := (h.session (ensureDirectory sysctlDropinDir)).2

/-- The file an apply wants on the host. -/
def wantedConfig : Chars := desiredConfig config h.observed

def changesRuntime : Bool := kernelParams.any (changesParameter config h)

/-- Whether an apply sets about writing the persistent file. -/
def rewritesConfig : Bool := needsConfig h (changesRuntime config h) (wantedConfig config h)

def runtimeWrites : List (Chars × Chars) :=
  kernelParams.filterMap fun p => (pendingWrite config h p).map fun target => (procPath p, target)

/-- The writes an apply asks for. -/
def writes : List (Chars × Chars) :=
  runtimeWrites config h ++
    if rewritesConfig config h && (dirError h).isNone then [(sysctlHardenerConf, wantedConfig config h)] else []

/-- The writes an apply makes. -/
def madeWrites : List (Chars × Chars) :=
  (runtimeWrites config h).filter (fun w => (h.write w.1).isOk) ++
    if rewritesConfig config h && configWritable h (dirError h) then [(sysctlHardenerConf, wantedConfig config h)] else []

/-- Whether an apply reports success. -/
def succeeds : Bool :=
  kernelParams.all (settlesParameter config h) && (!rewritesConfig config h || configWritable h (dirError h))

/-- The host an apply leaves. -/
def hostAfter : KernelHost :=
  if rewritesConfig config h && configWritable h (dirError h) then
    (kernelParams.foldl (tuned config) h).store sysctlHardenerConf (wantedConfig config h)
  else kernelParams.foldl (tuned config) h

/-- The checkpoint of an apply is taken, or none is wanted. -/
def Checkpoints (ctx : Context) : Prop := ctx.hasCheckpointManager = true → ∃ id, h.checkpoint = .ok id

variable {config h}

theorem nodup_kernelParams : kernelParams.Nodup := List.Nodup.of_map _ nodup_procfsKey

theorem writes_flatMap (ps : List KernelParameter) :
    (ps.flatMap (parameterEvents config h)).filterMap writeOf =
        (ps.filterMap fun p => (pendingWrite config h p).map fun target => (procPath p, target)) ∧
      (ps.flatMap (parameterEvents config h)).filterMap madeOf =
        (ps.filterMap fun p => (pendingWrite config h p).map fun target => (procPath p, target)).filter
          fun w => (h.write w.1).isOk := by
  induction ps with
  | nil => exact ⟨rfl, rfl⟩
  | cons p ps ih =>
    obtain ⟨ihwrites, ihmade⟩ := ih
    rw [List.flatMap_cons, List.filterMap_append, List.filterMap_append, ihwrites, ihmade, List.filterMap_cons]
    unfold parameterEvents
    cases pendingWrite config h p with
    | none => exact ⟨rfl, rfl⟩
    | some target =>
      refine ⟨rfl, ?_⟩
      show _ = ((procPath p, target) :: _).filter _
      rw [List.filter_cons]
      dsimp only
      cases h.write (procPath p) <;> rfl

/-- The loop and the end of an apply. -/
theorem session_applyAll (id : Option Chars) :
    (h.session (applyAll config (dirError h) id)).1.filterMap writeOf = writes config h ∧
      (h.session (applyAll config (dirError h) id)).1.filterMap madeOf = madeWrites config h ∧
      h.afterwards (applyAll config (dirError h) id) = hostAfter config h ∧
      (h.session (applyAll config (dirError h) id)).2.success = succeeds config h := by
  obtain ⟨hevents, hafter, hcontent, hchanged, hsuccess⟩ :=
    @session_applyParameters config h kernelParams (List.Subset.refl _) nodup_kernelParams
      ⟨checkpointChange id, sysctlConfigHeader, false, 0⟩
  obtain ⟨hwrites, hmade⟩ := @writes_flatMap config h kernelParams
  obtain ⟨hwrite, _, hread⟩ := @frame_foldl_tuned config h kernelParams
  have hwanted : wantedConfig config h = kernelParams.foldl
      (fun content p => (planParameter p config (h.observed p.name)).pushConfigSection p content) sysctlConfigHeader := by
    rw [wantedConfig, desiredConfig]
  dsimp only at hcontent hchanged hsuccess
  rw [← hwanted] at hcontent
  rw [Bool.false_or, ← changesRuntime] at hchanged
  have hneeds : needsConfig (kernelParams.foldl (tuned config) h) (changesRuntime config h) (wantedConfig config h) =
      rewritesConfig config h := by rw [needsConfig, hread, rewritesConfig, needsConfig]
  have hwritable : configWritable (kernelParams.foldl (tuned config) h) (dirError h) = configWritable h (dirError h) := by
    rw [configWritable, hwrite, configWritable]
  obtain ⟨pwrites, pmade, pafter, psuccess⟩ :=
    @session_persist (kernelParams.foldl (tuned config) h) (dirError h) (changesRuntime config h) (wantedConfig config h)
  rw [hneeds] at pwrites pmade pafter psuccess
  rw [hwritable] at pmade pafter psuccess
  unfold applyAll
  rw [KernelHost.session_bind, KernelHost.afterwards_bind, hafter, hcontent, hchanged, KernelHost.session_bind,
    KernelHost.afterwards_bind]
  refine ⟨?_, ?_, pafter, ?_⟩
  · show List.filterMap writeOf (_ ++ (_ ++ [])) = _
    rw [List.append_nil, List.filterMap_append, hevents, hwrites, pwrites]
    rfl
  · show List.filterMap madeOf (_ ++ (_ ++ [])) = _
    rw [List.append_nil, List.filterMap_append, hevents, hmade, pmade]
    rfl
  · have hcheckpoint : (checkpointChange id).all Change.success = true := by cases id <;> rfl
    have hcompliant : ∀ count, (compliantChange count).all Change.success = true := by
      intro count
      unfold compliantChange
      split <;> rfl
    show List.all (_ ++ _ ++ [_]) Change.success = _
    rw [List.all_append, List.all_append, hsuccess, hcheckpoint, hcompliant, List.all_cons, psuccess]
    simp [succeeds]

/-- The paths of the checkpoint. -/
def checkpointPaths : List Chars := ["/etc/sysctl.conf", sysctlDropinDir, sysctlHardenerConf]

theorem session_createCheckpoint (ctx : Context) :
    (h.session (createCheckpointForApply ctx "kernel-hardening-pre-apply" checkpointPaths)).2 =
      if ctx.hasCheckpointManager then h.checkpoint.map some else .ok none := by
  unfold createCheckpointForApply
  cases ctx.hasCheckpointManager with
  | false => rfl
  | true =>
    rw [if_pos rfl, if_pos rfl, KernelHost.session_bind, KernelHost.session_ask]
    simp only [show ∀ name paths, h.respond (.checkpoint name paths) = h.checkpoint from fun _ _ => rfl]
    cases h.checkpoint <;> rfl

theorem asks_directory : Asks KernelHost.WritesNothing (ensureDirectory sysctlDropinDir) := asks_ensureDirectory nofun nofun

theorem asks_checkpoint (ctx : Context) :
    Asks KernelHost.WritesNothing (createCheckpointForApply ctx "kernel-hardening-pre-apply" checkpointPaths) :=
  asks_createCheckpointForApply ctx nofun

/-- An apply that gets its checkpoint. -/
theorem session_applyPlugin {ctx : Context} (hcheckpoint : Checkpoints h ctx) :
    (h.session (applyPlugin ctx config)).1.filterMap writeOf = writes config h ∧
      (h.session (applyPlugin ctx config)).1.filterMap madeOf = madeWrites config h ∧
      h.afterwards (applyPlugin ctx config) = hostAfter config h ∧
      ∃ result, (h.session (applyPlugin ctx config)).2 = .ok result ∧ result.success = succeeds config h := by
  have htaken : ∃ id, (h.session (createCheckpointForApply ctx "kernel-hardening-pre-apply" checkpointPaths)).2 = .ok id := by
    rw [session_createCheckpoint]
    cases hm : ctx.hasCheckpointManager with
    | false => exact ⟨none, rfl⟩
    | true =>
      obtain ⟨id, hid⟩ := hcheckpoint hm
      rw [hid]
      exact ⟨some id, rfl⟩
  obtain ⟨id, hid⟩ := htaken
  obtain ⟨dwrites, dmade⟩ := h.writes_of_reads asks_directory
  obtain ⟨cwrites, cmade⟩ := h.writes_of_reads (asks_checkpoint ctx)
  obtain ⟨awrites, amade, aafter, asuccess⟩ := @session_applyAll config h id
  unfold applyPlugin
  rw [← checkpointPaths, KernelHost.session_bind, KernelHost.afterwards_bind, h.afterwards_of_reads asks_directory,
    KernelHost.session_bind, KernelHost.afterwards_bind, h.afterwards_of_reads (asks_checkpoint ctx), hid, ← dirError]
  dsimp only
  rw [KernelHost.session_bind, KernelHost.afterwards_bind]
  refine ⟨?_, ?_, aafter, _, rfl, asuccess⟩
  · show List.filterMap writeOf (_ ++ (_ ++ (_ ++ []))) = _
    rw [List.append_nil, List.filterMap_append, List.filterMap_append, dwrites, cwrites, awrites]
    rfl
  · show List.filterMap madeOf (_ ++ (_ ++ (_ ++ []))) = _
    rw [List.append_nil, List.filterMap_append, List.filterMap_append, dmade, cmade, amade]
    rfl

/-- An apply that does not get its checkpoint. -/
theorem session_applyPlugin_refused {ctx : Context} (hcheckpoint : ¬ Checkpoints h ctx) :
    (h.session (applyPlugin ctx config)).1.filterMap writeOf = [] ∧
      (h.session (applyPlugin ctx config)).1.filterMap madeOf = [] ∧
      ∃ e, (h.session (applyPlugin ctx config)).2 = .error e := by
  have hrefused : ∃ e, (h.session (createCheckpointForApply ctx "kernel-hardening-pre-apply" checkpointPaths)).2 = .error e := by
    rw [session_createCheckpoint]
    unfold Checkpoints at hcheckpoint
    push Not at hcheckpoint
    obtain ⟨hm, hne⟩ := hcheckpoint
    rw [hm, if_pos rfl]
    cases hanswer : h.checkpoint with
    | ok id => exact absurd hanswer (hne id)
    | error e => exact ⟨e, rfl⟩
  obtain ⟨e, he⟩ := hrefused
  unfold applyPlugin
  rw [← checkpointPaths, KernelHost.session_bind, h.afterwards_of_reads asks_directory, KernelHost.session_bind,
    h.afterwards_of_reads (asks_checkpoint ctx), he]
  obtain ⟨dwrites, dmade⟩ := h.writes_of_reads asks_directory
  obtain ⟨cwrites, cmade⟩ := h.writes_of_reads (asks_checkpoint ctx)
  refine ⟨?_, ?_, e, rfl⟩
  · show List.filterMap writeOf (_ ++ (_ ++ [])) = []
    rw [List.append_nil, List.filterMap_append, dwrites, cwrites]
    rfl
  · show List.filterMap madeOf (_ ++ (_ ++ [])) = []
    rw [List.append_nil, List.filterMap_append, dmade, cmade]
    rfl

/-! ## The preview -/

/-- Whether the probes of the preview take a parameter for writable. -/
def seenWritable (h : KernelHost) (p : KernelParameter) : Bool :=
  match h.metadata (procPath p) with
  | .error _ => false
  | .ok metadata => metadata.fileExists && ownerWritable metadata && readOnlyMount (h.mount (procPath p)) != some true

/-- What the preview announces of a parameter. -/
def announced (config : PluginConfig) (h : KernelHost) (p : KernelParameter) : Option Chars :=
  if seenWritable h p then (pendingWrite config h p).map (announcement p (h.observed p.name)) else none

/-- One round of the preview: the host is left as it is. -/
theorem session_previewParameter {p : KernelParameter} (st : Preview) :
    h.afterwards (previewParameter config st p) = h ∧
      (h.session (previewParameter config st p)).2.desiredConfig =
        (planParameter p config (h.observed p.name)).pushConfigSection p st.desiredConfig ∧
      (h.session (previewParameter config st p)).2.estimatedChanges = st.estimatedChanges ++ (announced config h p).toList ∧
      (h.session (previewParameter config st p)).2.runtimeWillChange =
        (st.runtimeWillChange || (announced config h p).isSome) := by
  obtain ⟨_, hread, hafter⟩ := @session_readSysctl h p
  have hquiet : ∀ st' : Preview, st'.desiredConfig = (planParameter p config (h.observed p.name)).pushConfigSection p st.desiredConfig →
      st'.estimatedChanges = st.estimatedChanges → st'.runtimeWillChange = st.runtimeWillChange → announced config h p = none →
      st'.desiredConfig = (planParameter p config (h.observed p.name)).pushConfigSection p st.desiredConfig ∧
        st'.estimatedChanges = st.estimatedChanges ++ (announced config h p).toList ∧
        st'.runtimeWillChange = (st.runtimeWillChange || (announced config h p).isSome) := by
    intro st' hconfig hchanges hwill hnone
    rw [hnone]
    exact ⟨hconfig, hchanges.trans (List.append_nil _).symm, hwill.trans (Bool.or_false _).symm⟩
  have hunseen : seenWritable h p = false → announced config h p = none := fun hseen => by
    unfold announced
    rw [hseen, if_neg Bool.false_ne_true]
  have hidle : pendingWrite config h p = none → announced config h p = none := fun hpending => by
    unfold announced
    rw [hpending, Option.map_none, ite_self]
  unfold previewParameter
  rw [KernelHost.session_bind, KernelHost.afterwards_bind, hafter, hread]
  dsimp only
  cases hplan : planParameter p config (h.observed p.name) with
  | excepted value reason =>
    rw [hplan] at hquiet
    exact ⟨rfl, hquiet _ rfl rfl rfl (hidle (by rw [pendingWrite, hplan]))⟩
  | setting target =>
    rw [hplan] at hquiet
    dsimp only
    unfold fileMetadata
    rw [KernelHost.session_bind, KernelHost.afterwards_bind, KernelHost.session_ask, KernelHost.afterwards_ask]
    simp only [show h.respond (.metadata (procPath p)) = h.metadata (procPath p) from rfl,
      show ∀ r, h.react ⟨.metadata (procPath p), r⟩ = h from fun _ => rfl]
    cases hmetadata : h.metadata (procPath p) with
    | error e => exact ⟨rfl, hquiet _ rfl rfl rfl (hunseen (by rw [seenWritable, hmetadata]))⟩
    | ok metadata =>
      dsimp only
      cases hexists : metadata.fileExists with
      | false => exact ⟨rfl, hquiet _ rfl rfl rfl (hunseen (by simp [seenWritable, hmetadata, hexists]))⟩
      | true =>
        rw [if_neg (by simp)]
        cases hmode : ownerWritable metadata with
        | false => exact ⟨rfl, hquiet _ rfl rfl rfl (hunseen (by simp [seenWritable, hmetadata, hmode]))⟩
        | true =>
          rw [if_neg (by simp)]
          cases hviolated : p.compare.violatedBy target (h.observed p.name) with
          | false => exact ⟨rfl, hquiet _ rfl rfl rfl (hidle (by simp [pendingWrite, hplan, hviolated]))⟩
          | true =>
            have hpending : pendingWrite config h p = some target := by
              rw [pendingWrite, hplan]
              exact if_pos hviolated
            rw [if_neg (by simp)]
            unfold mountIsReadOnly execute
            rw [KernelHost.session_bind, KernelHost.afterwards_bind, KernelHost.session_bind, KernelHost.afterwards_bind,
              KernelHost.session_ask, KernelHost.afterwards_ask]
            simp only [show h.respond (.execute "findmnt" ["-T", procPath p, "-no", "VFS-OPTIONS"]) = h.mount (procPath p) from rfl,
              show ∀ r, h.react ⟨.execute "findmnt" ["-T", procPath p, "-no", "VFS-OPTIONS"], r⟩ = h from fun _ => rfl,
              KernelHost.session_pure, KernelHost.afterwards_pure]
            by_cases hmount : readOnlyMount (h.mount (procPath p)) = some true
            · rw [if_pos hmount]
              exact ⟨rfl, hquiet _ rfl rfl rfl (hunseen (by simp [seenWritable, hmetadata, hmount]))⟩
            · rw [if_neg hmount]
              have hseen : seenWritable h p = true := by simp [seenWritable, hmetadata, hexists, hmode, hmount]
              have hannounced : announced config h p = some (announcement p (h.observed p.name) target) := by
                rw [announced, hseen, hpending]
                rfl
              rw [hannounced]
              exact ⟨rfl, rfl, rfl, (Bool.or_true _).symm⟩

theorem session_previewParameters (ps : List KernelParameter) (st : Preview) :
    h.afterwards (ps.foldlM (previewParameter config) st) = h ∧
      (h.session (ps.foldlM (previewParameter config) st)).2.desiredConfig =
        ps.foldl (fun content p => (planParameter p config (h.observed p.name)).pushConfigSection p content) st.desiredConfig ∧
      (h.session (ps.foldlM (previewParameter config) st)).2.estimatedChanges =
        st.estimatedChanges ++ ps.filterMap (announced config h) ∧
      (h.session (ps.foldlM (previewParameter config) st)).2.runtimeWillChange =
        (st.runtimeWillChange || ps.any fun p => (announced config h p).isSome) := by
  induction ps generalizing st with
  | nil => exact ⟨rfl, rfl, (List.append_nil _).symm, (Bool.or_false _).symm⟩
  | cons p ps ih =>
    obtain ⟨hafter, hconfig, hchanges, hwill⟩ := @session_previewParameter config h p st
    obtain ⟨ihafter, ihconfig, ihchanges, ihwill⟩ := ih (h.session (previewParameter config st p)).2
    rw [List.foldlM_cons, KernelHost.session_bind, KernelHost.afterwards_bind, hafter]
    refine ⟨ihafter, ?_, ?_, ?_⟩
    · rw [ihconfig, hconfig, List.foldl_cons]
    · rw [ihchanges, hchanges, List.append_assoc, List.filterMap_cons]
      cases announced config h p <;> rfl
    · rw [ihwill, hwill, List.any_cons, Bool.or_assoc]

/-- Whether the preview announces the persistent file. -/
def announcesConfig (config : PluginConfig) (h : KernelHost) : Bool :=
  needsConfig h (kernelParams.any fun p => (announced config h p).isSome) (wantedConfig config h)

def configAnnouncement : Chars := "Create persistent sysctl config"

theorem session_validate : (h.session (validate config)).2.estimatedChanges =
    kernelParams.filterMap (announced config h) ++ if announcesConfig config h then [configAnnouncement] else [] := by
  obtain ⟨hafter, hconfig, hchanges, hwill⟩ :=
    @session_previewParameters config h kernelParams ⟨[], [], [], 0, sysctlConfigHeader, false⟩
  have hwanted : wantedConfig config h = kernelParams.foldl
      (fun content p => (planParameter p config (h.observed p.name)).pushConfigSection p content) sysctlConfigHeader := by
    rw [wantedConfig, desiredConfig]
  dsimp only at hconfig hchanges hwill
  rw [← hwanted] at hconfig
  rw [List.nil_append] at hchanges
  rw [Bool.false_or] at hwill
  unfold validate readFile
  rw [KernelHost.session_bind, hafter, KernelHost.session_bind, KernelHost.session_ask]
  show (if _ then _ else _) = _
  simp only [show h.respond (.readFile sysctlHardenerConf) = h.read sysctlHardenerConf from rfl, hconfig, hchanges, hwill]
  unfold announcesConfig needsConfig
  split
  · rfl
  · exact (List.append_nil _).symm

end

end LinuxHardener.Kernel
