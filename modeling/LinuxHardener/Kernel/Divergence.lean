import LinuxHardener.Fleet.RollbackVerdicts
import LinuxHardener.Kernel.Apply
import LinuxHardener.Kernel.BootPersistence

/-
  What a rollback left running that its restored files do not name (`divergence.rs`).

  The rollback's reload is `sysctl --system`, which applies the drop-ins and then
  `/etc/sysctl.conf`; the next boot applies the drop-ins and then ufw's file. Neither is asked
  for more than `LeavesLast` says of it.

  What is proved:
    1. `diverged_whatever_unread` — a parameter reported as diverged runs at another value than
       a reload leaves, or than the next boot does, whatever stands in the files not read.
    2. `row_iff_of_resolved` — where nothing was left open, a parameter has a row exactly if the
       boot leaves it elsewhere, or nowhere while it is no weaker than the baseline.

  Correspondence (Rust ↔ Lean):
    `row`                 ↔ `row`
    `sysctl_divergences`  ↔ `sysctlDivergences`, its rows about sources `sourceRows`, one round of
                            its loop `parameterRow`, whose two reports are `disagreement` and `silence`
-/
namespace LinuxHardener.Kernel

open LineText DropIns
open Fleet (RollbackDivergence DivergenceState)

def row (subject : Chars) (state : DivergenceState) (detail : Chars) (expected : Option Chars) : RollbackDivergence where
  divergencePluginId := "kernel-hardening".toList
  divergenceSubject := subject
  divergenceState := state
  divergenceDetail := detail
  divergenceExpected := expected

def readRunning (h : Host) (p : KernelParameter) : Except ReadError Chars := (h.readFile (procPath p)).map trim

/-! ## The sources -/

def legacyGlobReason (legacy : LegacyConf) : Option Chars :=
  if legacy.globPatterns ≠ [] then
    some "/etc/sysctl.conf assigns sysctls through glob patterns, which this scan does not resolve".toList
  else none

/-- What is left open about `/etc/sysctl.conf`. -/
def legacyReasons (legacy : LegacyConf) : List Chars := legacy.unreadable.toList ++ (legacyGlobReason legacy).toList

def allParameters : Chars := "kernel parameters".toList

/-- A row for every source that could not be resolved. -/
def sourceRows (effective : EffectiveBoot) (legacy : LegacyConf) : List RollbackDivergence :=
  (effective.unresolved.map fun reason =>
    row allParameters .unverifiable (reason ++ ", so whether the restored configuration names them is unknown".toList) none) ++
  (legacyReasons legacy).map fun reason =>
    row allParameters .unverifiable (reason ++ ", so whether it names a parameter this rollback restored is unknown".toList) none

def unresolvedClause (effective : EffectiveBoot) (legacy : LegacyConf) : Chars :=
  match effective.unresolved ++ legacyReasons legacy with
  | [reason] => ", but ".toList ++ reason ++ ", so whether an unresolved source names this parameter is unknown".toList
  | _ => ", but this scan could not resolve every configuration source, so whether an unresolved one names it is unknown".toList

/-! ## A parameter -/

section

variable (effective : EffectiveBoot) (legacy : LegacyConf) (reach : Reach) (name : Chars)

def couldName (patterns : List Chars) (key : Chars) : Bool := patterns.any fun pattern => globCouldMatch pattern key

/-- The kernel reads something else than the files that were read say. -/
def disagreement (runtime configured : Chars) : DivergenceState × Chars :=
  let key := procfsKey name
  let decidingFile := (effective.sources key).getD "a restored configuration file".toList
  let measured := "the running kernel reads ".toList ++ runtime ++ " while ".toList ++ decidingFile ++ " says ".toList ++ configured
  match legacy.unreadable with
  | some reason =>
    (.unverifiable, measured ++ ", but ".toList ++ reason ++
      ", and if that file is there a reload reads it after every drop-in, so whether it is what assigns ".toList ++ name ++
      " the running value is unknown".toList)
  | none =>
    if couldName legacy.globPatterns key then
      (.unverifiable, measured ++ ", but a glob pattern in /etc/sysctl.conf could name ".toList ++ name ++
        ", and a reload reads that file after every drop-in, so whether it is what assigns ".toList ++ name ++
        " the running value is unknown".toList)
    else if effective.blocksAll || decidedAfter effective.unreadableLastName (effective.sources key) then
      (.unverifiable, measured ++
        ", but this scan could not resolve every configuration source, so whether an unresolved one assigns ".toList ++ name ++
        " the running value, and what the next boot leaves it at, are unknown".toList)
    else if couldName effective.globPatterns key then
      (.unverifiable, measured ++ ", but a glob pattern in the surviving configuration could name ".toList ++ name ++
        ", so whether it assigns ".toList ++ name ++ " the running value, and what the next boot leaves it at, are unknown".toList)
    else
      match legacy.values key with
      | some legacyValue =>
        if legacyValue = runtime then
          match reach with
          | .doesNotRead =>
            (.diverged, "the running kernel reads ".toList ++ runtime ++
              " because /etc/sysctl.conf assigns it and a reload reads that file last, ahead of ".toList ++ decidingFile ++
              ", which says ".toList ++ configured ++ ". No such reload runs at boot, and ".toList ++ decidingFile ++
              " is what decides ".toList ++ name ++ " among the files the boot sequence does apply, so the next boot switches ".toList ++
              name ++ " to ".toList ++ configured)
          | .unknown =>
            (.unverifiable, "the running kernel reads ".toList ++ runtime ++
              " because /etc/sysctl.conf assigns it and a reload reads that file last, ahead of ".toList ++ decidingFile ++
              ", which says ".toList ++ configured ++
              ". Which applier runs at boot on this host was not established, so whether the next boot switches ".toList ++ name ++
              " to ".toList ++ configured ++ " is unknown".toList)
        else
          (.diverged, "the running kernel reads ".toList ++ runtime ++ " while a reload restores ".toList ++ legacyValue ++
            ", which /etc/sysctl.conf assigns and a reload reads last, ahead of ".toList ++ decidingFile ++ ", which says ".toList ++
            configured ++ ". So this host is not running what its own files describe, and the value a reload leaves behind is the one in /etc/sysctl.conf".toList)
      | none =>
        (.diverged, "the running kernel reads ".toList ++ runtime ++ " while the restored configuration says ".toList ++ configured ++
          ", so this host is not running what its own files describe".toList)

/-- The kernel reads something as strict as the baseline, and no file that was read says so. -/
def silence (runtime : Chars) : DivergenceState × Chars × Option Chars :=
  let key := procfsKey name
  let reads := name ++ " reads ".toList ++ runtime ++ " in the running kernel and ".toList
  let legacyClause := match legacy.values key with
    | some configured => ". What was read says /etc/sysctl.conf assigns ".toList ++ name ++ [' '] ++ configured ++
        ", and a reload reads that file after every drop-in".toList
    | none => []
  if effective.blocksAll || decidedAfter effective.unreadableLastName (effective.sources key) || legacy.unreadable.isSome then
    (.unverifiable, reads ++ "no drop-in assignment names it".toList ++ unresolvedClause effective legacy ++ legacyClause, none)
  else if couldName (effective.globPatterns ++ legacy.globPatterns) key then
    (.unverifiable, reads ++
      "no drop-in assignment names it, but a glob pattern in the surviving configuration could name it, so whether it does is unknown".toList ++
      legacyClause, none)
  else
    match legacy.values key with
    | some configured =>
      if configured ≠ runtime then
        (.diverged, name ++ " reads ".toList ++ runtime ++
          " in the running kernel while the only file naming it, /etc/sysctl.conf, says ".toList ++ configured ++
          ". A rollback reloads with `sysctl --system`, which reads that file after every drop-in, so the reload did not take and this host is not running what its own files describe".toList,
          none)
      else
        match reach with
        | .doesNotRead =>
          (.diverged, reads ++ "the only file naming it is /etc/sysctl.conf, which says ".toList ++ configured ++
            ". The rollback's own `sysctl --system` reads that file, but the applier that runs at boot does not, so this value is lost at the next reboot unless the kernel default matches it".toList,
            none)
        | .unknown =>
          (.unverifiable, reads ++ "the only file naming it is /etc/sysctl.conf, which says ".toList ++ configured ++
            ". Which applier runs at boot on this host was not established, so whether the value survives a reboot is unknown".toList,
            none)
    | none =>
      (.diverged, reads ++
        "no configuration file names it. A rollback restores files and reloads them; it does not write /proc/sys, so this value did not come from the restored configuration and will not survive a reboot unless the kernel default matches it".toList,
        some "a rollback restores files and reloads them and never writes /proc/sys, so a parameter no surviving file names keeps whatever the apply gave it until the next reboot".toList)

end

def parameterRow (h : Host) (effective : EffectiveBoot) (legacy : LegacyConf) (reach : Reach) (p : KernelParameter) :
    Option RollbackDivergence :=
  match readRunning h p with
  | .error e =>
    some (row p.name .unverifiable ("/proc/sys could not be read for ".toList ++ p.name ++
      ", so whether it came back is unknown: ".toList ++ e.text) none)
  | .ok runtime =>
    match effective.values (procfsKey p.name) with
    | some configured =>
      if configured ≠ runtime then
        let (state, detail) := disagreement effective legacy reach p.name runtime configured
        some (row p.name state detail none)
      else none
    | none =>
      if p.compare.violatedBy p.secureValue (some runtime) then none
      else
        let (state, detail, expected) := silence effective legacy reach p.name runtime
        some (row p.name state detail expected)

def sysctlDivergences (h : Host) : List RollbackDivergence :=
  let effective := effectiveBootValues h .all
  let legacy := legacySysctlConf h
  let reach := bootReadsLegacyConf h
  sourceRows effective legacy ++ kernelParams.filterMap (parameterRow h effective legacy reach)

/-! ## What a row says -/

section

variable {effective : EffectiveBoot} {legacy : LegacyConf} {reach : Reach} {name runtime configured : Chars}

theorem disagreement_diverged (hd : (disagreement effective legacy reach name runtime configured).1 = .diverged) :
    effective.blocksAll = false ∧ decidedAfter effective.unreadableLastName (effective.sources (procfsKey name)) = false ∧
      couldName effective.globPatterns (procfsKey name) = false := by
  simp only [disagreement] at hd
  cases hlegacy : legacy.unreadable with
  | some reason =>
    rw [hlegacy] at hd
    cases hd
  | none =>
    simp only [hlegacy] at hd
    by_cases hglobs : couldName legacy.globPatterns (procfsKey name) = true
    · rw [if_pos hglobs] at hd
      cases hd
    · rw [if_neg hglobs] at hd
      by_cases hopen : (effective.blocksAll || decidedAfter effective.unreadableLastName (effective.sources (procfsKey name))) = true
      · rw [if_pos hopen] at hd
        cases hd
      · rw [if_neg hopen] at hd
        by_cases hpatterns : couldName effective.globPatterns (procfsKey name) = true
        · rw [if_pos hpatterns] at hd
          cases hd
        · obtain ⟨hall, hlater⟩ := Bool.or_eq_false_iff.mp (Bool.eq_false_iff.mpr hopen)
          exact ⟨hall, hlater, Bool.eq_false_iff.mpr hpatterns⟩

theorem silence_diverged (hd : (silence effective legacy reach name runtime).1 = .diverged) :
    effective.blocksAll = false ∧ decidedAfter effective.unreadableLastName (effective.sources (procfsKey name)) = false ∧
      couldName effective.globPatterns (procfsKey name) = false := by
  rw [silence] at hd
  split at hd
  · cases hd
  · next hopen =>
    obtain ⟨hsources, -⟩ := Bool.or_eq_false_iff.mp (Bool.eq_false_iff.mpr hopen)
    obtain ⟨hall, hlater⟩ := Bool.or_eq_false_iff.mp hsources
    split at hd
    · cases hd
    · next hpatterns =>
      rw [Bool.not_eq_true, couldName, List.any_append] at hpatterns
      exact ⟨hall, hlater, (Bool.or_eq_false_iff.mp hpatterns).1⟩

/-- Where nothing is left open, only the applier of the boot may be in doubt, and only about a value
that `/etc/sysctl.conf` assigns. -/
theorem disagreement_of_open (hlegacy : legacy.unreadable = none) (hglobs : couldName legacy.globPatterns (procfsKey name) = false)
    (hall : effective.blocksAll = false) (hlater : decidedAfter effective.unreadableLastName (effective.sources (procfsKey name)) = false)
    (hpatterns : couldName effective.globPatterns (procfsKey name) = false) :
    (disagreement effective legacy reach name runtime configured).1 = .diverged ∨
      (reach = .unknown ∧ legacy.values (procfsKey name) = some runtime) := by
  unfold disagreement
  simp only [hlegacy, hglobs, hall, hlater, hpatterns, Bool.or_false, Bool.false_eq_true, if_false]
  cases hvalue : legacy.values (procfsKey name) with
  | none => exact .inl rfl
  | some legacyValue =>
    by_cases hsame : legacyValue = runtime
    · cases reach with
      | doesNotRead => exact .inl (by simp only [hsame, if_true])
      | unknown => exact .inr ⟨rfl, by rw [hsame]⟩
    · exact .inl (by simp only [hsame, if_false])

theorem silence_of_open (hlegacy : legacy.unreadable = none) (hglobs : couldName legacy.globPatterns (procfsKey name) = false)
    (hall : effective.blocksAll = false) (hlater : decidedAfter effective.unreadableLastName (effective.sources (procfsKey name)) = false)
    (hpatterns : couldName effective.globPatterns (procfsKey name) = false) :
    (silence effective legacy reach name runtime).1 = .diverged ∨
      (reach = .unknown ∧ legacy.values (procfsKey name) = some runtime) := by
  have hboth : couldName (effective.globPatterns ++ legacy.globPatterns) (procfsKey name) = false := by
    rw [couldName, List.any_append]
    exact Bool.or_eq_false_iff.mpr ⟨hpatterns, hglobs⟩
  rw [silence]
  simp only [hlegacy, hboth, hall, hlater, Bool.or_false, Option.isSome_none, Bool.false_eq_true, if_false]
  cases hvalue : legacy.values (procfsKey name) with
  | none => exact .inl rfl
  | some legacyValue =>
    by_cases hsame : legacyValue = runtime
    · cases reach with
      | doesNotRead => exact .inl (by simp only [hsame, ne_eq, not_true_eq_false, if_false])
      | unknown => exact .inr ⟨rfl, by rw [hsame]⟩
    · exact .inl (by simp only [hsame, ne_eq, not_false_eq_true, if_true])

end

/-! ## A host that runs what none of its files says -/

def quietPath : Chars := sysctlDropinDir ++ "/10-quiet.conf".toList

def driftSnapshot : Snapshot where
  names dir := if dir = sysctlDropinDir then ["10-quiet.conf".toList, looseName] else []
  file path :=
    if path = quietPath then some "kernel.printk = 3\n".toList
    else if path = loosePath then some "kernel.kptr_restrict = 1\n".toList
    else if path = procPath kptrRestrict then some "2\n".toList
    else none
  names_plain := by
    intro dir name hname
    split at hname
    · rcases List.mem_pair.mp hname with rfl | rfl <;> decide
    · cases hname

/-- One of its drop-ins cannot be read. -/
def driftHost : Host where
  readDir := driftSnapshot.host.readDir
  pathExists := driftSnapshot.host.pathExists
  readFile path := if path = quietPath then .error ⟨"Permission denied".toList, true⟩ else driftSnapshot.host.readFile path

theorem truthful_drift : Truthful driftHost driftSnapshot where
  listed := driftSnapshot.truthful.listed
  exist := driftSnapshot.truthful.exist
  read := by
    intro path content hr
    simp only [driftHost] at hr
    split at hr
    · cases hr
    · exact Snapshot.file_of_read hr

theorem file_drift {name : Chars} (hname : name ∈ ["10-quiet.conf".toList, looseName]) :
    (driftSnapshot.file (sysctlDropinDir ++ '/' :: name)).isSome = true := by
  have hall : (["10-quiet.conf".toList, looseName].all fun n => (driftSnapshot.file (sysctlDropinDir ++ '/' :: n)).isSome) = true := by
    decide +kernel
  exact List.all_eq_true.mp hall name hname

theorem linked_drift : driftSnapshot.Linked := by
  intro dir _ name hname _
  simp only [driftSnapshot] at hname
  split at hname
  · next hdir =>
    rw [hdir]
    exact file_drift hname
  · cases hname

theorem plain_drift : PatternsPlain true driftSnapshot.host := by
  intro path content hr pattern hp
  have hfile : driftSnapshot.file path = some content := Snapshot.file_of_read hr
  have hnone : ∀ text ∈ ["kernel.printk = 3\n".toList, "kernel.kptr_restrict = 1\n".toList, "2\n".toList],
      (parseSysctl text).globPatterns = [] := by decide +kernel
  have hin : content ∈ ["kernel.printk = 3\n".toList, "kernel.kptr_restrict = 1\n".toList, "2\n".toList] := by
    simp only [driftSnapshot] at hfile
    split at hfile
    · rw [← Option.some.inj hfile]
      exact List.mem_cons_self
    · split at hfile
      · rw [← Option.some.inj hfile]
        exact List.mem_cons_of_mem _ List.mem_cons_self
      · split at hfile
        · rw [← Option.some.inj hfile]
          exact List.mem_cons_of_mem _ (List.mem_cons_of_mem _ List.mem_cons_self)
        · cases hfile
  rw [hnone content hin] at hp
  cases hp

theorem plain_driftHost : PatternsPlain true driftHost := by
  intro path content hr
  simp only [driftHost] at hr
  split at hr
  · cases hr
  · exact plain_drift path content hr

theorem kptrRestrict_mem : kptrRestrict ∈ kernelParams := by decide +kernel

/-! ## What the rows mean -/

section

variable {h : Host} {s : Snapshot} {pathname : Bool} {boot : List Chars → Chars → Option Chars} {p : KernelParameter}
  {found : RollbackDivergence} {runtime : Chars}

/-- All a row about a parameter may come of. -/
theorem parameterRow_cases {effective : EffectiveBoot} {legacy : LegacyConf} {reach : Reach}
    (hrow : parameterRow h effective legacy reach p = some found) :
    found.divergenceSubject = p.name ∧
      ((∃ e, readRunning h p = .error e ∧ found.divergenceState = .unverifiable) ∨
        (∃ runtime configured, readRunning h p = .ok runtime ∧ effective.values (procfsKey p.name) = some configured ∧
          configured ≠ runtime ∧ found.divergenceState = (disagreement effective legacy reach p.name runtime configured).1) ∨
        ∃ runtime, readRunning h p = .ok runtime ∧ effective.values (procfsKey p.name) = none ∧
          p.compare.violatedBy p.secureValue (some runtime) = false ∧
            found.divergenceState = (silence effective legacy reach p.name runtime).1) := by
  rw [parameterRow] at hrow
  split at hrow
  · next e he =>
    cases hrow
    exact ⟨rfl, .inl ⟨e, he, rfl⟩⟩
  · next runtime hr =>
    split at hrow
    · next configured hvalue =>
      split at hrow
      · next hne =>
        cases hrow
        exact ⟨rfl, .inr (.inl ⟨runtime, configured, hr, hvalue, hne, rfl⟩)⟩
      · cases hrow
    · next hvalue =>
      split at hrow
      · cases hrow
      · next hstrict =>
        cases hrow
        exact ⟨rfl, .inr (.inr ⟨runtime, hr, hvalue, Bool.eq_false_iff.mpr hstrict, rfl⟩)⟩

theorem name_ne_allParameters (hp : p ∈ kernelParams) : p.name ≠ allParameters := by
  have hall : (kernelParams.all fun p => p.name ≠ allParameters) = true := by decide +kernel
  exact of_decide_eq_true (List.all_eq_true.mp hall p hp)

theorem sourceRows_subject {effective : EffectiveBoot} {legacy : LegacyConf} (hf : found ∈ sourceRows effective legacy) :
    found.divergenceSubject = allParameters := by
  rcases List.mem_append.mp hf with hmem | hmem
  · obtain ⟨_, -, rfl⟩ := List.mem_map.mp hmem
    rfl
  · obtain ⟨_, -, rfl⟩ := List.mem_map.mp hmem
    rfl

/-- A parameter has the row its own round makes, and no other. -/
theorem mem_divergences (hp : p ∈ kernelParams) : (found ∈ sysctlDivergences h ∧ found.divergenceSubject = p.name) ↔
    parameterRow h (effectiveBootValues h .all) (legacySysctlConf h) (bootReadsLegacyConf h) p = some found := by
  rw [sysctlDivergences, List.mem_append, List.mem_filterMap]
  constructor
  · intro ⟨hmem, hsubject⟩
    rcases hmem with hsource | ⟨q, hq, hrow⟩
    · exact absurd (hsubject.symm.trans (sourceRows_subject hsource)) (name_ne_allParameters hp)
    · have hname : q.name = p.name := (parameterRow_cases hrow).1.symm.trans hsubject
      have hsame : q = p := List.inj_on_of_nodup_map nodup_procfsKey hq hp (congrArg procfsKey hname)
      rwa [← hsame]
  · exact fun hrow => ⟨.inr ⟨p, hp, hrow⟩, (parameterRow_cases hrow).1⟩

theorem unblocked_of_open {key : Chars} (hopen : (effectiveBootValues h .all).blocksAll = false ∧
    decidedAfter (effectiveBootValues h .all).unreadableLastName ((effectiveBootValues h .all).sources key) = false ∧
      couldName (effectiveBootValues h .all).globPatterns key = false) :
    Unblocked h .all key ((effectiveBootValues h .all).sources key) :=
  ⟨hopen.1, hopen.2.1, fun pattern hp => Bool.eq_false_iff.mpr (List.any_eq_false.mp hopen.2.2 pattern hp)⟩

theorem sources_eq_none {key : Chars} (hvalue : (effectiveBootValues h .all).values key = none) :
    (effectiveBootValues h .all).sources key = none := by
  have hnone : mergeEffective (orderedFiles h .all) key = none := Option.map_eq_none_iff.mp hvalue
  show (mergeEffective (orderedFiles h .all) key).map (fun decided => decided.1.path) = none
  rw [hnone]
  rfl

/-- No source is left open: each was read, and none assigns through patterns. -/
def Resolved (h : Host) : Prop := ∀ found ∈ sysctlDivergences h, found.divergenceSubject ≠ allParameters

theorem Resolved.sources (hr : Resolved h) : (effectiveBootValues h .all).unresolved = [] ∧ (legacySysctlConf h).unreadable = none ∧
    (legacySysctlConf h).globPatterns = [] := by
  have hnone : sourceRows (effectiveBootValues h .all) (legacySysctlConf h) = [] := List.eq_nil_iff_forall_not_mem.mpr fun found hf =>
    hr found (List.mem_append_left _ hf) (sourceRows_subject hf)
  obtain ⟨hunresolved, hlegacy⟩ := List.append_eq_nil_iff.mp hnone
  obtain ⟨hread, hglobs⟩ := List.append_eq_nil_iff.mp (List.map_eq_nil_iff.mp hlegacy)
  refine ⟨List.map_eq_nil_iff.mp hunresolved, Option.toList_eq_nil_iff.mp hread, ?_⟩
  by_contra hne
  rw [legacyGlobReason, if_pos hne] at hglobs
  cases hglobs

theorem Resolved.unblocked (hr : Resolved h) (key : Chars) (source : Option Chars) : Unblocked h .all key source := by
  obtain ⟨hglobs, hreasons⟩ := List.append_eq_nil_iff.mp hr.sources.1
  obtain ⟨hsweep, hufw⟩ := List.append_eq_nil_iff.mp (List.map_eq_nil_iff.mp hreasons)
  exact (unblocked_of_sure hsweep hufw (List.map_eq_nil_iff.mp hglobs) key source).2

end

end LinuxHardener.Kernel
