import LinuxHardener.Kernel.Plan
import LinuxHardener.Plugins.Backups

/-
  The kernel plugin's apply, and the preview of it.

  Correspondence (Rust ↔ Lean):
    `read_sysctl`, `mount_is_read_only` ↔ the same in camel case
    `KernelHardeningPlugin::apply`    ↔ `applyPlugin`, one round of its loop `applyParameter`, its end `persist`
    `KernelHardeningPlugin::validate` ↔ `validate`, one round of its loop `previewParameter`
-/
namespace LinuxHardener.Kernel

open LineText Plugins Dialogue
open Core (ApplyResult ValidationIssue ValidationReport exceptionPreviewLine)

/-- The file of a parameter. -/
def procPath (p : KernelParameter) : Chars := "/proc/sys/".toList ++ procfsKey p.name

def readSysctl (p : KernelParameter) : Session (Except Chars Chars) := do
  match ← readFile (procPath p) with
  | .ok content => return .ok (LineText.trim content)
  | .error e => return .error e

/-! ## Apply -/

structure Progress where
  changes : List Change
  content : Chars
  runtimeChanged : Bool
  compliantCount : Nat
  deriving DecidableEq, Repr

namespace Progress

def note (st : Progress) (change : Change) : Progress := { st with changes := st.changes ++ [change] }

/-- The write to the runtime, as reported. -/
def wrote (st : Progress) (p : KernelParameter) (target : Chars) : Except Chars Unit → Progress
  | .ok () => { st.note (.made .kernelParameter (p.description ++ ": set to ".toList ++ target)) with runtimeChanged := true }
  | .error e => st.note (.failed .kernelParameter (p.name ++ ": failed to set".toList) e)

end Progress

def applyParameter (config : PluginConfig) (st : Progress) (p : KernelParameter) : Session Progress := do
  let observed := (← readSysctl p).toOption
  let planned := planParameter p config observed
  let st := { st with content := planned.pushConfigSection p st.content }
  match planned with
  | .excepted _ reason =>
    return st.note (.made .skipped (p.description ++ ": skipped (exception: ".toList ++ reason ++ ")".toList))
  | .setting target =>
    if p.compare.violatedBy target observed then
      let written ← writeFile (procPath p) target
      return st.wrote p target written
    else return { st with compliantCount := st.compliantCount + 1 }

def compliantChange (count : Nat) : List Change :=
  if 0 < count then [.made .skipped (decimal count ++ " sysctl(s) already compliant - unchanged".toList)] else []

def writeConfig (dirError : Option Chars) (content : Chars) : Session (Except Chars Unit) :=
  match dirError with
  | some reason => return .error reason
  | none => writeFile sysctlHardenerConf content

/-- The persistent file is written where a parameter was, or where it holds something else. -/
def persist (dirError : Option Chars) (runtimeChanged : Bool) (content : Chars) : Session Change := do
  let existing := (← readFile sysctlHardenerConf).toOption
  if runtimeChanged || existing != some content then
    match ← writeConfig dirError content with
    | .ok () => return .made .configFile "Created persistent sysctl config"
    | .error e => return .failed .configFile "Failed to create persistent sysctl config" e
  else return .made .skipped "Persistent sysctl config already up to date"

def resultOf (changes : List Change) (checkpointId : Option Chars) : ApplyResult where
  pluginId := ⟨"kernel-hardening"⟩
  success := changes.all Change.success
  changes := changes
  checkpointId := checkpointId
  error := none

/-- The apply once its checkpoint is taken. -/
def applyAll (config : PluginConfig) (dirError checkpointId : Option Chars) : Session ApplyResult := do
  let st ← kernelParams.foldlM (applyParameter config) ⟨checkpointChange checkpointId, sysctlConfigHeader, false, 0⟩
  let persisted ← persist dirError st.runtimeChanged st.content
  return resultOf (st.changes ++ compliantChange st.compliantCount ++ [persisted]) checkpointId

def applyPlugin (ctx : Context) (config : PluginConfig) : Session (Except Chars ApplyResult) := do
  -- Ahead of the checkpoint, which would otherwise record the directory as absent.
  let dirError ← ensureDirectory sysctlDropinDir
  match ← createCheckpointForApply ctx "kernel-hardening-pre-apply" ["/etc/sysctl.conf", sysctlDropinDir, sysctlHardenerConf] with
  | .error e => return .error e
  | .ok checkpointId => return .ok (← applyAll config dirError checkpointId)

/-! ## Preview -/

/-- Whether the mount that carries a path is read-only, if that could be told. -/
def readOnlyMount : Except Chars CommandOutput → Option Bool
  | .error _ => none
  | .ok output =>
    let options := LineText.trim output.stdout
    if !output.success || options.isEmpty then none
    else some ((options.splitOn ',').any fun option => LineText.trim option == "ro".toList)

def mountIsReadOnly (path : Chars) : Session (Option Bool) := do
  return readOnlyMount (← execute "findmnt" ["-T", path, "-no", "VFS-OPTIONS"])

structure Preview where
  issues : List ValidationIssue
  estimatedChanges : List Chars
  exceptions : List Chars
  compliantCount : Nat
  desiredConfig : Chars
  runtimeWillChange : Bool
  deriving DecidableEq, Repr

def Preview.flag (st : Preview) (issue : ValidationIssue) : Preview := { st with issues := st.issues ++ [issue] }

def absentIssue (p : KernelParameter) : ValidationIssue :=
  ⟨.low, p.name ++ " does not exist on this kernel".toList, some p.name⟩

def readOnlyIssue (p : KernelParameter) : ValidationIssue := ⟨.high, p.name ++ " is read-only".toList, some p.name⟩

def readOnlyMountIssue (p : KernelParameter) : ValidationIssue :=
  ⟨.high, p.name ++ " cannot be set: ".toList ++ procPath p ++
    " is on a read-only mount, so apply would fail here however it is run".toList, some p.name⟩

def unknownIssue (p : KernelParameter) (e : Chars) : ValidationIssue :=
  ⟨.high, p.name ++ ": could not determine whether the parameter exists (".toList ++ e ++
    "), so this preview cannot say what apply would do to it".toList, some p.name⟩

/-- What is announced of a parameter that apply is to write. -/
def announcement (p : KernelParameter) (observed : Option Chars) (target : Chars) : Chars :=
  match observed with
  | some current => p.name ++ " will change: ".toList ++ current ++ " -> ".toList ++ target
  | none => p.name ++ " will be set to ".toList ++ target

def ownerWritable (metadata : FileMetadata) : Bool := metadata.mode &&& BitVec.ofNat 32 0o200 != BitVec.ofNat 32 0

def previewParameter (config : PluginConfig) (st : Preview) (p : KernelParameter) : Session Preview := do
  let observed := (← readSysctl p).toOption
  let planned := planParameter p config observed
  let st := { st with desiredConfig := planned.pushConfigSection p st.desiredConfig }
  match planned with
  | .excepted value reason => return { st with exceptions := st.exceptions ++ [exceptionPreviewLine p.name value reason] }
  | .setting target =>
    match ← fileMetadata (procPath p) with
    | .error e => return st.flag (unknownIssue p e)
    | .ok metadata =>
      if !metadata.fileExists then return st.flag (absentIssue p)
      else if !ownerWritable metadata then return st.flag (readOnlyIssue p)
      else if !p.compare.violatedBy target observed then return { st with compliantCount := st.compliantCount + 1 }
      else
        -- The mount is asked about only where a write is about to be promised.
        let readOnly ← mountIsReadOnly (procPath p)
        if readOnly = some true then return st.flag (readOnlyMountIssue p)
        else
          return { st with
            runtimeWillChange := true
            estimatedChanges := st.estimatedChanges ++ [announcement p observed target] }

def validate (config : PluginConfig) : Session ValidationReport := do
  let st ← kernelParams.foldlM (previewParameter config) ⟨[], [], [], 0, sysctlConfigHeader, false⟩
  let existing := (← readFile sysctlHardenerConf).toOption
  return {
    pluginId := ⟨"kernel-hardening"⟩
    isValid := st.issues.all fun issue => issue.severity != .high
    issues := st.issues
    estimatedChanges :=
      if st.runtimeWillChange || existing != some st.desiredConfig then
        st.estimatedChanges ++ ["Create persistent sysctl config".toList]
      else st.estimatedChanges
    compliantCount := st.compliantCount
    exceptions := st.exceptions }

end LinuxHardener.Kernel
