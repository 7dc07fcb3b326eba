import LinuxHardener.Core.Plugin
import LinuxHardener.Pam.Reads
import LinuxHardener.Plugins.Backups

/-
  The PAM plugin's apply (`pam/apply.rs`).

  Correspondence (Rust ↔ Lean):
    `apply_exact_directive`   ↔ `applyExactDirective`
    `mode_for_copy_of`        ↔ `modeForCopyOf`
    `conf_is_writable`        ↔ `confIsWritable`
    `create_config_backup`    ↔ `createConfigBackup`
    `backup_and_write`        ↔ `backupAndWrite`, what comes before its write `prepareWrite`
    `apply_create_mode`, `write_changed_conf` ↔ the same in camel case
    `apply`                   ↔ `applyPlugin`, one round of its loop `applyDirective`, the arm of a
      file under `/etc/security` `applySecurityConf`

  The time in a backup's name is the parameter `clock`, by the file that is copied.
-/
namespace LinuxHardener.Pam

open LineText Common Plugins Dialogue
open Core (ApplyResult)

/-! ## What a run reports -/

/-- The changes so far, and whether nothing has gone wrong. -/
structure Report where
  changes : List Change
  allSuccess : Bool
  deriving DecidableEq, Repr

namespace Report

def note (report : Report) (change : Change) : Report := { report with changes := report.changes ++ [change] }

def fail (report : Report) (change : Change) : Report := ⟨report.changes ++ [change], false⟩

end Report

/-! ## A file held in memory -/

structure Buffer where
  content : Chars
  changed : Bool
  deriving DecidableEq, Repr

/-- A right value is left alone only where setting it changes no line with text in it. -/
def applyExactDirective (buffer : Buffer) (name target : Chars) (format : ConfigFormat) (fileLabel : Chars) : Buffer × Change :=
  let current := parseConfigValue buffer.content name .auto true
  let updated := setConfigDirective buffer.content name target format true .remove
  if current = some target ∧ linesWithText updated = linesWithText buffer.content then
    (buffer, .made .skipped (name ++ " already set to ".toList ++ target ++ " in ".toList ++ fileLabel))
  else (⟨updated, true⟩, .made .configFile ("Set ".toList ++ name ++ " = ".toList ++ target ++ " in ".toList ++ fileLabel))

/-! ## Writing a file -/

/-- Whether a file may be written, and the mode to give it where the write creates it. -/
structure ConfWrite where
  allowed : Bool
  createMode : Option (BitVec 32)
  deriving DecidableEq, Repr

def fallbackCreateMode : BitVec 32 := 0o644

def modeForCopyOf (vendorPath : Chars) : Session (BitVec 32) := do
  match ← fileMetadata vendorPath with
  | .ok metadata => return metadata.mode &&& 0o7777
  | .error _ => return fallbackCreateMode

def creatingFrom (path vendor : Chars) : Change :=
  .made .configFile ("Creating ".toList ++ path ++ " from ".toList ++ vendor ++
    " so the settings it makes survive: this host keeps vendor configuration in ".toList ++ vendor ++ ", and ".toList ++ path ++
      " overrides it as a whole file rather than per directive".toList)

def refusedToRewrite (path reason : Chars) : Change :=
  .failed .configFile ("Refused to rewrite ".toList ++ path ++
    ": its current contents could not be read, and rewriting it would discard them".toList) reason

def refusedToCreate (path vendor reason : Chars) : Change :=
  .failed .configFile ("Refused to create ".toList ++ path ++ ": whether this host keeps vendor configuration in ".toList ++ vendor ++
    " could not be checked, and creating ".toList ++ path ++ " would silence it if it is there".toList) reason

def confIsWritable (path : Chars) (read : ConfRead) (report : Report) : Session (ConfWrite × Report) :=
  match read with
  | .content _ .admin | .absent => return (⟨true, none⟩, report)
  | .content _ .vendor => do
    let vendor := (vendorPathFor path).getD path
    let mode ← modeForCopyOf vendor
    return (⟨true, some mode⟩, report.note (creatingFrom path vendor))
  | .unreadable unread reason _ =>
    if unread = path then return (⟨false, none⟩, report.fail (refusedToRewrite path reason))
    else return (⟨false, none⟩, report.fail (refusedToCreate path unread reason))

def pamBackupStem (filePath : Chars) : Chars := filePath ++ ".backup-".toList

/-- Only a confirmed absence needs no copy. -/
def confirmedAbsent : Except Chars Bool → Bool
  | .ok false => true
  | _ => false

section

variable (clock : Chars → Except Chars Nat)

def createConfigBackup (filePath : Chars) : Session (Except Chars Chars) :=
  match clock filePath with
  | .error e => return .error ("Plugin error: Failed to get system time: ".toList ++ e)
  | .ok timestamp => do
    let backupPath := pamBackupStem filePath ++ decimal timestamp
    match ← execute "cp" ["-p", "--no-dereference", filePath, backupPath] with
    | .error e => return .error ("Plugin error: ".toList ++ e)
    | .ok output =>
      if output.success then
        pruneTimestampedBackups (pamBackupStem filePath) backupsKept
        return .ok backupPath
      else
        return .error ("Plugin error: Failed to back up ".toList ++ filePath ++ " to ".toList ++ backupPath ++
          ": cp exited ".toList ++ (toString output.exitCode).toList ++ " (".toList ++ LineText.trim output.stderr ++ [')'])

/-- A copy of a file that may be there; a directory for one that is known not to be. -/
def prepareWrite (creating : Bool) (path fileLabel : Chars) : Session (Except Change (List Change)) :=
  if creating then
    match Ssh.parent path with
    | none => return .ok []
    | some dir => do
      match ← ensureDirectory dir with
      | some reason => return .error (.failed .configFile ("Failed to create the directory holding ".toList ++ fileLabel) reason)
      | none => return .ok []
  else do
    match ← createConfigBackup clock path with
    | .ok backup => return .ok [.made .configFile ("Created backup: ".toList ++ backup)]
    | .error e => return .error (.failed .configFile ("Failed to backup ".toList ++ fileLabel) e)

def octal (mode : BitVec 32) : Chars := Nat.toDigits 8 mode.toNat

def applyCreateMode (path : Chars) (mode : BitVec 32) : Session (List Change) := do
  let failure := fun reason => Change.failed .configFile ("Could not set mode ".toList ++ octal mode ++ " on ".toList ++ path) reason
  match ← execute "chmod" [octal mode, path] with
  | .ok output => return if output.success then [] else [failure (LineText.trim output.stderr)]
  | .error e => return [failure e]

/-- The mode of a file that was created. -/
def settleMode (creating : Bool) (path : Chars) (createMode : Option (BitVec 32)) : Session (List Change) :=
  match createMode.filter fun _ => creating with
  | some mode => applyCreateMode path mode
  | none => return []

def backupAndWrite (path fileLabel content : Chars) (createMode : Option (BitVec 32)) : Session (Bool × List Change) := do
  let creating := confirmedAbsent (← pathExists path)
  match ← prepareWrite clock creating path fileLabel with
  | .error change => return (false, [change])
  | .ok prepared =>
    match ← writeFile path content with
    | .error e => return (false, prepared ++ [.failed .configFile ("Failed to write ".toList ++ fileLabel) e])
    | .ok () => return (true, prepared ++ (← settleMode creating path createMode))

def writeChangedConf (path fileLabel content : Chars) (createMode : Option (BitVec 32)) : Session (Bool × List Change) := do
  let (written, changes) ← backupAndWrite clock path fileLabel content createMode
  return (written, if written then changes ++ [.made .configFile ("Wrote modified ".toList ++ fileLabel)] else changes)

end

/-! ## The loop -/

/-- What a run holds: its report and the two files it edits in memory. -/
structure Progress where
  report : Report
  pwquality : Buffer
  loginDefs : Buffer
  deriving DecidableEq, Repr

namespace Progress

def note (st : Progress) (change : Change) : Progress := { st with report := st.report.note change }

def fail (st : Progress) (change : Change) : Progress := { st with report := st.report.fail change }

end Progress

/-- `PAM_INLINE_OVERRIDE_MARKER` -/
def pamInlineOverrideMarker : Chars := "inline pam.d override present"

def inlineOverride (name value path target : Chars) : Change :=
  .failed .configFile (name ++ ['='] ++ value ++ " is set inline in the PAM stack and overrides ".toList ++ path ++
    "; edit the PAM stack manually to set ".toList ++ name ++ " to ".toList ++ target) pamInlineOverrideMarker

def inlineUnreadable (name stack path target : Chars) (permissionDenied : Bool) : Change :=
  .failed .configFile (stack ++ " could not be read and may set ".toList ++ name ++ " inline, which would override ".toList ++ path ++
    "; ".toList ++
      (if permissionDenied then "re-run with sudo, or edit the PAM stack manually" else "repair the file, or edit the PAM stack manually").toList ++
        " to set ".toList ++ name ++ " to ".toList ++ target)
    ("PAM stack ".toList ++ stack ++ " unreadable".toList)

def setIn (name target file : Chars) : Change :=
  .made .configFile ("Set ".toList ++ name ++ " = ".toList ++ target ++ " in ".toList ++ file)

/-- What was read of a file, or nothing where it is absent. -/
def ConfRead.contentOr : ConfRead → Chars
  | content text _ => text
  | absent | unreadable _ _ _ => []

section

variable (denied : Chars → Chars → Bool) (clock : Chars → Except Chars Nat)

/-- The file is written only where the value in effect breaches the target, no argument in a stack
stands before it, and it could be read. -/
def applySecurityConf (path : String) (d : PamDirective) (target : Chars) (observed : ThresholdRead) (report : Report) :
    Session Report := do
  let inline ← readPamdInline denied path d.name
  if !d.compare.violatedBy target (some observed.valueOrNotSet) then
    return report.note (.made .skipped (d.name ++ " already meets threshold in ".toList ++ path.toList))
  else
    match inline with
    | .value value => return report.fail (inlineOverride d.name value path.toList target)
    | .unreadable stack permissionDenied =>
      return report.fail (inlineUnreadable d.name stack.toList path.toList target permissionDenied)
    | .notSet =>
      let read ← readConfClassified denied path.toList
      let (write, report) ← confIsWritable path.toList read report
      if !write.allowed then return report
      else
        let updated := setConfigDirective read.contentOr d.name target d.configFile.configFormat true .remove
        let (written, changes) ← backupAndWrite clock path.toList path.toList updated write.createMode
        if written then return ⟨report.changes ++ changes ++ [setIn d.name target path.toList], report.allSuccess⟩
        else return ⟨report.changes ++ changes, false⟩

def applyDirective (config : PluginConfig) (pwqualityWrite loginDefsWrite : ConfWrite) (st : Progress)
    (round : PamDirective × ThresholdRead) : Session Progress :=
  let (d, observed) := round
  match config.matchingException d.name observed.valueOrNotSet with
  | some e => return st.note (.made .skipped (d.name ++ ": skipped (exception: ".toList ++ e.reason ++ [')']))
  | none =>
    let target := clampedBaseline d config
    -- The write can only tighten what the host holds, as the target only tightens the secure value.
    let targetValue := d.compare.clampTarget target (some observed.valueOrNotSet)
    match d.configFile with
    | .pwQuality =>
      if pwqualityWrite.allowed then
        let (buffer, change) := applyExactDirective st.pwquality d.name targetValue d.configFile.configFormat "pwquality.conf"
        return { st.note change with pwquality := buffer }
      else return st
    | .loginDefs =>
      if loginDefsWrite.allowed then
        let (buffer, change) := applyExactDirective st.loginDefs d.name targetValue d.configFile.configFormat "login.defs"
        return { st.note change with loginDefs := buffer }
      else return st
    | .pamAuth => return st
    | .securityConf path => do
      let report ← applySecurityConf denied clock path d target observed st.report
      return { st with report := report }

/-- A file edited in memory, written where an edit changed it. -/
def writeBuffer (path : String) (fileLabel : Chars) (write : ConfWrite) (buffer : Buffer) (report : Report) : Session Report :=
  if buffer.changed && write.allowed then do
    let (written, changes) ← writeChangedConf clock path.toList fileLabel buffer.content write.createMode
    return ⟨report.changes ++ changes, report.allSuccess && written⟩
  else return report

def moduleNotLoadedMessage (confPath module : Chars) : Chars :=
  confPath ++ " is written but not read: the PAM stack does not load ".toList ++ module ++
    ". The settings in it take effect only once that module is added to the stack, which this plugin does not edit".toList

/-- A file no module reads is written, and reported as not in force. -/
def Report.notePresence (report : Report) (found : String × ModulePresence) : Report :=
  match found.2 with
  | .notInStack module =>
    report.fail (.failed .configFile (moduleNotLoadedMessage found.1.toList module) (module ++ " is not loaded by the PAM stack".toList))
  | _ => report

/-- `PAM_BACKED_UP_FILES` -/
def pamBackedUpFiles : List String := [pwqualityConf, faillockConf, pwhistoryConf, loginDefs]

/-- Every directive with the value it has before anything is written. -/
def observeAll (pwquality loginDefsRead : ConfRead) : Session (List (PamDirective × ThresholdRead)) :=
  pamDirectives.mapM fun d => do
    let observed ← observedPamValue denied d pwquality loginDefsRead []
    return (d, observed)

/-- The apply once its checkpoint is taken. -/
def applyAll (config : PluginConfig) (checkpointId : Option Chars) : Session ApplyResult := do
  let pwqualityRead ← readConfClassified denied pwqualityConf.toList
  let (pwqualityWrite, report) ← confIsWritable pwqualityConf.toList pwqualityRead ⟨checkpointChange checkpointId, true⟩
  let loginDefsRead ← readConfClassified denied loginDefs.toList
  let (loginDefsWrite, report) ← confIsWritable loginDefs.toList loginDefsRead report
  let presence ← modulePresenceByFile denied
  let report := presence.foldl Report.notePresence report
  let observed ← observeAll denied pwqualityRead loginDefsRead
  let st ← observed.foldlM (applyDirective denied clock config pwqualityWrite loginDefsWrite)
    ⟨report, ⟨pwqualityRead.contentOr, false⟩, ⟨loginDefsRead.contentOr, false⟩⟩
  let report ← writeBuffer clock pwqualityConf "pwquality.conf" pwqualityWrite st.pwquality st.report
  let report ← writeBuffer clock loginDefs "login.defs" loginDefsWrite st.loginDefs report
  return { pluginId := ⟨"pam-hardening"⟩, success := report.allSuccess, changes := report.changes, checkpointId := checkpointId,
           error := none }

def pruneAll : List String → Session Unit
  | [] => return ()
  | path :: paths => do
    pruneTimestampedBackups (pamBackupStem path.toList) backupsKept
    pruneAll paths

def applyPlugin (ctx : Context) (config : PluginConfig) : Session (Except Chars ApplyResult) := do
  -- Ahead of the checkpoint, so that it does not hold the copies.
  pruneAll pamBackedUpFiles
  match ← createCheckpointForApply ctx "pam-hardening-pre-apply"
      [pwqualityConf.toList, loginDefs.toList, "/etc/pam.d", faillockConf.toList, pwhistoryConf.toList] with
  | .error e => return .error e
  | .ok checkpointId => return .ok (← applyAll denied clock config checkpointId)

end

end LinuxHardener.Pam
