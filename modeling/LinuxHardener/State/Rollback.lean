import LinuxHardener.State.Executor
import LinuxHardener.State.Store

/-
  Rolling a checkpoint back: which rows may be written, the snapshot that makes the
  rollback undoable, and the restore of each row.

  Every function takes the host before and returns the host after. A host is a tree
  and the calls the executor has had, so that what is read or written can be told
  from what is not.

  Correspondence (Rust ↔ Lean):
    `manager::{rollback_target_refusal, restore_file_state_tracked, restore_command_refusal,
      ensure_directory, remove_or_refuse, snapshot_current_state, rollback}` ↔ the functions of
      these names; the branches of `restore_file_state_tracked` are `restoreLink`,
      `removeOrRefuse` and `restoreInPlace`
    `capture_directory_entry` over an executor ↔ `captureEntry`
    `hardener_types::UNDELETABLE_ROLLBACK_PATHS` ↔ `undeletableRollbackPaths`
-/
namespace LinuxHardener.State

open FileTree

/-! ## Hosts and calls -/

/-- What an executor is asked. -/
inductive Call where
  | metadata (path : String)
  | pathExists (path : String)
  | readFile (path : String)
  | readLink (path : String)
  | linkProbe (path : String)
  | writeFile (path : String)
  | command (c : Command)
  deriving DecidableEq, Repr

structure Host where
  fs : Tree
  calls : List Call

def Host.ask (h : Host) (c : Call) : Host := { h with calls := h.calls ++ [c] }

@[simp] theorem Host.ask_fs (h : Host) (c : Call) : (h.ask c).fs = h.fs := rfl

@[simp] theorem Host.ask_calls (h : Host) (c : Call) : (h.ask c).calls = h.calls ++ [c] := rfl

inductive HardeningError where
  | config (message : String)
  | database (message : String)
  | executor (message : String)
  | rollback (message : String)
  | system (message : String)
  deriving DecidableEq, Repr

def HardeningError.text : HardeningError → String
  | .config m => "Configuration error: " ++ m
  | .database m => "Database error: " ++ m
  | .executor m => "Executor error: " ++ m
  | .rollback m => "Rollback error: " ++ m
  | .system m => "System error: " ++ m

inductive FileRestoreAction where
  | restored | removed | permissionsRestored | skipped
  deriving DecidableEq, Repr

/-- Paths a rollback must never delete, whatever a checkpoint records. -/
def undeletableRollbackPaths : List String :=
  ["/root", "/boot", "/etc/ssh", "/etc/sudoers", "/etc/sudoers.d", "/etc/passwd", "/etc/group", "/etc/shadow",
   "/etc/gshadow", "/etc/ssh/sshd_config", "/etc/sysctl.conf", "/etc/audit/auditd.conf", "/etc/selinux/config",
   "/etc/sysctl.d", "/etc/pam.d", "/etc/security", "/etc/audit/rules.d", "/etc/apparmor", "/etc/apparmor.d"]

/-- `DEFAULT_ROLLBACK_PREFIXES` -/
def defaultRollbackPrefixes : List String :=
  ["/etc/ssh", "/etc/sysctl", "/etc/security", "/etc/pam.d", "/etc/audit", "/etc/apparmor", "/etc/selinux",
   "/etc/login.defs", "/etc/nftables", "/etc/linux-hardener/nftables", "/etc/sysconfig/nftables.conf",
   "/etc/firewalld", "/etc/ufw", "/etc/sudoers", "/etc/passwd", "/etc/group", "/etc/shadow", "/etc/gshadow",
   "/etc/systemd/system", "/root", "/boot"]

/-! ## One command, one directory, one removal -/

/-- Why a command did not happen, from what it reported. -/
def commandRefusal (c : Command) : Except String CommandOutput → Option String
  | .ok out =>
    if out.exitCode = 0 then none
    else if Text.trim out.stderr = "" then
      some (c.program ++ " " ++ c.path ++ ": exited " ++ toString out.exitCode)
    else some (c.program ++ " " ++ c.path ++ ": " ++ Text.trim out.stderr)
  | .error e => some (c.program ++ " " ++ c.path ++ ": " ++ e)

def restoreCommandRefusal (ex : Executor) (c : Command) (h : Host) : Option String × Host :=
  let done := ex.executeCommand c h.fs
  (commandRefusal c done.2, { fs := done.1, calls := h.calls ++ [.command c] })

def ensureDirectory (ex : Executor) (dir : String) (h : Host) : Option String × Host :=
  match ex.pathExists h.fs dir with
  | .ok true => (none, h.ask (.pathExists dir))
  | _ => restoreCommandRefusal ex (.mkdir dir) (h.ask (.pathExists dir))

def asResult : Option String → Except HardeningError Unit
  | none => .ok ()
  | some refusal => .error (.executor refusal)

def removeOrRefuse (ex : Executor) (path : String) (h : Host) :
    (FileRestoreAction × Except HardeningError Unit) × Host :=
  if path ∉ undeletableRollbackPaths then
    let rm := restoreCommandRefusal ex (.rm path) h
    ((.removed, asResult rm.1), rm.2)
  else
    match ex.pathExists h.fs path with
    | .ok false => ((.skipped, .ok ()), h.ask (.pathExists path))
    | .ok true =>
      ((.skipped, .error (.rollback ("Refusing to delete " ++ path ++
        ": the checkpoint recorded this path as absent, but it exists now. It may have arrived from a package " ++
        "installed after the checkpoint was taken; this tool will not delete it."))), h.ask (.pathExists path))
    | .error e =>
      ((.skipped, .error (.rollback ("Refusing to delete " ++ path ++ ": could not determine whether it exists: "
        ++ e))), h.ask (.pathExists path))

/-! ## What may be written -/

/-- Whether a path begins with an allowed prefix. -/
def within (allowed : List String) (candidate : String) : Bool :=
  allowed.any (fun p => p.toList.isPrefixOf candidate.toList)

/-- The part of the refusal that reads the path alone. -/
def outsideAllowed (allowed : List String) (path : String) : Bool :=
  !isAbsolute path || (parse path).contains .up || !within allowed path

def rollbackTargetRefusal (ex : Executor) (allowed : List String) (f : FileState) (h : Host) :
    Option String × Host :=
  if outsideAllowed allowed f.filePath then (some ("Rollback path outside allowed directories: " ++ f.filePath), h)
  else if f.fileLinkTarget.isSome then (none, h)
  else if recordedAbsent f then (none, h)
  else
    match ex.linkTargetAsWriter h.fs f.filePath with
    | .ok none => (none, h.ask (.linkProbe f.filePath))
    | .ok (some resolved) =>
      if within allowed resolved then (none, h.ask (.linkProbe f.filePath))
      else (some ("Rollback symlink " ++ f.filePath ++ " resolves outside allowed directories"),
        h.ask (.linkProbe f.filePath))
    | .error e =>
      (some ("Rollback target cannot be determined to be safe to write: " ++ f.filePath ++ ": " ++ e),
        h.ask (.linkProbe f.filePath))

/-! ## Restoring one row -/

/-- A link is made anew, in its directory. -/
def restoreLink (ex : Executor) (target path : String) (h : Host) :
    (FileRestoreAction × Except HardeningError Unit) × Host :=
  let made := match parentPath path with
    | some parent => ensureDirectory ex parent h
    | none => (none, h)
  match made.1 with
  | some refusal => ((.restored, .error (.executor refusal)), made.2)
  | none =>
    let ln := restoreCommandRefusal ex (.ln target path) made.2
    ((.restored, asResult ln.1), ln.2)

/-- A row that is neither a link nor recorded absent. -/
def restoreAction (f : FileState) : FileRestoreAction :=
  if f.fileContent.isSome then .restored else .permissionsRestored

/-- A captured directory is made if it is gone. -/
def restoreDirectory (ex : Executor) (f : FileState) (h : Host) : Option String × Host :=
  if f.filePermissions &&& fileTypeMask = directoryTypeBits then ensureDirectory ex f.filePath h else (none, h)

def restoreContent (ex : Executor) (f : FileState) (h : Host) : Option String × Host :=
  match f.fileContent with
  | none => (none, h)
  | some content =>
    let wrote := ex.writeFile f.filePath (ofUtf8Lossy content) h.fs
    let h' : Host := { fs := wrote.1, calls := h.calls ++ [.writeFile f.filePath] }
    match wrote.2 with
    | .ok _ => (none, h')
    | .error e => (some ("Failed to write " ++ f.filePath ++ ": " ++ e), h')

/-- The first warning counts, and a content the capture could not read is reported. -/
def metaResult (f : FileState) (chmodWarn chownWarn : Option String) : Except HardeningError Unit :=
  match chmodWarn, chownWarn with
  | some w, _ => .error (.executor w)
  | none, some w => .error (.executor w)
  | none, none =>
    if f.fileContentAbsence = some .readFailed then
      .error (.executor (f.filePath ++ ": permissions and owner were restored, but its content was not, because " ++
        "the checkpoint could not read it when it was taken. The file's contents are whatever the apply left there."))
    else .ok ()

def restoreInPlace (ex : Executor) (f : FileState) (h : Host) :
    (FileRestoreAction × Except HardeningError Unit) × Host :=
  let made := restoreDirectory ex f h
  match made.1 with
  | some refusal => ((restoreAction f, .error (.executor refusal)), made.2)
  | none =>
    let wrote := restoreContent ex f made.2
    match wrote.1 with
    | some refusal => ((restoreAction f, .error (.executor refusal)), wrote.2)
    | none =>
      let chmodded := restoreCommandRefusal ex (.chmod f.restoreMode f.filePath) wrote.2
      let chowned := restoreCommandRefusal ex (.chown f.fileOwnerUid f.fileOwnerGid f.filePath) chmodded.2
      ((restoreAction f, metaResult f chmodded.1 chowned.1), chowned.2)

def restoreFileStateTracked (ex : Executor) (allowed : List String) (f : FileState) (h : Host) :
    (FileRestoreAction × Except HardeningError Unit) × Host :=
  let asked := rollbackTargetRefusal ex allowed f h
  match asked.1 with
  | some reason => ((.skipped, .error (.config reason)), asked.2)
  | none =>
    match f.fileLinkTarget with
    | some target => restoreLink ex target f.filePath asked.2
    | none =>
      if recordedAbsent f then removeOrRefuse ex f.filePath asked.2 else restoreInPlace ex f asked.2

/-! ## The snapshot -/

/-- `capture_directory_entry`: the metadata, and where a link leads. -/
def captureEntry (ex : Executor) (path : String) (h : Host) : Except HardeningError FileState × Host :=
  match ex.fileMetadata h.fs path with
  | .error e => (.error (.system e), h.ask (.metadata path))
  | .ok md =>
    if !md.fileExists then (.ok (absentRow path), h.ask (.metadata path))
    else
      let h' := (h.ask (.metadata path)).ask (.readLink path)
      match ex.readLink h.fs path with
      | .ok target => (.ok ⟨path, none, md.mode, md.uid, md.gid, target, some .byDesign⟩, h')
      | .error e =>
        (.error (.executor ("Cannot tell whether " ++ path ++
          " is a symlink, so it cannot be captured safely: " ++ e)), h')

/-- A content row is read again, strictly; any other row is its metadata. -/
def snapshotEntry (ex : Executor) (reference : FileState) (h : Host) : Except HardeningError FileState × Host :=
  let path := reference.filePath
  if reference.fileContent.isSome then
    match ex.fileMetadata h.fs path with
    | .error e => (.error (.system e), h.ask (.metadata path))
    | .ok md =>
      if md.fileExists && md.isFile then
        let read := (h.ask (.metadata path)).ask (.readFile path)
        match ex.readFile h.fs path with
        | .error e =>
          (.error (.executor ("Cannot snapshot current state of " ++ path ++ " before rollback: " ++ e)), read)
        | .ok content =>
          match ex.readLink h.fs path with
          | .error e =>
            (.error (.executor ("Cannot tell whether " ++ path ++
              " is a symlink, so it cannot be captured safely: " ++ e)), read.ask (.readLink path))
          | .ok none => (.ok ⟨path, some (utf8 content), md.mode, md.uid, md.gid, none, none⟩,
              read.ask (.readLink path))
          | .ok (some target) => (.ok ⟨path, none, symlinkMode, md.uid, md.gid, some target, none⟩,
              read.ask (.readLink path))
      else captureEntry ex path (h.ask (.metadata path))
  else captureEntry ex path h

def snapshotCurrentState (ex : Executor) : List FileState → Host → Except HardeningError (List FileState) × Host
  | [], h => (.ok [], h)
  | reference :: rest, h =>
    let entry := snapshotEntry ex reference h
    match entry.1 with
    | .error e => (.error e, entry.2)
    | .ok row =>
      let rows := snapshotCurrentState ex rest entry.2
      (rows.1.map (fun rs => row :: rs), rows.2)

/-! ## The rollback -/

structure FileRestoreResult where
  restorePath : String
  restoreAction : FileRestoreAction
  restoreSuccess : Bool
  restoreError : Option String
  deriving DecidableEq, Repr

structure RollbackResult where
  rollbackCheckpointId : String
  rollbackCheckpointName : String
  rollbackSuccess : Bool
  rollbackFiles : List FileRestoreResult

structure CheckpointManager where
  signer : Signer
  allowedRollbackPrefixes : List String
  /-- Whether the database takes a checkpoint of this name and these rows. -/
  persist : String → List FileState → Except HardeningError Unit

/-- Phase 1: the rows that may be restored, and a result for each that may not. -/
def sortTargets (ex : Executor) (allowed : List String) :
    List FileState → Host → (List FileState × List FileRestoreResult) × Host
  | [], h => (([], []), h)
  | f :: rest, h =>
    let asked := rollbackTargetRefusal ex allowed f h
    let sorted := sortTargets ex allowed rest asked.2
    match asked.1 with
    | some reason => ((sorted.1.1, ⟨f.filePath, .skipped, false, some reason⟩ :: sorted.1.2), sorted.2)
    | none => ((f :: sorted.1.1, sorted.1.2), sorted.2)

def restoreResult (f : FileState) (done : FileRestoreAction × Except HardeningError Unit) : FileRestoreResult :=
  match done.2 with
  | .ok _ => ⟨f.filePath, done.1, true, none⟩
  | .error e => ⟨f.filePath, done.1, false, some e.text⟩

/-- Phase 2: each row that may be restored is. -/
def restoreEach (ex : Executor) (allowed : List String) :
    List FileState → Host → List FileRestoreResult × Host
  | [], h => ([], h)
  | f :: rest, h =>
    let done := restoreFileStateTracked ex allowed f h
    let results := restoreEach ex allowed rest done.2
    (restoreResult f done.1 :: results.1, results.2)

/-- The name of the checkpoint a rollback takes first. -/
def snapshotName (c : Checkpoint) : String := "Before rollback to '" ++ c.checkpointName ++ "'"

/-- What a rollback did: its result, and the rows of the snapshot it stored. -/
structure RolledBack where
  result : RollbackResult
  snapshot : List FileState

def rollback (ex : Executor) (m : CheckpointManager) (currentHost : String) (c : Checkpoint)
    (fileStates : List FileState) (h : Host) : Except HardeningError RolledBack × Host :=
  if c.hostKey ≠ currentHost then
    (.error (.config ("Checkpoint " ++ c.checkpointId ++ " belongs to host '" ++ c.hostKey ++
      "', but the current target is '" ++ currentHost ++
      "'. Refusing to restore one host's state onto another.")), h)
  else if !verifyCheckpoint m.signer c fileStates then
    (.error (.config "Signature verification failed"), h)
  else
    let sorted := sortTargets ex m.allowedRollbackPrefixes fileStates h
    if sorted.1.1.isEmpty then
      (.error (.config ("Rollback aborted: no path in checkpoint " ++ c.checkpointId ++ " may be restored. " ++
        String.intercalate "; " (sorted.1.2.filterMap (·.restoreError)))), sorted.2)
    else
      let snap := snapshotCurrentState ex sorted.1.1 sorted.2
      match snap.1 with
      | .error e => (.error e, snap.2)
      | .ok rows =>
        match m.persist (snapshotName c) rows with
        | .error e => (.error e, snap.2)
        | .ok _ =>
          let done := restoreEach ex m.allowedRollbackPrefixes sorted.1.1 snap.2
          let files := sorted.1.2 ++ done.1
          (.ok ⟨⟨c.checkpointId, c.checkpointName, sorted.1.2.isEmpty && done.1.all (·.restoreSuccess), files⟩,
            rows⟩, done.2)

end LinuxHardener.State
