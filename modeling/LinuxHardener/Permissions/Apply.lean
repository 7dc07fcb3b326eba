import LinuxHardener.Core.Plugin

/-
  The permissions plugin's apply.

  A local session opens the path itself, without following a link, and changes the mode of
  what it opened; a remote one runs `chmod` and reads the mode back.

  Correspondence (Rust ↔ Lean):
    `PermissionDirective`, `CRITICAL_PERMISSIONS` ↔ `PermissionDirective`, `criticalPermissions`
    `violates`, `target_mode`, `unverified_mode_target` ↔ the same in camel case
    `effective_directive`, `mode_is_documented_by`      ↔ the same in camel case
    `probe_fstype`, `non_posix_fstype`, `current_verified_mode` ↔ the same in camel case
    `apply_path_permissions`, `apply_local_fchmod`, `apply_remote_chmod` ↔ the same in camel case
    `PermissionsHardeningPlugin::apply` ↔ `applyPlugin`, one round of its loop `applyDirective`

  Owner, group, description and severity of a directive are used by the scan alone.
-/
namespace LinuxHardener.Permissions

open LineText Dialogue
open Plugins (Change ChangeType CommandOutput FileMetadata PluginConfig PolicyException checkpointChange)
open Core (ApplyResult)

abbrev Mode := BitVec 32

/-- What the plugin asks: the executor, or its own system calls on a local host. -/
inductive Query where
  | executor (q : Plugins.Query)
  | isDir (path : Chars)
  | openNoFollow (path : Chars) (directory : Bool)
  | fchmod (path : Chars) (mode : Mode)
  deriving DecidableEq, Repr

@[reducible] def Query.Answer : Query → Type
  | .executor q => q.Answer
  | .isDir _ => Bool
  | .openNoFollow _ _ => Except Chars Unit
  | .fchmod _ _ => Except Chars Unit

abbrev Exchange := Event Query.Answer

abbrev Session (α : Type) := Program Query Query.Answer α

def ask (q : Query) : Session q.Answer := Program.query q

def execute (program : Chars) (args : List Chars) : Session (Except Chars CommandOutput) := ask (.executor (.execute program args))

def pathExists (path : Chars) : Session (Except Chars Bool) := ask (.executor (.pathExists path))

def fileMetadata (path : Chars) : Session (Except Chars FileMetadata) := ask (.executor (.metadata path))

def openNoFollow (path : Chars) (directory : Bool) : Session (Except Chars Unit) := ask (.openNoFollow path directory)

def fchmod (path : Chars) (mode : Mode) : Session (Except Chars Unit) := ask (.fchmod path mode)

def checkpoint (name : Chars) (paths : List Chars) : Session (Except Chars Chars) := ask (.executor (.checkpoint name paths))

/-! ## Modes -/

structure PermissionDirective where
  path : Chars
  mode : Mode
  /-- The mode is the mask of the bits that may be set. -/
  maxMask : Bool
  deriving DecidableEq, Repr

def criticalPermissions : List PermissionDirective := [
  ⟨"/root", 0o700, false⟩,
  ⟨"/boot", 0o700, false⟩,
  ⟨"/etc/ssh", 0o755, false⟩,
  ⟨"/etc/sudoers", 0o440, false⟩,
  ⟨"/etc/sudoers.d", 0o750, false⟩,
  ⟨"/etc/passwd", 0o644, false⟩,
  ⟨"/etc/group", 0o644, false⟩,
  ⟨"/etc/shadow", 0o640, true⟩,
  ⟨"/etc/gshadow", 0o640, true⟩]

def violates (d : PermissionDirective) (current : Mode) : Bool :=
  if d.maxMask then current &&& ~~~d.mode != 0 else current != d.mode

def targetMode (d : PermissionDirective) (current : Mode) : Mode := if d.maxMask then current &&& d.mode else d.mode

def unverifiedModeTarget (d : PermissionDirective) : Option Mode := if d.maxMask then none else some d.mode

/-- The nine permission bits. -/
def permissionBits (mode : Mode) : Mode := mode &&& 0o777

/-- `u32::from_str_radix(s, 8)` -/
def parseOctal (s : Chars) : Option Mode :=
  let digits := match s with
    | '+' :: ds => ds
    | ds => ds
  if digits ≠ [] ∧ digits.all (fun c => '0' ≤ c ∧ c ≤ '7') then
    let n := Nat.ofDigitChars 8 digits 0
    if n < 2 ^ 32 then some (BitVec.ofNat 32 n) else none
  else none

/-- An override may only take bits away. -/
def effectiveDirective (d : PermissionDirective) (config : PluginConfig) : PermissionDirective :=
  match ((config.directives d.path).bind parseOctal).filter fun mode => mode &&& ~~~d.mode == 0 with
  | some mode => { d with mode := mode }
  | none => d

def modeIsDocumentedBy (documented : Chars) (observed : Mode) : Bool := parseOctal documented == some observed

def matchingModeException (config : PluginConfig) (key : Chars) (actual : Mode) : Option PolicyException :=
  (config.hasValidException key).filter fun e => modeIsDocumentedBy e.value actual

/-- `{:04o}` -/
def octal (mode : Mode) : Chars :=
  let digits := Nat.toDigits 8 mode.toNat
  List.replicate (4 - digits.length) '0' ++ digits

/-! ## The filesystem's type -/

def nonPosixFstypes : List Chars :=
  ["vfat".toList, "msdos".toList, "exfat".toList, "ntfs".toList, "ntfs3".toList, "iso9660".toList, "udf".toList]

/-- A token a probe printed, if it did. -/
def printedToken : Except Chars CommandOutput → Option Chars
  | .error _ => none
  | .ok output =>
    let token := LineText.trim output.stdout
    if output.success && !token.isEmpty then some token else none

def probeFstype (path : Chars) : Session (Option Chars) := do
  match printedToken (← execute "findmnt" ["-no", "FSTYPE", path]) with
  | some token => return some token
  | none => return printedToken (← execute "stat" ["-f", "-c", "%T", path])

def nonPosixFstype (path : Chars) : Session (Option Chars) := do
  match ← probeFstype path with
  | none => return none
  | some token =>
    let token := (LineText.trim token).map Char.toLower
    return if nonPosixFstypes.contains token then some token else none

def nonPosixGuidance (path fstype : Chars) : Chars :=
  path ++ " is on a ".toList ++ fstype ++ " filesystem; POSIX permissions cannot be set with chmod - ".toList ++
    "harden via fstab mount options (e.g. fmask=0077,dmask=0077)".toList

/-! ## Changes -/

def modeTransitionDescription (current : Option Mode) (target : Mode) : Chars :=
  match current with
  | some mode => "from ".toList ++ octal mode ++ " to ".toList ++ octal target
  | none => "to ".toList ++ octal target ++ " (current permissions could not be verified beforehand)".toList

def changedMode (d : PermissionDirective) (current : Option Mode) (target : Mode) : Change :=
  .made .permissions ("Changed permissions on ".toList ++ d.path ++ ' ' :: modeTransitionDescription current target)

def changeFailure (d : PermissionDirective) (error : Chars) : Change :=
  .failed .permissions ("Failed to change permissions on ".toList ++ d.path) error

def unverifiedSkip (d : PermissionDirective) : Change :=
  .made .skipped (d.path ++ ": skipped (current permissions could not be verified, ".toList ++
    "so a safe target cannot be computed for this max-mask directive)".toList)

def exceptionSkip (path reason : Chars) : Change :=
  .made .skipped (path ++ ": skipped (exception: ".toList ++ reason ++ [')'])

def existenceUnknown (d : PermissionDirective) (error : Chars) : Change :=
  .failed .permissions (d.path ++ ": could not determine whether the path exists, so it was not examined".toList) error

/-- The mode that stands after a `chmod` that reported success, and the one wanted. -/
def stillWrong (d : PermissionDirective) (mode target : Mode) : Change where
  description := "Permissions on ".toList ++ d.path ++ " are still ".toList ++ octal mode ++
    " after chmod reported success (wanted ".toList ++ octal target ++ [')']
  type := .permissions
  success := false
  error := none

/-! ## Apply -/

def applyLocalFchmod (d : PermissionDirective) (current : Option Mode) : Session Change := do
  let directory ← ask (.isDir d.path)
  match ← openNoFollow d.path directory with
  | .error e => return .failed .permissions ("Failed to open ".toList ++ d.path ++ " for chmod".toList) e
  | .ok () =>
    let target := targetMode d (current.getD 0)
    match ← fchmod d.path target with
    | .ok () => return changedMode d current target
    | .error e => return changeFailure d e

def applyRemoteChmod (d : PermissionDirective) (current : Option Mode) : Session Change := do
  let target := targetMode d (current.getD 0)
  match ← execute "chmod" [octal target, d.path] with
  | .error e => return changeFailure d e
  | .ok output =>
    if output.success then
      match ← fileMetadata d.path with
      | .ok metadata =>
        let mode := permissionBits metadata.mode
        return if violates d mode then stillWrong d mode target else changedMode d current target
      | .error e =>
        return .failed .permissions ("Could not verify permissions on ".toList ++ d.path ++ " after chmod".toList) e
    else return changeFailure d output.stderr

/-- The chmod, unless the filesystem is known to hold no modes. -/
def changeMode (isRemote : Bool) (d : PermissionDirective) (current : Option Mode) : Session Change := do
  match ← nonPosixFstype d.path with
  | some fstype => return .made .skipped (nonPosixGuidance d.path fstype)
  | none => if isRemote then applyRemoteChmod d current else applyLocalFchmod d current

def applyPathPermissions (isRemote : Bool) (d : PermissionDirective) (current : Option Mode) : Session (Option Change) := do
  match ← pathExists d.path with
  | .error e => return some (existenceUnknown d e)
  | .ok false => return none
  | .ok true =>
    match current with
    | some mode => if violates d mode then return some (← changeMode isRemote d current) else return none
    | none =>
      if (unverifiedModeTarget d).isNone then return some (unverifiedSkip d)
      else return some (← changeMode isRemote d current)

/-- The mode a metadata answer establishes. -/
def verifiedMode : Except Chars FileMetadata → Option Mode
  | .error _ => none
  | .ok metadata => if metadata.fileExists then some (permissionBits metadata.mode) else none

def currentVerifiedMode (path : Chars) : Session (Option Mode) := do
  return verifiedMode (← fileMetadata path)

def applyDirective (isRemote : Bool) (config : PluginConfig) (d : PermissionDirective) : Session (List Change) := do
  let current ← currentVerifiedMode d.path
  match current.bind (matchingModeException config d.path) with
  | some exception => return [exceptionSkip d.path exception.reason]
  | none => return (← applyPathPermissions isRemote (effectiveDirective d config) current).toList

def applyDirectives (isRemote : Bool) (config : PluginConfig) (ds : List PermissionDirective) : Session (List Change) := do
  let changes ← ds.mapM (applyDirective isRemote config)
  return changes.flatten

/-- A checkpoint of modes and owners alone. -/
def createCheckpointMetadataOnlyForApply (ctx : Plugins.Context) (name : Chars) (paths : List Chars) :
    Session (Except Chars (Option Chars)) :=
  if ctx.hasCheckpointManager then do
    match ← checkpoint name paths with
    | .error e => return .error e
    | .ok id => return .ok (some id)
  else return .ok none

def resultOf (changes : List Change) (checkpointId : Option Chars) : ApplyResult where
  pluginId := ⟨"permissions-hardening"⟩
  success := changes.all Change.success
  changes := changes
  checkpointId := checkpointId
  error := none

def applyPlugin (ctx : Plugins.Context) (config : PluginConfig) : Session (Except Chars ApplyResult) := do
  match ← createCheckpointMetadataOnlyForApply ctx "permissions-hardening-pre-apply" (criticalPermissions.map (·.path)) with
  | .error e => return .error e
  | .ok id =>
    let changes ← applyDirectives ctx.isRemote config criticalPermissions
    return .ok (resultOf (checkpointChange id ++ changes) id)

end LinuxHardener.Permissions
