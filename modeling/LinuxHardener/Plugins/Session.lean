import LinuxHardener.Lib.Cut
import LinuxHardener.Lib.Dialogue

/-
  What a plugin asks of the host it hardens, and what it reports.

  An apply is a program over these queries: nothing is said here of the answers,
  which a result quantifies over or ties to a host.

  Correspondence (Rust ↔ Lean):
    `SystemExecutor::{execute_command, path_exists, file_metadata, read_file, read_dir, write_file}` ↔ `Query`
    `FileMetadata`  ↔ `FileMetadata`
    `SystemExecutor::command_exists`   ↔ `commandExists`
    `create_checkpoint_for_apply`      ↔ `createCheckpointForApply`
    `checkpoint_change`                ↔ `checkpointChange`
    `PluginConfig::has_valid_exception` ↔ `PluginConfig.hasValidException`
-/
namespace LinuxHardener.Plugins

open LineText Dialogue

structure CommandOutput where
  stdout : Chars
  stderr : Chars
  exitCode : Int
  deriving DecidableEq, Repr

def CommandOutput.success (output : CommandOutput) : Bool := output.exitCode == 0

structure FileMetadata where
  fileExists : Bool
  isFile : Bool
  isDir : Bool
  mode : BitVec 32
  size : BitVec 64
  uid : BitVec 32
  gid : BitVec 32
  deriving DecidableEq, Repr

/-- What a plugin may ask. -/
inductive Query where
  | execute (program : Chars) (args : List Chars)
  | pathExists (path : Chars)
  | metadata (path : Chars)
  | readFile (path : Chars)
  | readDir (path : Chars)
  | writeFile (path content : Chars)
  | checkpoint (name : Chars) (paths : List Chars)
  deriving DecidableEq, Repr

/-- What it may be told. Errors are texts. -/
@[reducible] def Query.Answer : Query → Type
  | .execute _ _ => Except Chars CommandOutput
  | .pathExists _ => Except Chars Bool
  | .metadata _ => Except Chars FileMetadata
  | .readFile _ => Except Chars Chars
  | .readDir _ => Except Chars (List Chars)
  | .writeFile _ _ => Except Chars Unit
  | .checkpoint _ _ => Except Chars Chars

abbrev Exchange := Event Query.Answer

abbrev Session (α : Type) := Program Query Query.Answer α

/-- One question. -/
def ask (q : Query) : Session q.Answer := Program.query q

theorem asks_ask {P : Query → Prop} {q : Query} (h : P q) : Asks P (ask q) := ⟨h, fun _ => trivial⟩

def execute (program : Chars) (args : List Chars) : Session (Except Chars CommandOutput) := ask (.execute program args)

def pathExists (path : Chars) : Session (Except Chars Bool) := ask (.pathExists path)

def fileMetadata (path : Chars) : Session (Except Chars FileMetadata) := ask (.metadata path)

def readFile (path : Chars) : Session (Except Chars Chars) := ask (.readFile path)

def readDir (path : Chars) : Session (Except Chars (List Chars)) := ask (.readDir path)

def writeFile (path content : Chars) : Session (Except Chars Unit) := ask (.writeFile path content)

theorem run_execute {β : Type} {program : Chars} {args : List Chars} {f : Except Chars CommandOutput → Session β}
    {es : List Exchange} {b : β} :
    Run (execute program args >>= f) es b ↔ ∃ r es', es = ⟨.execute program args, r⟩ :: es' ∧ Run (f r) es' b := run_ask

theorem run_writeFile {β : Type} {path content : Chars} {f : Except Chars Unit → Session β} {es : List Exchange} {b : β} :
    Run (writeFile path content >>= f) es b ↔ ∃ r es', es = ⟨.writeFile path content, r⟩ :: es' ∧ Run (f r) es' b :=
  run_ask

theorem run_readFile {β : Type} {path : Chars} {f : Except Chars Chars → Session β} {es : List Exchange} {b : β} :
    Run (readFile path >>= f) es b ↔ ∃ r es', es = ⟨.readFile path, r⟩ :: es' ∧ Run (f r) es' b := run_ask

theorem run_pathExists {β : Type} {path : Chars} {f : Except Chars Bool → Session β} {es : List Exchange} {b : β} :
    Run (pathExists path >>= f) es b ↔ ∃ r es', es = ⟨.pathExists path, r⟩ :: es' ∧ Run (f r) es' b := run_ask

/-- What a command printed, where it succeeded; a command that could not be run and one that
failed are reported each in its own words. -/
def outputOf (program : Chars) (args : List Chars) (onError onFailure : Chars → Chars) : Session (Except Chars Chars) := do
  match ← execute program args with
  | .error e => return .error (onError e)
  | .ok output => if output.success then return .ok output.stdout else return .error (onFailure output.stderr)

theorem run_outputOf {program : Chars} {args : List Chars} {onError onFailure : Chars → Chars} {es : List Exchange}
    {stdout : Chars} (hr : Run (outputOf program args onError onFailure) es (.ok stdout)) :
    ∃ output : CommandOutput, es = [⟨.execute program args, .ok output⟩] ∧ output.success = true ∧ output.stdout = stdout := by
  obtain ⟨r, es', rfl, h⟩ := run_execute.mp hr
  cases r with
  | error e => cases (run_pure.mp h).2
  | ok output =>
    dsimp only at h
    split at h
    · next hs =>
      obtain ⟨rfl, heq⟩ := run_pure.mp h
      cases heq
      exact ⟨output, rfl, hs, rfl⟩
    · cases (run_pure.mp h).2

theorem asks_outputOf {P : Query → Prop} {program : Chars} {args : List Chars} {onError onFailure : Chars → Chars}
    (h : P (.execute program args)) : Asks P (outputOf program args onError onFailure) := by
  refine Asks.bind (asks_ask h) fun r => ?_
  cases r with
  | error e => trivial
  | ok output => dsimp only; split <;> trivial

/-- What an apply knows of its own session. -/
structure Context where
  isRemote : Bool
  hasCheckpointManager : Bool
  deriving DecidableEq, Repr

/-- `COMMAND_EXISTS_PROBE` -/
def commandExistsProbe : Chars := "case $(command -v -- \"$1\") in /*) exit 0 ;; *) exit 1 ;; esac"

/-- Whether a program is a command that could be spawned. -/
def commandExists (program : Chars) : Session (Except Chars Bool) := do
  match ← execute "sh" ["-c", commandExistsProbe, "sh", program] with
  | .error e => return .error e
  | .ok output => return .ok output.success

theorem asks_commandExists {P : Query → Prop} {program : Chars}
    (h : P (.execute "sh" ["-c", commandExistsProbe, "sh", program])) : Asks P (commandExists program) := by
  refine Asks.bind (asks_ask h) fun r => ?_
  cases r <;> trivial

/-! ## Reports -/

inductive ChangeType where
  | configFile
  | firewallRule
  | kernelParameter
  | package
  | permissions
  | service
  | skipped
  | checkpoint
  deriving DecidableEq, Repr

structure Change where
  description : Chars
  type : ChangeType
  success : Bool
  error : Option Chars
  deriving DecidableEq, Repr

def Change.isSkipped (change : Change) : Bool := change.type == .skipped

def Change.isCheckpoint (change : Change) : Bool := change.type == .checkpoint

/-- Work on the host itself, done or tried. -/
def Change.isReal (change : Change) : Bool := !change.isSkipped && !change.isCheckpoint

/-- Something done. -/
def Change.made (type : ChangeType) (description : Chars) : Change := ⟨description, type, true, none⟩

/-- Something that could not be done. -/
def Change.failed (type : ChangeType) (description error : Chars) : Change := ⟨description, type, false, some error⟩

/-! ## Checkpoints -/

/-- A checkpoint of the paths, where there is a manager to take it. -/
def createCheckpointForApply (ctx : Context) (name : Chars) (paths : List Chars) :
    Session (Except Chars (Option Chars)) :=
  if ctx.hasCheckpointManager then do
    match ← ask (.checkpoint name paths) with
    | .error e => return .error e
    | .ok id => return .ok (some id)
  else return .ok none

theorem asks_createCheckpointForApply {P : Query → Prop} (ctx : Context) {name : Chars} {paths : List Chars}
    (h : P (.checkpoint name paths)) : Asks P (createCheckpointForApply ctx name paths) := by
  unfold createCheckpointForApply
  split
  · refine Asks.bind (asks_ask h) fun r => ?_
    cases r <;> trivial
  · trivial

def checkpointChange (id : Option Chars) : List Change :=
  match id with
  | none => []
  | some _ => [Change.made .checkpoint "Created checkpoint for rollback"]

/-! ## Configuration -/

/-- An exception an operator has written down. Whether it has expired is judged against
the day of the run. -/
structure PolicyException where
  value : Chars
  allowed : Bool
  reason : Chars
  isExpired : Bool
  deriving DecidableEq, Repr

def PolicyException.isValid (e : PolicyException) : Bool := e.allowed && !e.isExpired

/-- A plugin's section: its directives and its exceptions, by key. -/
structure PluginConfig where
  directives : Chars → Option Chars
  exceptions : Chars → Option PolicyException

def PluginConfig.hasValidException (config : PluginConfig) (key : Chars) : Option PolicyException :=
  (config.exceptions key).filter PolicyException.isValid

/-- What of an exception's text does not stand behind its `#`: all but its first line. -/
def strayLines (reason : Chars) : List Chars := (lines (reason ++ ")\n".toList)).tail

end LinuxHardener.Plugins
