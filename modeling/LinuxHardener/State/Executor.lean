import LinuxHardener.Lib.FileOps
import LinuxHardener.State.LocalExecutor

/-
  What a rollback asks of the host it restores: queries, file writes and commands.

  An executor may answer and fail as it likes; what a result relies on is stated by
  `Executor.Truthful` (what is reported done is done, what is answered is so) and by
  `Executor.Contained` (whatever is reported, nothing else happens to the tree).
  `localExecutor` is the local one, run as root.

  Correspondence (Rust ↔ Lean):
    `file_utils::update_file_atomically` ↔ `updateFileAtomically`
    `LocalExecutor::write_file`          ↔ `writeFile`
    `SystemExecutor::link_target_as_writer` ↔ `linkTargetAsWriter`
    `execute_command("chmod" | "chown" | "ln" | "mkdir" | "rm", …)` ↔ `Command`, `Command.run`
-/
namespace LinuxHardener.State

open FileTree

/-! ## Writing a file -/

/-- The permission bits a rewritten file keeps; none if it is not there yet. -/
def originalPermissions (fs : Tree) (path : String) : Except Errno (Option (BitVec 12)) :=
  match stat fs path with
  | .ok (_, .file _ a) => .ok (some a.perm)
  | .ok (_, .dir a) => .ok (some a.perm)
  | .ok (_, .link _ _ _) => .error .eloop
  | .error .enoent => .ok none
  | .error e => .error e

/-- `CREATED_FILE_MODE` -/
def createdFileMode : BitVec 12 := 0o644

/-- A temporary file beside the path, renamed over it: the path itself is replaced,
a link there included. -/
def updateFileAtomically (path content : String) (fs : Tree) : Except Errno Tree :=
  match parentPath path with
  | none => .error .einval
  | some dir => do
    let original ← originalPermissions fs path
    match stat fs dir with
    | .ok (_, .dir _) => do
      let (l, _) ← locate fs false path
      match fs.get l with
      | some (.dir _) => .error .eisdir
      | _ => .ok (fs.set l (.file (.text content) ⟨original.getD createdFileMode, 0, entryGid fs l⟩))
    | .ok _ => .error .enotdir
    | .error e => .error e

def isKernelInterfacePath (path : String) : Bool :=
  match parse path with
  | .name n :: _ => n.val == "proc" || n.val == "sys"
  | _ => false

def writeFile (path content : String) (fs : Tree) : Except Errno Tree :=
  if isKernelInterfacePath path then writeThrough path content fs else updateFileAtomically path content fs

/-! ## Commands -/

inductive Command where
  | chmod (mode : UInt32) (path : String)
  | chown (uid gid : UInt32) (path : String)
  | ln (target path : String)
  | mkdir (dir : String)
  | rm (path : String)
  deriving DecidableEq, Repr

def Command.program : Command → String
  | .chmod _ _ => "chmod"
  | .chown _ _ _ => "chown"
  | .ln _ _ => "ln"
  | .mkdir _ => "mkdir"
  | .rm _ => "rm"

/-- The path a refusal names. -/
def Command.path : Command → String
  | .chmod _ p => p
  | .chown _ _ p => p
  | .ln _ p => p
  | .mkdir d => d
  | .rm p => p

/-- The documented effect: `ln -sfn`, `mkdir -p`, `rm -f`. -/
def Command.run : Command → Tree → Except Errno Tree
  | .chmod mode path => FileTree.chmod (BitVec.ofNat 12 mode.toNat) path
  | .chown uid gid path => FileTree.chown uid gid path
  | .ln target path => lnForce target path
  | .mkdir dir => mkdirParents dir
  | .rm path => rmForce path

/-- No operand is taken for an option. Only a link's target can begin with a dash:
every path passed is absolute. -/
def Command.Operands : Command → Prop
  | .ln target _ => target.toList.head? ≠ some '-'
  | _ => True

/-- What a command may leave of the tree, whatever it reports: the tree as it was,
or its effect, of which `mkdir -p` may do a first part only. -/
def Command.Leaves (c : Command) (fs fs' : Tree) : Prop :=
  fs' = fs ∨ c.run fs = .ok fs' ∨ ∃ dir k, c = .mkdir dir ∧ mkdirEach ((parse dir).inits.take k) fs = .ok fs'

structure CommandOutput where
  stderr : String
  exitCode : Int
  deriving DecidableEq, Repr

/-! ## Executors -/

structure Executor where
  fileMetadata : Tree → String → Except String FileMetadata
  pathExists : Tree → String → Except String Bool
  readFile : Tree → String → Except String String
  readLink : Tree → String → Except String (Option String)
  linkTargetAsWriter : Tree → String → Except String (Option String)
  writeFile : String → String → Tree → Tree × Except String Unit
  executeCommand : Command → Tree → Tree × Except String CommandOutput

/-- What is reported done has been done, and what is answered is so. -/
structure Executor.Truthful (ex : Executor) : Prop where
  command : ∀ {c : Command} {fs fs' : Tree} {out : CommandOutput}, c.Operands →
    ex.executeCommand c fs = (fs', .ok out) → out.exitCode = 0 → c.run fs = .ok fs'
  write : ∀ {path content : String} {fs fs' : Tree}, ex.writeFile path content fs = (fs', .ok ()) →
    State.writeFile path content fs = .ok fs'
  exist : ∀ {fs : Tree} {path : String} {b : Bool}, ex.pathExists fs path = .ok b →
    State.pathExists fs path = .ok b

/-- Whatever is reported, nothing but the effect asked for happens to the tree, all
of it or none; and a link probe that answers is right. The other queries may answer
anything. -/
structure Executor.Contained (ex : Executor) : Prop where
  command : ∀ {c : Command} (fs : Tree), c.Operands → c.Leaves fs (ex.executeCommand c fs).1
  write : ∀ (path content : String) (fs : Tree), (ex.writeFile path content fs).1 = fs ∨
    updateFileAtomically path content fs = .ok (ex.writeFile path content fs).1 ∨
    writeThrough path content fs = .ok (ex.writeFile path content fs).1
  notLink : ∀ {fs : Tree} {path : String}, ex.linkTargetAsWriter fs path = .ok none →
    ∀ l t u g, lstat fs path ≠ .ok (l, .link t u g)
  resolved : ∀ {fs : Tree} {path target : String}, ex.linkTargetAsWriter fs path = .ok (some target) →
    ∃ l nd, stat fs path = .ok (l, nd) ∧ target = String.ofList (Text.trimEnd (render l).toList)

/-! ## The local one -/

def errnoMessage : Errno → String
  | .enoent => "No such file or directory"
  | .enotdir => "Not a directory"
  | .eloop => "Too many levels of symbolic links"
  | .eisdir => "Is a directory"
  | .einval => "Invalid argument"
  | .eilseq => "stream did not contain valid UTF-8"

/-- `normalise_probe_path`: the slashes at the end are dropped, and a path that ends
in `.` or `..` is refused. -/
def normaliseProbePath (path : String) : Except String String :=
  let trimmed := (path.toList.reverse.dropWhile (· = '/')).reverse
  let final := (trimmed.splitOn '/').getLast?.getD trimmed
  if trimmed = [] then .ok "/"
  else if final = ['.'] ∨ final = ['.', '.'] then
    .error ("the link probe refuses " ++ String.ofList trimmed)
  else .ok (String.ofList trimmed)

/-- `dirname` -/
def dirname (path : String) : String := (parentPath path).getD "/"

/-- The link probe: the parent must resolve, and a link must resolve to its end. What
it prints is trimmed. -/
def linkTargetAsWriter (fs : Tree) (path : String) : Except String (Option String) := do
  let p ← normaliseProbePath path
  match stat fs (dirname p) with
  | .error _ => .error "UNDETERMINED"
  | .ok _ =>
    match lstat fs p with
    | .ok (_, .link _ _ _) =>
      match stat fs p with
      | .ok (l, _) => .ok (some (String.ofList (Text.trimEnd (render l).toList)))
      | .error _ => .error "UNDETERMINED"
    | _ => .ok none

/-- The tree after an effect, and what is reported of it. -/
def reported {α : Type} (fs : Tree) (r : Except Errno Tree) (done : α) (failed : Errno → Except String α) :
    Tree × Except String α :=
  match r with
  | .ok fs' => (fs', .ok done)
  | .error e => (fs, failed e)

def localExecutor : Executor where
  fileMetadata fs path := (State.fileMetadata fs path).mapError errnoMessage
  pathExists fs path := (State.pathExists fs path).mapError errnoMessage
  readFile fs path := (State.readFile fs path).mapError errnoMessage
  readLink fs path := .ok (State.readLink fs path)
  linkTargetAsWriter := State.linkTargetAsWriter
  writeFile path content fs := reported fs (State.writeFile path content fs) () (fun e => .error (errnoMessage e))
  executeCommand c fs := reported fs (c.run fs) ⟨"", 0⟩ (fun e => .ok ⟨errnoMessage e, 1⟩)

theorem mapError_ok {ε ε' α : Type} {f : ε → ε'} {x : Except ε α} {a : α} (h : x.mapError f = .ok a) : x = .ok a := by
  cases x with
  | ok b => cases h; rfl
  | error e => cases h

theorem localExecutor_truthful : localExecutor.Truthful where
  command {c fs fs' out} _ h hz := by
    cases hr : c.run fs with
    | ok t =>
      simp only [localExecutor, reported, hr] at h
      cases h
      rfl
    | error e =>
      simp only [localExecutor, reported, hr] at h
      cases h
      cases hz
  write {path content fs fs'} h := by
    cases hr : State.writeFile path content fs with
    | ok t =>
      simp only [localExecutor, reported, hr] at h
      cases h
      rfl
    | error e =>
      simp only [localExecutor, reported, hr] at h
      cases h
  exist h := mapError_ok h

/-- Slashes at the end name nothing more. -/
theorem parse_dropSlashes (cs : List Char) :
    parse (String.ofList (cs.reverse.dropWhile (· = '/')).reverse) = parse (String.ofList cs) := by
  induction cs using List.reverseRecOn with
  | nil => rfl
  | append_singleton cs c ih =>
    rw [List.reverse_append, List.reverse_singleton, List.singleton_append, List.dropWhile_cons]
    split
    · next hc =>
      obtain rfl : c = '/' := by simpa using hc
      have hnil : toComp [] = none := by decide
      rw [ih, parse, parse, String.toList_ofList, String.toList_ofList, List.splitOn_append_cons_self,
        List.splitOn_nil, List.filterMap_append]
      simp [hnil]
    · simp

theorem isAbsolute_of_lstat {fs : Tree} {p : String} {r : Loc × Node} (h : lstat fs p = .ok r) :
    isAbsolute p = true := by
  unfold lstat locate at h
  split at h
  · assumption
  · cases h

/-- What the probe asks about is the path itself, or the root. -/
theorem normaliseProbePath_ok {path p : String} (h : normaliseProbePath path = .ok p) :
    parse p = parse path ∧ (isAbsolute p = isAbsolute path ∨ p = "/") := by
  unfold normaliseProbePath at h
  have hparse := parse_dropSlashes path.toList
  rw [String.ofList_toList] at hparse
  simp only at h
  split at h
  · next hnil =>
    cases h
    rw [hnil] at hparse
    exact ⟨by rw [← hparse]; decide, .inr rfl⟩
  · next hne =>
    split at h
    · cases h
    · cases h
      refine ⟨hparse, .inl ?_⟩
      -- the first character stays where something is left
      have hpre : (path.toList.reverse.dropWhile (· = '/')).reverse <+: path.toList := by
        have := (List.dropWhile_suffix (l := path.toList.reverse) (fun c => decide (c = '/'))).reverse
        simpa using this
      obtain ⟨rest, hrest⟩ := hpre
      unfold isAbsolute
      rw [String.toList_ofList]
      cases hd : (path.toList.reverse.dropWhile (· = '/')).reverse with
      | nil => exact absurd hd hne
      | cons c cs =>
        rw [hd] at hrest
        rw [← hrest]
        rfl

/-- A link, asked about, is the path's own. -/
theorem lstat_normaliseProbePath {path p : String} (h : normaliseProbePath path = .ok p) {fs : Tree} {l : Loc}
    {t : String} {u g : UInt32} (hl : lstat fs p = .ok (l, .link t u g)) :
    lstat fs path = lstat fs p ∧ stat fs path = stat fs p := by
  obtain ⟨hparse, habs⟩ := normaliseProbePath_ok h
  have ha : isAbsolute p = isAbsolute path := by
    refine habs.resolve_right ?_
    rintro rfl
    have hroot : lstat fs "/" = .ok ([], .dir fs.root) := by
      rw [lstat, locate, if_pos (by decide), show parse "/" = [] by decide]
      simp [Except.bind, nodeAt]
    rw [hroot] at hl
    cases hl
  simp [lstat, stat, locate, hparse, ha]

theorem localExecutor_contained : localExecutor.Contained where
  command {c} fs _ := by
    cases hr : c.run fs with
    | ok fs' => exact .inr (.inl (by rw [hr]; simp [localExecutor, reported, hr]))
    | error e => exact .inl (by simp [localExecutor, reported, hr])
  write path content fs := by
    cases hr : State.writeFile path content fs with
    | ok fs' =>
      have hfs : (localExecutor.writeFile path content fs).1 = fs' := by simp [localExecutor, reported, hr]
      rw [hfs]
      unfold State.writeFile at hr
      split at hr
      · exact .inr (.inr hr)
      · exact .inr (.inl hr)
    | error e => exact .inl (by simp [localExecutor, reported, hr])
  notLink {fs path} h l t u g hl := by
    change State.linkTargetAsWriter fs path = .ok none at h
    unfold State.linkTargetAsWriter at h
    cases hp : normaliseProbePath path with
    | error e => rw [hp] at h; cases h
    | ok p =>
      rw [hp] at h
      simp only [bind, Except.bind] at h
      split at h
      · cases h
      · split at h
        · split at h <;> cases h
        · next hnot =>
          obtain ⟨hparse, habs⟩ := normaliseProbePath_ok hp
          have ha := isAbsolute_of_lstat hl
          refine hnot l t u g ?_
          have hpa : isAbsolute p = true := by
            rcases habs with he | he
            · rw [he, ha]
            · rw [he]; decide
          rw [← hl, lstat, lstat, locate, locate, hparse, hpa, ha]
  resolved {fs path target} h := by
    change State.linkTargetAsWriter fs path = .ok (some target) at h
    unfold State.linkTargetAsWriter at h
    cases hp : normaliseProbePath path with
    | error e => rw [hp] at h; cases h
    | ok p =>
      rw [hp] at h
      simp only [bind, Except.bind] at h
      split at h
      · cases h
      · split at h
        · next l t u g hl =>
          obtain ⟨_, hs⟩ := lstat_normaliseProbePath hp hl
          split at h
          · next l' nd hst =>
            cases h
            exact ⟨l', nd, by rw [hs, hst], rfl⟩
          · cases h
        · cases h

end LinuxHardener.State
