import LinuxHardener.Lib.PathWalk
import LinuxHardener.Lib.Text

/-
  What a local executor answers about a host.

  The host is a file tree and the process is root. Every query but `readLink`
  follows a link at the last component, as `std::fs` does; only a missing entry is
  an answer of absence, any other failure of the walk is an error.

  What is proved: what the queries say of the entries of a directory reached
  (`lstat_child`, `stat_child_real`), which is what a capture recurses over.

  Correspondence (Rust ↔ Lean):
    `LocalExecutor::{file_metadata, path_exists, read_file, read_dir}` ↔ `fileMetadata`,
      `pathExists`, `readFile`, `readDir`
    `SystemExecutor::read_link` (`readlink -n --`, trimmed) ↔ `readLink`
-/
namespace LinuxHardener.State

open FileTree

structure FileMetadata where
  fileExists : Bool
  isFile : Bool
  isDir : Bool
  mode : UInt32
  uid : UInt32
  gid : UInt32
  deriving DecidableEq, Repr

def FileMetadata.absent : FileMetadata := ⟨false, false, false, 0, 0, 0⟩

def metadataOf (n : Node) : FileMetadata :=
  ⟨true, !n.isDir && !n.isLink, n.isDir, n.mode, n.uid, n.gid⟩

def fileMetadata (fs : Tree) (path : String) : Except Errno FileMetadata :=
  match stat fs path with
  | .ok (_, n) => .ok (metadataOf n)
  | .error .enoent => .ok .absent
  | .error e => .error e

def pathExists (fs : Tree) (path : String) : Except Errno Bool :=
  match stat fs path with
  | .ok _ => .ok true
  | .error .enoent => .ok false
  | .error e => .error e

/-- The text of a file; bytes that are no text are an error. -/
def readFile (fs : Tree) (path : String) : Except Errno String :=
  match stat fs path with
  | .ok (_, .file (.text s) _) => .ok s
  | .ok (_, .file (.binary _) _) => .error .eilseq
  | .ok (_, .dir _) => .error .eisdir
  | .ok (_, .link _ _ _) => .error .eloop
  | .error e => .error e

/-- `readlink` exits 1 for whatever it cannot read as a link, and what it prints is
trimmed. -/
def readLink (fs : Tree) (path : String) : Option String :=
  match lstat fs path with
  | .ok (_, .link target _ _) => some (Text.trim target)
  | _ => none

/-- The paths of the entries of a directory; none of a missing one. -/
def readDir (fs : Tree) (path : String) : Except Errno (List String) :=
  match stat fs path with
  | .ok (l, .dir _) => .ok ((fs.children l).map (join path))
  | .ok _ => .error .enotdir
  | .error .enoent => .ok []
  | .error e => .error e

/-! ## Entries of a directory -/

/-- A path string that leads to a location, and the links left over there. -/
def LeadsTo (fs : Tree) (path : String) (l : Loc) (b : Nat) : Prop := locate fs true path = .ok (l, b)

theorem isAbsolute_of_leadsTo {fs : Tree} {path : String} {l : Loc} {b : Nat} (h : LeadsTo fs path l b) :
    isAbsolute path = true := by
  unfold LeadsTo locate at h
  split at h
  · assumption
  · cases h

/-- Looking an entry up is one step from where the directory's path leads. -/
theorem locate_join {fs : Tree} {path : String} {l : Loc} {b : Nat} (h : LeadsTo fs path l b) (follow : Bool)
    (n : Name) : locate fs follow (join path n) = walk fs follow b l [.name n] := by
  have habs := isAbsolute_of_leadsTo h
  have hwalk : walk fs true maxSymlinks [] (parse path) = .ok (l, b) := by
    simpa [LeadsTo, locate, habs] using h
  rw [locate, if_pos (isAbsolute_join habs n), parse_join, walk_append fs follow (by simp), hwalk]
  rfl

theorem leadsTo_sound {fs : Tree} {path : String} {l : Loc} {b : Nat} (h : LeadsTo fs path l b) :
    DirsAbove fs l ∧ NotLink fs l := by
  have habs := isAbsolute_of_leadsTo h
  have hwalk : walk fs true maxSymlinks [] (parse path) = .ok (l, b) := by
    simpa [LeadsTo, locate, habs] using h
  obtain ⟨hdirs, hnl⟩ := walk_sound fs true _ _ _ _ _ (dirsAbove_nil fs) (by intro t u g hl; cases hl) hwalk
  exact ⟨hdirs, hnl rfl⟩

/-- What stands at an entry, whatever it is. -/
theorem lstat_child {fs : Tree} {path : String} {l : Loc} {b : Nat} (h : LeadsTo fs path l b) {a : Attr}
    (hd : fs.get l = some (.dir a)) (n : Name) :
    lstat fs (join path n) = (match fs.get (l ++ [n]) with
      | some nd => .ok (l ++ [n], nd)
      | none => .error .enoent) := by
  rw [lstat, locate_join h, walk_cons, hd]
  cases hn : fs.get (l ++ [n]) with
  | none => simp [Except.bind, nodeAt, hn]
  | some nd => cases nd <;> simp [Except.bind, nodeAt, hn]

/-- An entry that is no link is where its path leads. -/
theorem leadsTo_child_real {fs : Tree} {path : String} {l : Loc} {b : Nat} (h : LeadsTo fs path l b) {a : Attr}
    (hd : fs.get l = some (.dir a)) {n : Name} {nd : Node} (hn : fs.get (l ++ [n]) = some nd)
    (hl : nd.isLink = false) : LeadsTo fs (join path n) (l ++ [n]) b := by
  rw [LeadsTo, locate_join h, walk_cons, hd]
  cases nd with
  | file d a' => simp [hn]
  | dir a' => simp [hn]
  | link t u g => cases hl

/-- Following an entry that is a link costs one of the links left. -/
theorem leadsTo_child_link {fs : Tree} {path : String} {l : Loc} {b : Nat} (h : LeadsTo fs path l b) {a : Attr}
    (hd : fs.get l = some (.dir a)) {n : Name} {t : String} {u g : UInt32}
    (hn : fs.get (l ++ [n]) = some (.link t u g)) {l' : Loc} {b' : Nat} (h' : LeadsTo fs (join path n) l' b') :
    b' < b := by
  rw [LeadsTo, locate_join h, walk_cons, hd] at h'
  simp only [hn] at h'
  cases b with
  | zero => simp [onLink] at h'
  | succ b =>
    have hw : walk fs true b (if isAbsolute t = true then [] else l) (parse t ++ []) = .ok (l', b') := by
      simpa [onLink] using h'
    exact Nat.lt_succ_of_le (walk_budget fs true _ _ _ _ _ hw)

theorem stat_of_leadsTo {fs : Tree} {path : String} {l : Loc} {b : Nat} (h : LeadsTo fs path l b) :
    stat fs path = nodeAt fs (l, b) := by
  rw [stat, h]
  rfl

/-- A path that `stat` answers leads somewhere. -/
theorem leadsTo_of_stat {fs : Tree} {path : String} {l : Loc} {nd : Node} (h : stat fs path = .ok (l, nd)) :
    fs.get l = some nd ∧ ∃ b, LeadsTo fs path l b := by
  unfold stat at h
  cases hl : locate fs true path with
  | error e => rw [hl] at h; cases h
  | ok r =>
    obtain ⟨l', b⟩ := r
    rw [hl] at h
    simp only [Except.bind, nodeAt] at h
    split at h
    · next n hn =>
      cases h
      exact ⟨hn, b, hl⟩
    · cases h

/-- A followed path does not end on a link. -/
theorem stat_not_link {fs : Tree} {path : String} {l : Loc} {nd : Node} (h : stat fs path = .ok (l, nd)) :
    nd.isLink = false := by
  obtain ⟨hn, b, hl⟩ := leadsTo_of_stat h
  cases nd with
  | file d a => rfl
  | dir a => rfl
  | link t u g => exact absurd hn ((leadsTo_sound hl).2 t u g)

end LinuxHardener.State
