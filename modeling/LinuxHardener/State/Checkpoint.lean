import LinuxHardener.Lib.Sha256
import LinuxHardener.Lib.SortedWords

/-
  Checkpoints: the rows a capture stores, their columns, and the digest that is
  signed when a checkpoint is stored and recomputed when it is rolled back.

  What is proved:
    1. `loadRow_storeRow` — every column comes back as it was bound, whatever the
       mode, the owner, and NULL or empty in the optional ones.
    2. `signedBytes_congr` — the signed bytes depend on the rows through their
       paths and their row bytes only.
    3. `signedBytes_eq_of_perm`, `ties_of_signedBytes_eq` — orders of the rows that
       agree on the paths give the same signed bytes exactly when rows of one path
       have row bytes that commute.

  Correspondence (Rust ↔ Lean):
    `checkpoint::{ContentAbsence, FileState, Checkpoint}` ↔ the types below
    `manager::generate_digest`          ↔ `signedBytes` (what the context is fed), `generateDigest`
    `sorted_states.sort_by_key`         ↔ `sortByPath` (stable, by the bytes of the path)
    `store_checkpoint`, `get_checkpoint` ↔ `storeRow`, `loadRow`, `DbOrder`
    `manager::recorded_absent`          ↔ `recordedAbsent`
-/
namespace LinuxHardener.State

/-- Why a row carries no content, when the path it names existed. -/
inductive ContentAbsence where
  | byDesign
  | readFailed
  deriving DecidableEq, Repr

def ContentAbsence.digestTag : ContentAbsence → Bytes
  | .byDesign => utf8 "d"
  | .readFailed => utf8 "f"

def ContentAbsence.asColumn : ContentAbsence → String
  | .byDesign => "by_design"
  | .readFailed => "read_failed"

def ContentAbsence.fromColumn : Option String → Option ContentAbsence
  | some "by_design" => some .byDesign
  | some "read_failed" => some .readFailed
  | _ => none

/-- The state of one path at capture time. -/
structure FileState where
  filePath : String
  fileContent : Option Bytes
  filePermissions : UInt32
  fileOwnerUid : UInt32
  fileOwnerGid : UInt32
  fileLinkTarget : Option String
  fileContentAbsence : Option ContentAbsence
  deriving DecidableEq, Repr

/-- The metadata row of a checkpoint. -/
structure Checkpoint where
  checkpointId : String
  checkpointName : String
  checkpointTimestamp : BitVec 64
  checkpointUsername : String
  checkpointSignature : Bytes
  hostKey : String
  deriving DecidableEq, Repr

/-- A row that says nothing stood at its path: no content and the zero mode. -/
def recordedAbsent (f : FileState) : Bool := f.fileContent.isNone && f.filePermissions == 0

def fileTypeMask : UInt32 := 0o170000
def directoryTypeBits : UInt32 := 0o040000

/-- The mode every symlink has, stored in place of its target's. -/
def symlinkMode : UInt32 := 0o120777

/-- The bits of a mode that `chmod` takes. -/
def modePermissionBits : UInt32 := 0o7777

/-- The mode `restore_mode_string` prints for `chmod`. -/
def FileState.restoreMode (f : FileState) : UInt32 := f.filePermissions &&& modePermissionBits

/-! ## The columns -/

/-- A row of the `file_states` table. Integers are SQLite's 64-bit ones. -/
structure DbRow where
  filePath : String
  content : Option Bytes
  permissions : BitVec 64
  ownerUid : BitVec 64
  ownerGid : BitVec 64
  linkTarget : Option String
  contentAbsence : Option String
  deriving DecidableEq, Repr

/-- `u32 as i64`. -/
def toColumn (x : UInt32) : BitVec 64 := x.toBitVec.setWidth 64

/-- `i64 as u32`. -/
def ofColumn (x : BitVec 64) : UInt32 := UInt32.ofBitVec (x.setWidth 32)

def storeRow (f : FileState) : DbRow where
  filePath := f.filePath
  content := f.fileContent
  permissions := toColumn f.filePermissions
  ownerUid := toColumn f.fileOwnerUid
  ownerGid := toColumn f.fileOwnerGid
  linkTarget := f.fileLinkTarget
  contentAbsence := f.fileContentAbsence.map ContentAbsence.asColumn

def loadRow (r : DbRow) : FileState where
  filePath := r.filePath
  fileContent := r.content
  filePermissions := ofColumn r.permissions
  fileOwnerUid := ofColumn r.ownerUid
  fileOwnerGid := ofColumn r.ownerGid
  fileLinkTarget := r.linkTarget
  fileContentAbsence := ContentAbsence.fromColumn r.contentAbsence

@[simp] theorem ofColumn_toColumn (x : UInt32) : ofColumn (toColumn x) = x := by
  simp [ofColumn, toColumn]

@[simp] theorem fromColumn_asColumn (a : Option ContentAbsence) :
    ContentAbsence.fromColumn (a.map ContentAbsence.asColumn) = a := by
  rcases a with _ | ⟨_ | _⟩ <;> rfl

@[simp] theorem loadRow_storeRow (f : FileState) : loadRow (storeRow f) = f := by
  simp [loadRow, storeRow]

/-! ## The digest -/

/-- What one row feeds the digest context. An absent column feeds nothing. -/
def rowBytes (f : FileState) : Bytes :=
  utf8 f.filePath ++ f.fileContent.getD [] ++ be32 f.filePermissions ++ be32 f.fileOwnerUid ++
    be32 f.fileOwnerGid ++ (f.fileLinkTarget.map utf8).getD [] ++
    (f.fileContentAbsence.map ContentAbsence.digestTag).getD []

/-- What the metadata row feeds it; neither the host key nor the signature. -/
def headerBytes (c : Checkpoint) : Bytes :=
  utf8 c.checkpointId ++ utf8 c.checkpointName ++ be64 c.checkpointTimestamp ++ utf8 c.checkpointUsername

/-- The order of `sort_by_key` on the paths, and of `ORDER BY file_path`: by bytes. -/
def pathLe (f g : FileState) : Prop := utf8 f.filePath ≤ utf8 g.filePath

instance : DecidableRel pathLe := fun f g => inferInstanceAs (Decidable (utf8 f.filePath ≤ utf8 g.filePath))

instance : Std.Total pathLe := ⟨fun _ _ => List.le_total _ _⟩

instance : IsTrans FileState pathLe := ⟨fun _ _ _ => List.le_trans⟩

theorem path_eq_of_pathLe {f g : FileState} (h : pathLe f g) (h' : pathLe g f) : f.filePath = g.filePath :=
  utf8_injective (List.le_antisymm h h')

theorem pathLe_of_eq {f g : FileState} (h : f.filePath = g.filePath) : pathLe f g := by
  unfold pathLe
  rw [h]
  exact List.le_refl _

def sortByPath (rows : List FileState) : List FileState := rows.insertionSort pathLe

/-- The bytes `generate_digest` feeds to SHA-256. -/
def signedBytes (c : Checkpoint) (rows : List FileState) : Bytes :=
  headerBytes c ++ (sortByPath rows).flatMap rowBytes

def generateDigest (c : Checkpoint) (rows : List FileState) : Bytes := Sha256.digest (signedBytes c rows)

theorem sortByPath_of_pairwise {rows : List FileState} (h : rows.Pairwise pathLe) : sortByPath rows = rows :=
  h.insertionSort_eq

theorem sortByPath_perm (rows : List FileState) : (sortByPath rows).Perm rows :=
  List.perm_insertionSort pathLe rows

theorem sortByPath_pairwise (rows : List FileState) : (sortByPath rows).Pairwise pathLe :=
  List.pairwise_insertionSort pathLe rows

/-- Rows rewritten in place, each keeping its path and its row bytes, are signed alike. -/
theorem signedBytes_congr (c : Checkpoint) (f : FileState → FileState) (rows : List FileState)
    (hp : ∀ r ∈ rows, (f r).filePath = r.filePath) (hb : ∀ r ∈ rows, rowBytes (f r) = rowBytes r) :
    signedBytes c (rows.map f) = signedBytes c rows := by
  have hord : ∀ a ∈ rows, ∀ b ∈ rows, pathLe a b ↔ pathLe (f a) (f b) := by
    intro a ha b hb'
    simp only [pathLe, hp a ha, hp b hb']
  have hsort : sortByPath (rows.map f) = (sortByPath rows).map f :=
    (List.map_insertionSort (r := pathLe) (s := pathLe) f rows hord).symm
  have hflat : ((sortByPath rows).map f).flatMap rowBytes = (sortByPath rows).flatMap rowBytes := by
    rw [List.flatMap_map]
    refine List.flatMap_congr fun r hr => hb r ?_
    exact (sortByPath_perm rows).subset hr
  rw [signedBytes, signedBytes, hsort, hflat]

/-! ## The order of the rows -/

/-- The rows as a `SELECT … ORDER BY file_path` may return them: in any order that
agrees on the paths. -/
structure DbOrder (rows dbRows : List FileState) : Prop where
  perm : rows.Perm dbRows
  sorted : dbRows.Pairwise pathLe

/-- Rows of one path have row bytes that read the same in either order. -/
def SharedPathsCommute (rows : List FileState) : Prop :=
  ∀ r ∈ rows, ∀ r' ∈ rows, r.filePath = r'.filePath → rowBytes r ++ rowBytes r' = rowBytes r' ++ rowBytes r

theorem sharedPathsCommute_iff {rows : List FileState} :
    SharedPathsCommute rows ↔ SortedWords.TiesCommute pathLe rowBytes rows := by
  constructor
  · intro h r hr r' hr' hle hle'
    exact h r hr r' hr' (path_eq_of_pathLe hle hle')
  · intro h r hr r' hr' he
    exact h r hr r' hr' (pathLe_of_eq he) (pathLe_of_eq he.symm)

theorem sortByPath_dbOrder (rows : List FileState) : DbOrder rows (sortByPath rows) :=
  ⟨(sortByPath_perm rows).symm, sortByPath_pairwise rows⟩

/-- Distinct paths leave nothing to commute. -/
theorem sharedPathsCommute_of_nodup {rows : List FileState} (h : (rows.map FileState.filePath).Nodup) :
    SharedPathsCommute rows := by
  intro r hr r' hr' he
  rw [List.inj_on_of_nodup_map h hr hr' he]

/-- When rows of one path commute, every order the database may return is signed alike. -/
theorem signedBytes_eq_of_dbOrder {rows dbRows : List FileState} (hc : SharedPathsCommute rows)
    (ho : DbOrder rows dbRows) (c : Checkpoint) : signedBytes c dbRows = signedBytes c rows := by
  have hties := sharedPathsCommute_iff.mp hc
  have hword : (sortByPath rows).flatMap rowBytes = dbRows.flatMap rowBytes :=
    SortedWords.flatMap_eq_of_perm ((sortByPath_perm rows).trans ho.perm) (sortByPath_pairwise rows) ho.sorted
      (hties.subset (sortByPath_perm rows).subset)
  rw [signedBytes, signedBytes, hword, sortByPath_of_pairwise ho.sorted]

/-- And only then. -/
theorem sharedPathsCommute_of_signedBytes_eq {rows : List FileState} (c : Checkpoint)
    (h : ∀ dbRows, DbOrder rows dbRows → signedBytes c dbRows = signedBytes c rows) :
    SharedPathsCommute rows := by
  refine sharedPathsCommute_iff.mpr (SortedWords.commute_of_flatMap_eq ?_)
  intro l₁ l₂ hp₁ hp₂ hs₁ hs₂
  have he : signedBytes c l₁ = signedBytes c l₂ :=
    (h l₁ ⟨hp₁, hs₁⟩).trans (h l₂ ⟨hp₂, hs₂⟩).symm
  rw [signedBytes, signedBytes, sortByPath_of_pairwise hs₁, sortByPath_of_pairwise hs₂] at he
  exact List.append_cancel_left he

end LinuxHardener.State
