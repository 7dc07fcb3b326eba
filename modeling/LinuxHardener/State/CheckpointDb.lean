import LinuxHardener.Lib.Transactions
import LinuxHardener.State.Rollback

/-
  The two tables a checkpoint is kept in, and the operations that write them.

  An operation that is refused a statement gives its connection back, which loses what
  its transaction did. Foreign keys are a parameter: `enforce` says whether the engine
  checks them.

  Correspondence (Rust ↔ Lean):
    `persist_signed_checkpoint`, `store_checkpoint` ↔ `persistSignedCheckpoint`, `storeCheckpoint`
    `get_checkpoint`                    ↔ `getCheckpoint`
    `delete_checkpoint`                 ↔ `deleteCheckpoint`
    `orphaned_file_states`, `remove_orphaned_file_states` ↔ `orphanedFileStates`, `removeOrphanedFileStates`
    `CheckpointManager::rollback`       ↔ `rollback`
    `hardener checkpoint repair`        ↔ `repair`

  What is proved:
    1. `keeps_operation` — no operation leaves a file row without its checkpoint,
       wherever it is refused.
    2. `solo_delete_unknown`, `solo_repair` — what deleting an unknown id and the repair do.
    3. `checkpoint_store_integrity` — after any operations, side by side or one after
       the other.
-/
namespace LinuxHardener.State.CheckpointDb

open Transactions

/-! ## The tables -/

/-- A row of `file_states`, under the id the engine gave it. -/
structure FileRow where
  rowId : Nat
  checkpointId : String
  columns : DbRow
  deriving DecidableEq, Repr

structure Db where
  checkpoints : List Checkpoint
  fileStates : List FileRow
  /-- The last row id the engine gave out. -/
  sequence : Nat
  deriving DecidableEq, Repr

/-- Some checkpoint has the id. -/
def Db.knows (db : Db) (id : String) : Bool := db.checkpoints.any fun c => c.checkpointId == id

/-- The rows `ORPHAN_PREDICATE` selects. -/
def Db.orphans (db : Db) : List FileRow := db.fileStates.filter fun r => !db.knows r.checkpointId

structure OrphanedFileStates where
  rows : Nat
  checkpoints : Nat
  deriving DecidableEq, Repr

/-! ## The statements -/

inductive Statement where
  | insertCheckpoint (header : Checkpoint)
  | insertFileState (checkpointId : String) (row : DbRow)
  | deleteFileStates (checkpointId : String)
  | deleteCheckpoint (checkpointId : String)
  | selectCheckpoint (checkpointId : String)
  | selectFileStates (checkpointId : String)
  | countOrphans
  | deleteOrphans

/-- What a statement yields: the rows it found, or how many it wrote. -/
@[reducible] def Answer : Statement → Type
  | .insertCheckpoint _ | .insertFileState _ _ => Unit
  | .deleteFileStates _ | .deleteCheckpoint _ | .deleteOrphans => Nat
  | .selectCheckpoint _ => Option Checkpoint
  | .selectFileStates _ => List DbRow
  | .countOrphans => OrphanedFileStates

def insertCheckpoint (db : Db) (header : Checkpoint) : Except String (Unit × Db) :=
  if db.knows header.checkpointId then .error "UNIQUE constraint failed: checkpoints.id"
  else .ok ((), { db with checkpoints := db.checkpoints ++ [header] })

def insertFileState (enforce : Bool) (db : Db) (id : String) (row : DbRow) : Except String (Unit × Db) :=
  if enforce && !db.knows id then .error "FOREIGN KEY constraint failed"
  else .ok ((), { db with fileStates := db.fileStates ++ [⟨db.sequence + 1, id, row⟩], sequence := db.sequence + 1 })

def deleteFileStates (db : Db) (id : String) : Nat × Db :=
  ((db.fileStates.filter fun r => r.checkpointId == id).length,
    { db with fileStates := db.fileStates.filter fun r => r.checkpointId != id })

def deleteCheckpointRow (enforce : Bool) (db : Db) (id : String) : Except String (Nat × Db) :=
  if enforce && db.knows id && db.fileStates.any (fun r => r.checkpointId == id) then .error "FOREIGN KEY constraint failed"
  else .ok ((db.checkpoints.filter fun c => c.checkpointId == id).length,
    { db with checkpoints := db.checkpoints.filter fun c => c.checkpointId != id })

def countOrphans (db : Db) : OrphanedFileStates :=
  ⟨db.orphans.length, (db.orphans.map FileRow.checkpointId).dedup.length⟩

def deleteOrphans (db : Db) : Nat × Db :=
  (db.orphans.length, { db with fileStates := db.fileStates.filter fun r => db.knows r.checkpointId })

/-- `ORDER BY file_path` -/
def selectFileStates (db : Db) (id : String) : List DbRow :=
  ((db.fileStates.filter fun r => r.checkpointId == id).map FileRow.columns).insertionSort
    fun a b => pathLe (loadRow a) (loadRow b)

def exec (enforce : Bool) : (q : Statement) → Db → Except String (Answer q × Db)
  | .insertCheckpoint header, db => insertCheckpoint db header
  | .insertFileState id row, db => insertFileState enforce db id row
  | .deleteFileStates id, db => .ok (deleteFileStates db id)
  | .deleteCheckpoint id, db => deleteCheckpointRow enforce db id
  | .selectCheckpoint id, db => .ok (db.checkpoints.find? fun c => c.checkpointId == id, db)
  | .selectFileStates id, db => .ok (selectFileStates db id, db)
  | .countOrphans, db => .ok (countOrphans db, db)
  | .deleteOrphans, db => .ok (deleteOrphans db)

/-! ## The operations -/

/-- An operation's error: a checkpoint that is not there, or another. -/
inductive DbError where
  | notFound (message : String)
  | hardening (e : HardeningError)
  deriving DecidableEq, Repr

abbrev Conn (α : Type) : Type := Prog String Answer α

abbrev Db.Action (α : Type) : Type := ExceptT DbError Conn α

def database (message : String) : DbError := .hardening (.database message)

def execute (q : Statement) : Db.Action (Answer q) := statement database q

def insertFileStates (id : String) : List FileState → Db.Action Unit
  | [] => pure ()
  | fileState :: rest => do
    execute (.insertFileState id (storeRow fileState))
    insertFileStates id rest

def storeCheckpoint (header : Checkpoint) (fileStates : List FileState) : Db.Action Unit :=
  transaction database do
    execute (.insertCheckpoint header)
    insertFileStates header.checkpointId fileStates

def deleteCheckpoint (id : String) : Db.Action Unit :=
  transaction database do
    let _ ← execute (.deleteFileStates id)
    let removed ← execute (.deleteCheckpoint id)
    if removed = 0 then
      throw (database ("no checkpoint with id '" ++ id ++ "'"))

def orphanedFileStates : Db.Action OrphanedFileStates := execute .countOrphans

def removeOrphanedFileStates : Db.Action Nat := execute .deleteOrphans

/-- What was found, and how many rows were removed where that was asked for. -/
def repair (executed : Bool) : Db.Action (OrphanedFileStates × Option Nat) := do
  let found ← orphanedFileStates
  if !executed then
    pure (found, none)
  else
    let removed ← removeOrphanedFileStates
    pure (found, some removed)

def getCheckpoint (id : String) : Db.Action (Checkpoint × List FileState) := do
  let row ← execute (.selectCheckpoint id)
  match row with
  | none =>
    throw (.notFound ("checkpoint '" ++ id ++ "'. Run " ++ "\x60hardener checkpoint list\x60 to see the checkpoints that exist."))
  | some checkpoint =>
    let rows ← execute (.selectFileStates id)
    pure (checkpoint, rows.map loadRow)

/-- The id, time, user, host and signature a new checkpoint gets, or what kept it from
being signed. -/
abbrev Stamp : Type := String → List FileState → Except HardeningError Checkpoint

def persistSignedCheckpoint (stamp : Stamp) (name : String) (fileStates : List FileState) : Db.Action Unit :=
  match stamp name fileStates with
  | .error e => throw (.hardening e)
  | .ok header => storeCheckpoint header fileStates

/-- The host a rollback writes to, and what it may write there. -/
structure Site where
  executor : Executor
  host : Host
  currentHost : String
  signer : Signer
  allowedRollbackPrefixes : List String

def rollback (site : Site) (stamp : Stamp) (id : String) : Db.Action (RollbackResult × Host) := do
  let (c, fileStates) ← getCheckpoint id
  if c.hostKey ≠ site.currentHost then
    throw (.hardening (.config ("Checkpoint " ++ id ++ " belongs to host '" ++ c.hostKey ++
      "', but the current target is '" ++ site.currentHost ++
      "'. Refusing to restore one host's state onto another.")))
  else if !verifyCheckpoint site.signer c fileStates then
    throw (.hardening (.config "Signature verification failed"))
  else
    let sorted := sortTargets site.executor site.allowedRollbackPrefixes fileStates site.host
    if sorted.1.1.isEmpty then
      throw (.hardening (.config ("Rollback aborted: no path in checkpoint " ++ id ++ " may be restored. " ++
        String.intercalate "; " (sorted.1.2.filterMap (·.restoreError)))))
    else
      let snapshot := snapshotCurrentState site.executor sorted.1.1 sorted.2
      match snapshot.1 with
      | .error e => throw (.hardening e)
      | .ok rows =>
        persistSignedCheckpoint stamp (snapshotName c) rows
        let done := restoreEach site.executor site.allowedRollbackPrefixes sorted.1.1 snapshot.2
        pure (⟨id, c.checkpointName, sorted.1.2.isEmpty && done.1.all (·.restoreSuccess), sorted.1.2 ++ done.1⟩, done.2)

/-- What can be asked of the store. A creation comes with what was captured. -/
inductive Operation where
  | create (stamp : Stamp) (name : String) (captured : Except HardeningError (List FileState))
  | delete (id : String)
  | rollback (site : Site) (stamp : Stamp) (id : String)
  | repair (executed : Bool)

def createCheckpoint (stamp : Stamp) (name : String) (captured : Except HardeningError (List FileState)) : Db.Action Unit :=
  match captured with
  | .error e => throw (.hardening e)
  | .ok fileStates => persistSignedCheckpoint stamp name fileStates

/-- An operation, whatever it returns. -/
def Operation.perform : Operation → Conn Unit
  | .create stamp name captured => (createCheckpoint stamp name captured).run >>= fun _ => pure ()
  | .delete id => (deleteCheckpoint id).run >>= fun _ => pure ()
  | .rollback site stamp id => (CheckpointDb.rollback site stamp id).run >>= fun _ => pure ()
  | .repair executed => (CheckpointDb.repair executed).run >>= fun _ => pure ()

/-- One operation after another. -/
def performAll : List Operation → Conn Unit
  | [] => pure ()
  | op :: rest => do
    op.perform
    performAll rest

/-! ## What a change may do -/

/-- No file row loses its checkpoint, and none comes without one. -/
def NoNewOrphans (db db' : Db) : Prop := ∀ r ∈ db'.fileStates, db'.knows r.checkpointId = false →
  r ∈ db.fileStates ∧ db.knows r.checkpointId = false

theorem regular_noNewOrphans : Regular NoNewOrphans NoNewOrphans where
  refl _ _ hr hk := ⟨hr, hk⟩
  trans h₁ h₂ r hr hk := h₁ r (h₂ r hr hk).1 (h₂ r hr hk).2
  idle _ _ hr hk := ⟨hr, hk⟩

theorem exec_insertCheckpoint_ok {enforce : Bool} {db db' : Db} {header : Checkpoint} {a : Unit}
    (h : exec enforce (.insertCheckpoint header) db = .ok (a, db')) :
    db' = { db with checkpoints := db.checkpoints ++ [header] } := by
  change insertCheckpoint db header = _ at h
  unfold insertCheckpoint at h
  split_ifs at h
  exact (Prod.mk.inj (Except.ok.inj h)).2.symm

theorem exec_insertFileState_ok {enforce : Bool} {db db' : Db} {id : String} {row : DbRow} {a : Unit}
    (h : exec enforce (.insertFileState id row) db = .ok (a, db')) :
    db' = { db with fileStates := db.fileStates ++ [⟨db.sequence + 1, id, row⟩], sequence := db.sequence + 1 } := by
  change insertFileState enforce db id row = _ at h
  unfold insertFileState at h
  split_ifs at h
  exact (Prod.mk.inj (Except.ok.inj h)).2.symm

theorem exec_deleteCheckpoint_ok {enforce : Bool} {db db' : Db} {id : String} {n : Nat}
    (h : exec enforce (.deleteCheckpoint id) db = .ok (n, db')) :
    n = (db.checkpoints.filter fun c => c.checkpointId == id).length ∧
      db' = { db with checkpoints := db.checkpoints.filter fun c => c.checkpointId != id } := by
  change deleteCheckpointRow enforce db id = _ at h
  unfold deleteCheckpointRow at h
  split_ifs at h
  exact ⟨(Prod.mk.inj (Except.ok.inj h)).1.symm, (Prod.mk.inj (Except.ok.inj h)).2.symm⟩

theorem knows_insertCheckpoint (db : Db) (header : Checkpoint) (id : String) :
    ({ db with checkpoints := db.checkpoints ++ [header] } : Db).knows id = (db.knows id || header.checkpointId == id) := by
  simp [Db.knows]

theorem noNewOrphans_insertCheckpoint (db : Db) (header : Checkpoint) :
    NoNewOrphans db { db with checkpoints := db.checkpoints ++ [header] } := by
  intro r hr hk
  rw [knows_insertCheckpoint, Bool.or_eq_false_iff] at hk
  exact ⟨hr, hk.1⟩

/-- A file row of a checkpoint that is there. -/
theorem noNewOrphans_insertFileState {db : Db} {id : String} (row : FileRow) (n : Nat) (hrow : row.checkpointId = id)
    (hid : db.knows id = true) : NoNewOrphans db { db with fileStates := db.fileStates ++ [row], sequence := n } := by
  intro r hr hk
  have hk' : db.knows r.checkpointId = false := hk
  rcases List.mem_append.mp hr with hr | hr
  · exact ⟨hr, hk'⟩
  · obtain rfl := List.mem_singleton.mp hr
    rw [hrow, hid] at hk'
    cases hk'

/-- A checkpoint goes after all its file rows. -/
theorem noNewOrphans_delete (db : Db) (id : String) :
    NoNewOrphans db { (deleteFileStates db id).2 with checkpoints := db.checkpoints.filter fun c => c.checkpointId != id } := by
  intro r hr hk
  obtain ⟨hr, hne⟩ := List.mem_filter.mp hr
  refine ⟨hr, ?_⟩
  simp only [Db.knows, List.any_filter, List.any_eq_false] at hk ⊢
  intro c hc he
  have heq : c.checkpointId = r.checkpointId := by simpa using he
  refine hk c hc ?_
  simpa [heq] using hne

theorem noNewOrphans_deleteOrphans (db : Db) : NoNewOrphans db (deleteOrphans db).2 := by
  intro r hr hk
  obtain ⟨hr, hknown⟩ := List.mem_filter.mp hr
  exact ⟨hr, hk⟩

/-! ## The operations, wherever they are refused -/

section

variable {enforce : Bool}

/-- In the transaction of a new checkpoint. -/
theorem keeps_insertFileStates {R G : Db → Db → Prop} (hreg : Regular R G) {id : String} (t : Db) (rows : List FileState) {w : Db}
    (hw : NoNewOrphans t w) (hid : w.knows id = true) :
    Keeps (exec enforce) R G (Inside R t fun _ w => NoNewOrphans t w) (insertFileStates id rows).run (some w) t := by
  induction rows generalizing w with
  | nil => exact keeps_pure_inside hw
  | cons f rest ih =>
    refine Keeps.insideBind hreg (P := fun _ w => NoNewOrphans t w ∧ w.knows id = true) ?_ fun _ w' h => ih h.1 h.2
    refine keeps_statement_inside hreg fun a w' h => ?_
    rw [exec_insertFileState_ok h]
    exact ⟨regular_noNewOrphans.trans hw (noNewOrphans_insertFileState _ _ rfl hid), hid⟩

theorem keeps_storeCheckpoint (header : Checkpoint) (rows : List FileState) (s : Db) :
    Keeps (exec enforce) NoNewOrphans NoNewOrphans Closed (storeCheckpoint header rows).run none s := by
  have hreg := regular_noNewOrphans
  refine (keeps_transaction hreg (fun _ _ => True) (fun t _ => ?_) fun _ _ _ => trivial).mono fun _ _ _ h => h.1
  refine Keeps.insideBind hreg (P := fun _ w => NoNewOrphans t w ∧ w.knows header.checkpointId = true) ?_ fun _ w h => ?_
  · refine keeps_statement_inside hreg fun a w h => ?_
    rw [exec_insertCheckpoint_ok h]
    exact ⟨noNewOrphans_insertCheckpoint t header, by simp [knows_insertCheckpoint]⟩
  · exact (keeps_insertFileStates hreg t rows h.1 h.2).insideMono fun _ _ hw => ⟨hw, fun _ _ => trivial⟩

theorem keeps_persistSignedCheckpoint (stamp : Stamp) (name : String) (rows : List FileState) (s : Db) :
    Keeps (exec enforce) NoNewOrphans NoNewOrphans Closed (persistSignedCheckpoint stamp name rows).run none s := by
  unfold persistSignedCheckpoint
  split
  · exact keeps_pure_closed _
  · exact keeps_storeCheckpoint _ _ s

theorem keeps_deleteCheckpoint (id : String) (s : Db) :
    Keeps (exec enforce) NoNewOrphans NoNewOrphans Closed (deleteCheckpoint id).run none s := by
  have hreg := regular_noNewOrphans
  refine (keeps_transaction hreg (fun _ _ => True) (fun t _ => ?_) fun _ _ _ => trivial).mono fun _ _ _ h => h.1
  refine Keeps.insideBind hreg (P := fun _ w => w = (deleteFileStates t id).2) ?_ ?_
  · refine keeps_statement_inside hreg fun a w h => ?_
    exact (Prod.mk.inj (Except.ok.inj h)).2.symm
  rintro _ _ rfl
  refine Keeps.insideBind hreg (P := fun _ w => NoNewOrphans t w) ?_ fun removed w hw => ?_
  · refine keeps_statement_inside hreg fun a w h => ?_
    rw [(exec_deleteCheckpoint_ok h).2]
    exact noNewOrphans_delete t id
  · by_cases hzero : removed = 0
    · rw [if_pos hzero]
      exact keeps_throw_inside _
    · rw [if_neg hzero]
      exact keeps_pure_inside ⟨hw, fun _ _ => trivial⟩

theorem keeps_repair (executed : Bool) (s : Db) :
    Keeps (exec enforce) NoNewOrphans NoNewOrphans Closed (repair executed).run none s := by
  have hreg := regular_noNewOrphans
  refine Keeps.closedExceptBind hreg (keeps_statement_closed hreg fun a t t' h => ?_) fun found s => ?_
  · obtain ⟨_, rfl⟩ := Prod.mk.inj (Except.ok.inj h)
    exact hreg.idle t
  cases executed with
  | false => exact keeps_pure_closed _
  | true =>
    refine Keeps.closedExceptBind hreg (keeps_statement_closed hreg fun a t t' h => ?_) fun _ _ => keeps_pure_closed _
    obtain ⟨_, rfl⟩ := Prod.mk.inj (Except.ok.inj h)
    exact noNewOrphans_deleteOrphans t

theorem keeps_getCheckpoint (id : String) (s : Db) :
    Keeps (exec enforce) NoNewOrphans NoNewOrphans Closed (getCheckpoint id).run none s := by
  have hreg := regular_noNewOrphans
  refine Keeps.closedExceptBind hreg (keeps_statement_closed hreg fun a t t' h => ?_) fun row s => ?_
  · obtain ⟨_, rfl⟩ := Prod.mk.inj (Except.ok.inj h)
    exact hreg.idle t
  cases row with
  | none => exact keeps_pure_closed _
  | some c =>
    refine Keeps.closedExceptBind hreg (keeps_statement_closed hreg fun a t t' h => ?_) fun _ _ => keeps_pure_closed _
    obtain ⟨_, rfl⟩ := Prod.mk.inj (Except.ok.inj h)
    exact hreg.idle t

/-- A rollback writes the checkpoint of what it is about to overwrite, and nothing else. -/
theorem keeps_rollback (site : Site) (stamp : Stamp) (id : String) (s : Db) :
    Keeps (exec enforce) NoNewOrphans NoNewOrphans Closed (rollback site stamp id).run none s := by
  have hreg := regular_noNewOrphans
  refine Keeps.closedExceptBind hreg (keeps_getCheckpoint id s) fun loaded s => ?_
  dsimp only
  split
  · exact keeps_pure_closed _
  split
  · exact keeps_pure_closed _
  split
  · exact keeps_pure_closed _
  split
  · exact keeps_pure_closed _
  · exact Keeps.closedExceptBind hreg (keeps_persistSignedCheckpoint _ _ _ s) fun _ _ => keeps_pure_closed _

/-- No operation leaves a file row without its checkpoint. -/
theorem keeps_operation (op : Operation) (s : Db) :
    Keeps (exec enforce) NoNewOrphans NoNewOrphans Closed op.perform none s := by
  have hreg := regular_noNewOrphans
  have hdone : ∀ {β : Type} (r : β) (s : Db), Keeps (exec enforce) NoNewOrphans NoNewOrphans Closed (pure () : Conn Unit) none s :=
    fun _ _ => keeps_pure_closed ()
  cases op with
  | create stamp name captured =>
    refine Keeps.closedBind hreg ?_ hdone
    cases captured with
    | error e => exact keeps_pure_closed _
    | ok rows => exact keeps_persistSignedCheckpoint stamp name rows s
  | delete id => exact Keeps.closedBind hreg (keeps_deleteCheckpoint id s) hdone
  | rollback site stamp id => exact Keeps.closedBind hreg (keeps_rollback site stamp id s) hdone
  | repair executed => exact Keeps.closedBind hreg (keeps_repair executed s) hdone

theorem keeps_performAll (ops : List Operation) (s : Db) :
    Keeps (exec enforce) NoNewOrphans NoNewOrphans Closed (performAll ops) none s := by
  induction ops generalizing s with
  | nil => exact keeps_pure_closed _
  | cons op ops ih => exact Keeps.closedBind regular_noNewOrphans (keeps_operation op s) fun _ s => ih s

/-! ## Deleting an unknown id, and the repair -/

/-- Deleting an id no checkpoint has is refused and changes nothing, whatever file rows
have that id. -/
theorem solo_delete_unknown {id : String} {db db' : Db} {r : Except DbError Unit} {m : Option Db} (h : db.knows id = false)
    (hrun : Solo (exec enforce) (deleteCheckpoint id).run none db r m db') : db' = db ∧ ∃ e, r = .error e := by
  have hreg : Regular (fun s s' : Db => s' = s) fun s s' => s' = s := regular_eq fun _ => rfl
  refine (hrun.keeps (keeps_transaction hreg (fun r t => t = db ∧ ∃ e, r = .error e) ?_ fun e t ht => ⟨ht, e, rfl⟩)
    fun _ => rfl).1.2
  rintro t rfl
  refine Keeps.insideBind hreg (P := fun _ w => w.checkpoints = t.checkpoints) ?_ fun _ w hw => ?_
  · refine keeps_statement_inside hreg fun a w hexec => ?_
    obtain ⟨_, rfl⟩ := Prod.mk.inj (Except.ok.inj hexec)
    rfl
  refine Keeps.insideBind hreg (P := fun removed _ => removed = 0) ?_ ?_
  · refine keeps_statement_inside hreg fun n w' hexec => ?_
    rw [(exec_deleteCheckpoint_ok hexec).1, hw, List.length_eq_zero_iff, List.filter_eq_nil_iff]
    simpa [Db.knows] using h
  · rintro _ w' rfl
    exact keeps_throw_inside _

/-- The orphans are counted and, where that is asked, they and no other row are removed. -/
def Repaired (executed : Bool) (db : Db) : Except DbError (OrphanedFileStates × Option Nat) → Db → Prop
  | .error _, db' => db' = db
  | .ok (found, removed), db' =>
    found = countOrphans db ∧
      if executed then removed = some found.rows ∧ db' = { db with fileStates := db.fileStates.filter fun r => !db.orphans.contains r }
      else removed = none ∧ db' = db

/-- A row is an orphan or has its checkpoint. -/
theorem filter_not_orphans (db : Db) :
    (db.fileStates.filter fun r => !db.orphans.contains r) = db.fileStates.filter fun r => db.knows r.checkpointId := by
  refine List.filter_congr fun r hr => ?_
  have hmem : r ∈ db.orphans ↔ db.knows r.checkpointId = false := by simp [Db.orphans, hr]
  cases hk : db.knows r.checkpointId <;> simp [hmem, hk]

theorem keeps_repair_alone (executed : Bool) (db : Db) :
    Keeps (exec enforce) (fun s s' => s' = s) (fun _ _ => True) (fun r _ db' => Repaired executed db r db')
      (repair executed).run none db := by
  have hreg : Regular (fun s s' : Db => s' = s) fun _ _ => True := regular_eq fun _ => trivial
  refine Keeps.exceptBind hreg (fun r m t =>
    m = none ∧ t = db ∧ match r with
      | .ok found => found = countOrphans db
      | .error _ => True) ?_ ?_ fun e m t h => h.2.1
  · refine keeps_run_outside hreg ?_ fun e t ht => ⟨rfl, ht, trivial⟩
    rintro a t t' rfl hexec
    obtain ⟨rfl, rfl⟩ := Prod.mk.inj (Except.ok.inj hexec)
    exact ⟨trivial, fun v hv => ⟨rfl, hv, rfl⟩⟩
  rintro _ _ db ⟨rfl, rfl, rfl⟩
  cases executed with
  | false =>
    rintro v rfl
    exact ⟨rfl, rfl, rfl⟩
  | true =>
    refine Keeps.exceptBind hreg (fun r m t =>
      match r with
      | .ok removed => removed = (countOrphans db).rows ∧ t = (deleteOrphans db).2
      | .error _ => t = db) ?_ ?_ fun _ _ _ h => h
    · refine keeps_run_outside hreg ?_ fun _ t ht => ht
      rintro a t t' rfl hexec
      obtain ⟨rfl, rfl⟩ := Prod.mk.inj (Except.ok.inj hexec)
      exact ⟨trivial, fun v hv => ⟨rfl, hv⟩⟩
    · rintro _ m t ⟨rfl, rfl⟩ v hv
      have hsame : v = (deleteOrphans db).2 := by
        cases m <;> exact hv
      refine ⟨rfl, rfl, ?_⟩
      rw [hsame, deleteOrphans, filter_not_orphans]

theorem solo_repair {executed : Bool} {db db' : Db} {r : Except DbError (OrphanedFileStates × Option Nat)} {m : Option Db}
    (hrun : Solo (exec enforce) (repair executed).run none db r m db') : Repaired executed db r db' :=
  (hrun.keeps (keeps_repair_alone executed db) fun _ => trivial).1

/-- Any number of processes perform any operations, interleaved in any way and refused
at any statement: a file row without its checkpoint was one before. From where they are,
deleting an unknown id changes nothing, and the repair removes the rows it counted. -/
theorem checkpoint_store_integrity {ι : Type} [DecidableEq ι] (enforce : Bool) (operations : ι → List Operation) {db : Db}
    {S : System String Db Answer ι Unit} (h : Reach (exec enforce) (opening db fun i => performAll (operations i)) S) :
    (∀ r ∈ S.store.fileStates, S.store.knows r.checkpointId = false → r ∈ db.fileStates ∧ db.knows r.checkpointId = false) ∧
      (∀ id r m db', S.store.knows id = false → Solo (exec enforce) (deleteCheckpoint id).run none S.store r m db' →
        db' = S.store ∧ ∃ e, r = .error e) ∧
      ∀ executed r m db', Solo (exec enforce) (repair executed).run none S.store r m db' → Repaired executed S.store r db' := by
  have hreg := regular_noNewOrphans
  have hsound : Sound (exec enforce) NoNewOrphans NoNewOrphans (fun _ => Closed) (opening db fun i => performAll (operations i)) :=
    sound_opening fun i => keeps_performAll (operations i) db
  obtain ⟨_, hchanges⟩ := Reach.keeps hreg (fun _ _ h => h) hsound h
  exact ⟨hreg.changes (fun _ _ h => h) hchanges, fun id r m db' hid hrun => solo_delete_unknown hid hrun,
    fun executed r m db' hrun => solo_repair hrun⟩

/-- A file row whose checkpoint is gone. -/
def stranded : Db := ⟨[], [⟨1, "cp_1", storeRow (absentRow "/etc/issue")⟩], 1⟩

theorem checkpoint_store_integrity_stranded :
    Repaired true stranded (runAlone (exec true) "" "" (repair true).run none stranded).1
      (runAlone (exec true) "" "" (repair true).run none stranded).2.2 :=
  (checkpoint_store_integrity (ι := Unit) true (fun _ => [.repair true]) .refl).2.2 true _ _ _
    (solo_runAlone "" "" (repair true).run none stranded)

end

end LinuxHardener.State.CheckpointDb
