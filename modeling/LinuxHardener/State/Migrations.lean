import LinuxHardener.Lib.Transactions
import LinuxHardener.State.Rollback

/-
  The column migrations of the checkpoint database.

  Of a database only the tables and their column names are kept, and of the SQL
  engine that `pragma_table_info` compares names as they are written while `ALTER TABLE`
  refuses a column whose name differs from another only in case. `BEGIN IMMEDIATE` is
  `Transactions.beginTransaction`: it is served while no other connection holds a
  transaction. A connection that cannot be acquired ends a run as a refused `BEGIN` does.

  Correspondence (Rust ↔ Lean):
    `SCHEMA`                  ↔ `baseTables` (without the columns of `MIGRATIONS`)
    `MIGRATIONS`              ↔ `migrations`
    `add_column_if_missing`   ↔ `addColumnIfMissing`
    `apply_migrations`        ↔ `applyMigrations`; its loop is `applyEach`

  What is proved:
    1. `keeps_applyMigrations` — whatever is refused, a run changes the schema by the whole
       set of missing columns or not at all.
    2. `runAlone_applyMigrations` — where nothing is refused it returns Ok with every column.
    3. `applyMigrations_allOrNothing` — so in every interleaving of processes that open the
       database, and a further run puts things right from wherever they ended.
    4. `rerun_adds_columns` — from the schema it started from, a further run adds columns.
-/
namespace LinuxHardener.State.Migrations

open Transactions

/-! ## Schemas -/

structure Table where
  name : String
  columns : List String
  deriving DecidableEq, Repr

abbrev Schema : Type := List Table

def hasTable (s : Schema) (table : String) : Bool := s.any fun t => t.name == table

/-- The columns of a table; a table that is not there has none. -/
def columnsOf : Schema → String → List String
  | [], _ => []
  | t :: s, table => if t.name = table then t.columns else columnsOf s table

def addTo (s : Schema) (table column : String) : Schema :=
  s.map fun t => if t.name == table then { t with columns := t.columns ++ [column] } else t

/-- What the engine compares two column names by. -/
def folded (name : String) : List Char := name.toList.map Char.toLower

/-- The name at the head of a column definition. -/
def columnName (ddl : String) : String := String.ofList (ddl.toList.takeWhile (· ≠ ' '))

@[simp] theorem hasTable_addTo (s : Schema) (t c t' : String) : hasTable (addTo s t c) t' = hasTable s t' := by
  simp only [hasTable, addTo, List.any_map]
  congr 1
  funext x
  simp only [Function.comp]
  split <;> rfl

theorem columnsOf_addTo (s : Schema) (t c t' : String) :
    columnsOf (addTo s t c) t' = if t' = t ∧ hasTable s t then columnsOf s t ++ [c] else columnsOf s t' := by
  induction s with
  | nil => simp [columnsOf, addTo, hasTable]
  | cons x s ih =>
    simp only [columnsOf, addTo, hasTable, List.map_cons, List.any_cons] at ih ⊢
    by_cases ht : x.name = t'
    · subst ht
      by_cases hx : x.name = t <;> simp [hx]
    · by_cases hx : x.name = t
      · subst hx
        simp [ht, Ne.symm ht] at ih ⊢
        exact ih
      · simpa [hx, ht] using ih

/-! ## The statements -/

/-- `SELECT COUNT(*) FROM pragma_table_info(table) WHERE name = column`, and
`ALTER TABLE table ADD COLUMN ddl`. -/
inductive Statement where
  | countColumn (table column : String)
  | addColumn (table ddl : String)

@[reducible] def Answer : Statement → Type
  | .countColumn _ _ => Nat
  | .addColumn _ _ => Unit

def exec : (q : Statement) → Schema → Except String (Answer q × Schema)
  | .countColumn table column, s => .ok ((columnsOf s table).count column, s)
  | .addColumn table ddl, s =>
    if !hasTable s table then .error ("no such table: " ++ table)
    else if (columnsOf s table).any fun c => folded c == folded (columnName ddl) then
      .error ("duplicate column name: " ++ columnName ddl)
    else .ok ((), addTo s table (columnName ddl))

/-! ## The program -/

structure Migration where
  table : String
  column : String
  ddl : String
  deriving DecidableEq, Repr

/-- `MIGRATIONS` -/
def migrations : List Migration :=
  [⟨"checkpoints", "host_key", "host_key TEXT NOT NULL DEFAULT 'local'"⟩,
   ⟨"scan_results", "unchecked_json", "unchecked_json TEXT"⟩,
   ⟨"scan_results", "skipped_reason", "skipped_reason TEXT"⟩,
   ⟨"file_states", "link_target", "link_target TEXT"⟩,
   ⟨"file_states", "content_absence", "content_absence TEXT"⟩,
   ⟨"scan_findings", "exception_key", "exception_key TEXT"⟩,
   ⟨"scan_findings", "exception_declined", "exception_declined TEXT"⟩]

abbrev Conn (α : Type) : Type := Prog String Answer α

/-- A statement whose failure ends the run. -/
def execute (q : Statement) : ExceptT HardeningError Conn (Answer q) := statement HardeningError.database q

def addColumnIfMissing (table column ddl : String) : ExceptT HardeningError Conn Unit := do
  let present ← execute (.countColumn table column)
  if present == 0 then
    execute (.addColumn table ddl)

/-- The loop, which stops at the first error. -/
def applyEach : List Migration → ExceptT HardeningError Conn Unit
  | [] => pure ()
  | migration :: rest => do
    addColumnIfMissing migration.table migration.column migration.ddl
    applyEach rest

/-- The closing statement, whichever way the loop went. -/
def closing : Except HardeningError Unit → ExceptT HardeningError Conn Unit
  | .ok _ => commitTransaction HardeningError.database
  | .error _ => rollbackTransaction HardeningError.database

def applyMigrations (ms : List Migration) : ExceptT HardeningError Conn Unit := do
  beginTransaction HardeningError.database
  let applied ← ExceptT.lift (applyEach ms).run
  closing applied
  ExceptT.mk (pure applied)

/-! ## What the whole set adds -/

/-- What a migration makes of a schema that takes it. -/
def upgradeColumn (s : Schema) (m : Migration) : Schema :=
  if (columnsOf s m.table).count m.column = 0 then addTo s m.table m.column else s

def upgraded (ms : List Migration) (s : Schema) : Schema := ms.foldl upgradeColumn s

/-- Every migrated column stands in its table exactly once. -/
def Complete (ms : List Migration) (s : Schema) : Prop := ∀ m ∈ ms, (columnsOf s m.table).count m.column = 1

/-- A schema takes a migration: the table is there, and no column has the new one's
name up to case, unless it is the new one. -/
structure Takes (m : Migration) (s : Schema) : Prop where
  table : hasTable s m.table = true
  once : (columnsOf s m.table).count m.column ≤ 1
  free : (columnsOf s m.table).count m.column = 0 → ∀ c ∈ columnsOf s m.table, folded c ≠ folded m.column

def Upgradable (ms : List Migration) (s : Schema) : Prop := ∀ m ∈ ms, Takes m s

/-- Each migration's definition begins with its column's name, and no two add one column. -/
structure WellNamed (ms : List Migration) : Prop where
  ddl : ∀ m ∈ ms, columnName m.ddl = m.column
  apart : ms.Pairwise fun m m' => m.table = m'.table → folded m.column ≠ folded m'.column

theorem columnsOf_upgradeColumn (s : Schema) (m : Migration) (t : String) :
    columnsOf (upgradeColumn s m) t =
      if t = m.table ∧ hasTable s m.table ∧ (columnsOf s m.table).count m.column = 0 then columnsOf s t ++ [m.column]
      else columnsOf s t := by
  unfold upgradeColumn
  by_cases h : (columnsOf s m.table).count m.column = 0
  · rw [if_pos h, columnsOf_addTo]
    by_cases ht : t = m.table
    · subst ht
      simp [h]
    · simp [ht]
  · simp [h]

@[simp] theorem hasTable_upgradeColumn (s : Schema) (m : Migration) (t : String) :
    hasTable (upgradeColumn s m) t = hasTable s t := by
  unfold upgradeColumn
  split <;> simp

/-- A column that is there once stays so. -/
theorem count_upgradeColumn_one {s : Schema} {t c : String} (m : Migration) (h : (columnsOf s t).count c = 1) :
    (columnsOf (upgradeColumn s m) t).count c = 1 := by
  rw [columnsOf_upgradeColumn]
  split
  · next hadd =>
    obtain ⟨rfl, _, h0⟩ := hadd
    have hne : m.column ≠ c := by
      rintro rfl
      omega
    simp [List.count_append, h, hne]
  · exact h

theorem Takes.count_upgradeColumn {m : Migration} {s : Schema} (h : Takes m s) :
    (columnsOf (upgradeColumn s m) m.table).count m.column = 1 := by
  by_cases h0 : (columnsOf s m.table).count m.column = 0
  · rw [columnsOf_upgradeColumn, if_pos ⟨rfl, h.table, h0⟩]
    simp [List.count_append, h0]
  · have := h.once
    exact count_upgradeColumn_one m (by omega)

theorem Takes.of_count {m : Migration} {s : Schema} (ht : hasTable s m.table = true)
    (h : (columnsOf s m.table).count m.column = 1) : Takes m s :=
  ⟨ht, by omega, by omega⟩

/-- A migration of another column does not stand in the way. -/
theorem Takes.upgradeColumn {m m' : Migration} {s : Schema} (h : Takes m s)
    (hapart : m'.table = m.table → folded m'.column ≠ folded m.column) : Takes m (upgradeColumn s m') := by
  refine ⟨by simpa using h.table, ?_, ?_⟩ <;> rw [columnsOf_upgradeColumn] <;> split
  · next hadd =>
    have hne : m'.column ≠ m.column := fun he => hapart hadd.1.symm (by rw [he])
    simpa [List.count_append, hne] using h.once
  · exact h.once
  · next hadd =>
    have hfold := hapart hadd.1.symm
    have hne : m'.column ≠ m.column := fun he => hfold (by rw [he])
    intro h0 c hc
    have h0' : (columnsOf s m.table).count m.column = 0 := by simpa [List.count_append, hne] using h0
    rcases List.mem_append.mp hc with hc | hc
    · exact h.free h0' c hc
    · rw [List.mem_singleton.mp hc]
      exact hfold
  · exact h.free

@[simp] theorem hasTable_upgraded (ms : List Migration) (s : Schema) (t : String) :
    hasTable (upgraded ms s) t = hasTable s t := by
  induction ms generalizing s with
  | nil => rfl
  | cons m ms ih => simpa [upgraded] using ih (upgradeColumn s m)

theorem count_upgraded_one (ms : List Migration) {s : Schema} {t c : String} (h : (columnsOf s t).count c = 1) :
    (columnsOf (upgraded ms s) t).count c = 1 := by
  induction ms generalizing s with
  | nil => exact h
  | cons m ms ih => exact ih (count_upgradeColumn_one m h)

/-- Along the list every migration is taken in its turn. -/
theorem upgradable_tail {m : Migration} {ms : List Migration} {s : Schema} (hnamed : WellNamed (m :: ms))
    (h : Upgradable (m :: ms) s) : Upgradable ms (upgradeColumn s m) := fun m' hm' =>
  (h m' (.tail _ hm')).upgradeColumn ((List.pairwise_cons.mp hnamed.apart).1 m' hm')

theorem WellNamed.tail {m : Migration} {ms : List Migration} (h : WellNamed (m :: ms)) : WellNamed ms :=
  ⟨fun m' hm' => h.ddl m' (.tail _ hm'), (List.pairwise_cons.mp h.apart).2⟩

theorem complete_upgraded {ms : List Migration} {s : Schema} (hnamed : WellNamed ms) (h : Upgradable ms s) :
    Complete ms (upgraded ms s) := by
  induction ms generalizing s with
  | nil => simp [Complete]
  | cons m ms ih =>
    intro m' hm'
    obtain rfl | hm' := List.mem_cons.mp hm'
    · exact count_upgraded_one ms (h m' (.head _)).count_upgradeColumn
    · exact ih hnamed.tail (upgradable_tail hnamed h) m' hm'

/-- The set adds nothing where nothing is missing, or where a table is. -/
theorem upgraded_eq_self {ms : List Migration} {s : Schema}
    (h : ∀ m ∈ ms, (columnsOf s m.table).count m.column ≠ 0 ∨ hasTable s m.table = false) : upgraded ms s = s := by
  induction ms with
  | nil => rfl
  | cons m ms ih =>
    have hm : upgradeColumn s m = s := by
      unfold upgradeColumn
      split
      · next h0 =>
        have hnone := (h m (.head _)).resolve_left (by simp [h0])
        unfold addTo
        refine (List.map_congr_left fun t ht => ?_).trans (List.map_id s)
        rw [hasTable, List.any_eq_false] at hnone
        exact if_neg (hnone t ht)
      · rfl
    change upgraded ms (upgradeColumn s m) = s
    rw [hm]
    exact ih fun m' hm' => h m' (.tail _ hm')

theorem Complete.upgraded_eq {ms : List Migration} {s : Schema} (h : Complete ms s) : upgraded ms s = s :=
  upgraded_eq_self fun m hm => .inl (by simp [h m hm])

theorem count_upgradeColumn_le (s : Schema) (m : Migration) (t c : String) :
    (columnsOf s t).count c ≤ (columnsOf (upgradeColumn s m) t).count c := by
  rw [columnsOf_upgradeColumn]
  split
  · exact (List.sublist_append_left _ _).count_le c
  · exact le_rfl

theorem count_upgraded_le (ms : List Migration) (s : Schema) (t c : String) :
    (columnsOf s t).count c ≤ (columnsOf (upgraded ms s) t).count c := by
  induction ms generalizing s with
  | nil => exact le_rfl
  | cons m ms ih => exact (count_upgradeColumn_le s m t c).trans (ih _)

/-- Nothing is missing after the set, in any table that is there. -/
theorem count_upgraded_ne {ms : List Migration} {s : Schema} {m : Migration} (hm : m ∈ ms) :
    (columnsOf (upgraded ms s) m.table).count m.column ≠ 0 ∨ hasTable (upgraded ms s) m.table = false := by
  induction ms generalizing s with
  | nil => cases hm
  | cons m' ms ih =>
    obtain rfl | hm := List.mem_cons.mp hm
    · rw [hasTable_upgraded]
      cases ht : hasTable s m.table with
      | false => exact .inr rfl
      | true =>
        have h : 0 < (columnsOf (upgradeColumn s m) m.table).count m.column := by
          rw [columnsOf_upgradeColumn]
          split
          · simp
          · next hnot => exact Nat.pos_of_ne_zero fun h0 => hnot ⟨rfl, ht, h0⟩
        exact .inl (h.trans_le (count_upgraded_le ms _ _ _)).ne'
    · exact ih hm

theorem upgraded_upgraded (ms : List Migration) (s : Schema) : upgraded ms (upgraded ms s) = upgraded ms s :=
  upgraded_eq_self fun _ hm => count_upgraded_ne hm

/-! ## One run -/

/-- What a run may make of the schema, and what it has to expect of the others. -/
def Upgrades (ms : List Migration) (s s' : Schema) : Prop := s' = s ∨ s' = upgraded ms s

theorem regular_upgrades (ms : List Migration) : Regular (Upgrades ms) (Upgrades ms) where
  refl _ := .inl rfl
  trans h₁ h₂ := by
    obtain rfl | rfl := h₁
    · exact h₂
    · rw [Upgrades, upgraded_upgraded, or_self] at h₂
      exact .inr h₂
  idle _ := .inl rfl

theorem exec_addColumn (s : Schema) (table ddl : String) :
    exec (.addColumn table ddl) s =
      if !hasTable s table then .error ("no such table: " ++ table)
      else if (columnsOf s table).any fun c => folded c == folded (columnName ddl) then
        .error ("duplicate column name: " ++ columnName ddl)
      else .ok ((), addTo s table (columnName ddl)) := rfl

theorem exec_addColumn_ok {s s' : Schema} {table ddl : String} {a : Unit}
    (h : exec (.addColumn table ddl) s = .ok (a, s')) : s' = addTo s table (columnName ddl) := by
  rw [exec_addColumn] at h
  split_ifs at h
  exact (Prod.mk.inj (Except.ok.inj h)).2.symm

/-- In the transaction the copy gets the columns one by one. -/
theorem keeps_addColumnIfMissing {ms : List Migration} {m : Migration} (hddl : columnName m.ddl = m.column) (s w : Schema) :
    Keeps exec (Upgrades ms) (Upgrades ms) (Inside (Upgrades ms) s fun _ w' => w' = upgradeColumn w m)
      (addColumnIfMissing m.table m.column m.ddl).run (some w) s := by
  have hreg := regular_upgrades ms
  have hcount : Keeps exec (Upgrades ms) (Upgrades ms)
      (Inside (Upgrades ms) s fun n w' => n = (columnsOf w m.table).count m.column ∧ w' = w)
      (execute (.countColumn m.table m.column)).run (some w) s := by
    refine keeps_statement_inside hreg fun a w' h => ?_
    obtain ⟨rfl, rfl⟩ := Prod.mk.inj (Except.ok.inj h)
    exact ⟨rfl, rfl⟩
  refine hcount.insideBind hreg ?_
  rintro _ w ⟨rfl, rfl⟩
  by_cases h0 : (columnsOf w m.table).count m.column = 0
  · rw [if_pos (by simp [h0]), upgradeColumn, if_pos h0]
    refine keeps_statement_inside hreg fun a w' h => ?_
    rw [exec_addColumn_ok h, hddl]
  · rw [if_neg (by simp [h0]), upgradeColumn, if_neg h0]
    exact keeps_pure_inside rfl

theorem keeps_applyEach {all ms : List Migration} (hddl : ∀ m ∈ ms, columnName m.ddl = m.column) (s w : Schema) :
    Keeps exec (Upgrades all) (Upgrades all) (Inside (Upgrades all) s fun _ w' => w' = upgraded ms w)
      (applyEach ms).run (some w) s := by
  induction ms generalizing w with
  | nil => exact keeps_pure_inside rfl
  | cons m ms ih =>
    refine (keeps_addColumnIfMissing (hddl m (.head _)) s w).insideBind (regular_upgrades all) ?_
    rintro _ _ rfl
    exact ih (fun m' hm' => hddl m' (.tail _ hm')) _

theorem Upgrades.known {ms : List Migration} {s t t' : Schema} {m : Option Schema} (h : Upgrades ms s t)
    (hknown : Known (Upgrades ms) m t t') : Upgrades ms s t' := by
  cases m with
  | none => exact (regular_upgrades ms).trans h hknown
  | some w =>
    obtain rfl : t' = t := hknown
    exact h

theorem Upgrades.upgraded_eq {ms : List Migration} {s t : Schema} (h : Upgrades ms s t) : upgraded ms t = upgraded ms s := by
  obtain rfl | rfl := h
  · rfl
  · exact upgraded_upgraded ms s

/-- A schema with the whole set stays as it is. -/
theorem upgraded_known {ms : List Migration} {s t : Schema} {m : Option Schema}
    (hknown : Known (Upgrades ms) m (upgraded ms s) t) : t = upgraded ms s := by
  cases m with
  | none =>
    obtain rfl | rfl := hknown
    · rfl
    · exact upgraded_upgraded ms s
  | some w => exact hknown

/-- A run changes the schema by the whole set or not at all, and returns Ok only where
every column is there. -/
theorem keeps_applyMigrations {ms : List Migration} (hnamed : WellNamed ms) {s : Schema} (hs : Upgradable ms s) :
    Keeps exec (Upgrades ms) (Upgrades ms) (fun r _ t => Upgrades ms s t ∧ (r = .ok () → Complete ms t))
      (applyMigrations ms).run none s := by
  have hreg := regular_upgrades ms
  have hcomplete := complete_upgraded hnamed hs
  refine Keeps.exceptBind hreg (fun r m t =>
    match r with
    | .ok _ => m = some t ∧ Upgrades ms s t
    | .error _ => Upgrades ms s t) ?_ ?_ fun _ _ t h => ⟨h, nofun⟩
  · exact keeps_begin hreg (fun t h => ⟨rfl, h⟩) fun _ t h => h
  rintro _ _ t ⟨rfl, ht⟩
  refine Keeps.exceptBind hreg (fun r m t' =>
    match r with
    | .ok applied => Inside (Upgrades ms) t (fun _ w => w = upgraded ms t) applied m t'
    | .error _ => False) ?_ ?_ fun _ _ _ h => h.elim
  · exact (keeps_applyEach hnamed.ddl t t).lift hreg
  intro applied m t' hloop
  -- Only a commit that succeeded is followed by Ok.
  refine Keeps.exceptBind hreg (fun r _ t'' =>
    Upgrades ms s t'' ∧ (r = .ok () → applied = .ok () → t'' = upgraded ms s)) ?_ ?_ fun _ _ _ h => ⟨h.1, nofun⟩
  · cases applied with
    | ok _ =>
      obtain ⟨w, rfl, rfl, rfl⟩ := hloop
      rw [ht.upgraded_eq]
      exact keeps_commit hreg (.inr ht.upgraded_eq.symm)
        (fun t'' h => ⟨.inr (upgraded_known (m := none) h), fun _ _ => upgraded_known (m := none) h⟩)
        (fun _ => ⟨ht, nofun⟩) fun _ t'' h => ⟨hreg.trans ht h, nofun⟩
    | error e =>
      refine keeps_rollback hreg fun r m' t'' _ h => ⟨?_, fun _ => nofun⟩
      exact (ht.known hloop).known h
  · rintro _ m t'' ⟨ht'', hdone⟩ u hu
    refine ⟨ht''.known hu, ?_⟩
    rintro rfl
    obtain rfl := hdone rfl rfl
    rw [upgraded_known hu]
    exact hcomplete

/-! ## A run that nothing refuses -/

section

variable {nothingOpen alreadyOpen : String}

theorem runAlone_addColumnIfMissing {m : Migration} {w : Schema} (hddl : columnName m.ddl = m.column) (h : Takes m w) (s : Schema) :
    runAlone exec nothingOpen alreadyOpen (addColumnIfMissing m.table m.column m.ddl).run (some w) s =
      (.ok (), some (upgradeColumn w m), s) := by
  have hcount : exec (.countColumn m.table m.column) w = .ok ((columnsOf w m.table).count m.column, w) := rfl
  unfold addColumnIfMissing
  rw [execute, runAlone_bind_ok (runAlone_inside hcount)]
  by_cases h0 : (columnsOf w m.table).count m.column = 0
  · rw [if_pos (by simp [h0]), upgradeColumn, if_pos h0]
    refine runAlone_inside ?_
    have hfree : ((columnsOf w m.table).any fun c => folded c == folded (columnName m.ddl)) = false := by
      rw [List.any_eq_false]
      intro c hc
      simpa [hddl] using h.free h0 c hc
    rw [exec_addColumn, h.table, hfree, hddl]
    rfl
  · rw [if_neg (by simp [h0]), upgradeColumn, if_neg h0]
    rfl

theorem runAlone_applyEach {ms : List Migration} {w : Schema} (hnamed : WellNamed ms) (h : Upgradable ms w) (s : Schema) :
    runAlone exec nothingOpen alreadyOpen (applyEach ms).run (some w) s = (.ok (), some (upgraded ms w), s) := by
  induction ms generalizing w with
  | nil => rfl
  | cons m ms ih =>
    unfold applyEach
    rw [runAlone_bind_ok (runAlone_addColumnIfMissing (hnamed.ddl m (.head _)) (h m (.head _)) s)]
    exact ih hnamed.tail (upgradable_tail hnamed h)

/-- A run that nothing refuses returns Ok and leaves every column there. -/
theorem runAlone_applyMigrations {ms : List Migration} (hnamed : WellNamed ms) {s : Schema} (h : Upgradable ms s) :
    runAlone exec nothingOpen alreadyOpen (applyMigrations ms).run none s = (.ok (), none, upgraded ms s) := by
  unfold applyMigrations
  rw [runAlone_bind_ok (runAlone_begin s), runAlone_bind_ok (runAlone_lift (runAlone_applyEach hnamed h s))]
  have hclose : runAlone exec nothingOpen alreadyOpen (closing (.ok ())).run (some (upgraded ms s)) s =
      (.ok (), none, upgraded ms s) := rfl
  rw [runAlone_bind_ok hclose]
  rfl

end

theorem Upgrades.upgradable {ms : List Migration} {s t : Schema} (hnamed : WellNamed ms) (hs : Upgradable ms s)
    (h : Upgrades ms s t) : Upgradable ms t := by
  obtain rfl | rfl := h
  · exact hs
  · exact fun m hm => .of_count (by simpa using (hs m hm).table) (complete_upgraded hnamed hs m hm)

/-! ## The program's own migrations -/

theorem wellNamed_migrations : WellNamed migrations := by
  constructor
  · decide
  · decide

/-- `SCHEMA` without the columns that `migrations` adds. -/
def baseTables : List Table :=
  [⟨"checkpoints", ["id", "name", "timestamp", "username", "signature", "created_at"]⟩,
   ⟨"file_states", ["id", "checkpoint_id", "file_path", "content", "permissions", "owner_uid", "owner_gid"]⟩,
   ⟨"scan_sessions", ["id", "started_at", "completed_at", "total_findings", "total_plugins", "status"]⟩,
   ⟨"scan_results", ["id", "session_id", "plugin_id", "success", "duration_us", "error_message"]⟩,
   ⟨"scan_findings", ["id", "result_id", "finding_id", "category", "severity", "title", "description", "explanation",
     "impact", "current_value", "recommended_value", "remediation_steps", "compliance_mappings", "policy_exception"]⟩]

/-- A database that some release left with some of the migrated columns. -/
def olderSchema (present : Migration → Bool) : Schema :=
  baseTables.map fun t =>
    { t with columns := t.columns ++ (migrations.filter fun m => m.table == t.name && present m).map Migration.column }

theorem hasTable_olderSchema (present : Migration → Bool) (table : String) :
    hasTable (olderSchema present) table = hasTable baseTables table := by
  simp only [hasTable, olderSchema, List.any_map]
  rfl

theorem columnsOf_olderSchema (present : Migration → Bool) (table : String) :
    (columnsOf (olderSchema present) table).Sublist (columnsOf (olderSchema fun _ => true) table) := by
  unfold olderSchema
  induction baseTables with
  | nil => exact List.Sublist.refl _
  | cons t ts ih =>
    simp only [List.map_cons, columnsOf]
    split
    · refine List.Sublist.append_left (List.Sublist.map _ ?_) _
      exact List.monotone_filter_right _ fun m hm => by simpa using (Bool.and_eq_true_iff.mp hm).1
    · exact ih

/-- Every such database takes the migrations. -/
theorem upgradable_olderSchema (present : Migration → Bool) : Upgradable migrations (olderSchema present) := by
  have hall : ∀ m ∈ migrations, hasTable baseTables m.table = true ∧
      ((columnsOf (olderSchema fun _ => true) m.table).map folded).Nodup ∧
      m.column ∈ columnsOf (olderSchema fun _ => true) m.table := by decide
  intro m hm
  obtain ⟨htable, hnodup, hmem⟩ := hall m hm
  have hsub := columnsOf_olderSchema present m.table
  refine ⟨by rw [hasTable_olderSchema, htable], ?_, ?_⟩
  · exact (hsub.count_le _).trans (List.nodup_iff_count_le_one.mp hnodup.of_map _)
  · intro h0 c hc hfold
    -- No two columns of the newest schema differ only in case.
    obtain rfl := List.inj_on_of_nodup_map hnodup (hsub.subset hc) hmem hfold
    exact List.count_eq_zero.mp h0 hc

/-! ## Any number of processes -/

/-- Processes that open the database at once. -/
abbrev Opening (ι : Type) : Type := System String Schema Answer ι (Except HardeningError Unit)

def openers (ι : Type) (s : Schema) : Opening ι := opening s fun _ => (applyMigrations migrations).run

/-- A further run, when nothing is refused. -/
def runAgain (s : Schema) : Except HardeningError Unit × Option Schema × Schema :=
  runAlone exec "no transaction is active" "cannot start a transaction within a transaction" (applyMigrations migrations).run none s

/-- However the processes are interleaved and whatever is refused, the schema is the one
they started from or has every column once, as it has where one of them returned Ok; and
from there a further run succeeds, which adds nothing where every column is there. -/
theorem applyMigrations_allOrNothing {ι : Type} [DecidableEq ι] {s : Schema} (hs : Upgradable migrations s) {S : Opening ι}
    (h : Reach exec (openers ι s) S) :
    (S.store = s ∨ Complete migrations S.store) ∧
      (∀ i, S.program i = some (.done (.ok ())) → Complete migrations S.store) ∧
      (∃ t, runAgain S.store = (.ok (), none, t) ∧ Complete migrations t ∧ (Complete migrations S.store → t = S.store)) := by
  have hreg := regular_upgrades migrations
  have hsound : Sound exec (Upgrades migrations) (Upgrades migrations)
      (fun _ r _ t => Upgrades migrations s t ∧ (r = .ok () → Complete migrations t)) (openers ι s) :=
    sound_opening fun _ => keeps_applyMigrations wellNamed_migrations hs
  obtain ⟨hsound', hchanges⟩ := Reach.keeps hreg (fun _ _ h => h) hsound h
  have hstore : Upgrades migrations s S.store := hreg.changes (fun _ _ h => h) hchanges
  have hcomplete := complete_upgraded wellNamed_migrations hs
  have hends : S.store = s ∨ Complete migrations S.store := by
    rcases hstore with hsame | hfull
    · exact .inl hsame
    · exact .inr (by rwa [hfull])
  refine ⟨hends, fun i hi => (hsound'.returned hreg hi).2 rfl, ?_⟩
  refine ⟨upgraded migrations S.store, ?_, ?_, fun hc => hc.upgraded_eq⟩
  · exact runAlone_applyMigrations wellNamed_migrations (hstore.upgradable wellNamed_migrations hs)
  · rw [hstore.upgraded_eq]
    exact hcomplete

/-- Two processes that open a database without any of the columns, before either begins. -/
theorem applyMigrations_allOrNothing_oldest :
    ∃ t, runAgain (olderSchema fun _ => false) = (.ok (), none, t) ∧ Complete migrations t := by
  obtain ⟨_, _, t, hrun, hcomplete, _⟩ := applyMigrations_allOrNothing (ι := Bool) (upgradable_olderSchema fun _ => false)
    (S := openers Bool (olderSchema fun _ => false)) .refl
  exact ⟨t, hrun, hcomplete⟩

/-- A process is refused the lock and ends, the other never starts: the schema is the one
they started from, and a further run adds columns to it. -/
theorem rerun_adds_columns : ∃ S : Opening Bool, Reach exec (openers Bool (olderSchema fun _ => false)) S ∧
    (∀ i, S.program i = none) ∧ S.store = (olderSchema fun _ => false) ∧ (runAgain S.store).2.2 ≠ S.store := by
  have hrefused : Transactions.Step exec (openers Bool (olderSchema fun _ => false)) _ :=
    .call (i := true) (c := .begin) rfl (.refused "database is locked" (by simp)) (.inl ⟨rfl, rfl⟩)
  refine ⟨_, ((Relation.ReflTransGen.single hrefused).tail (.close true)).tail (.close false), ?_, rfl, ?_⟩
  · intro i
    cases i <;> simp
  · change (runAgain (olderSchema fun _ => false)).2.2 ≠ olderSchema fun _ => false
    rw [runAgain, runAlone_applyMigrations wellNamed_migrations (upgradable_olderSchema _)]
    decide

end LinuxHardener.State.Migrations
