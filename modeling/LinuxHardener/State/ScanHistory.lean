import LinuxHardener.Lib.Transactions
import LinuxHardener.State.Rollback
import LinuxHardener.State.ScanCodec

/-
  Scan results in the database, written and read back.

  A row gets the next id of its table, and no id is given out twice. Neither `SELECT` names
  an order: the engine visits the rows a `WHERE` asks for in an order of its own, which is
  that of their ids where it goes forward through the index on the column
  (`idx_scan_results_session`, `idx_scan_findings_result`).

  Correspondence (Rust ↔ Lean):
    `store_results`           ↔ `storeResults`; the bodies of its loops are `storeEach`, `storeFindings`
    `get_session_results`     ↔ `getSessionResults`; the body of its loop is `readResult`
    `get_result_findings`     ↔ `getResultFindings`; the body of its loop is `readFinding`

  What is proved:
    1. `runAlone_getSessionResults` — what reading a session gives, from its rows.
    2. `keeps_storeResults`, `runAlone_storeResults` — what storing leaves in the tables, and
       that it succeeds where nothing refuses it.
    3. `stored_results_read_back` — what is stored comes back, after what was there.
-/
namespace LinuxHardener.State.ScanHistory

open Transactions
open Compliance (PluginId)
open Json (JsonReader)

/-! ## The tables -/

structure ResultColumns where
  sessionId : String
  pluginId : String
  success : Bool
  durationUs : Int
  errorMessage : Option String
  uncheckedJson : Option String
  skippedReason : Option String
  deriving DecidableEq, Repr

structure ResultRow extends ResultColumns where
  id : Nat
  deriving DecidableEq, Repr

structure FindingColumns where
  findingId : String
  category : String
  severity : String
  title : String
  description : String
  explanation : String
  impact : String
  currentValue : String
  recommendedValue : String
  remediationSteps : String
  complianceMappings : String
  policyException : Option String
  exceptionKey : Option String
  exceptionDeclined : Option String
  deriving DecidableEq, Repr

structure FindingRow extends FindingColumns where
  id : Nat
  resultId : Nat
  deriving DecidableEq, Repr

/-- The tables, in the order of their row ids, with the last id each gave out. -/
structure Db where
  sessions : List String
  results : List ResultRow
  findings : List FindingRow
  resultSequence : Nat
  findingSequence : Nat
  results_ascend : (results.map ResultRow.id).Pairwise (· < ·)
  results_le : ∀ row ∈ results, row.id ≤ resultSequence
  findings_ascend : (findings.map FindingRow.id).Pairwise (· < ·)
  findings_le : ∀ row ∈ findings, row.id ≤ findingSequence
  /-- A finding's result got its id before. -/
  findings_owned : ∀ row ∈ findings, row.resultId ≤ resultSequence

def Db.empty (sessions : List String) : Db where
  sessions := sessions
  results := []
  findings := []
  resultSequence := 0
  findingSequence := 0
  results_ascend := .nil
  results_le := by simp
  findings_ascend := .nil
  findings_le := by simp
  findings_owned := by simp

/-- A row with the next id keeps a table in order. -/
theorem ascend_append {ids : List Nat} {n : Nat} (h : ids.Pairwise (· < ·)) (hle : ∀ i ∈ ids, i ≤ n) :
    (ids ++ [n + 1]).Pairwise (· < ·) := by
  refine List.pairwise_append.mpr ⟨h, List.pairwise_singleton _ _, fun i hi j hj => ?_⟩
  obtain rfl := List.mem_singleton.mp hj
  have := hle i hi
  omega

def Db.addResult (db : Db) (columns : ResultColumns) : Db where
  sessions := db.sessions
  results := db.results ++ [⟨columns, db.resultSequence + 1⟩]
  findings := db.findings
  resultSequence := db.resultSequence + 1
  findingSequence := db.findingSequence
  results_ascend := by
    rw [List.map_append]
    exact ascend_append db.results_ascend (by simpa using db.results_le)
  results_le := by
    intro row hrow
    rcases List.mem_append.mp hrow with hrow | hrow
    · exact Nat.le_succ_of_le (db.results_le row hrow)
    · simp [List.mem_singleton.mp hrow]
  findings_ascend := db.findings_ascend
  findings_le := db.findings_le
  findings_owned row hrow := Nat.le_succ_of_le (db.findings_owned row hrow)

def Db.addFinding (db : Db) (resultId : Nat) (columns : FindingColumns) (h : resultId ≤ db.resultSequence) : Db where
  sessions := db.sessions
  results := db.results
  findings := db.findings ++ [⟨columns, db.findingSequence + 1, resultId⟩]
  resultSequence := db.resultSequence
  findingSequence := db.findingSequence + 1
  results_ascend := db.results_ascend
  results_le := db.results_le
  findings_ascend := by
    rw [List.map_append]
    exact ascend_append db.findings_ascend (by simpa using db.findings_le)
  findings_le := by
    intro row hrow
    rcases List.mem_append.mp hrow with hrow | hrow
    · exact Nat.le_succ_of_le (db.findings_le row hrow)
    · simp [List.mem_singleton.mp hrow]
  findings_owned := by
    intro row hrow
    rcases List.mem_append.mp hrow with hrow | hrow
    · exact db.findings_owned row hrow
    · rw [List.mem_singleton.mp hrow]
      exact h

/-! ## The statements -/

/-- The order in which the engine visits the rows with these ids. -/
structure Engine where
  visit : List Nat → List Nat
  visit_perm : ∀ ids, (visit ids).Perm ids

/-- The engine goes forward through the index. -/
def Engine.Forward (e : Engine) : Prop := ∀ ids, ids.Pairwise (· < ·) → e.visit ids = ids

def Engine.rows {Row : Type} (e : Engine) (id : Row → Nat) (rows : List Row) : List Row :=
  (e.visit (rows.map id)).filterMap fun i => rows.find? fun row => id row == i

inductive Statement where
  | insertResult (columns : ResultColumns)
  | insertFinding (resultId : Nat) (columns : FindingColumns)
  | selectResults (sessionId : String)
  | selectFindings (resultId : Nat)

@[reducible] def Answer : Statement → Type
  | .insertResult _ => Nat
  | .insertFinding _ _ => Unit
  | .selectResults _ => List ResultRow
  | .selectFindings _ => List FindingRow

def sessionRows (db : Db) (sessionId : String) : List ResultRow := db.results.filter fun row => row.sessionId == sessionId

def findingRows (db : Db) (resultId : Nat) : List FindingRow := db.findings.filter fun row => row.resultId == resultId

/-- The engine, which may check foreign keys. A finding's result has got its id. -/
def exec (e : Engine) (enforce : Bool) : (q : Statement) → Db → Except String (Answer q × Db)
  | .insertResult columns, db =>
    if enforce && !db.sessions.contains columns.sessionId then .error "FOREIGN KEY constraint failed"
    else .ok (db.resultSequence + 1, db.addResult columns)
  | .insertFinding resultId columns, db =>
    if enforce && !(db.results.any fun row => row.id == resultId) then .error "FOREIGN KEY constraint failed"
    else if h : resultId ≤ db.resultSequence then .ok ((), db.addFinding resultId columns h)
    else .error "FOREIGN KEY constraint failed"
  | .selectResults sessionId, db => .ok (e.rows ResultRow.id (sessionRows db sessionId), db)
  | .selectFindings resultId, db => .ok (e.rows FindingRow.id (findingRows db resultId), db)

/-! ## Storing -/

abbrev Conn (α : Type) : Type := Prog String Answer α

def execute (q : Statement) : ExceptT HardeningError Conn (Answer q) := statement HardeningError.database q

def resultColumns (sessionId : String) (result : ScanResult) : ResultColumns where
  sessionId := sessionId
  pluginId := result.scanPluginId.value
  success := result.scanSuccess
  durationUs := durationColumn result.scanDurationUs
  errorMessage := result.scanError
  uncheckedJson := if result.scanUnchecked.isEmpty then none else some (Json.arr (result.scanUnchecked.map uncheckedJson)).text
  skippedReason := result.scanSkipped.map fun reason => (Json.str (skipReasonName reason)).text

def findingColumns (finding : Finding) : FindingColumns where
  findingId := finding.findingId
  category := categoryToStr finding.findingCategory
  severity := severityToStr finding.findingSeverity
  title := finding.findingTitle
  description := finding.findingDescription
  explanation := finding.findingExplanation
  impact := finding.findingImpact
  currentValue := finding.findingCurrentValue
  recommendedValue := finding.findingRecommendedValue
  remediationSteps := (stepsJson finding.findingRemediationSteps).text
  complianceMappings := (mappingsJson finding.findingCompliance).text
  policyException := (exceptionColumns finding.findingException).1
  exceptionKey := finding.findingExceptionKey
  exceptionDeclined := (exceptionColumns finding.findingException).2

def storeFindings (resultId : Nat) : List Finding → ExceptT HardeningError Conn Unit
  | [] => pure ()
  | finding :: rest => do
    execute (.insertFinding resultId (findingColumns finding))
    storeFindings resultId rest

def storeEach (sessionId : String) : List ScanResult → ExceptT HardeningError Conn Unit
  | [] => pure ()
  | result :: rest => do
    let resultId ← execute (.insertResult (resultColumns sessionId result))
    storeFindings resultId result.scanFindings
    storeEach sessionId rest

def storeResults (sessionId : String) (results : List ScanResult) : ExceptT HardeningError Conn Unit :=
  transaction HardeningError.database (storeEach sessionId results)

/-! ## Reading -/

section

variable (reader : JsonReader)

/-- A column that does not read back is named, with its result. -/
def corrupted {α : Type} (what : String) (resultId : Nat) : Except String α → Except HardeningError α :=
  Except.mapError fun e => .database ("Corrupted " ++ what ++ " for result " ++ toString resultId ++ ": " ++ e)

def readFinding (resultId : Nat) (row : FindingRow) : Except HardeningError Finding := do
  let remediationSteps ← corrupted "remediation_steps JSON" resultId (reader.parse stepsOf row.remediationSteps)
  let compliance ← corrupted "compliance_mappings JSON" resultId (reader.parse mappingsOf row.complianceMappings)
  let applied ← corrupted "policy_exception JSON" resultId (parseOptional reader policyExceptionOf row.policyException)
  let declined ← corrupted "exception_declined JSON" resultId (parseOptional reader declinedOf row.exceptionDeclined)
  pure {
    findingId := row.findingId
    findingCategory := strToCategory row.category
    findingSeverity := strToSeverity row.severity
    findingTitle := row.title
    findingDescription := row.description
    findingExplanation := row.explanation
    findingImpact := row.impact
    findingCurrentValue := row.currentValue
    findingRecommendedValue := row.recommendedValue
    findingRemediationSteps := remediationSteps
    findingCompliance := compliance
    findingException := exceptionOf declined applied
    findingExceptionKey := row.exceptionKey }

def getResultFindings (resultId : Nat) : ExceptT HardeningError Conn (List Finding) := do
  let rows ← execute (.selectFindings resultId)
  ExceptT.mk (pure (rows.mapM (readFinding reader resultId)))

/-- A row's own columns, once its findings are there. -/
def readColumns (row : ResultRow) (findings : List Finding) : Except HardeningError ScanResult := do
  let unchecked ← corrupted "unchecked_json" row.id (parseOptional reader (Json.itemsOf uncheckedOf) row.uncheckedJson)
  let skipped ← corrupted "skipped_reason" row.id (parseOptional reader skipReasonOf row.skippedReason)
  pure {
    scanPluginId := ⟨row.pluginId⟩
    scanSuccess := row.success
    scanFindings := findings
    scanUnchecked := unchecked.getD []
    scanDurationUs := durationOf row.durationUs
    scanError := row.errorMessage
    scanSkipped := skipped }

def readResult (row : ResultRow) : ExceptT HardeningError Conn ScanResult := do
  let findings ← getResultFindings reader row.id
  ExceptT.mk (pure (readColumns reader row findings))

def readEach : List ResultRow → ExceptT HardeningError Conn (List ScanResult)
  | [] => pure []
  | row :: rest => do
    let result ← readResult reader row
    let results ← readEach rest
    pure (result :: results)

def getSessionResults (sessionId : String) : ExceptT HardeningError Conn (List ScanResult) := do
  let rows ← execute (.selectResults sessionId)
  readEach reader rows

end

/-! ## What the columns give back -/

section

variable (reader : JsonReader)

@[simp] theorem corrupted_ok {α : Type} (what : String) (id : Nat) (a : α) : corrupted what id (.ok a) = .ok a := rfl

/-- A finding comes back from its columns. -/
theorem readFinding_of_columns {row : FindingRow} {finding : Finding} (id : Nat)
    (h : row.toFindingColumns = findingColumns finding) : readFinding reader id row = .ok finding := by
  obtain ⟨columns, rowId, resultId⟩ := row
  obtain rfl : columns = findingColumns finding := h
  obtain ⟨declined, applied, hdeclined, happlied, houtcome⟩ := exceptionOf_columns reader finding.findingException
  simp only [readFinding, findingColumns, parse_steps, parse_mappings, hdeclined, happlied, corrupted_ok,
    strToCategory_categoryToStr, strToSeverity_severityToStr]
  simp only [bind, Except.bind, houtcome]
  rfl

theorem mapM_readFinding {rows : List FindingRow} {findings : List Finding} (id : Nat)
    (h : rows.map FindingRow.toFindingColumns = findings.map findingColumns) :
    rows.mapM (readFinding reader id) = .ok findings := by
  induction rows generalizing findings with
  | nil =>
    obtain rfl : findings = [] := by simpa using h.symm
    rfl
  | cons row rows ih =>
    cases findings with
    | nil => simp at h
    | cons finding findings =>
      obtain ⟨hrow, hrows⟩ := List.cons.inj h
      rw [List.mapM_cons, readFinding_of_columns reader id hrow, ih hrows]
      rfl

/-- The rest of a result comes back from its columns. -/
theorem readColumns_of_columns (sessionId : String) (result : ScanResult) (id : Nat) :
    readColumns reader ⟨resultColumns sessionId result, id⟩ result.scanFindings = .ok result := by
  have hunchecked : ∃ unchecked, parseOptional reader (Json.itemsOf uncheckedOf) (resultColumns sessionId result).uncheckedJson =
      .ok unchecked ∧ unchecked.getD [] = result.scanUnchecked := by
    by_cases h : result.scanUnchecked.isEmpty
    · refine ⟨none, by simp [resultColumns, h, parseOptional], ?_⟩
      simpa using h
    · refine ⟨some result.scanUnchecked, ?_, rfl⟩
      have hread : reader.parse (Json.itemsOf uncheckedOf) (Json.arr (result.scanUnchecked.map uncheckedJson)).text =
          .ok result.scanUnchecked := reader.parse_text (Json.items_map uncheckedOf_uncheckedJson _)
      simp [resultColumns, h, parseOptional, hread, Except.map]
  have hskipped : parseOptional reader skipReasonOf (resultColumns sessionId result).skippedReason = .ok result.scanSkipped := by
    cases h : result.scanSkipped with
    | none => simp [resultColumns, h, parseOptional]
    | some reason => simp [resultColumns, h, parseOptional, reader.parse_text (skipReasonOf_name reason), Except.map]
  obtain ⟨unchecked, hparse, hsame⟩ := hunchecked
  simp only [readColumns, hparse, hskipped, corrupted_ok]
  change Except.ok (_ : ScanResult) = _
  simp [resultColumns, hsame]

/-! ## Reading a session -/

/-- What a row gives, from the tables. -/
def readRow (e : Engine) (db : Db) (row : ResultRow) : Except HardeningError ScanResult := do
  let findings ← (e.rows FindingRow.id (findingRows db row.id)).mapM (readFinding reader row.id)
  readColumns reader row findings

/-- What a session gives, from the tables. -/
def readSession (e : Engine) (db : Db) (sessionId : String) : Except HardeningError (List ScanResult) :=
  (e.rows ResultRow.id (sessionRows db sessionId)).mapM (readRow reader e db)

variable {e : Engine} {enforce : Bool} {nothingOpen alreadyOpen : String}

theorem runAlone_readResult (db : Db) (row : ResultRow) :
    runAlone (exec e enforce) nothingOpen alreadyOpen (readResult reader row).run none db = (readRow reader e db row, none, db) := by
  have hfindings : runAlone (exec e enforce) nothingOpen alreadyOpen (getResultFindings reader row.id).run none db =
      ((e.rows FindingRow.id (findingRows db row.id)).mapM (readFinding reader row.id), none, db) := by
    unfold getResultFindings
    rw [execute, runAlone_bind_ok (runAlone_outside rfl)]
    rfl
  unfold readResult readRow
  cases h : (e.rows FindingRow.id (findingRows db row.id)).mapM (readFinding reader row.id) with
  | ok findings =>
    rw [h] at hfindings
    rw [runAlone_bind_ok hfindings]
    rfl
  | error err =>
    rw [h] at hfindings
    rw [runAlone_bind_error hfindings]
    rfl

theorem runAlone_readEach (db : Db) (rows : List ResultRow) :
    runAlone (exec e enforce) nothingOpen alreadyOpen (readEach reader rows).run none db =
      (rows.mapM (readRow reader e db), none, db) := by
  induction rows with
  | nil => rfl
  | cons row rest ih =>
    have hrow : runAlone (exec e enforce) nothingOpen alreadyOpen (readResult reader row).run none db =
        (readRow reader e db row, none, db) := runAlone_readResult reader db row
    rw [List.mapM_cons]
    unfold readEach
    cases h : readRow reader e db row with
    | error err =>
      rw [h] at hrow
      rw [runAlone_bind_error hrow]
      rfl
    | ok result =>
      rw [h] at hrow
      rw [runAlone_bind_ok hrow]
      cases hrest : rest.mapM (readRow reader e db) with
      | error err =>
        rw [hrest] at ih
        rw [runAlone_bind_error ih]
        rfl
      | ok results =>
        rw [hrest] at ih
        rw [runAlone_bind_ok ih]
        rfl

/-- Reading a session that nothing refuses. -/
theorem runAlone_getSessionResults (db : Db) (sessionId : String) :
    runAlone (exec e enforce) nothingOpen alreadyOpen (getSessionResults reader sessionId).run none db =
      (readSession reader e db sessionId, none, db) := by
  unfold getSessionResults
  rw [execute, runAlone_bind_ok (runAlone_outside rfl)]
  exact runAlone_readEach reader db _

end

/-! ## An engine that goes forward -/

theorem Engine.Forward.rows_eq {e : Engine} (he : e.Forward) {Row : Type} {id : Row → Nat} {rows : List Row}
    (h : (rows.map id).Pairwise (· < ·)) : e.rows id rows = rows := by
  have hnodup : (rows.map id).Nodup := h.imp fun hlt => Nat.ne_of_lt hlt
  have hfind : ∀ row ∈ rows, rows.find? (fun r => id r == id row) = some row := by
    intro row hrow
    cases hfound : rows.find? (fun r => id r == id row) with
    | none => simpa using List.find?_eq_none.mp hfound row hrow
    | some r =>
      have hid : id r = id row := by simpa using List.find?_some hfound
      rw [List.inj_on_of_nodup_map hnodup (List.mem_of_find?_eq_some hfound) hrow hid]
  unfold Engine.rows
  rw [he _ h, List.filterMap_map]
  calc rows.filterMap ((fun i => rows.find? fun row => id row == i) ∘ id)
      = rows.filterMap some := List.filterMap_congr fun row hrow => hfind row hrow
    _ = rows := List.filterMap_some

theorem Engine.Forward.sessionRows {e : Engine} (he : e.Forward) (db : Db) (sessionId : String) :
    e.rows ResultRow.id (sessionRows db sessionId) = ScanHistory.sessionRows db sessionId :=
  he.rows_eq (db.results_ascend.sublist (List.filter_sublist.map _))

theorem Engine.Forward.findingRows {e : Engine} (he : e.Forward) (db : Db) (resultId : Nat) :
    e.rows FindingRow.id (findingRows db resultId) = ScanHistory.findingRows db resultId :=
  he.rows_eq (db.findings_ascend.sublist (List.filter_sublist.map _))

/-! ## Storing, wherever it is refused -/

/-- The tables after some findings of a result were added. -/
structure Adding (db : Db) (resultId : Nat) (findings : List Finding) (db' : Db) : Prop where
  results : db'.results = db.results
  sequence : db'.resultSequence = db.resultSequence
  sessions : db'.sessions = db.sessions
  others : ∀ j, j ≠ resultId → findingRows db' j = findingRows db j
  own : (findingRows db' resultId).map FindingRow.toFindingColumns =
    (findingRows db resultId).map FindingRow.toFindingColumns ++ findings.map findingColumns

theorem Adding.nil (db : Db) (resultId : Nat) : Adding db resultId [] db := ⟨rfl, rfl, rfl, fun _ _ => rfl, by simp⟩

theorem Adding.trans {db db' db'' : Db} {resultId : Nat} {fs gs : List Finding} (h : Adding db resultId fs db')
    (h' : Adding db' resultId gs db'') : Adding db resultId (fs ++ gs) db'' where
  results := h'.results.trans h.results
  sequence := h'.sequence.trans h.sequence
  sessions := h'.sessions.trans h.sessions
  others j hj := (h'.others j hj).trans (h.others j hj)
  own := by rw [h'.own, h.own, List.map_append, List.append_assoc]

theorem adding_one (db : Db) (resultId : Nat) (finding : Finding) (h : resultId ≤ db.resultSequence) :
    Adding db resultId [finding] (db.addFinding resultId (findingColumns finding) h) where
  results := rfl
  sequence := rfl
  sessions := rfl
  others j hj := by simp [findingRows, Db.addFinding, Ne.symm hj]
  own := by simp [findingRows, Db.addFinding]

theorem exec_insertResult (e : Engine) (enforce : Bool) (columns : ResultColumns) (db : Db) :
    exec e enforce (.insertResult columns) db =
      if enforce && !db.sessions.contains columns.sessionId then .error "FOREIGN KEY constraint failed"
      else .ok (db.resultSequence + 1, db.addResult columns) := rfl

theorem exec_insertFinding (e : Engine) (enforce : Bool) (resultId : Nat) (columns : FindingColumns) (db : Db) :
    exec e enforce (.insertFinding resultId columns) db =
      if enforce && !(db.results.any fun row => row.id == resultId) then .error "FOREIGN KEY constraint failed"
      else if h : resultId ≤ db.resultSequence then .ok ((), db.addFinding resultId columns h)
      else .error "FOREIGN KEY constraint failed" := rfl

theorem exec_insertFinding_ok {e : Engine} {enforce : Bool} {db db' : Db} {resultId : Nat} {finding : Finding} {a : Unit}
    (h : exec e enforce (.insertFinding resultId (findingColumns finding)) db = .ok (a, db')) :
    Adding db resultId [finding] db' := by
  rw [exec_insertFinding] at h
  split_ifs at h with hfk hle
  rw [← (Prod.mk.inj (Except.ok.inj h)).2]
  exact adding_one db resultId finding hle

section

variable {e : Engine} {enforce : Bool} (reader : JsonReader)

theorem keeps_storeFindings {R G : Db → Db → Prop} (hreg : Regular R G) (resultId : Nat) (t : Db) {db₀ : Db}
    (findings : List Finding) {done : List Finding} {w : Db} (hw : Adding db₀ resultId done w) :
    Keeps (exec e enforce) R G (Inside R t fun _ w' => Adding db₀ resultId (done ++ findings) w')
      (storeFindings resultId findings).run (some w) t := by
  induction findings generalizing done w with
  | nil =>
    rw [List.append_nil]
    exact keeps_pure_inside hw
  | cons finding rest ih =>
    refine Keeps.insideBind hreg (P := fun _ w' => Adding db₀ resultId (done ++ [finding]) w') ?_ fun _ w' hw' => ?_
    · exact keeps_statement_inside hreg fun a w' h => hw.trans (exec_insertFinding_ok h)
    · rw [List.append_cons]
      exact ih hw'

/-- A result with its findings stands behind what the session gave before. -/
theorem readSession_add (he : e.Forward) {db db' : Db} {sessionId : String} {result : ScanResult} {before : List ScanResult}
    (hbefore : readSession reader e db sessionId = .ok before)
    (h : Adding (db.addResult (resultColumns sessionId result)) (db.resultSequence + 1) result.scanFindings db') :
    readSession reader e db' sessionId = .ok (before ++ [result]) := by
  have hrows : sessionRows db' sessionId = sessionRows db sessionId ++ [⟨resultColumns sessionId result, db.resultSequence + 1⟩] := by
    unfold sessionRows
    rw [h.results]
    simp [Db.addResult, resultColumns]
  have hold : ∀ row ∈ sessionRows db sessionId, readRow reader e db' row = readRow reader e db row := by
    intro row hrow
    have hle := db.results_le row (List.mem_filter.mp hrow).1
    have hne : row.id ≠ db.resultSequence + 1 := by omega
    have hsame : findingRows db' row.id = findingRows db row.id := h.others row.id hne
    unfold readRow
    rw [hsame]
  have hnew : readRow reader e db' ⟨resultColumns sessionId result, db.resultSequence + 1⟩ = .ok result := by
    have hnone : findingRows db (db.resultSequence + 1) = [] := by
      refine List.filter_eq_nil_iff.mpr fun row hrow => ?_
      have hle := db.findings_owned row hrow
      have hne : row.resultId ≠ db.resultSequence + 1 := by omega
      simpa using hne
    have hown : (findingRows db' (db.resultSequence + 1)).map FindingRow.toFindingColumns =
        result.scanFindings.map findingColumns := by
      have := h.own
      rwa [show findingRows (db.addResult (resultColumns sessionId result)) (db.resultSequence + 1) = [] from hnone,
        List.map_nil, List.nil_append] at this
    unfold readRow
    rw [he.findingRows, mapM_readFinding reader _ hown]
    exact readColumns_of_columns reader sessionId result _
  unfold readSession at hbefore ⊢
  rw [he.sessionRows] at hbefore ⊢
  have hmap : (sessionRows db sessionId).mapM (readRow reader e db') = (sessionRows db sessionId).mapM (readRow reader e db) := by
    revert hold
    generalize sessionRows db sessionId = rows
    intro hold
    induction rows with
    | nil => rfl
    | cons row rows ih =>
      rw [List.mapM_cons, List.mapM_cons, hold row (.head _), ih fun r hr => hold r (.tail _ hr)]
  rw [hrows, List.mapM_append, hmap, hbefore, List.mapM_cons, hnew]
  rfl

theorem keeps_storeEach {R G : Db → Db → Prop} (hreg : Regular R G) (he : e.Forward) (sessionId : String) (t : Db)
    (results : List ScanResult) {before : List ScanResult} {w : Db} (hw : readSession reader e w sessionId = .ok before) :
    Keeps (exec e enforce) R G (Inside R t fun _ w' => readSession reader e w' sessionId = .ok (before ++ results))
      (storeEach sessionId results).run (some w) t := by
  induction results generalizing before w with
  | nil =>
    rw [List.append_nil]
    exact keeps_pure_inside hw
  | cons result rest ih =>
    refine Keeps.insideBind hreg
      (P := fun id w' => id = w.resultSequence + 1 ∧ w' = w.addResult (resultColumns sessionId result)) ?_ ?_
    · refine keeps_statement_inside hreg fun id w' h => ?_
      rw [exec_insertResult] at h
      split_ifs at h
      exact ⟨(Prod.mk.inj (Except.ok.inj h)).1.symm, (Prod.mk.inj (Except.ok.inj h)).2.symm⟩
    rintro _ _ ⟨rfl, rfl⟩
    refine Keeps.insideBind hreg (keeps_storeFindings hreg _ t result.scanFindings (Adding.nil _ _)) fun _ w' hw' => ?_
    rw [List.append_cons]
    exact ih (readSession_add reader he hw hw')

/-- After storing the session gives the results behind what it gave before, or nothing
was stored. -/
def Stored (e : Engine) (sessionId : String) (before results : List ScanResult) (db : Db) :
    Except HardeningError Unit → Db → Prop
  | .ok _, db' => readSession reader e db' sessionId = .ok (before ++ results)
  | .error _, db' => db' = db

theorem keeps_storeResults (he : e.Forward) {sessionId : String} (results : List ScanResult) {before : List ScanResult} {db : Db}
    (hdb : readSession reader e db sessionId = .ok before) :
    Keeps (exec e enforce) (fun s s' => s' = s) (fun _ _ => True)
      (fun r m db' => m = none ∧ Stored reader e sessionId before results db r db') (storeResults sessionId results).run none db := by
  have hreg : Regular (fun s s' : Db => s' = s) fun _ _ => True := regular_eq fun _ => trivial
  refine keeps_transaction hreg (Stored reader e sessionId before results db) ?_ fun _ _ h => h
  rintro t rfl
  refine (keeps_storeEach reader hreg he sessionId t results hdb).insideMono fun _ w hw => ⟨trivial, ?_⟩
  rintro v rfl
  exact hw

/-! ## A store that nothing refuses -/

variable {nothingOpen alreadyOpen : String}

theorem runAlone_storeFindings {db w : Db} {resultId : Nat} (hle : resultId ≤ w.resultSequence)
    (hrow : (w.results.any fun row => row.id == resultId) = true) (findings : List Finding) :
    ∃ w', runAlone (exec e enforce) nothingOpen alreadyOpen (storeFindings resultId findings).run (some w) db = (.ok (), some w', db) ∧
      w'.results = w.results ∧ w'.resultSequence = w.resultSequence ∧ w'.sessions = w.sessions := by
  induction findings generalizing w with
  | nil => exact ⟨w, rfl, rfl, rfl, rfl⟩
  | cons finding rest ih =>
    have hexec : exec e enforce (.insertFinding resultId (findingColumns finding)) w =
        .ok ((), w.addFinding resultId (findingColumns finding) hle) := by
      rw [exec_insertFinding, hrow, dif_pos hle]
      simp
    obtain ⟨w', hrun, hresults, hsequence, hsessions⟩ := ih (w := w.addFinding resultId (findingColumns finding) hle) hle hrow
    refine ⟨w', ?_, hresults, hsequence, hsessions⟩
    unfold storeFindings
    rw [execute, runAlone_bind_ok (runAlone_inside hexec)]
    exact hrun

/-- Storing succeeds for a session that is there. -/
theorem runAlone_storeResults {db : Db} {sessionId : String} (hsession : db.sessions.contains sessionId = true)
    (results : List ScanResult) : ∃ db',
      runAlone (exec e enforce) nothingOpen alreadyOpen (storeResults sessionId results).run none db = (.ok (), none, db') := by
  have heach : ∀ w : Db, w.sessions.contains sessionId = true → ∃ w',
      runAlone (exec e enforce) nothingOpen alreadyOpen (storeEach sessionId results).run (some w) db = (.ok (), some w', db) := by
    induction results with
    | nil => exact fun w _ => ⟨w, rfl⟩
    | cons result rest ih =>
      intro w hw
      have hexec : exec e enforce (.insertResult (resultColumns sessionId result)) w =
          .ok (w.resultSequence + 1, w.addResult (resultColumns sessionId result)) := by
        have hsession' : w.sessions.contains (resultColumns sessionId result).sessionId = true := hw
        rw [exec_insertResult, hsession']
        simp
      have hrow : ((w.addResult (resultColumns sessionId result)).results.any fun row => row.id == w.resultSequence + 1) = true := by
        simp [Db.addResult]
      have hle : w.resultSequence + 1 ≤ (w.addResult (resultColumns sessionId result)).resultSequence := le_rfl
      obtain ⟨w₁, hrun, _, _, hsessions⟩ := runAlone_storeFindings hle hrow result.scanFindings
      obtain ⟨w₂, hrest⟩ := ih w₁ (by rw [hsessions]; exact hw)
      refine ⟨w₂, ?_⟩
      unfold storeEach
      rw [execute, runAlone_bind_ok (runAlone_inside hexec), runAlone_bind_ok hrun]
      exact hrest
  obtain ⟨w, hw⟩ := heach db hsession
  exact ⟨w, runAlone_transaction hw⟩

/-- What is stored comes back. -/
theorem stored_results_read_back (he : e.Forward) {sessionId : String} {results before : List ScanResult} {db db' : Db}
    {m : Option Db}
    (hbefore : (runAlone (exec e enforce) nothingOpen alreadyOpen (getSessionResults reader sessionId).run none db).1 = .ok before)
    (hstore : Solo (exec e enforce) (storeResults sessionId results).run none db (.ok ()) m db') :
    (runAlone (exec e enforce) nothingOpen alreadyOpen (getSessionResults reader sessionId).run none db').1 =
      .ok (before ++ results) := by
  rw [runAlone_getSessionResults] at hbefore ⊢
  exact (hstore.keeps (keeps_storeResults reader he results hbefore) fun _ => trivial).1.2

/-- An engine that goes forward. -/
def Engine.forward : Engine := ⟨fun ids => ids, fun ids => .refl ids⟩

/-- A live finding, one excused by an exception, one whose exception has expired, and a
plugin that was not asked, with the longest duration there is. -/
def sample : List ScanResult :=
  let finding : Finding := {
    findingCategory := .kernel, findingCurrentValue := "0", findingDescription := "", findingExplanation := "a \"b\"\n",
    findingId := "kernel_rp_filter", findingImpact := "", findingRecommendedValue := "1", findingRemediationSteps := ["sysctl -w"],
    findingSeverity := .high, findingTitle := "rp_filter", findingCompliance := [⟨.cis, "3.3.7", "rp_filter", none⟩],
    findingException := .notConfigured, findingExceptionKey := some "net.ipv4.conf.all.rp_filter" }
  [{ scanPluginId := ⟨"kernel-hardening"⟩, scanSuccess := true,
     scanFindings := [finding,
       { finding with findingException := .applied ⟨"0".toList, [], none, none, some [], none, false⟩ },
       { finding with findingException := .declined ⟨.expired "2024-01-01".toList, "router".toList⟩ }],
     scanUnchecked := [⟨"kernel_x", "x", .kernel, "no such file", .environment, []⟩],
     scanDurationUs := 0xffffffffffffffff, scanError := none, scanSkipped := none },
   { scanPluginId := ⟨"mac-hardening"⟩, scanSuccess := false, scanFindings := [], scanUnchecked := [], scanDurationUs := 0,
     scanError := some "", scanSkipped := some .disabledByConfig }]

theorem stored_results_read_back_sample : ∃ db',
    runAlone (exec .forward true) "" "" (storeResults "scan_1" sample).run none (.empty ["scan_1"]) = (.ok (), none, db') ∧
      (runAlone (exec .forward true) "" "" (getSessionResults .compact "scan_1").run none db').1 = .ok sample := by
  obtain ⟨db', hstore⟩ : ∃ db', runAlone (exec .forward true) "" "" (storeResults "scan_1" sample).run none (.empty ["scan_1"]) =
      (.ok (), none, db') := runAlone_storeResults (by decide) sample
  have hsolo : Solo (exec .forward true) (storeResults "scan_1" sample).run none (.empty ["scan_1"]) _ _ _ := solo_runAlone "" "" _ _ _
  rw [hstore] at hsolo
  exact ⟨db', hstore, stored_results_read_back .compact (fun _ _ => rfl) rfl hsolo⟩

end

end LinuxHardener.State.ScanHistory
