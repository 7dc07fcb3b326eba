import LinuxHardener.Core.Plugin

/-
  The scan history: the two tables a scan leaves its results in, and the statements
  that are run on them.

  Rows stand in the order of their rowid. The ids are a primary key and a finding's
  session is a foreign key: both are carried by `Db`. A statement that fails has no
  effect; one that succeeds has the effect given here.

  Correspondence (Rust ↔ Lean):
    `ScanSession`, `ScanFinding`, `SeverityCounts` ↔ the structures of these names
    `SeverityCounts::from_findings`       ↔ `SeverityCounts.fromFindings`
    `create_session_started_at`           ↔ `Db.createSession`
    `complete_session`, its two statements ↔ `Db.completeRow`, `Db.insertFinding`
    `fail_session`                        ↔ `Db.failSession`
    `get_session`, `get_findings`         ↔ `Db.getSession`, `Db.getFindings`
-/
namespace LinuxHardener.Scheduler

open LineText (Chars)
open Compliance (PluginId)
open Core (Severity)

/-! ## Rows -/

structure ScanFinding where
  pluginId : PluginId
  findingId : String
  severity : Chars
  title : Chars
  description : Option Chars
  currentValue : Option Chars
  recommendedValue : Option Chars
  category : Option Chars
  complianceMappings : Option (List Chars)
  deriving DecidableEq, Repr

inductive SessionStatus where
  | running
  | completed
  | failed
  deriving DecidableEq, Repr

structure SeverityCounts where
  total : Nat
  critical : Nat
  high : Nat
  medium : Nat
  low : Nat
  info : Nat
  deriving DecidableEq, Repr

structure ScanSession where
  id : String
  startedAt : Int
  completedAt : Option Int
  status : SessionStatus
  triggerType : Chars
  hostIdentifier : Chars
  pluginsScanned : List PluginId
  totalFindings : Int
  criticalCount : Int
  highCount : Int
  mediumCount : Int
  lowCount : Int
  infoCount : Int
  errorMessage : Option Chars
  jsonFilePath : Option Chars
  hash : Option Chars
  deriving DecidableEq, Repr

/-- A row as it is inserted. -/
def ScanSession.opened (id : String) (triggerType host : Chars) (plugins : List PluginId) (startedAt : Int) : ScanSession where
  id := id
  startedAt := startedAt
  completedAt := none
  status := .running
  triggerType := triggerType
  hostIdentifier := host
  pluginsScanned := plugins
  totalFindings := 0
  criticalCount := 0
  highCount := 0
  mediumCount := 0
  lowCount := 0
  infoCount := 0
  errorMessage := none
  jsonFilePath := none
  hash := none

/-! ## Counts -/

/-- The severity a text is counted under: what is none of the four counts as information. -/
def countedAs (severity : Chars) : Severity :=
  let lower := severity.map Char.toLower
  if lower = "critical".toList then .critical
  else if lower = "high".toList then .high
  else if lower = "medium".toList then .medium
  else if lower = "low".toList then .low
  else .info

def countOf (findings : List ScanFinding) (s : Severity) : Nat := findings.countP fun f => countedAs f.severity == s

def SeverityCounts.fromFindings (findings : List ScanFinding) : SeverityCounts where
  total := findings.length
  critical := countOf findings .critical
  high := countOf findings .high
  medium := countOf findings .medium
  low := countOf findings .low
  info := countOf findings .info

/-- A count in a column of 32 bits: `as i32`. -/
def asI32 (n : Nat) : Int := (BitVec.ofNat 32 n).toInt

theorem asI32_eq {n : Nat} (h : n < 2 ^ 31) : asI32 n = n := by
  unfold asI32
  rw [BitVec.toInt_ofNat', Int.bmod_eq_of_le] <;> omega

theorem asI32_lt (n : Nat) : asI32 n < 2 ^ 31 := by
  unfold asI32
  have := @BitVec.toInt_lt 32 (BitVec.ofNat 32 n)
  omega

/-! ## The tables -/

structure Db where
  sessions : List ScanSession
  findings : List (String × ScanFinding)
  nodup : (sessions.map ScanSession.id).Nodup
  owned : ∀ f ∈ findings, f.1 ∈ sessions.map ScanSession.id

namespace Db

def empty : Db := ⟨[], [], List.nodup_nil, fun _ h => absurd h List.not_mem_nil⟩

def ids (db : Db) : List String := db.sessions.map ScanSession.id

def getSession (db : Db) (id : String) : Option ScanSession := db.sessions.find? fun s => s.id == id

def getFindings (db : Db) (id : String) : List ScanFinding := (db.findings.filter fun f => f.1 == id).map Prod.snd

/-- An insert under an id that is taken is refused. -/
def createSession (db : Db) (session : ScanSession) : Db :=
  if h : session.id ∈ db.ids then db
  else
    { sessions := db.sessions ++ [session]
      findings := db.findings
      nodup := by
        rw [List.map_append]
        exact db.nodup.append (List.nodup_singleton _) (by simpa [ids] using h)
      owned := fun f hf => by
        rw [List.map_append]
        exact List.mem_append_left _ (db.owned f hf) }

/-- An update of one row that keeps its id. -/
def update (db : Db) (id : String) (change : ScanSession → ScanSession) (hchange : ∀ s, (change s).id = s.id) : Db :=
  have hids : (db.sessions.map fun s => if s.id == id then change s else s).map ScanSession.id =
      db.sessions.map ScanSession.id := by
    rw [List.map_map]
    apply List.map_congr_left
    intro s _
    show (if s.id == id then change s else s).id = s.id
    split
    · exact hchange s
    · rfl
  { sessions := db.sessions.map fun s => if s.id == id then change s else s
    findings := db.findings
    nodup := by rw [hids]; exact db.nodup
    owned := by rw [hids]; exact db.owned }

def completed (counts : SeverityCounts) (jsonPath hash : Option Chars) (now : Int) (s : ScanSession) : ScanSession :=
  { s with
    completedAt := some now
    status := .completed
    totalFindings := asI32 counts.total
    criticalCount := asI32 counts.critical
    highCount := asI32 counts.high
    mediumCount := asI32 counts.medium
    lowCount := asI32 counts.low
    infoCount := asI32 counts.info
    jsonFilePath := jsonPath
    hash := hash }

def completeRow (db : Db) (id : String) (counts : SeverityCounts) (jsonPath hash : Option Chars) (now : Int) : Db :=
  db.update id (completed counts jsonPath hash now) fun _ => rfl

def failed (error : Chars) (now : Int) (s : ScanSession) : ScanSession :=
  { s with completedAt := some now, status := .failed, errorMessage := some error }

def failSession (db : Db) (id : String) (error : Chars) (now : Int) : Db := db.update id (failed error now) fun _ => rfl

/-- A finding of no session is refused. -/
def insertFinding (db : Db) (id : String) (finding : ScanFinding) : Db :=
  if h : id ∈ db.ids then
    { sessions := db.sessions
      findings := db.findings ++ [(id, finding)]
      nodup := db.nodup
      owned := fun f hf => by
        rcases List.mem_append.mp hf with hf | hf
        · exact db.owned f hf
        · rw [List.mem_singleton.mp hf]
          exact h }
  else db

/-! ## What the statements do to a row -/

variable {db : Db} {id : String}

theorem getSession_eq_none (h : id ∉ db.ids) : db.getSession id = none := by
  apply List.find?_eq_none.mpr
  intro s hs heq
  exact h (List.mem_map.mpr ⟨s, hs, beq_iff_eq.mp heq⟩)

theorem getFindings_eq_nil (h : id ∉ db.ids) : db.getFindings id = [] := by
  unfold getFindings
  rw [List.map_eq_nil_iff, List.filter_eq_nil_iff]
  intro f hf heq
  exact h (beq_iff_eq.mp heq ▸ db.owned f hf)

theorem getSession_createSession {session : ScanSession} (h : session.id ∉ db.ids) :
    (db.createSession session).getSession session.id = some session := by
  have hnone : db.sessions.find? (fun s => s.id == session.id) = none := getSession_eq_none h
  unfold createSession
  rw [dif_neg h]
  show (db.sessions ++ [session]).find? _ = _
  rw [List.find?_append, hnone]
  simp

theorem getSession_createSession_of_some {row : ScanSession} (hget : db.getSession id = some row) (session : ScanSession) :
    (db.createSession session).getSession id = some row := by
  unfold createSession
  split
  · exact hget
  · show (db.sessions ++ [session]).find? _ = _
    have hfind : db.sessions.find? (fun s => s.id == id) = some row := hget
    rw [List.find?_append, hfind]
    rfl

theorem getFindings_createSession (session : ScanSession) : (db.createSession session).getFindings id = db.getFindings id := by
  unfold createSession
  split <;> rfl

theorem getSession_update {change : ScanSession → ScanSession} (hchange : ∀ s, (change s).id = s.id) :
    (db.update id change hchange).getSession id = (db.getSession id).map change := by
  show (db.sessions.map fun s => if s.id == id then change s else s).find? _ = _
  rw [List.find?_map]
  have hsame : ((fun s : ScanSession => s.id == id) ∘ fun s => if s.id == id then change s else s) = fun s => s.id == id := by
    funext s
    show ((if s.id == id then change s else s).id == id) = _
    split
    · rw [hchange]
    · rfl
  rw [hsame]
  show (db.getSession id).map _ = _
  cases hget : db.getSession id with
  | none => rfl
  | some s =>
    have hid : (s.id == id) = true := List.find?_some (p := fun s : ScanSession => s.id == id) hget
    show some (if s.id == id then change s else s) = some (change s)
    rw [if_pos hid]

theorem getSession_failSession (error : Chars) (now : Int) :
    (db.failSession id error now).getSession id = (db.getSession id).map (failed error now) := getSession_update _

theorem getSession_completeRow (counts : SeverityCounts) (jsonPath hash : Option Chars) (now : Int) :
    (db.completeRow id counts jsonPath hash now).getSession id = (db.getSession id).map (completed counts jsonPath hash now) :=
  getSession_update _

theorem getSession_update_ne {change : ScanSession → ScanSession} (hchange : ∀ s, (change s).id = s.id) {other : String}
    (h : other ≠ id) : (db.update other change hchange).getSession id = db.getSession id := by
  show (db.sessions.map fun s => if s.id == other then change s else s).find? _ = db.sessions.find? _
  induction db.sessions with
  | nil => rfl
  | cons s sessions ih =>
    rw [List.map_cons, List.find?_cons, List.find?_cons, ih]
    by_cases hs : s.id = other
    · have hmiss : (s.id == id) = false := by simpa [hs] using h
      have hmiss' : ((change s).id == id) = false := by rw [hchange, hmiss]
      rw [if_pos (beq_iff_eq.mpr hs), hmiss, hmiss']
    · rw [if_neg (by simpa using hs)]

theorem getSession_insertFinding (other : String) (finding : ScanFinding) :
    (db.insertFinding id finding).getSession other = db.getSession other := by
  unfold insertFinding
  split <;> rfl

theorem ids_insertFinding (finding : ScanFinding) : (db.insertFinding id finding).ids = db.ids := by
  unfold insertFinding
  split <;> rfl

theorem getFindings_insertFinding (h : id ∈ db.ids) (finding : ScanFinding) :
    (db.insertFinding id finding).getFindings id = db.getFindings id ++ [finding] := by
  unfold insertFinding
  rw [dif_pos h]
  show ((db.findings ++ [(id, finding)]).filter fun f => f.1 == id).map Prod.snd = _
  rw [List.filter_append, List.map_append]
  simp [getFindings]

theorem mem_ids_iff : id ∈ db.ids ↔ ∃ s, db.getSession id = some s := by
  constructor
  · intro h
    obtain ⟨s, hs, hid⟩ := List.mem_map.mp h
    exact Option.isSome_iff_exists.mp (List.find?_isSome.mpr ⟨s, hs, beq_iff_eq.mpr hid⟩)
  · intro h
    by_contra hnot
    obtain ⟨s, hs⟩ := h
    rw [getSession_eq_none hnot] at hs
    cases hs

end Db

end LinuxHardener.Scheduler
