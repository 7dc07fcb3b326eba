import LinuxHardener.Lib.Json
import LinuxHardener.Lib.Lines
import LinuxHardener.Lib.LinkedWords
import LinuxHardener.Lib.Sha256

/-
  The audit log: entries, what each one's hash covers, and the readers of a log
  file.

  JSON is serde_json's: `SerdeJson` is what the code relies on it for. A `&str` is
  its UTF-8 bytes, a log file is its bytes, `none` when there is no file.

  What is proved:
    1. `verifyFrom_eq_true` — the verifier answers true exactly when every line
       parses and the entries chain from where it started (`Chained`).
    2. `query_of_written`, `recoverChain_of_written` — what the readers make of a
       file written line by line, its last newline there or not.

  Correspondence (Rust ↔ Lean):
    `audit::{ActionType, ActionResult, AuditEntry, QueryFilter}` ↔ the types below
    `AuditLogger::hashable`             ↔ `hashable`
    the six-tuple of `log_failure`      ↔ `failureData`
    `HashChain::{next_hash, verify_entry}` ↔ `HashChain.nextHash`, `verifyEntry`
    `AuditLogger::{verify_integrity, query, recover_chain}` ↔ `verifyIntegrity`, `query`, `recoverChain`
-/
namespace LinuxHardener.State

open Lines (newline lines fileOf IsLine)

/-! ## Entries -/

inductive ActionType where
  | scan | apply | rollback | configChange | checkpointCreate | checkpointDelete | scopeExclusion
  deriving DecidableEq, Repr

/-- The variant's name, which is how serde writes it. -/
def ActionType.name : ActionType → String
  | .scan => "Scan"
  | .apply => "Apply"
  | .rollback => "Rollback"
  | .configChange => "ConfigChange"
  | .checkpointCreate => "CheckpointCreate"
  | .checkpointDelete => "CheckpointDelete"
  | .scopeExclusion => "ScopeExclusion"

inductive ActionResult where
  | success | failure
  deriving DecidableEq, Repr

def ActionResult.name : ActionResult → String
  | .success => "Success"
  | .failure => "Failure"

theorem ActionType.name_injective {a b : ActionType} (h : a.name = b.name) : a = b := by
  cases a <;> cases b <;> first | rfl | exact absurd h (by decide)

/-- A `DateTime<Utc>`: whole seconds, and the nanoseconds after them. -/
structure Timestamp where
  seconds : Int
  nanos : Nat
  deriving DecidableEq, Repr

def Timestamp.before (t u : Timestamp) : Bool :=
  t.seconds < u.seconds || (t.seconds == u.seconds && t.nanos < u.nanos)

/-- A map from texts to texts, in the order of a `BTreeMap`. -/
structure Details where
  entries : List (String × String)
  sorted : entries.Pairwise (fun a b => utf8 a.1 < utf8 b.1)
  deriving DecidableEq

namespace Details

def empty : Details := ⟨[], List.Pairwise.nil⟩

def single (key value : String) : Details := ⟨[(key, value)], List.pairwise_singleton _ _⟩

def isEmpty (d : Details) : Bool := d.entries.isEmpty

def get (d : Details) (key : String) : Option String := d.entries.lookup key

/-- A map with no key but this one is empty or holds that key alone. -/
theorem eq_of_keys {d : Details} {key : String} (h : ∀ kv ∈ d.entries, kv.1 = key) :
    d = empty ∨ ∃ value, d = single key value := by
  obtain ⟨entries, hs⟩ := d
  cases entries with
  | nil => exact .inl rfl
  | cons kv rest =>
    cases rest with
    | nil =>
      obtain ⟨k, v⟩ := kv
      obtain rfl : k = key := h (k, v) (by simp)
      exact .inr ⟨v, rfl⟩
    | cons kv' rest =>
      -- two entries of one key are not in order
      have hlt : utf8 kv.1 < utf8 kv'.1 := (List.pairwise_cons.mp hs).1 kv' (by simp)
      have h1 : kv.1 = key := h kv (by simp)
      have h2 : kv'.1 = key := h kv' (by simp)
      rw [h1, h2] at hlt
      exact absurd hlt (List.lt_irrefl _)

end Details

structure AuditEntry where
  entryTimestamp : Timestamp
  entryActionType : ActionType
  entryUser : String
  entryTarget : String
  entryResult : ActionResult
  entryDetails : Details
  entryHash : Bytes
  deriving DecidableEq

/-- What the code relies on serde_json for: `toVec` of the tuples it hashes, and the
lines it writes and reads entries as. The first argument of `entryToVec` is the
order in which the entry's hash map is iterated. -/
structure SerdeJson where
  toVec : Json → Bytes
  toVec_injective : ∀ x y, toVec x = toVec y → x = y
  entryToVec : Nat → AuditEntry → Bytes
  fromStr : Bytes → Option AuditEntry
  fromStr_entryToVec : ∀ order e, fromStr (entryToVec order e) = some e
  entryToVec_isLine : ∀ order e, IsLine (entryToVec order e)
  entryToVec_utf8 : ∀ order e, validUtf8 (entryToVec order e) = true

/-! ## What an entry's hash covers -/

section

variable (j : SerdeJson)

/-- The five elements every hashed tuple begins with. -/
def tupleHead (timestamp : Timestamp) (actionType : ActionType) (user target : String)
    (result : ActionResult) : List Json :=
  [.num timestamp.seconds, .str actionType.name, .str user, .str target, .str result.name]

/-- The bytes a success entry hashes over. -/
def hashable (timestamp : Timestamp) (actionType : ActionType) (user target : String)
    (result : ActionResult) (details : Details) : Bytes :=
  let head := tupleHead timestamp actionType user target result
  if details.isEmpty then j.toVec (.arr head)
  else j.toVec (.arr (head ++ [.obj (details.entries.map (fun kv => (kv.1, .str kv.2)))]))

/-- The bytes a failure entry hashes over: a six-tuple that ends in the error. -/
def failureData (timestamp : Timestamp) (actionType : ActionType) (user target error : String) : Bytes :=
  j.toVec (.arr (tupleHead timestamp actionType user target .failure ++ [.str error]))

/-- What the verifier recomputes an entry's hash over; `none` for a failure that
carries a detail other than its error. -/
def serialisedData (e : AuditEntry) : Option Bytes :=
  if e.entryResult = .failure then
    if e.entryDetails.entries.any (fun kv => kv.1 != "error") then none
    else some (failureData j e.entryTimestamp e.entryActionType e.entryUser e.entryTarget
      ((e.entryDetails.get "error").getD ""))
  else some (hashable j e.entryTimestamp e.entryActionType e.entryUser e.entryTarget e.entryResult
    e.entryDetails)

/-- The chain head an instance holds. -/
structure HashChain where
  previousHash : Bytes
  deriving DecidableEq

/-- The genesis chain: 32 zero bytes. -/
def HashChain.new : HashChain := ⟨List.replicate 32 0⟩

def HashChain.nextHash (c : HashChain) (data : Bytes) : Bytes := Sha256.digest (c.previousHash ++ data)

def HashChain.update (_ : HashChain) (hash : Bytes) : HashChain := ⟨hash⟩

def verifyEntry (previousHash data claimedHash : Bytes) : Bool :=
  Sha256.digest (previousHash ++ data) == claimedHash

/-! ## Reading a log -/

/-- Why a log call or a reader fails: the file, a line that is no entry, a result
the writer refuses. -/
inductive AuditError where
  | io | json | validation
  deriving DecidableEq, Repr

/-- One line of a log as the readers parse it. -/
def parseLine (line : Bytes) : Except AuditError AuditEntry :=
  if validUtf8 line then
    match j.fromStr line with
    | some e => .ok e
    | none => .error .json
  else .error .io

/-- The loop of `verify_integrity`. -/
def verifyFrom (previousHash : Bytes) : List Bytes → Except AuditError Bool
  | [] => .ok true
  | line :: rest =>
    match parseLine j line with
    | .error err => .error err
    | .ok e =>
      match serialisedData j e with
      | none => .ok false
      | some data =>
        if verifyEntry previousHash data e.entryHash then verifyFrom e.entryHash rest else .ok false

def verifyIntegrity : Option Bytes → Except AuditError Bool
  | none => .error .io
  | some file => verifyFrom j HashChain.new.previousHash (lines file)

structure QueryFilter where
  filterActionType : Option ActionType
  filterEndTime : Option Timestamp
  filterResult : Option ActionResult
  filterStartTime : Option Timestamp
  filterUser : Option String

/-- The filter that matches every entry. -/
def QueryFilter.new : QueryFilter := ⟨none, none, none, none, none⟩

def QueryFilter.matchesEntry (f : QueryFilter) (e : AuditEntry) : Bool :=
  f.filterActionType.all (fun a => e.entryActionType == a) &&
  f.filterUser.all (fun u => e.entryUser == u) &&
  f.filterStartTime.all (fun t => ! e.entryTimestamp.before t) &&
  f.filterEndTime.all (fun t => ! t.before e.entryTimestamp) &&
  f.filterResult.all (fun r => e.entryResult == r)

/-- The loop of `query`. -/
def queryFrom (filter : QueryFilter) : List Bytes → Except AuditError (List AuditEntry)
  | [] => .ok []
  | line :: rest =>
    match parseLine j line with
    | .error err => .error err
    | .ok e =>
      (queryFrom filter rest).map (fun es => if filter.matchesEntry e then e :: es else es)

def query (filter : QueryFilter) : Option Bytes → Except AuditError (List AuditEntry)
  | none => .error .io
  | some file => queryFrom j filter (lines file)

/-- The chain `recover_chain` starts an instance with: it skips lines that do not
parse, and a file that is not UTF-8 as a whole leaves it at genesis. -/
def recoverChain : Option Bytes → HashChain
  | none => HashChain.new
  | some file =>
    if validUtf8 file then
      (lines file).foldl
        (fun chain line =>
          match j.fromStr line with
          | some e => chain.update e.entryHash
          | none => chain)
        HashChain.new
    else HashChain.new

@[simp] theorem matchesEntry_new (e : AuditEntry) : QueryFilter.new.matchesEntry e = true := rfl

/-! ## Chains of entries -/

/-- Each entry's hash is that of the one before it and of its own data. -/
def Chained (previousHash : Bytes) : List AuditEntry → Prop
  | [] => True
  | e :: es =>
    ∃ data, serialisedData j e = some data ∧ Sha256.digest (previousHash ++ data) = e.entryHash ∧
      Chained e.entryHash es

/-- The hash of the last entry. -/
def lastHash (previousHash : Bytes) : List AuditEntry → Bytes
  | [] => previousHash
  | e :: es => lastHash e.entryHash es

/-- These lines parse as these entries. -/
def ParsesAs : List Bytes → List AuditEntry → Prop := List.Forall₂ (fun line e => parseLine j line = .ok e)

variable {j}

theorem chained_snoc {prev : Bytes} {es : List AuditEntry} {e : AuditEntry} :
    Chained j prev (es ++ [e]) ↔ Chained j prev es ∧
      ∃ data, serialisedData j e = some data ∧ Sha256.digest (lastHash prev es ++ data) = e.entryHash := by
  induction es generalizing prev with
  | nil => simp [Chained, lastHash]
  | cons d es ih =>
    simp only [List.cons_append, Chained, lastHash, ih]
    constructor
    · rintro ⟨data, hd, hh, hes, he⟩
      exact ⟨⟨data, hd, hh, hes⟩, he⟩
    · rintro ⟨⟨data, hd, hh, hes⟩, he⟩
      exact ⟨data, hd, hh, hes, he⟩

/-- The verifier's answer, read off the entries. -/
theorem verifyFrom_eq_true {prev : Bytes} {ls : List Bytes} :
    verifyFrom j prev ls = .ok true ↔ ∃ es, ParsesAs j ls es ∧ Chained j prev es := by
  induction ls generalizing prev with
  | nil => exact ⟨fun _ => ⟨[], List.Forall₂.nil, trivial⟩, fun _ => rfl⟩
  | cons line rest ih =>
    constructor
    · intro h
      rw [verifyFrom] at h
      split at h
      · cases h
      · next e he =>
        split at h
        · cases h
        · next data hdata =>
          split at h
          · next hv =>
            obtain ⟨es, hes, hc⟩ := ih.mp h
            exact ⟨e :: es, List.Forall₂.cons he hes, data, hdata, by simpa [verifyEntry] using hv, hc⟩
          · cases h
    · rintro ⟨es, hes, hc⟩
      cases hes with
      | @cons _ e _ es he hrest =>
        obtain ⟨data, hdata, hh, hc⟩ := hc
        have hv : verifyEntry prev data e.entryHash = true := by simpa [verifyEntry] using hh
        rw [verifyFrom, he]
        simp only [hdata, hv, if_true]
        exact ih.mpr ⟨_, hrest, hc⟩

theorem queryFrom_of_parsesAs {ls : List Bytes} {es : List AuditEntry} (h : ParsesAs j ls es) :
    queryFrom j QueryFilter.new ls = .ok es := by
  induction h with
  | nil => rfl
  | cons he _ ih => rw [queryFrom, he]; simp [ih, Except.map]

theorem parsesAs_of_query {ls : List Bytes} : ∀ {es : List AuditEntry},
    queryFrom j QueryFilter.new ls = .ok es → ParsesAs j ls es := by
  induction ls with
  | nil =>
    intro es h
    cases h
    exact List.Forall₂.nil
  | cons line rest ih =>
    intro es h
    rw [queryFrom] at h
    split at h
    · cases h
    · next e he =>
      cases hq : queryFrom j QueryFilter.new rest with
      | error err =>
        rw [hq] at h
        cases h
      | ok es' =>
        rw [hq] at h
        cases h
        exact List.Forall₂.cons he (ih hq)

theorem parsesAs_unique {ls : List Bytes} {es es' : List AuditEntry} (h : ParsesAs j ls es)
    (h' : ParsesAs j ls es') : es = es' := by
  have hq := queryFrom_of_parsesAs h
  rw [queryFrom_of_parsesAs h'] at hq
  exact (Except.ok.inj hq).symm

theorem chained_of_verify {file : Bytes} {es : List AuditEntry} (hv : verifyIntegrity j (some file) = .ok true)
    (hq : query j QueryFilter.new (some file) = .ok es) : Chained j HashChain.new.previousHash es := by
  obtain ⟨es', hp, hc⟩ := verifyFrom_eq_true.mp hv
  rw [parsesAs_unique (parsesAs_of_query hq) hp]
  exact hc

/-! ## Files written line by line -/

variable (j) in
/-- These lines are what a logger writes for these entries. -/
def WrittenAs : List Bytes → List AuditEntry → Prop :=
  List.Forall₂ (fun line e => ∃ order, line = j.entryToVec order e)

theorem WrittenAs.parsesAs {ls : List Bytes} {es : List AuditEntry} (h : WrittenAs j ls es) : ParsesAs j ls es := by
  refine List.Forall₂.imp ?_ h
  intro line e hl
  obtain ⟨order, rfl⟩ := hl
  simp [parseLine, j.entryToVec_utf8, j.fromStr_entryToVec]

theorem WrittenAs.isLine {ls : List Bytes} {es : List AuditEntry} (h : WrittenAs j ls es) :
    ∀ l ∈ ls, IsLine l := by
  induction h with
  | nil => intro l hl; cases hl
  | cons hl _ ih =>
    obtain ⟨order, rfl⟩ := hl
    intro l hmem
    rcases List.mem_cons.mp hmem with rfl | hmem
    · exact j.entryToVec_isLine order _
    · exact ih l hmem

theorem WrittenAs.utf8 {ls : List Bytes} {es : List AuditEntry} (h : WrittenAs j ls es) :
    ∀ l ∈ ls, validUtf8 l = true := by
  induction h with
  | nil => intro l hl; cases hl
  | cons hl _ ih =>
    obtain ⟨order, rfl⟩ := hl
    intro l hmem
    rcases List.mem_cons.mp hmem with rfl | hmem
    · exact j.entryToVec_utf8 order _
    · exact ih l hmem

theorem WrittenAs.snoc {ls : List Bytes} {es : List AuditEntry} (h : WrittenAs j ls es) (order : Nat)
    (e : AuditEntry) : WrittenAs j (ls ++ [j.entryToVec order e]) (es ++ [e]) :=
  List.rel_append h (List.Forall₂.cons ⟨order, rfl⟩ List.Forall₂.nil)

/-- The recovered head of written lines is the last entry's hash. -/
theorem foldl_update_of_written {ls : List Bytes} {es : List AuditEntry} (h : WrittenAs j ls es) :
    ∀ chain : HashChain,
    ls.foldl
      (fun chain line =>
        match j.fromStr line with
        | some e => chain.update e.entryHash
        | none => chain) chain = ⟨lastHash chain.previousHash es⟩ := by
  induction h with
  | nil => intro chain; rfl
  | cons hl _ ih =>
    obtain ⟨order, rfl⟩ := hl
    intro chain
    rw [List.foldl_cons, j.fromStr_entryToVec, ih]
    rfl

/-- A log as loggers leave it: terminated lines, or all but the last terminated. -/
inductive LogFile (j : SerdeJson) : Bytes → List AuditEntry → Prop where
  | terminated {ls es} (h : WrittenAs j ls es) : LogFile j (fileOf ls) es
  | unterminated {ls es} (h : WrittenAs j ls es) (order : Nat) (e : AuditEntry) :
      LogFile j (fileOf ls ++ j.entryToVec order e) (es ++ [e])

theorem LogFile.lines {file : Bytes} {es : List AuditEntry} (h : LogFile j file es) :
    WrittenAs j (Lines.lines file) es := by
  cases h with
  | terminated h => rw [Lines.lines_fileOf h.isLine]; exact h
  | unterminated h order e =>
    rw [Lines.lines_fileOf_open h.isLine (j.entryToVec_isLine order e)]
    exact h.snoc order e

theorem LogFile.utf8 {file : Bytes} {es : List AuditEntry} (h : LogFile j file es) : validUtf8 file = true := by
  cases h with
  | terminated h => exact Lines.validUtf8_fileOf h.utf8
  | unterminated h order e => exact validUtf8_append (Lines.validUtf8_fileOf h.utf8) (j.entryToVec_utf8 order e)

/-- A log that begins a line anew has every line terminated. -/
theorem LogFile.closed_of_atLineStart {file : Bytes} {es : List AuditEntry} (h : LogFile j file es)
    (hs : Lines.atLineStart file = true) : ∃ ls, WrittenAs j ls es ∧ file = fileOf ls := by
  cases h with
  | terminated h => exact ⟨_, h, rfl⟩
  | unterminated h order e =>
    rw [Lines.not_atLineStart_open (j.entryToVec_isLine order e)] at hs
    cases hs

theorem LogFile.verify {file : Bytes} {es : List AuditEntry} (h : LogFile j file es)
    (hc : Chained j HashChain.new.previousHash es) : verifyIntegrity j (some file) = .ok true :=
  verifyFrom_eq_true.mpr ⟨es, h.lines.parsesAs, hc⟩

theorem LogFile.query {file : Bytes} {es : List AuditEntry} (h : LogFile j file es) :
    query j QueryFilter.new (some file) = .ok es :=
  queryFrom_of_parsesAs h.lines.parsesAs

theorem LogFile.recoverChain {file : Bytes} {es : List AuditEntry} (h : LogFile j file es) :
    recoverChain j (some file) = ⟨lastHash HashChain.new.previousHash es⟩ := by
  rw [State.recoverChain, if_pos h.utf8]
  exact foldl_update_of_written h.lines _

end

end LinuxHardener.State
