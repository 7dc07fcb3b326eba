import LinuxHardener.State.AuditCodec

/-
  Loggers writing one audit log.

  Any number of `AuditLogger` instances are opened on one path and log to it, in
  any order; an append may fail after any number of the bytes of its line. An
  instance recovers the chain when it is opened and from then on trusts its own
  memory.

  What is proved:
    1. `query_of_whole_run` — while no append fails, a query returns every logged
       entry, in append order, whatever the order of the loggers.
    2. `verify_of_fresh_run` — and the log verifies, in every run in which each
       append is made by an instance whose head is still the log's.
    3. `torn_run` — both survive failed appends that wrote nothing, or the whole
       entry, as long as every append begins a line anew.

  Correspondence (Rust ↔ Lean):
    `AuditLogger::new`                   ↔ `Step.open`
    `log_action`, `log_action_with_details`, `log_failure` ↔ `logAction`, `logActionWithDetails`,
      `logFailure`, and `Step.log` for the append they end in
    `write_all`, `flush` failing midway  ↔ `Written.torn`
-/
namespace LinuxHardener.State

open Lines (newline fileOf atLineStart)

/-! ## The three log calls -/

section

variable (j : SerdeJson)

/-- The entry `log_action` appends; it refuses a failure. -/
def logAction (chain : HashChain) (now : Timestamp) (actionType : ActionType) (user target : String)
    (result : ActionResult) : Except AuditError AuditEntry :=
  if result = .failure then .error .validation
  else .ok ⟨now, actionType, user, target, .success, .empty,
    chain.nextHash (hashable j now actionType user target result .empty)⟩

/-- The entry `log_action_with_details` appends; it refuses a failure. -/
def logActionWithDetails (chain : HashChain) (now : Timestamp) (actionType : ActionType)
    (user target : String) (result : ActionResult) (details : Details) : Except AuditError AuditEntry :=
  if result = .failure then .error .validation
  else .ok ⟨now, actionType, user, target, result, details,
    chain.nextHash (hashable j now actionType user target result details)⟩

/-- The entry `log_failure` appends. -/
def logFailure (chain : HashChain) (now : Timestamp) (actionType : ActionType) (user target : String)
    (errorMessage : String) : AuditEntry :=
  ⟨now, actionType, user, target, .failure, .single "error" errorMessage,
    chain.nextHash (failureData j now actionType user target errorMessage)⟩

inductive LogCall where
  | action (actionType : ActionType) (user target : String) (result : ActionResult)
  | withDetails (actionType : ActionType) (user target : String) (result : ActionResult) (details : Details)
  | failed (actionType : ActionType) (user target errorMessage : String)

def LogCall.entry (chain : HashChain) (now : Timestamp) : LogCall → Except AuditError AuditEntry
  | .action a u t r => logAction j chain now a u t r
  | .withDetails a u t r d => logActionWithDetails j chain now a u t r d
  | .failed a u t m => .ok (logFailure j chain now a u t m)

/-! ## Runs -/

/-- How much of an appended line reached the file: all of it, and the call returned
`Ok`; or its first `n` bytes, and the call returned `Err`. -/
inductive Written where
  | complete
  | torn (n : Nat)

inductive Step where
  | open
  | log (logger : Nat) (call : LogCall) (now : Timestamp) (order : Nat) (written : Written)

/-- The log file, the chain each instance holds, and the entries whose call returned
`Ok`, in append order. -/
structure Writers where
  file : Option Bytes
  loggers : List HashChain
  returned : List AuditEntry

def Writers.start : Writers := ⟨none, [], []⟩

/-- The bytes of the file; none when it is not there yet. -/
def Writers.bytes (s : Writers) : Bytes := s.file.getD []

/-- The line an entry is appended as. -/
def entryLine (order : Nat) (e : AuditEntry) : Bytes := j.entryToVec order e ++ [newline]

def step (s : Writers) : Step → Writers
  | .open => { s with file := some s.bytes, loggers := s.loggers ++ [recoverChain j s.file] }
  | .log logger call now order written =>
    match s.loggers[logger]? with
    | none => s
    | some chain =>
      match call.entry j chain now with
      | .error _ => s
      | .ok e =>
        match written with
        | .complete =>
          { file := some (s.bytes ++ entryLine j order e)
            loggers := s.loggers.set logger (chain.update e.entryHash)
            returned := s.returned ++ [e] }
        | .torn n => { s with file := some (s.bytes ++ (entryLine j order e).take n) }

/-- The states that runs reach whose every step is admitted where it is taken. -/
inductive Reaches (admitted : Writers → Step → Prop) : Writers → Prop where
  | start : Reaches admitted .start
  | step {s : Writers} {a : Step} (h : Reaches admitted s) (ha : admitted s a) : Reaches admitted (step j s a)

/-- The step's append, if it makes one, is written whole. -/
def Step.Whole : Step → Prop
  | .open => True
  | .log _ _ _ _ written => written = .complete

/-- The instance that logs still holds the head of the log. -/
def Fresh (s : Writers) : Step → Prop
  | .open => True
  | .log logger _ _ _ _ => ∀ chain, s.loggers[logger]? = some chain → chain = recoverChain j s.file

/-- An append that the log survives: it writes nothing; or it writes the entry, with
its newline or without, where a line begins, from an instance that holds the head of
the log. -/
def Survivable (s : Writers) : Step → Prop
  | .open => True
  | .log logger call now order written =>
    ∀ chain e, s.loggers[logger]? = some chain → call.entry j chain now = .ok e →
      written = .torn 0 ∨
      (atLineStart s.bytes = true ∧ chain = recoverChain j s.file ∧
        ∀ n, written = .torn n → (j.entryToVec order e).length ≤ n)

variable {j}

theorem Reaches.mono {p q : Writers → Step → Prop} (hpq : ∀ s a, p s a → q s a) {s : Writers}
    (h : Reaches j p s) : Reaches j q s := by
  induction h with
  | start => exact .start
  | step _ ha ih => exact .step ih (hpq _ _ ha)

/-- Every entry a call appends was hashed from the instance's head over the data the
verifier recomputes. -/
theorem entry_hash {chain : HashChain} {now : Timestamp} {call : LogCall} {e : AuditEntry}
    (h : call.entry j chain now = .ok e) :
    ∃ data, serialisedData j e = some data ∧ Sha256.digest (chain.previousHash ++ data) = e.entryHash := by
  cases call with
  | action a u t r =>
    cases r with
    | success =>
      cases h
      exact ⟨_, rfl, rfl⟩
    | failure => cases h
  | withDetails a u t r d =>
    cases r with
    | success =>
      cases h
      exact ⟨_, rfl, rfl⟩
    | failure => cases h
  | failed a u t m =>
    cases h
    refine ⟨failureData j now a u t m, ?_, rfl⟩
    simp [serialisedData, logFailure, Details.single, Details.get]

/-! ## One step -/

theorem step_complete {s : Writers} {logger : Nat} {call : LogCall} {now : Timestamp} {chain : HashChain}
    {e : AuditEntry} (hl : s.loggers[logger]? = some chain) (he : call.entry j chain now = .ok e)
    (order : Nat) : step j s (.log logger call now order .complete) =
      { file := some (s.bytes ++ entryLine j order e)
        loggers := s.loggers.set logger (chain.update e.entryHash)
        returned := s.returned ++ [e] } := by
  simp [step, hl, he]

theorem step_torn {s : Writers} {logger : Nat} {call : LogCall} {now : Timestamp} {chain : HashChain}
    {e : AuditEntry} (hl : s.loggers[logger]? = some chain) (he : call.entry j chain now = .ok e)
    (order n : Nat) : step j s (.log logger call now order (.torn n)) =
      { s with file := some (s.bytes ++ (entryLine j order e).take n) } := by
  simp [step, hl, he]

/-- What a step of `log` does: nothing, or it appends to the file. -/
theorem step_log (s : Writers) (logger : Nat) (call : LogCall) (now : Timestamp) (order : Nat)
    (written : Written) :
    step j s (.log logger call now order written) = s ∨
    ∃ chain e, s.loggers[logger]? = some chain ∧ call.entry j chain now = .ok e ∧
      ((written = .complete ∧ step j s (.log logger call now order written) =
          { file := some (s.bytes ++ entryLine j order e)
            loggers := s.loggers.set logger (chain.update e.entryHash)
            returned := s.returned ++ [e] }) ∨
       (∃ n, written = .torn n ∧ step j s (.log logger call now order written) =
          { s with file := some (s.bytes ++ (entryLine j order e).take n) })) := by
  cases hl : s.loggers[logger]? with
  | none => exact .inl (by simp [step, hl])
  | some chain =>
    cases he : call.entry j chain now with
    | error err => exact .inl (by simp [step, hl, he])
    | ok e =>
      refine .inr ⟨chain, e, rfl, he, ?_⟩
      cases written with
      | complete => exact .inl ⟨rfl, step_complete hl he order⟩
      | torn n => exact .inr ⟨n, rfl, step_torn hl he order n⟩

/-- Instances stay. -/
theorem opened_step {s : Writers} (h : s.loggers ≠ []) (a : Step) : (step j s a).loggers ≠ [] := by
  cases a with
  | «open» => simp [step]
  | log logger call now order written =>
    rcases step_log (j := j) s logger call now order written with hs | ⟨chain, e, _, _, ⟨_, hs⟩ | ⟨n, _, hs⟩⟩ <;>
      rw [hs] <;> simpa using h

theorem opened_open (s : Writers) : (step j s .open).loggers ≠ [] := by
  simp [step]

/-! ## Whole appends -/

/-- The file holds what was logged, line by line. -/
structure WholeInv (s : Writers) : Prop where
  bytes : ∃ ls, WrittenAs j ls s.returned ∧ s.bytes = fileOf ls
  opened : s.loggers ≠ [] → s.file.isSome = true

theorem wholeInv_step {s : Writers} {a : Step} (h : WholeInv (j := j) s) (ha : a.Whole) :
    WholeInv (j := j) (step j s a) := by
  obtain ⟨ls, hls, hbytes⟩ := h.bytes
  cases a with
  | «open» => exact ⟨⟨ls, hls, by simpa [step, Writers.bytes] using hbytes⟩, fun _ => rfl⟩
  | log logger call now order written =>
    obtain rfl : written = .complete := ha
    rcases step_log (j := j) s logger call now order .complete with hs | ⟨chain, e, _, _, ⟨_, hs⟩ | ⟨n, hn, _⟩⟩
    · rw [hs]
      exact h
    · rw [hs]
      refine ⟨⟨ls ++ [j.entryToVec order e], hls.snoc order e, ?_⟩, fun _ => rfl⟩
      rw [Lines.fileOf_snoc, ← hbytes]
      rfl
    · cases hn

theorem wholeInv_of_reaches {s : Writers} (h : Reaches j (fun _ a => a.Whole) s) : WholeInv (j := j) s := by
  induction h with
  | start => exact ⟨⟨[], List.Forall₂.nil, rfl⟩, fun hne => absurd rfl hne⟩
  | step _ ha ih => exact wholeInv_step ih ha

/-- The log file of an opened log is there, with the bytes the run left. -/
theorem file_of_opened {s : Writers} (h : WholeInv (j := j) s) (ho : s.loggers ≠ []) : s.file = some s.bytes := by
  obtain ⟨b, hb⟩ := Option.isSome_iff_exists.mp (h.opened ho)
  rw [Writers.bytes, hb]
  rfl

/-- The verified chain grows by an entry of an instance that holds its head. -/
theorem chained_step {s : Writers} {es : List AuditEntry} (hfile : LogFile j s.bytes es)
    (hc : Chained j HashChain.new.previousHash es) {chain : HashChain} {now : Timestamp} {call : LogCall}
    {e : AuditEntry} (he : call.entry j chain now = .ok e) (hf : chain = recoverChain j (some s.bytes)) :
    Chained j HashChain.new.previousHash (es ++ [e]) := by
  obtain ⟨data, hd, hh⟩ := entry_hash he
  refine chained_snoc.mpr ⟨hc, data, hd, ?_⟩
  rw [← hh, hf, hfile.recoverChain]

/-- A missing file is recovered like an empty one. -/
theorem recoverChain_bytes (s : Writers) : recoverChain j (some s.bytes) = recoverChain j s.file := by
  cases hs : s.file with
  | some b => rw [Writers.bytes, hs]; rfl
  | none =>
    rw [Writers.bytes, hs]
    exact (LogFile.terminated (j := j) List.Forall₂.nil).recoverChain

theorem chained_of_fresh {s : Writers} (h : Reaches j (fun s a => a.Whole ∧ Fresh j s a) s) :
    Chained j HashChain.new.previousHash s.returned := by
  induction h with
  | start => trivial
  | @step s a hr ha ih =>
    have hinv := wholeInv_of_reaches (hr.mono (fun _ _ h => h.1))
    obtain ⟨ls, hls, hbytes⟩ := hinv.bytes
    cases a with
    | «open» => exact ih
    | log logger call now order written =>
      obtain rfl : written = .complete := ha.1
      rcases step_log (j := j) s logger call now order .complete with hs | ⟨chain, e, hl, he, ⟨_, hs⟩ | ⟨n, hn, _⟩⟩
      · rw [hs]
        exact ih
      · rw [hs]
        have hfile : LogFile j s.bytes s.returned := hbytes ▸ LogFile.terminated hls
        exact chained_step hfile ih he ((ha.2 chain hl).trans (recoverChain_bytes s).symm)
      · cases hn

/-- While no append fails, a query returns every logged entry, in append order. -/
theorem query_of_whole_run {s : Writers} (h : Reaches j (fun _ a => a.Whole) s) (ho : s.loggers ≠ []) :
    query j QueryFilter.new s.file = .ok s.returned := by
  have hinv := wholeInv_of_reaches h
  obtain ⟨ls, hls, hbytes⟩ := hinv.bytes
  rw [file_of_opened hinv ho, hbytes]
  exact (LogFile.terminated hls).query

/-- In every run whose appends are whole and each made by an instance that still
holds the head of the log, the log verifies and a query returns every logged entry,
in append order. -/
theorem verify_of_fresh_run {s : Writers} (h : Reaches j (fun s a => a.Whole ∧ Fresh j s a) s)
    (ho : s.loggers ≠ []) :
    verifyIntegrity j s.file = .ok true ∧ query j QueryFilter.new s.file = .ok s.returned := by
  have hwhole : Reaches j (fun _ a => a.Whole) s := h.mono (fun _ _ h => h.1)
  have hinv := wholeInv_of_reaches hwhole
  obtain ⟨ls, hls, hbytes⟩ := hinv.bytes
  refine ⟨?_, query_of_whole_run hwhole ho⟩
  rw [file_of_opened hinv ho, hbytes]
  exact (LogFile.terminated hls).verify (chained_of_fresh h)

/-! ## Torn appends -/

/-- The file holds a verified log, which has every logged entry. -/
structure TornInv (s : Writers) : Prop where
  log : ∃ es, LogFile j s.bytes es ∧ Chained j HashChain.new.previousHash es ∧ s.returned.Sublist es
  opened : s.loggers ≠ [] → s.file.isSome = true

/-- A log that begins a line anew, and an entry appended to it with its newline or
without. -/
theorem logFile_append {b : Bytes} {es : List AuditEntry} (h : LogFile j b es) (hs : atLineStart b = true)
    (order : Nat) (e : AuditEntry) {n : Nat} (hn : (j.entryToVec order e).length ≤ n) :
    LogFile j (b ++ (entryLine j order e).take n) (es ++ [e]) := by
  obtain ⟨ls, hls, rfl⟩ := h.closed_of_atLineStart hs
  rcases Nat.lt_or_eq_of_le hn with hlt | rfl
  · have hall : (entryLine j order e).take n = j.entryToVec order e ++ [newline] := by
      apply List.take_of_length_le
      simp [entryLine]
      omega
    rw [hall, ← Lines.fileOf_snoc]
    exact .terminated (hls.snoc order e)
  · have hopen : (entryLine j order e).take (j.entryToVec order e).length = j.entryToVec order e := by
      simp [entryLine]
    rw [hopen]
    exact .unterminated hls order e

theorem tornInv_step {s : Writers} {a : Step} (h : TornInv (j := j) s) (ha : Survivable j s a) :
    TornInv (j := j) (step j s a) := by
  obtain ⟨es, hfile, hc, hsub⟩ := h.log
  cases a with
  | «open» => exact ⟨⟨es, hfile, hc, hsub⟩, fun _ => rfl⟩
  | log logger call now order written =>
    rcases step_log (j := j) s logger call now order written with hs | ⟨chain, e, hl, he, hw⟩
    · rw [hs]
      exact h
    · have hgrow : chain = recoverChain j s.file → Chained j HashChain.new.previousHash (es ++ [e]) :=
        fun hf => chained_step hfile hc he (hf.trans (recoverChain_bytes s).symm)
      rcases ha chain e hl he with h0 | ⟨hstart, hfresh, hlong⟩
      · -- nothing reached the file
        rcases hw with ⟨hw, _⟩ | ⟨n, hw, hs⟩
        · rw [h0] at hw
          cases hw
        · rw [h0] at hw
          cases hw
          rw [hs]
          exact ⟨⟨es, by simpa [Writers.bytes] using hfile, hc, hsub⟩, fun _ => rfl⟩
      · rcases hw with ⟨_, hs⟩ | ⟨n, hw, hs⟩
        · rw [hs]
          have hline : (entryLine j order e).take (entryLine j order e).length = entryLine j order e :=
            List.take_length
          have happ := logFile_append hfile hstart order e (n := (entryLine j order e).length)
            (by simp [entryLine])
          rw [hline] at happ
          exact ⟨⟨es ++ [e], happ, hgrow hfresh, hsub.append (List.Sublist.refl _)⟩, fun _ => rfl⟩
        · rw [hs]
          have happ := logFile_append hfile hstart order e (hlong n hw)
          exact ⟨⟨es ++ [e], happ, hgrow hfresh, hsub.trans (List.sublist_append_left es [e])⟩, fun _ => rfl⟩

/-- In every run whose appends are all survivable, the log verifies and a query
returns every entry whose call returned `Ok`, in append order. -/
theorem torn_run {s : Writers} (h : Reaches j (Survivable j) s) (ho : s.loggers ≠ []) :
    verifyIntegrity j s.file = .ok true ∧
    ∃ es, query j QueryFilter.new s.file = .ok es ∧ s.returned.Sublist es := by
  have hinv : TornInv (j := j) s := by
    clear ho
    induction h with
    | start => exact ⟨⟨[], .terminated List.Forall₂.nil, trivial, List.Sublist.refl _⟩, fun hne => absurd rfl hne⟩
    | step _ ha ih => exact tornInv_step ih ha
  obtain ⟨es, hfile, hc, hsub⟩ := hinv.log
  obtain ⟨b, hb⟩ := Option.isSome_iff_exists.mp (hinv.opened ho)
  have hbytes : s.bytes = b := by rw [Writers.bytes, hb]; rfl
  rw [hbytes] at hfile
  rw [hb]
  exact ⟨hfile.verify hc, es, hfile.query, hsub⟩

end

/-! ## Where the log fails its writers -/

/-- One scan logged by root at the new year. -/
def scanCall : LogCall := .action .scan "root" "system" .success

/-- What that scan is hashed over. -/
def scanData : Bytes := hashable SerdeJson.compact new2026 .scan "root" "system" .success .empty

/-- The entry of the first scan of a log. -/
def scanEntry : AuditEntry :=
  ⟨new2026, .scan, "root", "system", .success, .empty, HashChain.new.nextHash scanData⟩

/-- Two loggers opened on a new log. -/
def openedTwice : Writers := step SerdeJson.compact (step SerdeJson.compact .start .open) .open

/-- Each of the two logs that scan. -/
def forkedRun : Writers :=
  step SerdeJson.compact (step SerdeJson.compact openedTwice (.log 0 scanCall new2026 0 .complete))
    (.log 1 scanCall new2026 0 .complete)

theorem forkedRun_whole : Reaches SerdeJson.compact (fun _ a => a.Whole) forkedRun := by
  have h : Reaches SerdeJson.compact (fun _ a => a.Whole) openedTwice := .step (.step .start trivial) trivial
  exact .step (.step h rfl) rfl

theorem forkedRun_returned : forkedRun.returned = [scanEntry, scanEntry] := rfl

/-- The second scan would have to be hashed from the first one. -/
theorem scan_forks :
    Sha256.digest (Sha256.digest (HashChain.new.previousHash ++ scanData) ++ scanData) ≠
      Sha256.digest (HashChain.new.previousHash ++ scanData) := by
  decide +kernel

theorem scanEntry_data : serialisedData SerdeJson.compact scanEntry = some scanData := rfl

theorem forkedRun_not_chained : ¬ Chained SerdeJson.compact HashChain.new.previousHash forkedRun.returned := by
  intro h
  rw [forkedRun_returned] at h
  obtain ⟨_, _, _, data, hd, hh, _⟩ := h
  obtain rfl : scanData = data := Option.some.inj (scanEntry_data.symm.trans hd)
  exact scan_forks hh

/-- Two loggers on one log fork the chain, and the log they leave reads as tampered. -/
theorem forked_log_counterexample :
    ¬ (∀ s : Writers, Reaches SerdeJson.compact (fun _ a => a.Whole) s → s.loggers ≠ [] →
      verifyIntegrity SerdeJson.compact s.file = .ok true ∧
      query SerdeJson.compact QueryFilter.new s.file = .ok s.returned) := by
  intro h
  obtain ⟨hv, hq⟩ := h forkedRun forkedRun_whole (opened_step (opened_step (opened_open _) _) _)
  obtain ⟨b, hb⟩ : ∃ b, forkedRun.file = some b := ⟨_, rfl⟩
  rw [hb] at hv hq
  exact forkedRun_not_chained (chained_of_verify hv hq)

/-- One logger opened on a new log. -/
def openedOnce : Writers := step SerdeJson.compact .start .open

theorem openedOnce_reached {admitted : Writers → Step → Prop} (h : admitted .start .open) :
    Reaches SerdeJson.compact admitted openedOnce := .step .start h

/-- It holds the head of the log, which is the genesis. -/
theorem openedOnce_fresh (call : LogCall) (now : Timestamp) (order : Nat) (written : Written) :
    Fresh SerdeJson.compact openedOnce (.log 0 call now order written) := by
  intro chain h
  cases h
  rfl

/-- The theorem at a run of one logger. -/
theorem verify_of_fresh_run_scan :
    verifyIntegrity SerdeJson.compact (step SerdeJson.compact openedOnce (.log 0 scanCall new2026 0 .complete)).file =
      .ok true ∧
    query SerdeJson.compact QueryFilter.new
      (step SerdeJson.compact openedOnce (.log 0 scanCall new2026 0 .complete)).file =
      .ok (step SerdeJson.compact openedOnce (.log 0 scanCall new2026 0 .complete)).returned :=
  verify_of_fresh_run (.step (openedOnce_reached ⟨trivial, trivial⟩) ⟨rfl, openedOnce_fresh _ _ _ _⟩)
    (opened_step (opened_open _) _)

/-- A logger whose first append fails after one byte, and whose second one succeeds. -/
def gluedRun : Writers :=
  step SerdeJson.compact (step SerdeJson.compact openedOnce (.log 0 scanCall new2026 0 (.torn 1)))
    (.log 0 scanCall new2026 0 .complete)

theorem gluedRun_reached : Reaches SerdeJson.compact (fun _ _ => True) gluedRun :=
  .step (.step (openedOnce_reached trivial) trivial) trivial

theorem scanCall_entry : scanCall.entry SerdeJson.compact HashChain.new new2026 = .ok scanEntry := rfl

theorem gluedRun_file : gluedRun.file =
    some ((entryLine SerdeJson.compact 0 scanEntry).take 1 ++ entryLine SerdeJson.compact 0 scanEntry) := by
  have hglue : ∀ s : Writers, s.loggers[0]? = some HashChain.new →
      (step SerdeJson.compact (step SerdeJson.compact s (.log 0 scanCall new2026 0 (.torn 1)))
        (.log 0 scanCall new2026 0 .complete)).file =
      some (s.bytes ++ (entryLine SerdeJson.compact 0 scanEntry).take 1 ++ entryLine SerdeJson.compact 0 scanEntry) := by
    intro s hl
    have hl' : (step SerdeJson.compact s (.log 0 scanCall new2026 0 (.torn 1))).loggers[0]? = some HashChain.new := by
      rw [step_torn hl scanCall_entry]
      exact hl
    rw [step_complete hl' scanCall_entry, step_torn hl scanCall_entry]
    rfl
  have hempty : openedOnce.bytes = [] := rfl
  rw [gluedRun, hglue openedOnce rfl, hempty, List.nil_append]

theorem entryLine_compact (order : Nat) (e : AuditEntry) :
    entryLine SerdeJson.compact order e = utf8 (entryJson e).text ++ [newline] := rfl

/-- An entry begins with a brace and a quote. -/
theorem entryJson_text (e : AuditEntry) : ∃ rest, (entryJson e).text = "\x7b" ++ String.ofList ('"' :: rest) := by
  obtain ⟨rest, hrest⟩ : ∃ rest, Json.write (entryJson e) = '{' :: '"' :: rest :=
    ⟨_, by rw [entryJson, Json.write, Json.writeString, List.cons_append]⟩
  refine ⟨rest, ?_⟩
  apply String.toList_inj.mp
  simp [Json.text, hrest]

/-- A brace before an object is no object. -/
theorem ofText_glued (e : AuditEntry) : Json.ofText ("\x7b" ++ (entryJson e).text) = none := by
  obtain ⟨rest, hrest⟩ := entryJson_text e
  have hchars : ("\x7b" ++ (entryJson e).text).toList = '{' :: '{' :: '"' :: rest := by
    rw [hrest]
    simp
  have hread : ∀ n, Json.read (n + 2) ('{' :: '{' :: '"' :: rest) = none := by
    intro n
    rw [Json.read, Json.readMember]
    cases n <;> rfl
  rw [Json.ofText, hchars, List.length_cons, hread]

/-- The torn byte and the entry after it make one line. -/
theorem glued_line (order : Nat) (e : AuditEntry) :
    (entryLine SerdeJson.compact order e).take 1 ++ entryLine SerdeJson.compact order e =
      utf8 ("\x7b" ++ (entryJson e).text) ++ [newline] := by
  obtain ⟨rest, hrest⟩ := entryJson_text e
  have hbrace : utf8 "\x7b" = [123] := rfl
  have hhead : (entryLine SerdeJson.compact order e).take 1 = utf8 "\x7b" := by
    rw [entryLine_compact, hrest, utf8_append, List.append_assoc, hbrace]
    simp
  rw [hhead, entryLine_compact, utf8_append, List.append_assoc]

/-- That line is no entry. -/
theorem query_glued (e : AuditEntry) :
    query SerdeJson.compact QueryFilter.new (some (utf8 ("\x7b" ++ (entryJson e).text) ++ [newline])) =
      .error .json := by
  have hline : Lines.IsLine (utf8 ("\x7b" ++ (entryJson e).text)) := by
    have hjson : Lines.IsLine (utf8 (entryJson e).text) := isLine_text _
    rw [utf8_append]
    refine ⟨?_, ?_, by simp⟩
    · rw [List.mem_append]
      exact fun h => h.elim (by decide) hjson.newline_free
    · rw [List.getLast?_append_of_ne_nil _ hjson.nonempty]
      exact hjson.no_carriage
  have hparse : parseLine SerdeJson.compact (utf8 ("\x7b" ++ (entryJson e).text)) = .error .json := by
    simp [parseLine, SerdeJson.compact, ofText_glued, -utf8_append]
  rw [query, Lines.lines_cons hline, queryFrom, hparse]

/-- After one torn byte the log is lost to its readers, the next entry with it. -/
theorem torn_write_counterexample :
    ¬ (∀ s : Writers, Reaches SerdeJson.compact (fun _ _ => True) s → s.loggers ≠ [] →
      verifyIntegrity SerdeJson.compact s.file = .ok true ∧
      ∃ es, query SerdeJson.compact QueryFilter.new s.file = .ok es ∧ s.returned.Sublist es) := by
  intro h
  obtain ⟨_, es, hq, _⟩ := h gluedRun gluedRun_reached (opened_step (opened_step (opened_open _) _) _)
  rw [gluedRun_file, glued_line, query_glued] at hq
  cases hq

/-- The theorem at a run whose first append wrote nothing and whose second one
succeeded. -/
theorem torn_run_retried :
    let s := step SerdeJson.compact (step SerdeJson.compact openedOnce (.log 0 scanCall new2026 0 (.torn 0)))
      (.log 0 scanCall new2026 0 .complete)
    verifyIntegrity SerdeJson.compact s.file = .ok true ∧
    ∃ es, query SerdeJson.compact QueryFilter.new s.file = .ok es ∧ s.returned.Sublist es := by
  refine torn_run (.step (.step (openedOnce_reached trivial) ?_) ?_) (opened_step (opened_step (opened_open _) _) _)
  · intro _ _ _ _
    exact .inl rfl
  · intro chain e hl _
    cases hl
    exact .inr ⟨rfl, rfl, by intro n hn; cases hn⟩

end LinuxHardener.State
