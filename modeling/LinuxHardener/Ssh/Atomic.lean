import LinuxHardener.Ssh.Apply

/-
  When an SSH apply that fails leaves the host as it found it.

  A host is asked and changes; it changes no file that it was not told to. A step of the
  apply is the capture, the backup, the test or a write.

  What is proved:
    1. `Ends.of_run` — a run of the apply ends before anything is installed, with every
       question before that quiet, or it installs and asks for a restart.
    2. `atomic_iff` — an apply with a failing step leaves files, service and report alone
       exactly where no step of the installation itself fails.
    3. `atomic_unwritable` — the main file that cannot be written: its directives are
       reported as applied.
-/
namespace LinuxHardener.Ssh

open LineText Plugins Dialogue
open Core (ApplyResult)

/-! ## The host -/

/-- The files sshd reads that the apply may write. -/
def managedPaths : List Chars := [ConfigLayer.admin.configPath, ConfigLayer.vendor.configPath, dropinPath]

/-- A file that a question tells the host to change: the target of a copy, or any file a
command is given. -/
def Touches (path : Chars) : Query → Prop
  | .execute program args => if program = "cp" then args.getLast? = some path else path ∈ args
  | .writeFile target _ => target = path
  | _ => False

/-- A host that answers and changes by its own rule, but no file it was not told to. -/
structure SshHost (σ : Type) where
  respond : σ → (q : Query) → q.Answer
  react : σ → Exchange → σ
  file : σ → Chars → Option Chars
  frame : ∀ s e path, ¬ Touches path e.query → file (react s e) path = file s path

def Restarts : Query → Prop
  | .execute program args => "restart".toList ∈ args ∧ (program = "systemctl" ∨ program = "service")
  | _ => False

/-! ## Steps -/

/-- A step before the installation: the capture, the backup, the test and its copy. -/
def Stages : Query → Prop
  | .checkpoint _ _ => True
  | .writeFile path _ => path ∉ managedPaths
  | .execute program _ => program = "cp" ∨ program = "sshd"
  | _ => False

/-- A step that puts a managed file in its place. -/
def Installs : Query → Prop
  | .writeFile path _ => path ∈ managedPaths
  | .execute program args => program = "mkdir" ∧ args = ["-p".toList, dropinDir] ∨ program = "rm" ∧ args = ["-f".toList, dropinPath]
  | _ => False

/-- An error, or a command that ran and failed. -/
def Unsuccessful : Exchange → Prop
  | ⟨.execute _ _, r⟩ => commandSucceeded r = false
  | ⟨.writeFile _ _, r⟩ => r ≠ .ok ()
  | ⟨.checkpoint _ _, .error _⟩ => True
  | _ => False

/-- The backup is all that a report shows as done. -/
def NoneApplied (plan : Plan) (stamp : Chars) (result : Except Chars ApplyResult) : Prop :=
  ∀ r, result = .ok r → ∀ c ∈ r.changes, c.isReal = true → c.success = true → c = backupChange plan.configPath stamp

/-- What an apply that failed must leave. -/
structure Undone {σ : Type} (host : SshHost σ) (s : σ) (plan : Plan) (stamp : Chars) (es : List Exchange)
    (result : Except Chars ApplyResult) : Prop where
  files : ∀ path ∈ managedPaths, host.file (after host.react s es) path = host.file s path
  notRestarted : ∀ e ∈ es, ¬ Restarts e.query
  noneApplied : NoneApplied plan stamp result

/-- What the questions and answers of an apply are, and what it returns. -/
def applied {σ : Type} (host : SshHost σ) (s : σ) (reader : Reader) (ctx : Context) (pid : Nat) (stamp : Chars) (plan : Plan) :
    List Exchange × Except Chars ApplyResult :=
  play host.respond host.react (apply reader ctx pid stamp plan) s

/-- A failing step undoes the apply. -/
def Atomic {σ : Type} (host : SshHost σ) (s : σ) (reader : Reader) (ctx : Context) (pid : Nat) (stamp : Chars) (plan : Plan) :
    Prop :=
  (∃ e ∈ (applied host s reader ctx pid stamp plan).1, (Stages e.query ∨ Installs e.query) ∧ Unsuccessful e) →
    Undone host s plan stamp (applied host s reader ctx pid stamp plan).1 (applied host s reader ctx pid stamp plan).2

/-! ## Quiet questions -/

/-- A question that changes no managed file, restarts nothing and is no part of the installation. -/
structure Quiet (q : Query) : Prop where
  untouched : ∀ path ∈ managedPaths, ¬ Touches path q
  notRestarted : ¬ Restarts q
  notInstalled : ¬ Installs q

/-- A step that was not done. -/
def FailedStep (e : Exchange) : Prop := (Stages e.query ∨ Installs e.query) ∧ Unsuccessful e

variable {layer : ConfigLayer} {p : Chars}

/-- A backup's path is no managed file's. -/
theorem backup_not_managed (h : backupPrefix layer.configPath <+: p) : p ∉ managedPaths := by
  intro hp
  have hnone : ∀ m ∈ managedPaths, ¬ backupPrefix layer.configPath <+: m := by cases layer <;> decide
  exact hnone p hp h

theorem scratch_not_managed (pid : Nat) : sshdValidateScratchPath pid ∉ managedPaths := by
  intro h
  have hnone : ∀ m ∈ managedPaths, m.take 5 ≠ "/tmp/".toList := by decide
  exact hnone _ h rfl

theorem configPath_managed (layer : ConfigLayer) : layer.configPath ∈ managedPaths := by cases layer <;> decide

theorem dropinPath_managed : dropinPath ∈ managedPaths := by decide

/-- A question that only reads. -/
theorem quiet_readFile (path : Chars) : Quiet (.readFile path) := ⟨fun _ _ => id, id, id⟩

theorem quiet_readDir (path : Chars) : Quiet (.readDir path) := ⟨fun _ _ => id, id, id⟩

theorem quiet_checkpoint (name : Chars) (paths : List Chars) : Quiet (.checkpoint name paths) := ⟨fun _ _ => id, id, id⟩

theorem quiet_writeFile (h : p ∉ managedPaths) (content : Chars) : Quiet (.writeFile p content) :=
  ⟨fun _ hp heq => h (heq ▸ hp), id, h⟩

/-- A command that is given no managed file, and is neither a restart nor a `mkdir`. -/
theorem quiet_execute {program : Chars} {args : List Chars} (hargs : ∀ a ∈ args, a ∉ managedPaths)
    (hservice : program ≠ "systemctl".toList ∧ program ≠ "service".toList) (hmkdir : program ≠ "mkdir".toList) :
    Quiet (.execute program args) where
  untouched path hp h := by
    change if program = "cp".toList then args.getLast? = some path else path ∈ args at h
    split at h
    · exact hargs path (List.mem_of_getLast? h) hp
    · exact hargs path h hp
  notRestarted h := h.2.elim hservice.1 hservice.2
  notInstalled h := by
    obtain h | h := h
    · exact hmkdir h.1
    · refine hargs dropinPath ?_ dropinPath_managed
      rw [h.2]
      exact List.mem_of_getLast? rfl

theorem option_not_managed {option : Chars} (h : option.head? = some '-') : option ∉ managedPaths := by
  intro hp
  have hnone : ∀ m ∈ managedPaths, m.head? ≠ some '-' := by decide
  exact hnone _ hp h

theorem quiet_backup (layer : ConfigLayer) (stamp : Chars) :
    Quiet (.execute "cp" ["-p", "--no-dereference", layer.configPath, backupPrefix layer.configPath ++ stamp]) where
  untouched path hp h := by
    have hbackup : backupPrefix layer.configPath <+: path := ⟨stamp, Option.some.inj h⟩
    exact backup_not_managed hbackup hp
  notRestarted h := h.2.elim (by decide) (by decide)
  notInstalled h := h.elim (fun h => absurd h.1 (by decide)) fun h => absurd h.1 (by decide)

/-- The backups to go are backups. -/
theorem mem_staleBackups {stem path : Chars} {keep : Nat} {entries : List Chars} (h : path ∈ staleBackups stem keep entries) :
    stem <+: path := by
  have hmem := (List.mem_insertionSort _).mp (List.mem_of_mem_take h)
  exact List.isPrefixOf_iff_prefix.mp (List.mem_filter.mp hmem).2

/-- What a prune may ask of the host, which is no step. -/
def Aside (q : Query) : Prop := Quiet q ∧ ¬ Stages q

theorem asks_prune (layer : ConfigLayer) : Asks Aside (pruneTimestampedBackups (backupPrefix layer.configPath) backupsKept) := by
  unfold pruneTimestampedBackups
  split
  · trivial
  · next directory _ =>
    refine Asks.bind (asks_ask ⟨quiet_readDir directory, id⟩) fun r => ?_
    cases r with
    | error e => trivial
    | ok entries =>
      dsimp only
      split
      · trivial
      · refine Asks.bind (asks_ask ⟨quiet_execute ?_ (by decide) (by decide), ?_⟩) fun _ => trivial
        · intro a ha
          rcases List.mem_cons.mp ha with rfl | ha
          · exact option_not_managed rfl
          rcases List.mem_cons.mp ha with rfl | ha
          · exact option_not_managed rfl
          · exact backup_not_managed (mem_staleBackups ha)
        · exact fun h => h.elim (by decide) (by decide)

/-! ## Before the installation -/

theorem Aside.not_failedStep {e : Exchange} (h : Aside e.query) : ¬ FailedStep e :=
  fun hf => hf.1.elim h.2 h.1.notInstalled

theorem not_failedStep_of_success {e : Exchange} (h : ¬ Unsuccessful e) : ¬ FailedStep e := fun hf => h hf.2

theorem not_unsuccessful_execute {program : Chars} {args : List Chars} {output : CommandOutput}
    (h : output.success = true) : ¬ Unsuccessful ⟨.execute program args, .ok output⟩ := by
  intro hu
  have hfalse : output.success = false := hu
  rw [h] at hfalse
  cases hfalse

theorem not_unsuccessful_writeFile {path content : Chars} : ¬ Unsuccessful ⟨.writeFile path content, .ok ()⟩ := fun h => h rfl

variable {plan : Plan} {stamp : Chars} {es : List Exchange}

theorem asks_checkpoint {ctx : Context} {name : Chars} {paths : List Chars} :
    Asks Quiet (createCheckpointForApply ctx name paths) := asks_createCheckpointForApply ctx (quiet_checkpoint name paths)

/-- The apply goes on only with a checkpoint that was taken. -/
theorem clean_checkpoint {ctx : Context} {name : Chars} {paths : List Chars} {id : Option Chars}
    (hr : Run (createCheckpointForApply ctx name paths) es (.ok id)) : ∀ e ∈ es, ¬ FailedStep e := by
  unfold createCheckpointForApply at hr
  split at hr
  · obtain ⟨r, es', rfl, h⟩ := run_ask.mp hr
    cases r with
    | error e => cases (run_pure.mp h).2
    | ok id =>
      obtain ⟨rfl, -⟩ := run_pure.mp h
      exact List.forall_mem_singleton.mpr (not_failedStep_of_success fun h => h)
  · obtain ⟨rfl, -⟩ := run_pure.mp hr
    simp

theorem asks_createBackup : Asks Quiet (createBackup stamp plan) := by
  unfold createBackup
  split
  · refine Asks.bind (asks_ask (quiet_backup plan.layer stamp)) fun r => ?_
    cases r with
    | error e => trivial
    | ok output =>
      dsimp only
      split
      · exact Asks.bind ((asks_prune plan.layer).mono fun _ h => h.1) fun _ => trivial
      · trivial
  · trivial

/-- The apply goes on only with a backup that was made, or that is not needed. -/
theorem clean_createBackup {backup : List Change} (hr : Run (createBackup stamp plan) es (.ok backup)) :
    (∀ e ∈ es, ¬ FailedStep e) ∧ ∀ c ∈ backup, c = backupChange plan.configPath stamp := by
  unfold createBackup at hr
  split at hr
  · obtain ⟨r, es', rfl, h⟩ := run_execute.mp hr
    cases r with
    | error e => cases (run_pure.mp h).2
    | ok output =>
      dsimp only at h
      split at h
      · next hsuccess =>
        obtain ⟨es₁, u, es₂, rfl, hprune, hdone⟩ := run_bind.mp h
        obtain ⟨rfl, heq⟩ := run_pure.mp hdone
        cases heq
        have haside := (asks_prune plan.layer).of_run hprune
        constructor
        · simp only [List.append_nil, List.forall_mem_cons]
          exact ⟨not_failedStep_of_success (not_unsuccessful_execute hsuccess), fun e he => (haside e he).not_failedStep⟩
        · exact List.forall_mem_singleton.mpr rfl
      · cases (run_pure.mp h).2
  · obtain ⟨rfl, heq⟩ := run_pure.mp hr
    cases heq
    simp

/-- A command on the scratch copy alone. -/
theorem quiet_scratch (pid : Nat) {program : Chars} (options : List Chars)
    (hoptions : ∀ o ∈ options, o ∉ managedPaths)
    (hservice : program ≠ "systemctl".toList ∧ program ≠ "service".toList) (hmkdir : program ≠ "mkdir".toList) :
    Quiet (.execute program (options ++ [sshdValidateScratchPath pid])) := by
  refine quiet_execute (fun a ha => ?_) hservice hmkdir
  rcases List.mem_append.mp ha with ha | ha
  · exact hoptions a ha
  · exact (List.mem_singleton.mp ha) ▸ scratch_not_managed pid

theorem quiet_chmod (pid : Nat) : Quiet (.execute "chmod" ["600", sshdValidateScratchPath pid]) :=
  quiet_scratch pid ["600".toList] (by decide) (by decide) (by decide)

theorem quiet_sshd (pid : Nat) : Quiet (.execute "sshd" ["-t", "-f", sshdValidateScratchPath pid]) :=
  quiet_scratch pid ["-t".toList, "-f".toList] (by decide) (by decide) (by decide)

theorem quiet_rm (pid : Nat) : Quiet (.execute "rm" ["-f", sshdValidateScratchPath pid]) :=
  quiet_scratch pid ["-f".toList] (by decide) (by decide) (by decide)

theorem asks_validate (pid : Nat) (candidate : Chars) : Asks Quiet (validateSshdConfig pid candidate) := by
  refine Asks.bind (asks_ask (quiet_writeFile (scratch_not_managed pid) candidate)) fun r => ?_
  cases r with
  | error e => trivial
  | ok u =>
    refine Asks.bind (asks_ask (quiet_chmod pid)) fun _ => Asks.bind (asks_ask (quiet_sshd pid)) fun tested => ?_
    refine Asks.bind (asks_ask (quiet_rm pid)) fun _ => ?_
    cases tested with
    | error e => trivial
    | ok output => dsimp only; split <;> trivial

/-- The apply goes on only with a candidate that was staged and accepted. -/
theorem clean_validate {pid : Nat} {candidate : Chars} {u : Unit} (hr : Run (validateSshdConfig pid candidate) es (.ok u)) :
    ∀ e ∈ es, ¬ FailedStep e := by
  obtain ⟨r, es', rfl, hwritten⟩ := run_writeFile.mp hr
  cases r with
  | error e => cases (run_pure.mp hwritten).2
  | ok u =>
    obtain ⟨mode, es₁, rfl, hmoded⟩ := run_execute.mp hwritten
    obtain ⟨tested, es₂, rfl, htested⟩ := run_execute.mp hmoded
    obtain ⟨removed, es₃, rfl, h⟩ := run_execute.mp htested
    cases tested with
    | error e => cases (run_pure.mp h).2
    | ok output =>
      dsimp only at h
      split at h
      · next hsuccess =>
        obtain ⟨rfl, -⟩ := run_pure.mp h
        -- the copy's mode and its removal are no steps
        have hmode : Aside (.execute "chmod" ["600", sshdValidateScratchPath pid]) :=
          ⟨quiet_chmod pid, fun h => h.elim (by decide) (by decide)⟩
        have hremove : Aside (.execute "rm" ["-f", sshdValidateScratchPath pid]) :=
          ⟨quiet_rm pid, fun h => h.elim (by decide) (by decide)⟩
        simp only [List.forall_mem_cons]
        exact ⟨not_failedStep_of_success not_unsuccessful_writeFile, hmode.not_failedStep (e := ⟨_, mode⟩),
          not_failedStep_of_success (not_unsuccessful_execute hsuccess), hremove.not_failedStep (e := ⟨_, removed⟩), by simp⟩
      · cases (run_pure.mp h).2

/-! ## The installation -/

/-- A question that is no step before the installation. -/
def Unstaged (q : Query) : Prop := ¬ Stages q

theorem unstaged_execute {program : Chars} {args : List Chars} (h : program ≠ "cp".toList ∧ program ≠ "sshd".toList) :
    Unstaged (.execute program args) := fun hs => hs.elim h.1 h.2

theorem unstaged_writeFile (h : p ∈ managedPaths) (content : Chars) : Unstaged (.writeFile p content) := fun hs => hs h

theorem asks_installMain : Asks Unstaged (installMain plan) := by
  unfold installMain
  split
  · refine Asks.bind (asks_ask (unstaged_writeFile (configPath_managed plan.layer) _)) fun r => ?_
    cases r <;> trivial
  · trivial

theorem asks_removeDropin : Asks Unstaged removeDropin := by
  refine Asks.bind (asks_ask id) fun r => ?_
  split
  · trivial
  · refine Asks.bind (asks_ask (unstaged_execute (by decide))) fun r => ?_
    cases r with
    | error e => trivial
    | ok removed => dsimp only; split <;> trivial

theorem asks_writeDropin (directives : List Directive) : Asks Unstaged (writeDropin directives) := by
  unfold writeDropin
  split
  · exact asks_removeDropin
  · refine Asks.bind (asks_ensureDirectory id (unstaged_execute (by decide))) fun reason => ?_
    cases reason with
    | some reason => trivial
    | none =>
      refine Asks.bind (asks_ask (unstaged_writeFile dropinPath_managed _)) fun r => ?_
      cases r with
      | error e => trivial
      | ok u => exact Asks.bind (asks_ask (unstaged_execute (by decide))) fun _ => trivial

theorem asks_installDropin (reader : Reader) (currentDropin : Option Chars) :
    Asks Unstaged (installDropin reader plan currentDropin) := by
  unfold installDropin
  split
  · trivial
  · refine Asks.bind (asks_writeDropin plan.toDropin) fun r => ?_
    cases r <;> trivial

theorem asks_restartByService (units attempts : List Chars) : Asks Unstaged (restartByService attempts units) := by
  induction units generalizing attempts with
  | nil => trivial
  | cons unit units ih =>
    refine Asks.bind (asks_ask (unstaged_execute (by decide))) fun r => ?_
    split
    · trivial
    · exact ih _

theorem asks_restartPhase : Asks Unstaged restartPhase := by
  refine Asks.bind (Asks.bind (asks_ask (unstaged_execute (by decide))) fun r => ?_) fun r => ?_
  · split
    · trivial
    · exact asks_restartByService _ _
  · cases r <;> trivial

theorem asks_install (reader : Reader) (currentDropin : Option Chars) : Asks Unstaged (install reader plan currentDropin) :=
  Asks.bind asks_installMain fun _ => Asks.bind (asks_installDropin reader currentDropin) fun _ =>
    Asks.bind asks_restartPhase fun _ => trivial

/-- An installation asks for a restart, whatever was written. -/
theorem install_restarts {reader : Reader} {currentDropin : Option Chars} {changes : List Change}
    (hr : Run (install reader plan currentDropin) es changes) : ∃ e ∈ es, Restarts e.query := by
  obtain ⟨es₁, main, es', rfl, -, hmain⟩ := run_bind.mp hr
  obtain ⟨es₂, dropin, es'', rfl, -, hdropin⟩ := run_bind.mp hmain
  obtain ⟨es₃, restarted, es₄, rfl, hrestart, -⟩ := run_bind.mp hdropin
  obtain ⟨es₅, done, es₆, rfl, hsystemctl, -⟩ := run_bind.mp hrestart
  obtain ⟨r, es₇, rfl, -⟩ := run_execute.mp hsystemctl
  exact ⟨⟨.execute "systemctl" ["restart", "sshd"], r⟩, by simp, by decide, .inl rfl⟩

/-! ## How an apply ends -/

theorem checkpointChange_not_real {id : Option Chars} {c : Change} (h : c ∈ checkpointChange id) : c.isReal = false := by
  cases id with
  | none => cases h
  | some id =>
    obtain rfl := List.mem_singleton.mp h
    rfl

theorem asSkipped_not_real (c : Change) : (asSkipped c).isReal = false := rfl

/-- Three ends: an apply that gives up, one that finds nothing to do, and one that installs. -/
inductive Ends (plan : Plan) (stamp : Chars) : List Exchange → Except Chars ApplyResult → Prop
  | aborted {es : List Exchange} {result : Except Chars ApplyResult} (quiet : ∀ e ∈ es, Quiet e.query)
      (applied : NoneApplied plan stamp result) : Ends plan stamp es result
  | compliant {es : List Exchange} {result : Except Chars ApplyResult} (aside : ∀ e ∈ es, Aside e.query) :
      Ends plan stamp es result
  | installed {es₁ es₂ : List Exchange} {result : Except Chars ApplyResult} (clean : ∀ e ∈ es₁, ¬ FailedStep e)
      (unstaged : ∀ e ∈ es₂, Unstaged e.query) (restarted : ∃ e ∈ es₂, Restarts e.query) : Ends plan stamp (es₁ ++ es₂) result

theorem noneApplied_error (reason : Chars) : NoneApplied plan stamp (.error reason) := fun _ h => by cases h

variable {reader : Reader} {pid : Nat} {currentDropin checkpointId : Option Chars}

theorem Ends.of_commit {result : ApplyResult} (hr : Run (commit reader pid stamp plan currentDropin checkpointId) es result)
    {es₀ : List Exchange} (hquiet : ∀ e ∈ es₀, Quiet e.query) (hclean : ∀ e ∈ es₀, ¬ FailedStep e) :
    Ends plan stamp (es₀ ++ es) (.ok result) := by
  obtain ⟨es₁, backup, es', rfl, hbackup, hbacked⟩ := run_bind.mp hr
  have hquiet₁ := asks_createBackup.of_run hbackup
  cases backup with
  | error e =>
    obtain ⟨rfl, rfl⟩ := run_pure.mp hbacked
    refine .aborted ?_ fun r heq c hc hreal => ?_
    · simpa [or_imp, forall_and] using ⟨hquiet, hquiet₁⟩
    · cases heq
      rw [checkpointChange_not_real hc] at hreal
      cases hreal
  | ok backup =>
    obtain ⟨hclean₁, hmade⟩ := clean_createBackup hbackup
    obtain ⟨es₂, tested, es'', rfl, htest, htested⟩ := run_bind.mp hbacked
    have hquiet₂ := (asks_validate pid plan.candidate).of_run htest
    cases tested with
    | error e =>
      obtain ⟨rfl, rfl⟩ := run_pure.mp htested
      refine .aborted ?_ fun r heq c hc hreal hsuccess => ?_
      · simpa [or_imp, forall_and] using ⟨hquiet, hquiet₁, hquiet₂⟩
      · cases heq
        simp only [List.mem_append, List.mem_map, List.mem_singleton] at hc
        obtain (⟨hc | hc⟩ | ⟨planned, -, rfl⟩) | rfl := hc
        · rw [checkpointChange_not_real hc] at hreal
          cases hreal
        · exact hmade c hc
        · rw [asSkipped_not_real] at hreal
          cases hreal
        · cases hsuccess
    | ok u =>
      have hclean₂ := clean_validate htest
      obtain ⟨es₃, installed, es₄, rfl, hinstall, hdone⟩ := run_bind.mp htested
      obtain ⟨rfl, rfl⟩ := run_pure.mp hdone
      rw [List.append_nil, ← List.append_assoc, ← List.append_assoc]
      exact .installed (by simpa [or_imp, forall_and] using ⟨hclean, hclean₁, hclean₂⟩)
        ((asks_install reader currentDropin).of_run hinstall) (install_restarts hinstall)

theorem Ends.of_run {ctx : Context} {result : Except Chars ApplyResult} (hr : Run (apply reader ctx pid stamp plan) es result) :
    Ends plan stamp es result := by
  obtain ⟨es₁, u, es', rfl, hprune, hread⟩ := run_bind.mp hr
  obtain ⟨r, es₂, rfl, h⟩ := run_readFile.mp hread
  have hpruned := (asks_prune plan.layer).of_run hprune
  have haside : ∀ e ∈ es₁ ++ [⟨.readFile dropinPath, r⟩], Aside e.query := by
    intro e he
    rcases List.mem_append.mp he with he | he
    · exact hpruned e he
    · obtain rfl := List.mem_singleton.mp he
      exact ⟨quiet_readFile dropinPath, id⟩
  dsimp only at h
  split at h
  · obtain ⟨rfl, rfl⟩ := run_pure.mp h
    exact .compliant haside
  · obtain ⟨es₃, checkpoint, es₄, rfl, hcheckpoint, hrest⟩ := run_bind.mp h
    have hquiet := asks_checkpoint.of_run hcheckpoint
    have hsplit : es₁ ++ ⟨.readFile dropinPath, r⟩ :: (es₃ ++ es₄) = es₁ ++ [⟨.readFile dropinPath, r⟩] ++ es₃ ++ es₄ := by simp
    have hquiet' : ∀ e ∈ es₁ ++ [⟨.readFile dropinPath, r⟩] ++ es₃, Quiet e.query := by
      intro e he
      rcases List.mem_append.mp he with he | he
      · exact (haside e he).1
      · exact hquiet e he
    rw [hsplit]
    cases checkpoint with
    | error e =>
      obtain ⟨rfl, rfl⟩ := run_pure.mp hrest
      rw [List.append_nil]
      exact .aborted hquiet' (noneApplied_error e)
    | ok checkpointId =>
      obtain ⟨es₅, committed, es₆, rfl, hcommit, hdone⟩ := run_bind.mp hrest
      obtain ⟨rfl, rfl⟩ := run_pure.mp hdone
      rw [List.append_nil]
      refine Ends.of_commit hcommit hquiet' fun e he => ?_
      rcases List.mem_append.mp he with he | he
      · exact (haside e he).not_failedStep
      · exact clean_checkpoint hcheckpoint e he

/-! ## The all-or-nothing law -/

variable {σ : Type} (host : SshHost σ) (s : σ)

/-- Quiet questions leave a host's managed files as they are. -/
theorem file_after_of_quiet {es : List Exchange} (h : ∀ e ∈ es, Quiet e.query) {path : Chars} (hp : path ∈ managedPaths) :
    host.file (after host.react s es) path = host.file s path := by
  induction es generalizing s with
  | nil => rfl
  | cons e es ih =>
    obtain ⟨he, hes⟩ := List.forall_mem_cons.mp h
    calc host.file (after host.react s (e :: es)) path
        = host.file (host.react s e) path := ih (host.react s e) hes
      _ = host.file s path := host.frame s e path (he.untouched path hp)

/-- The failed steps of a run that installs are the installation's. -/
theorem installed_failedStep {es₁ es₂ : List Exchange} (hclean : ∀ e ∈ es₁, ¬ FailedStep e)
    (hunstaged : ∀ e ∈ es₂, Unstaged e.query) {e : Exchange} (he : e ∈ es₁ ++ es₂) (hfailed : FailedStep e) : Installs e.query := by
  rcases List.mem_append.mp he with he | he
  · exact absurd hfailed (hclean e he)
  · exact hfailed.1.resolve_left (hunstaged e he)

/-- A host that does whatever step of the installation it is asked for. -/
def Installable (reader : Reader) (ctx : Context) (pid : Nat) (stamp : Chars) (plan : Plan) : Prop :=
  ∀ e ∈ (applied host s reader ctx pid stamp plan).1, Installs e.query → ¬ Unsuccessful e

/-- An apply with a failing step changes nothing and reports nothing as applied, exactly where
no step of the installation fails. -/
theorem atomic_iff (reader : Reader) (ctx : Context) (pid : Nat) (stamp : Chars) (plan : Plan) :
    Atomic host s reader ctx pid stamp plan ↔ Installable host s reader ctx pid stamp plan := by
  unfold Atomic Installable
  have hends := Ends.of_run (run_play host.respond host.react (apply reader ctx pid stamp plan) s)
  change Ends plan stamp (applied host s reader ctx pid stamp plan).1 (applied host s reader ctx pid stamp plan).2 at hends
  generalize (applied host s reader ctx pid stamp plan).1 = es, (applied host s reader ctx pid stamp plan).2 = result at hends
  cases hends with
  | aborted quiet applied =>
    refine ⟨fun _ e he hi => absurd hi (quiet e he).notInstalled, fun _ _ => ?_⟩
    exact ⟨fun path hp => file_after_of_quiet host s quiet hp, fun e he => (quiet e he).notRestarted, applied⟩
  | compliant aside =>
    refine ⟨fun _ e he hi => absurd hi (aside e he).1.notInstalled, fun _ hfailed => ?_⟩
    obtain ⟨e, he, hfailed⟩ := hfailed
    exact absurd hfailed (aside e he).not_failedStep
  | installed clean unstaged restarted =>
    constructor
    · intro hatomic e he hi hu
      obtain ⟨e', he', hrestart⟩ := restarted
      exact (hatomic ⟨e, he, .inr hi, hu⟩).notRestarted e' (List.mem_append_right _ he') hrestart
    · intro hinstallable hfailed
      obtain ⟨e, he, hfailed⟩ := hfailed
      exact absurd hfailed.2 (hinstallable e he (installed_failedStep clean unstaged he hfailed))

/-! ## A main file that cannot be written -/

/-- Every question is answered, and every command succeeds; only the main file is read-only. -/
def readOnlyAnswer : (q : Query) → q.Answer
  | .execute _ _ => .ok ⟨[], [], 0⟩
  | .pathExists _ => .ok true
  | .metadata _ => .error "not asked"
  | .readFile _ => .error "No such file or directory"
  | .readDir _ => .ok []
  | .writeFile path _ => if path = sshdAdminConfigPath then .error "Read-only file system" else .ok ()
  | .checkpoint _ _ => .ok "1"

def readOnlyHost : SshHost Unit where
  respond _ := readOnlyAnswer
  react _ _ := ()
  file _ _ := none
  frame _ _ _ _ := rfl

theorem nodup_of_no_entries : ∀ (_ : FilePath) (names : List Chars), (Except.ok [] : Except String (List Chars)) = .ok names →
    names.Nodup := by
  intro _ names h
  cases h
  exact List.nodup_nil

def emptyReader : Reader where
  pathExists _ := .ok false
  readDir _ := .ok []
  readFile _ := .error "No such file or directory"
  nodup := nodup_of_no_entries

/-- One directive is to be written to the main file. -/
def rootLoginPlan : Plan where
  layer := .admin
  originalContent := "PermitRootLogin yes\n"
  configContent := "PermitRootLogin no\n"
  changes := [.made .configFile "PermitRootLogin: yes -> no"]
  toDropin := []

/-- The directive is reported as applied and the service is restarted, though the file was
not written. -/
theorem atomic_unwritable : ¬ Atomic readOnlyHost () emptyReader ⟨false, false⟩ 7 "20260101_000000" rootLoginPlan := by
  intro h
  -- behind the listing, the reading, the copy, its listing and the four questions of the test
  have hwrite : ⟨.writeFile sshdAdminConfigPath rootLoginPlan.configContent, .error "Read-only file system"⟩ ∈
      (applied readOnlyHost () emptyReader ⟨false, false⟩ 7 "20260101_000000" rootLoginPlan).1 :=
    List.mem_of_getElem? (i := 8) rfl
  have hundone := h ⟨_, hwrite, .inr (configPath_managed .admin), fun h => by cases h⟩
  have heq := hundone.noneApplied _ rfl (.made .configFile "PermitRootLogin: yes -> no") (.tail _ (.head _)) rfl rfl
  revert heq
  decide

end LinuxHardener.Ssh
